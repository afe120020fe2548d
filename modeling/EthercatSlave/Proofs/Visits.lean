import EthercatSlave.Proofs.Endings

/-! Visits. A visitor enters with a key, leaves once with the same key and
returns. So what is left behind counts the visitors that have returned, whatever
else the threads of a pool do. -/

namespace EthercatSlave

variable {Op : Type} {Reply : Op → Type} {σ χ ι κ α : Type}

theorem countP_le_of_threads [DecidableEq ι] {first second : Event ι Op Reply σ → Bool}
    {log : List (Event ι Op Reply σ)} (each : ∀ thread, (log.filter fun event => event.thread = thread).countP first ≤
      (log.filter fun event => event.thread = thread).countP second) : log.countP first ≤ log.countP second := by
  induction length : log.length using Nat.strongRecOn generalizing log with
  | ind count ih =>
    cases log with
    | nil => exact Nat.le_refl 0
    | cons event rest =>
      subst length
      have own := each event.thread
      have others := ih ((event :: rest).filter fun other => !decide (other.thread = event.thread)).length
        (by simpa using Nat.lt_succ_of_le (List.length_filter_le ..)) (fun thread => by
          rw [List.filter_filter]
          by_cases same : thread = event.thread
          · have nobody : ((event :: rest).filter fun other => decide (other.thread = thread) &&
                !decide (other.thread = event.thread)) = [] := List.filter_eq_nil_iff.mpr fun _ _ => by simp [same]
            rw [nobody]
            exact Nat.le_refl 0
          · have apart : ∀ other ∈ event :: rest, (decide (other.thread = thread) &&
                !decide (other.thread = event.thread)) = decide (other.thread = thread) := by
              intro other _
              by_cases here : other.thread = thread
              · simp [here, same]
              · simp [here]
            rw [List.filter_congr apart]
            exact each thread) rfl
      rw [List.countP_eq_countP_filter_add (event :: rest) first fun other => decide (other.thread = event.thread),
        List.countP_eq_countP_filter_add (event :: rest) second fun other => decide (other.thread = event.thread)]
      exact Nat.add_le_add own others

/-- How a log shows that a thread enters and leaves. -/
structure Visit (ι Op : Type) (Reply : Op → Type) (σ κ : Type) where
  enters : Event ι Op Reply σ → Option κ
  leaves : Event ι Op Reply σ → Option κ

namespace Visit

variable (visit : Visit ι Op Reply σ κ)

/-- The same visits where more is requested than they are about. -/
def among {Op' : Type} {Reply' : Op' → Type} {σ' : Type} (inner : Event ι Op' Reply' σ' → Option (Event ι Op Reply σ)) :
    Visit ι Op' Reply' σ' κ where
  enters event := (inner event).bind visit.enters
  leaves event := (inner event).bind visit.leaves

def Silent (op : Op) : Prop :=
  ∀ thread reply state, visit.enters ⟨thread, op, reply, state⟩ = none ∧ visit.leaves ⟨thread, op, reply, state⟩ = none

def Leaving (key : κ) (program : Program Op Reply α) : Prop :=
  ∃ op next, program = .request op next ∧ ∀ reply, (next reply).returned.isSome = true ∧ ∀ thread state,
    visit.enters ⟨thread, op, reply, state⟩ = none ∧ visit.leaves ⟨thread, op, reply, state⟩ = some key

def Entering (program : Program Op Reply α) : Prop :=
  ∃ op next, program = .request op next ∧ ∀ reply, ∃ key, visit.Leaving key (next reply) ∧ ∀ thread state,
    visit.enters ⟨thread, op, reply, state⟩ = some key ∧ visit.leaves ⟨thread, op, reply, state⟩ = none

variable {visit}

theorem entering_among {Op' : Type} {Reply' : Op' → Type} {σ' : Type}
    {inner : Event ι Op' Reply' σ' → Option (Event ι Op Reply σ)} {into : Op → Op'}
    {answer : (op : Op) → Reply' (into op) → Reply op} {view : σ' → σ} {program : Program Op Reply α}
    (entering : visit.Entering program) (seen : ∀ thread op reply state,
      inner ⟨thread, into op, reply, state⟩ = some ⟨thread, op, answer op reply, view state⟩) :
    (visit.among inner).Entering (program.embed into answer) := by
  obtain ⟨op, next, rfl, visits⟩ := entering
  refine ⟨into op, _, rfl, fun reply => ?_⟩
  obtain ⟨key, ⟨op', next', rest, leaves⟩, shown⟩ := visits (answer op reply)
  refine ⟨key, ⟨into op', fun reply' => (next' (answer op' reply')).embed into answer, ?_, fun reply' => ⟨?_, ?_⟩⟩, ?_⟩
  · rw [rest]
    rfl
  · obtain ⟨value, returned⟩ := Option.isSome_iff_exists.mp (leaves (answer op' reply')).1
    dsimp only
    rw [Program.returned_iff.mp returned]
    rfl
  · intro thread state
    simp only [Visit.among, seen, Option.bind_some]
    exact (leaves (answer op' reply')).2 thread (view state)
  · intro thread state
    simp only [Visit.among, seen, Option.bind_some]
    exact shown thread (view state)

variable (visit) in
/-- Where a thread stands, by what is left of its program and its own events. -/
inductive Stage : {α : Type} → Program Op Reply α → List (Event ι Op Reply σ) → Prop where
  | outside {α : Type} {program : Program Op Reply α} {own : List (Event ι Op Reply σ)} : program.Uses visit.Silent →
      (∀ event ∈ own, visit.enters event = none ∧ visit.leaves event = none) → Stage program own
  | before {α : Type} {program : Program Op Reply α} : visit.Entering program → Stage program []
  | inside {α : Type} {program : Program Op Reply α} {key : κ} {first : Event ι Op Reply σ} :
      visit.Leaving key program → visit.enters first = some key → visit.leaves first = none → Stage program [first]
  | after {α : Type} {program : Program Op Reply α} {key : κ} {first last : Event ι Op Reply σ} :
      program.returned.isSome = true → visit.enters first = some key → visit.leaves first = none →
      visit.enters last = none → visit.leaves last = some key → Stage program [first, last]

theorem Stage.step {handle : Handler Op Reply σ} {program rest : Program Op Reply α} {own : List (Event ι Op Reply σ)}
    {event : Option ((op : Op) × Reply op)} {state following : σ} (stage : visit.Stage program own)
    (stepped : program.advance handle state = some (event, rest, following)) (thread : ι) :
    visit.Stage rest (own ++ (event.map fun made => ⟨thread, made.1, made.2, following⟩).toList) := by
  cases stage with
  | outside silent unseen =>
    obtain ⟨made, silent'⟩ := silent.advance stepped
    refine .outside silent' fun other member => ?_
    rcases List.mem_append.mp member with earlier | now
    · exact unseen other earlier
    · obtain ⟨⟨op, reply⟩, happened, rfl⟩ := Option.map_eq_some_iff.mp (Option.mem_toList.mp now)
      exact made op reply happened thread reply following
  | before entering =>
    obtain ⟨op, next, rfl, visits⟩ := entering
    obtain ⟨⟨reply, _⟩, _, same⟩ := Option.map_eq_some_iff.mp stepped
    cases same
    obtain ⟨key, leaving, shown⟩ := visits reply
    exact .inside leaving (shown thread following).1 (shown thread following).2
  | inside leaving enters silent =>
    obtain ⟨op, next, rfl, leaves⟩ := leaving
    obtain ⟨⟨reply, _⟩, _, same⟩ := Option.map_eq_some_iff.mp stepped
    cases same
    obtain ⟨returned, shown⟩ := leaves reply
    exact .after returned enters silent (shown thread following).1 (shown thread following).2
  | after returned =>
    obtain ⟨value, same⟩ := Option.isSome_iff_exists.mp returned
    rw [Program.returned_iff.mp same] at stepped
    cases stepped

end Visit

namespace Pool

variable {visit : Visit ι Op Reply σ κ} {β : ι → Type} [DecidableEq ι] {pool : Pool ι Op Reply σ β}

/-- Every thread of the pool is a visitor, or has nothing to do with visits. -/
def Staged (visit : Visit ι Op Reply σ κ) (pool : Pool ι Op Reply σ β) : Prop :=
  ∀ thread, visit.Stage (pool.threads thread) (pool.world.log.filter fun event => event.thread = thread)

theorem step_staged {handle : χ → Handler Op Reply σ} {thread : ι} {choice : χ} {next : Pool ι Op Reply σ β}
    (staged : pool.Staged visit) (stepped : pool.step handle thread choice = some next) : next.Staged visit := by
  obtain ⟨event, rest, state, advanced, rfl⟩ := step_eq stepped
  have grown : (pool.world.record thread event state).log =
      pool.world.log ++ (event.map fun made => ⟨thread, made.1, made.2, state⟩).toList := by
    cases event with
    | none => exact (List.append_nil _).symm
    | some made => rfl
  intro other
  change visit.Stage (Function.update pool.threads thread rest other)
    ((pool.world.record thread event state).log.filter fun event => event.thread = other)
  rw [grown, List.filter_append]
  by_cases own : other = thread
  · subst own
    have kept : ((event.map fun made => (⟨other, made.1, made.2, state⟩ : Event ι Op Reply σ)).toList.filter
        fun event => event.thread = other) = (event.map fun made => ⟨other, made.1, made.2, state⟩).toList := by
      cases event <;> simp
    rw [kept, Function.update_self]
    exact (staged other).step advanced other
  · have dropped : ((event.map fun made => (⟨thread, made.1, made.2, state⟩ : Event ι Op Reply σ)).toList.filter
        fun event => event.thread = other) = [] := by
      cases event <;> simp [Ne.symm own]
    rw [dropped, List.append_nil, Function.update_of_ne own]
    exact staged other

theorem run_staged {handle : χ → Handler Op Reply σ} {schedule : List (ι × χ)} {final : Pool ι Op Reply σ β}
    (staged : pool.Staged visit) (ran : pool.run handle schedule = some final) : final.Staged visit :=
  run_induction (fun _ _ _ _ => step_staged) staged ran

variable [DecidableEq κ]

/-- The visits with `key` that have left within what is asked for are those of
the visitors that have returned within it, where it is left for good. -/
theorem Staged.left_within (staged : pool.Staged visit) {within : Event ι Op Reply σ → Bool}
    (ordered : pool.world.log.Pairwise fun first last => within last = true → within first = true) (key : κ) :
    pool.world.log.countP (fun event => decide (visit.leaves event = some key) && within event) =
      pool.completedWithin within visit.enters key := by
  have each : ∀ thread, (pool.world.log.filter fun event => event.thread = thread).countP
        (fun event => decide (visit.leaves event = some key) && within event) =
      (pool.world.log.filter fun event => event.thread = thread).countP fun event =>
        decide (visit.enters event = some key) && (pool.threads event.thread).returned.isSome &&
          (pool.world.log.filter fun other => other.thread = event.thread).all within := by
    intro thread
    have stage := staged thread
    have sorted := ordered.filter fun event => decide (event.thread = thread)
    have named : ∀ event ∈ pool.world.log.filter fun event => event.thread = thread, event.thread = thread := by
      intro event member
      simpa using (List.mem_filter.mp member).2
    generalize split : (pool.world.log.filter fun event => event.thread = thread) = own at *
    generalize rest : pool.threads thread = program at *
    cases stage with
    | outside _ unseen =>
      rw [List.countP_eq_zero.mpr fun event member => by simp [(unseen event member).2],
        List.countP_eq_zero.mpr fun event member => by simp [(unseen event member).1]]
    | before => rfl
    | @inside _ first leaving enters silent =>
      obtain ⟨op, next, rfl, _⟩ := leaving
      have here := named first (by simp)
      subst here
      simp [silent, rest, Program.returned]
    | @after key' first last returned enters silent enters' leaves =>
      have here := named first (by simp)
      subst here
      have closing := named last (by simp)
      have goes : within last = true → within first = true := by simpa using sorted
      have whole : (pool.world.log.filter fun other => other.thread = first.thread).all within = within last := by
        rw [split]
        cases later : within last with
        | false => simp [later]
        | true => simp [later, goes later]
      simp only [List.countP_cons, List.countP_nil, silent, enters, enters', leaves, whole, rest, returned]
      simp
  exact Nat.le_antisymm (countP_le_of_threads fun thread => Nat.le_of_eq (each thread))
    (countP_le_of_threads fun thread => Nat.le_of_eq (each thread).symm)

theorem Staged.left (staged : pool.Staged visit) (key : κ) :
    pool.world.log.countP (fun event => decide (visit.leaves event = some key)) = pool.completed visit.enters key := by
  have all := @Staged.left_within _ _ _ _ _ visit _ _ pool _ staged (fun _ => true)
    (List.pairwise_of_forall fun _ _ _ => rfl) key
  have always : ∀ own : List (Event ι Op Reply σ), own.all (fun _ => true) = true :=
    fun own => List.all_eq_true.mpr fun _ _ => rfl
  simpa only [completedWithin, completed, always, Bool.and_true] using all

end Pool
end EthercatSlave
