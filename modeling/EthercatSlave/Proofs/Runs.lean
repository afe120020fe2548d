import EthercatSlave.Proofs.Endings

/-! From evaluations to runs: a program that evaluates makes its steps one after
the other, whatever comes after it. -/

namespace EthercatSlave

variable {Op : Type} {Reply : Op → Type} {σ χ ι α β : Type}

namespace Program

theorem advance_bind {handle : Handler Op Reply σ} {program : Program Op Reply α} (running : program.returned = none)
    (next : α → Program Op Reply β) (state : σ) : (program.bind next).advance handle state =
      (program.advance handle state).map fun (event, rest, following) => (event, rest.bind next, following) := by
  cases program with
  | pure value => cases running
  | request op continuation => simp only [request_bind, advance, Option.map_map, Function.comp_def]
  | doWhile body again value continuation =>
    have pushed : ∀ last, (if again last then .doWhile body again last (fun last => (continuation last).bind next)
        else (continuation last).bind next : Program Op Reply β) =
        (if again last then .doWhile body again last continuation else continuation last :
          Program Op Reply α).bind next := by
      intro last
      split <;> rfl
    simp only [bind, advance]
    split
    next last returned => simp only [Option.map_some, pushed]
    next => simp only [Option.map_map, Function.comp_def, bind_assoc, pushed]

end Program

namespace Pool

variable {α : ι → Type} [DecidableEq ι] {handle : χ → Handler Op Reply σ}

theorem run_append {first second : List (ι × χ)} {pool middle final : Pool ι Op Reply σ α}
    (left : pool.run handle first = some middle) (right : middle.run handle second = some final) :
    pool.run handle (first ++ second) = some final := by
  induction first generalizing pool with
  | nil =>
    cases left
    exact right
  | cons turn first ih =>
    obtain ⟨next, stepped, rest⟩ := Option.bind_eq_some_iff.mp left
    exact Option.bind_eq_some_iff.mpr ⟨next, stepped, ih rest⟩

/-- What every request keeps of state and log, every run keeps. -/
theorem run_records {holds : World ι Op Reply σ → Prop}
    (each : ∀ thread choice op before reply after, holds before → handle choice op before.state = some (reply, after) →
      holds (before.record thread (some ⟨op, reply⟩) after))
    {schedule : List (ι × χ)} {pool final : Pool ι Op Reply σ α} (ran : pool.run handle schedule = some final)
    (starts : holds pool.world) : holds final.world := by
  have preserved : ∀ (pool : Pool ι Op Reply σ α) thread choice next, holds pool.world →
      pool.step handle thread choice = some next → holds next.world := by
    intro pool thread choice next kept stepped
    obtain ⟨event, rest, state, advanced, rfl⟩ := step_eq stepped
    rcases Program.advance_performed advanced with ⟨rfl, rfl⟩ | ⟨op, reply, rfl, performed⟩
    · exact kept
    · exact each thread choice op pool.world reply state kept performed
  exact run_induction preserved starts ran

theorem run_keeps {holds : σ → Prop} (each : ∀ choice op before reply after,
      handle choice op before = some (reply, after) →
    holds before → holds after) {schedule : List (ι × χ)} {pool final : Pool ι Op Reply σ α}
    (ran : pool.run handle schedule = some final) (starts : holds pool.world.state) : holds final.world.state :=
  run_records (fun _ choice op before reply after kept performed =>
    each choice op before.state reply after performed kept)
    ran starts

end Pool

def Pool.alone (program : Program Op Reply α) (world : World Unit Op Reply σ) : Pool Unit Op Reply σ fun _ => α :=
  ⟨fun _ => program, world⟩

/-- So many steps of it, with the same decision of the environment in each. -/
def Pool.Reaches (handle : χ → Handler Op Reply σ) (choice : χ) (count : Nat) (program : Program Op Reply α) (state : σ)
    (rest : Program Op Reply α) (following : σ) : Prop :=
  ∀ log, ∃ log', (Pool.alone program ⟨state, log⟩).run handle (List.replicate count ((), choice)) =
    some (Pool.alone rest ⟨following, log'⟩)

namespace Pool.Reaches

variable {handle : χ → Handler Op Reply σ} {choice : χ} {program rest last : Program Op Reply α}
    {state following final : σ} {count more : Nat}

theorem refl : Reaches handle choice 0 program state program state := fun log => ⟨log, rfl⟩

theorem trans (left : Reaches handle choice count program state rest following)
    (right : Reaches handle choice more rest following last final) :
    Reaches handle choice (count + more) program state last final := by
  intro log
  obtain ⟨_, first⟩ := left log
  obtain ⟨log', second⟩ := right _
  refine ⟨log', ?_⟩
  rw [← List.replicate_append_replicate]
  exact run_append first second

theorem step {event : Option ((op : Op) × Reply op)}
    (stepped : program.advance (handle choice) state = some (event, rest, following)) :
    Reaches handle choice 1 program state rest following := by
  intro log
  refine ⟨((World.mk state log).record () event following).log, ?_⟩
  have recorded : (World.mk state log).record () event following =
      ⟨following, ((World.mk state log).record () event following).log⟩ := by
    cases event <;> rfl
  have moved : (alone program ⟨state, log⟩).step handle () choice =
      some (alone rest ((World.mk state log).record () event following)) := by
    have advanced : ((alone program ⟨state, log⟩).threads ()).advance (handle choice) state =
        some (event, rest, following) := stepped
    simp only [Pool.step]
    rw [show (alone program ⟨state, log⟩).world.state = state from rfl, advanced]
    simp only [Option.map_some, alone, Option.some.injEq, Pool.mk.injEq, and_true]
    funext thread
    exact Function.update_self ..
  rw [← recorded]
  simp only [List.replicate_one, Pool.run, moved]
  rfl

end Pool.Reaches

section Together

variable {α : ι → Type} [DecidableEq ι] {handle : χ → Handler Op Reply σ} {choice : χ} {thread : ι} {count : Nat}
  {program rest : Program Op Reply (α thread)} {state following : σ}

theorem Pool.run_alone {world after : World Unit Op Reply σ}
    (ran : (Pool.alone program world).run handle (List.replicate count ((), choice)) = some (Pool.alone rest after))
    {pool : Pool ι Op Reply σ α} (here : pool.threads thread = program) (same : pool.world.state = world.state) :
    ∃ log, pool.run handle (List.replicate count (thread, choice)) =
      some ⟨Function.update pool.threads thread rest, ⟨after.state, log⟩⟩ := by
  induction count generalizing program world pool with
  | zero =>
    obtain ⟨threads, worlds⟩ := Pool.mk.inj (Option.some.inj ran)
    have ended : program = rest := congrFun threads ()
    refine ⟨pool.world.log, ?_⟩
    rw [← ended, ← here, Function.update_eq_self, ← worlds, ← same]
    rfl
  | succ count ih =>
    rw [List.replicate_succ] at ran ⊢
    obtain ⟨next, stepped, ran⟩ := Option.bind_eq_some_iff.mp ran
    obtain ⟨event, middle, state, advanced, moved⟩ := Pool.step_eq stepped
    have single : next = Pool.alone middle (world.record () event state) := by
      rw [moved, Pool.alone, Pool.mk.injEq]
      exact ⟨funext fun _ => Function.update_self .., rfl⟩
    subst single
    have advanced : (pool.threads thread).advance (handle choice) pool.world.state = some (event, middle, state) := by
      rw [here, same]
      exact advanced
    have recorded : (pool.world.record thread event state).state = (world.record () event state).state := by
      cases event <;> rfl
    let next : Pool ι Op Reply σ α :=
      ⟨Function.update pool.threads thread middle, pool.world.record thread event state⟩
    have stepped : pool.step handle thread choice = some next := by
      rw [Pool.step, advanced]
      rfl
    have here : next.threads thread = middle := Function.update_self ..
    obtain ⟨log, ran⟩ := ih ran here recorded
    refine ⟨log, Option.bind_eq_some_iff.mpr ⟨next, stepped, ?_⟩⟩
    rw [ran, Function.update_idem]

theorem Pool.Reaches.together (reached : Pool.Reaches handle choice count program state rest following)
    {pool : Pool ι Op Reply σ α} (here : pool.threads thread = program) (same : pool.world.state = state) :
    ∃ log, pool.run handle (List.replicate count (thread, choice)) =
      some ⟨Function.update pool.threads thread rest, ⟨following, log⟩⟩ := by
  obtain ⟨_, ran⟩ := reached []
  exact Pool.run_alone ran here same

end Together

def Program.onward (body : β → Program Op Reply β) (again : β → Bool) (next : β → Program Op Reply α) (last : β) :
    Program Op Reply α :=
  if again last then .doWhile body again last next else next last

namespace Pool.Reaches

variable {handle : χ → Handler Op Reply σ} {choice : χ} {state following : σ} {count : Nat}
    {body : β → Program Op Reply β}
  {again : β → Bool} {first last : β} {next : β → Program Op Reply α} {rest : Program Op Reply α}

/-- A round of a loop, from a run of its body in front of what follows it. -/
theorem round (reached : Reaches handle choice count
      ((body first).bind (Program.onward body again next)) state rest following)
    (positive : (body first).returned = none → 0 < count) :
    ∃ count, Reaches handle choice count (.doWhile body again first next) state rest following ∧ 0 < count := by
  cases returned : (body first).returned with
  | some last =>
    have same : body first = .pure last := Program.returned_iff.mp returned
    have stepped : Program.advance (handle choice) (.doWhile body again first next) state =
        some (none, Program.onward body again next last, state) := by
      simp only [Program.advance, returned]
      rfl
    rw [same] at reached
    exact ⟨1 + count, .trans (.step stepped) reached, by omega⟩
  | none =>
    have alike : Program.advance (handle choice) (.doWhile body again first next) state =
        ((body first).bind (Program.onward body again next)).advance (handle choice) state := by
      rw [Program.advance_bind returned]
      simp only [Program.advance, returned]
      rfl
    obtain ⟨more, rfl⟩ := Nat.exists_eq_add_of_le' (positive returned)
    refine ⟨more + 1, fun log => ?_, positive returned⟩
    obtain ⟨log', ran⟩ := reached log
    refine ⟨log', ?_⟩
    rw [List.replicate_succ] at ran ⊢
    obtain ⟨middle, stepped, ran⟩ := Option.bind_eq_some_iff.mp ran
    refine Option.bind_eq_some_iff.mpr ⟨middle, ?_, ran⟩
    rw [← stepped]
    simp only [Pool.step, alone, alike]
    congr 1

end Pool.Reaches

/-- An evaluation is a run, whatever comes after it. -/
theorem Eval.reaches {handle : χ → Handler Op Reply σ} {choice : χ} {program : Program Op Reply α}
    {before after : σ} {value : α}
    (ran : Eval (handle choice) program before value after) (next : α → Program Op Reply β) :
    ∃ count, Pool.Reaches handle choice count (program.bind next) before (next value) after ∧
      (program.returned = none → 0 < count) := by
  induction ran generalizing β with
  | pure => exact ⟨0, .refl, (nomatch ·)⟩
  | @request _ op rest before middle after reply value answered _ ih =>
    obtain ⟨count, reached, _⟩ := ih next
    have stepped : ((Program.request op rest).bind next).advance (handle choice) before =
        some (some ⟨op, reply⟩, (rest reply).bind next, middle) := by
      simp only [Program.request_bind, Program.advance, answered, Option.map_some]
    exact ⟨1 + count, .trans (.step stepped) reached, fun _ => by omega⟩
  | @again _ _ body again rest _ _ _ first last _ _ more _ bodyIh restIh =>
    obtain ⟨count, reached, positive⟩ := bodyIh (Program.onward body again fun last => (rest last).bind next)
    obtain ⟨count', reached', _⟩ := restIh next
    rw [Program.onward, if_pos more] at reached
    obtain ⟨total, rounds, positive⟩ := Pool.Reaches.round (reached.trans reached') fun running =>
      Nat.add_pos_left (positive running) count'
    exact ⟨total, rounds, fun _ => positive⟩
  | @leave _ _ body again rest _ _ _ first last _ _ done _ bodyIh restIh =>
    obtain ⟨count, reached, positive⟩ := bodyIh (Program.onward body again fun last => (rest last).bind next)
    obtain ⟨count', reached', _⟩ := restIh next
    rw [Program.onward, if_neg (by simp [done])] at reached
    obtain ⟨total, rounds, positive⟩ := Pool.Reaches.round (reached.trans reached') fun running =>
      Nat.add_pos_left (positive running) count'
    exact ⟨total, rounds, fun _ => positive⟩

end EthercatSlave
