import EthercatSlave.Interleaving

/-! Programs that do not look at the reply to some of their requests: whatever the
reply, what remains to be run is one and the same program. Two runs that differ
only in such replies stay in step, under every schedule. -/

namespace EthercatSlave

variable {Op Op' : Type} {Reply : Op → Type} {Reply' : Op' → Type} {σ χ ι α β : Type}

namespace Program

/-- The reply to a `blind` request never matters. -/
def Ignores (blind : Op → Prop) : {α : Type} → Program Op Reply α → Prop
  | _, .pure _ => True
  | _, .request op next => (blind op → ∀ reply other, next reply = next other) ∧ ∀ reply, (next reply).Ignores blind
  | _, .doWhile body _ _ next => (∀ value, (body value).Ignores blind) ∧ ∀ last, (next last).Ignores blind

variable {blind : Op → Prop}

theorem Ignores.bind {program : Program Op Reply α} {next : α → Program Op Reply β} (first : program.Ignores blind)
    (rest : ∀ value, (next value).Ignores blind) : (program.bind next).Ignores blind := by
  induction program with
  | pure value => exact rest value
  | request op tail ih =>
    exact ⟨fun hidden reply other => congrArg (·.bind next) (first.1 hidden reply other), fun reply =>
      ih reply (first.2 reply) rest⟩
  | doWhile body again value tail _ ih => exact ⟨first.1, fun last => ih last (first.2 last) rest⟩

theorem Ignores.forUp {body : Nat → β → Program Op Reply β} (count first : Nat) (value : β)
    (each : ∀ index value, (body index value).Ignores blind) : (forUp body count first value).Ignores blind := by
  induction count generalizing first value with
  | zero => trivial
  | succ count ih => exact Ignores.bind (each first value) fun next => ih (first + 1) next

theorem Ignores.seen {op : Op} {next : Reply op → Program Op Reply α} (known : ¬ blind op)
    (rest : ∀ reply, (next reply).Ignores blind) : (Program.request op next).Ignores blind :=
  ⟨fun is_blind => absurd is_blind known, rest⟩

theorem Ignores.of_uses {program : Program Op Reply α} (uses : program.Uses fun op => ¬ blind op) :
    program.Ignores blind := by
  induction program with
  | pure value => trivial
  | request op next ih => exact ⟨fun hidden => absurd hidden uses.1, fun reply => ih reply (uses.2 reply)⟩
  | doWhile body again value next bodyIh ih =>
      exact ⟨fun value => bodyIh value (uses.1 value), fun last => ih last (uses.2 last)⟩

theorem Ignores.embed {into : Op → Op'} {answer : (op : Op) → Reply' (into op) → Reply op} {blind' : Op' → Prop}
    (within : ∀ op, blind' (into op) → blind op) {program : Program Op Reply α} (ignores : program.Ignores blind) :
    (program.embed into answer).Ignores blind' := by
  induction program with
  | pure value => trivial
  | request op next ih =>
    exact ⟨fun hidden reply other => congrArg (Program.embed into answer) (ignores.1 (within op hidden) _ _),
      fun reply => ih _ (ignores.2 _)⟩
  | doWhile body again value next bodyIh ih =>
      exact ⟨fun value => bodyIh value (ignores.1 value), fun last => ih last (ignores.2 last)⟩

variable {related : σ → σ → Prop}

/-- Two answers after which nothing but a blind reply and the related states differ. -/
def Answers (related : σ → σ → Prop) (blind : Prop) {ρ : Type} (first second : ρ × σ) : Prop :=
  (¬ blind → first.1 = second.1) ∧ related first.2 second.2

def Advanced (blind : Op → Prop) (related : σ → σ → Prop)
    (first second : Option ((op : Op) × Reply op) × Program Op Reply α × σ) : Prop :=
  first.2.1 = second.2.1 ∧ first.2.1.Ignores blind ∧ related first.2.2 second.2.2

theorem Ignores.advance {handle : Handler Op Reply σ} {state other : σ} (apart : related state other)
    (alike : ∀ op, Option.Rel (Answers related (blind op)) (handle op state) (handle op other))
    {program : Program Op Reply α} (ignores : program.Ignores blind) :
    Option.Rel (Advanced blind related) (program.advance handle state) (program.advance handle other) := by
  induction program with
  | pure value => exact .none
  | request op next _ =>
    have answers := alike op
    simp only [Program.advance]
    generalize handle op state = first at answers
    generalize handle op other = second at answers
    cases answers with
    | none => exact .none
    | some agree =>
      refine .some ⟨?_, ignores.2 _, agree.2⟩
      by_cases hidden : blind op
      · exact ignores.1 hidden _ _
      · exact congrArg next (agree.1 hidden)
  | doWhile body again value next bodyIh _ =>
    have onward : ∀ last, (if again last then .doWhile body again last next else next last :
        Program Op Reply _).Ignores blind := by
      intro last
      split
      · exact ⟨ignores.1, ignores.2⟩
      · exact ignores.2 last
    simp only [Program.advance]
    split
    next last _ => exact .some ⟨rfl, onward last, apart⟩
    next =>
      have stepped := bodyIh value (ignores.1 value)
      generalize (body value).advance handle state = first at stepped
      generalize (body value).advance handle other = second at stepped
      cases stepped with
      | none => exact .none
      | @some first second moved =>
        obtain ⟨event, rest, following⟩ := first
        obtain ⟨event', rest', following'⟩ := second
        obtain ⟨same, kept, left⟩ := moved
        cases same
        exact .some ⟨rfl, Ignores.bind kept onward, left⟩

end Program

namespace Pool

variable {α : ι → Type} [DecidableEq ι] {handle : χ → Handler Op Reply σ} {blind : Op → Prop} {related : σ → σ → Prop}

/-- The threads have the same programs left, and none of them looks at a blind reply. -/
structure InStep (blind : Op → Prop) (related : σ → σ → Prop) (first second : Pool ι Op Reply σ α) : Prop where
  threads : first.threads = second.threads
  states : related first.world.state second.world.state
  ignores : ∀ thread, (first.threads thread).Ignores blind

theorem InStep.step (alike : ∀ choice op state other, related state other →
      Option.Rel (Program.Answers related (blind op)) (handle choice op state) (handle choice op other))
    {first second : Pool ι Op Reply σ α} (steps : InStep blind related first second) (thread : ι) (choice : χ) :
    Option.Rel (InStep blind related) (first.step handle thread choice) (second.step handle thread choice) := by
  have advanced := (steps.ignores thread).advance steps.states fun op => alike choice op _ _ steps.states
  simp only [Pool.step, ← steps.threads]
  generalize (first.threads thread).advance (handle choice) first.world.state = turn at advanced
  generalize (first.threads thread).advance (handle choice) second.world.state = turn' at advanced
  cases advanced with
  | none => exact .none
  | @some turn turn' moved =>
    obtain ⟨event, rest, following⟩ := turn
    obtain ⟨event', rest', following'⟩ := turn'
    obtain ⟨same, kept, left⟩ := moved
    cases same
    refine .some ⟨rfl, ?_, fun other => ?_⟩
    · cases event <;> cases event' <;> exact left
    · by_cases here : other = thread
      · subst here
        simpa only [Function.update_self] using kept
      · simpa only [Function.update_of_ne here] using steps.ignores other

/-- Runs that differ in blind replies only exist together and stay in step. -/
theorem InStep.run (alike : ∀ choice op state other, related state other →
      Option.Rel (Program.Answers related (blind op)) (handle choice op state) (handle choice op other))
    {first second : Pool ι Op Reply σ α} (steps : InStep blind related first second) (schedule : List (ι × χ)) :
    Option.Rel (InStep blind related) (first.run handle schedule) (second.run handle schedule) := by
  induction schedule generalizing first second with
  | nil => exact .some steps
  | cons turn schedule ih =>
    have stepped := steps.step alike turn.1 turn.2
    simp only [Pool.run]
    generalize first.step handle turn.1 turn.2 = next at stepped
    generalize second.step handle turn.1 turn.2 = next' at stepped
    cases stepped with
    | none => exact .none
    | some moved => exact ih moved

end Pool
end EthercatSlave
