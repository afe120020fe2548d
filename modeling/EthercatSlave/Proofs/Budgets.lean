import EthercatSlave.Proofs.Endings

/-! How often a program makes requests of a kind, whatever it is answered: its
loops make none, so a bound read off its syntax holds along every schedule. -/

namespace EthercatSlave

variable {Op : Type} {Reply : Op → Type} {σ χ ι α β : Type}

namespace Program

/-- At most so many counted requests on any path; none inside a loop. -/
def Within (counted : Op → Bool) : {α : Type} → Program Op Reply α → Nat → Prop
  | _, .pure _, _ => True
  | _, .request op next, budget =>
      ∃ rest, (if counted op then budget = rest + 1 else budget = rest) ∧ ∀ reply, (next reply).Within counted rest
  | _, .doWhile body _ _ next, budget =>
      (∀ value, (body value).Uses fun op => counted op = false) ∧ ∀ last, (next last).Within counted budget

variable {counted : Op → Bool}

theorem Within.mono {program : Program Op Reply α} {budget more : Nat} (within : program.Within counted budget)
    (enough : budget ≤ more) : program.Within counted more := by
  induction program generalizing budget more with
  | pure value => trivial
  | request op next ih =>
    obtain ⟨rest, spent, each⟩ := within
    split at spent
    next counts =>
      exact ⟨more - 1, by rw [if_pos counts]; omega, fun reply => ih reply (each reply) (by omega)⟩
    next other =>
      exact ⟨more, by rw [if_neg other], fun reply => ih reply (each reply) (by omega)⟩
  | doWhile body again value next _ ih => exact ⟨within.1, fun last => ih last (within.2 last) enough⟩

theorem Within.of_uses {program : Program Op Reply α} (uses : program.Uses fun op => counted op = false) :
    program.Within counted 0 := by
  induction program with
  | pure value => trivial
  | request op next ih => exact ⟨0, by rw [if_neg (by simp [uses.1])], fun reply => ih reply (uses.2 reply)⟩
  | doWhile body again value next _ ih => exact ⟨uses.1, fun last => ih last (uses.2 last)⟩

theorem Within.bind {program : Program Op Reply α} {next : α → Program Op Reply β} {first second : Nat}
    (within : program.Within counted first) (rest : ∀ value, (next value).Within counted second) :
    (program.bind next).Within counted (first + second) := by
  induction program generalizing first with
  | pure value => exact (rest value).mono (Nat.le_add_left _ _)
  | request op tail ih =>
    obtain ⟨left, spent, each⟩ := within
    refine ⟨left + second, ?_, fun reply => ih reply (each reply) rest⟩
    split at spent
    next counts =>
      rw [if_pos counts]
      omega
    next other =>
      rw [if_neg other]
      omega
  | doWhile body again value tail _ ih => exact ⟨within.1, fun last => ih last (within.2 last) rest⟩

theorem Within.forUp {body : Nat → β → Program Op Reply β} {each : Nat} (count first : Nat) (value : β)
    (within : ∀ index value, (body index value).Within counted each) :
    (forUp body count first value).Within counted (each * count) := by
  induction count generalizing first value with
  | zero => trivial
  | succ count ih =>
    have whole := (within first value).bind fun next => ih (first + 1) next
    rwa [Nat.add_comm each, ← Nat.mul_succ] at whole

theorem Within.times {body : Program Op Reply Unit} {each : Nat} (within : body.Within counted each) (count : Nat) :
    (times body count).Within counted (each * count) := by
  induction count with
  | zero => trivial
  | succ count ih =>
    have whole := within.bind fun _ => ih
    rwa [Nat.add_comm each, ← Nat.mul_succ] at whole

/-- A step spends at most what its request counts for. -/
theorem Within.advance {handle : Handler Op Reply σ} {program rest : Program Op Reply α} {budget : Nat}
    {event : Option ((op : Op) × Reply op)} {state following : σ} (within : program.Within counted budget)
    (stepped : program.advance handle state = some (event, rest, following)) :
    ∃ left, rest.Within counted left ∧ left + (event.elim 0 fun made => if counted made.1 then 1 else 0) = budget := by
  cases program with
  | pure value => cases stepped
  | request op next =>
    obtain ⟨⟨reply, middle⟩, answered, same⟩ := Option.map_eq_some_iff.mp stepped
    cases same
    obtain ⟨left, spent, each⟩ := within
    refine ⟨left, each reply, ?_⟩
    rw [Option.elim_some]
    split at spent
    next counts => rw [if_pos counts, spent]
    next other => rw [if_neg other, spent, Nat.add_zero]
  | doWhile body again value next =>
    obtain ⟨quiet, each⟩ := within
    have reenter : ∀ last, (if again last then .doWhile body again last next else next last :
        Program Op Reply _).Within counted budget := by
      intro last
      split
      · exact ⟨quiet, each⟩
      · exact each last
    simp only [Program.advance] at stepped
    split at stepped
    next last returned =>
      cases stepped
      exact ⟨budget, reenter last, rfl⟩
    next =>
      obtain ⟨⟨event', rest', middle⟩, moved, same⟩ := Option.map_eq_some_iff.mp stepped
      cases same
      obtain ⟨permitted, uses⟩ := (quiet value).advance moved
      refine ⟨budget, ?_, ?_⟩
      · have together := (Within.of_uses uses).bind reenter
        rwa [Nat.zero_add] at together
      · cases event' with
        | none => rfl
        | some made =>
          rw [Option.elim_some, if_neg (by simp [permitted made.1 made.2 rfl])]
          rfl

end Program

namespace Pool

variable {α : ι → Type} [DecidableEq ι] {handle : χ → Handler Op Reply σ}

/-- The counted requests a thread has made. -/
def made (counted : Op → Bool) (thread : ι) (log : List (Event ι Op Reply σ)) : Nat :=
  log.countP fun event => decide (event.thread = thread) && counted event.op

theorem made_snoc (counted : Op → Bool) (thread : ι) (log : List (Event ι Op Reply σ)) (event : Event ι Op Reply σ) :
    made counted thread (log ++ [event]) =
      made counted thread log + if event.thread = thread ∧ counted event.op = true then 1 else 0 := by
  simp only [made, List.countP_append, List.countP_singleton, Bool.and_eq_true, decide_eq_true_eq]

/-- A thread stays within its budget, however it is scheduled. -/
theorem run_within {counted : Op → Bool} {thread : ι} {budget : Nat} {schedule : List (ι × χ)}
    {pool final : Pool ι Op Reply σ α} (within : (pool.threads thread).Within counted budget)
    (ran : pool.run handle schedule = some final) :
    made counted thread final.world.log ≤ made counted thread pool.world.log + budget := by
  let holds (current : Pool ι Op Reply σ α) : Prop := ∃ left, (current.threads thread).Within counted left ∧
    made counted thread current.world.log + left = made counted thread pool.world.log + budget
  have preserved : ∀ current other choice next, holds current → current.step handle other choice = some next →
      holds next := by
    intro current other choice next kept stepped
    obtain ⟨left, within, total⟩ := kept
    obtain ⟨event, rest, state, advanced, rfl⟩ := step_eq stepped
    by_cases own : other = thread
    · subst own
      obtain ⟨left', within', spent⟩ := within.advance advanced
      refine ⟨left', by simpa only [Function.update_self] using within', ?_⟩
      cases event with
      | none =>
        rw [Option.elim_none] at spent
        simp only [World.record]
        omega
      | some event =>
        rw [Option.elim_some] at spent
        simp only [World.record, made_snoc, true_and]
        omega
    · refine ⟨left, by simpa only [Function.update_of_ne (Ne.symm own)] using within, ?_⟩
      cases event with
      | none => exact total
      | some event =>
        simp only [World.record, made_snoc, own, false_and, if_false]
        exact total
  obtain ⟨left, _, total⟩ := run_induction preserved ⟨budget, within, rfl⟩ ran
  omega

end Pool
end EthercatSlave
