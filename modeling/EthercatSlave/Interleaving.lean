import EthercatSlave.Execution
import Mathlib.Logic.Function.Basic

/-! Threads over one shared state. A request is one atomic step, a schedule picks
the thread of every step, and the log keeps what happened and the state it left.
Programs cannot read the log; it exists to state and prove facts about runs. -/

namespace EthercatSlave

variable {Op : Type} {Reply : Op → Type} {σ χ ι α β : Type}

namespace Program

def returned : Program Op Reply α → Option α
  | .pure value => some value
  | _ => none

theorem returned_iff {program : Program Op Reply α} {value : α} :
    program.returned = some value ↔ program = .pure value := by
  constructor
  · intro returned
    cases program <;> cases returned
    rfl
  · intro same
    rw [same, returned]

/-- The next step of a program: the request it makes, unless the step only ends
a round of a loop whose body makes none, and what remains to be run. -/
def advance (handle : Handler Op Reply σ) : {α : Type} → Program Op Reply α → σ →
    Option (Option ((op : Op) × Reply op) × Program Op Reply α × σ)
  | _, .pure _, _ => none
  | _, .request op next, state =>
    (handle op state).map fun (reply, following) => (some ⟨op, reply⟩, next reply, following)
  | _, .doWhile body again value next, state =>
    match (body value).returned with
    | some last => some (none, if again last then .doWhile body again last next else next last, state)
    | none => ((body value).advance handle state).map fun (event, rest, following) =>
      (event, rest.bind (fun last => if again last then .doWhile body again last next else next last), following)

end Program

structure Event (ι Op : Type) (Reply : Op → Type) (σ : Type) where
  thread : ι
  op : Op
  reply : Reply op
  state : σ

structure World (ι Op : Type) (Reply : Op → Type) (σ : Type) where
  state : σ
  log : List (Event ι Op Reply σ) := []

def World.record (world : World ι Op Reply σ) (thread : ι) (event : Option ((op : Op) × Reply op))
    (state : σ) : World ι Op Reply σ :=
  match event with
  | none => { world with state }
  | some ⟨op, reply⟩ => { state, log := world.log ++ [⟨thread, op, reply, state⟩] }

structure Pool (ι Op : Type) (Reply : Op → Type) (σ : Type) (α : ι → Type) where
  threads : (thread : ι) → Program Op Reply (α thread)
  world : World ι Op Reply σ

namespace Pool

variable {α : ι → Type} [DecidableEq ι]

/-- `choice` stands for whatever the environment decides in this step. -/
def step (handle : χ → Handler Op Reply σ) (thread : ι) (choice : χ) (pool : Pool ι Op Reply σ α) :
    Option (Pool ι Op Reply σ α) :=
  ((pool.threads thread).advance (handle choice) pool.world.state).map fun (event, rest, state) =>
    { threads := Function.update pool.threads thread rest, world := pool.world.record thread event state }

def run (handle : χ → Handler Op Reply σ) : List (ι × χ) → Pool ι Op Reply σ α → Option (Pool ι Op Reply σ α)
  | [], pool => some pool
  | (thread, choice) :: schedule, pool => do
    let next ← pool.step handle thread choice
    next.run handle schedule

/-- An invariant of single steps is an invariant of every schedule. -/
theorem run_induction {handle : χ → Handler Op Reply σ} {holds : Pool ι Op Reply σ α → Prop}
    (preserved : ∀ pool thread choice next, holds pool → pool.step handle thread choice = some next → holds next)
    {schedule : List (ι × χ)} {pool final : Pool ι Op Reply σ α}
    (starts : holds pool) (ran : pool.run handle schedule = some final) : holds final := by
  induction schedule generalizing pool with
  | nil => cases ran; exact starts
  | cons turn schedule ih =>
    obtain ⟨next, stepped, rest⟩ := Option.bind_eq_some_iff.mp ran
    exact ih (preserved pool turn.1 turn.2 next starts stepped) rest

/-- The threads that entered something with `key` and have returned since. -/
def completed {κ : Type} [DecidableEq κ] (enters : Event ι Op Reply σ → Option κ) (key : κ)
    (pool : Pool ι Op Reply σ α) : Nat :=
  pool.world.log.countP fun event =>
    decide (enters event = some key) && (pool.threads event.thread).returned.isSome

/-- Those of them all of whose steps are `within` what is asked for. -/
def completedWithin {κ : Type} [DecidableEq κ] (within : Event ι Op Reply σ → Bool)
    (enters : Event ι Op Reply σ → Option κ) (key : κ) (pool : Pool ι Op Reply σ α) : Nat :=
  pool.world.log.countP fun event =>
    decide (enters event = some key) && (pool.threads event.thread).returned.isSome &&
      (pool.world.log.filter fun other => other.thread = event.thread).all within

/-- A thread's atomic step on the world, for some choice of the environment. -/
def acts (handle : χ → Handler Op Reply σ) (thread : ι) (op : Op) (before : World ι Op Reply σ)
    (reply : Reply op) (after : World ι Op Reply σ) : Prop :=
  ∃ choice, handle choice op before.state = some (reply, after.state) ∧
    after.log = before.log ++ [⟨thread, op, reply, after.state⟩]

end Pool
end EthercatSlave
