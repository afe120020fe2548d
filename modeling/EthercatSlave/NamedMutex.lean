import EthercatSlave.History
import EthercatSlave.Interleaving
import Mathlib.Algebra.Group.Nat.Defs

/-! The named mutex, a semaphore that any number of clients have open. What opens and
closes it is left out. Nobody looks at the error of a wait that a signal ended. -/

namespace EthercatSlave

inductive SemOp where
  | semWait
  | semPost
  | semGetvalue
  deriving DecidableEq

abbrev SemOp.Reply : SemOp → Type
  | .semWait => Int
  | .semPost => Unit
  | .semGetvalue => Nat

abbrev Semaphoring (α : Type) := Program SemOp SemOp.Reply α

/-- The semaphore. `sem_open` creates it with 1. -/
structure NamedSemaphore where
  value : Nat := 1

namespace NamedSemaphore

/-- SEM_VALUE_MAX. -/
def valueMax : Nat := 2 ^ 31 - 1

/-- `sem_wait` waits for a unit unless a signal ends it, and `sem_post` fails at the maximum. -/
def perform (signal : Bool) : Handler SemOp SemOp.Reply NamedSemaphore
  | .semWait, sema =>
    if signal then some (-1, sema) else if 0 < sema.value then some (0, ⟨sema.value - 1⟩) else none
  | .semPost, sema => some ((), if sema.value < valueMax then ⟨sema.value + 1⟩ else sema)
  | .semGetvalue, sema => some (sema.value, sema)

theorem wait_eq {signal : Bool} {before after : NamedSemaphore}
    (waited : perform signal .semWait before = some (0, after)) : 0 < before.value ∧ after = ⟨before.value - 1⟩ := by
  simp only [perform] at waited
  split at waited
  · cases waited
  · obtain ⟨positive, same⟩ := Option.ite_none_right_eq_some.mp waited
    exact ⟨positive, (Prod.mk.inj (Option.some.inj same)).2.symm⟩

end NamedSemaphore

namespace NamedMutex
open Program

def call (op : SemOp) : Semaphoring op.Reply := ask op

def lock : Semaphoring Unit := do let _ ← call .semWait

def unlock : Semaphoring Unit := call .semPost

def reset : Semaphoring Unit := do
  let v ← call .semGetvalue
  if v = 0 then call .semPost else return

inductive MutexCall where
  | lock
  | unlock
  | reset

def MutexCall.perform : MutexCall → Semaphoring Unit
  | .lock => NamedMutex.lock
  | .unlock => NamedMutex.unlock
  | .reset => NamedMutex.reset

/-- `unlock` only where a lock has returned and was not unlocked since. -/
def Disciplined : Bool → List MutexCall → Prop
  | _, [] => True
  | _, .lock :: calls => Disciplined true calls
  | holding, .unlock :: calls => holding = true ∧ Disciplined false calls
  | holding, .reset :: calls => Disciplined holding calls

structure Client where
  calls : List MutexCall
  disciplined : Disciplined false calls

def Client.perform : List MutexCall → Semaphoring Unit
  | [] => return
  | call :: calls => do
    call.perform
    Client.perform calls

section Clients

variable {ι : Type}

abbrev Log (ι : Type) := List (Event ι SemOp SemOp.Reply NamedSemaphore)

def pool (clients : ι → Client) : Pool ι SemOp SemOp.Reply NamedSemaphore fun _ => Unit where
  threads client := Client.perform (clients client).calls
  world := { state := {} }

/-- The locks that have returned, and the units that were posted by unlocks and by resets. -/
def locks (log : Log ι) : Nat := log.countP fun event => decide (event.op = .semWait)
def posts (log : Log ι) : Nat := log.countP fun event => decide (event.op = .semPost)

/-- At most one unit at any time, so at most one lock returns until another is posted. -/
structure Binary (log : Log ι) : Prop where
  value : ∀ event ∈ log, event.state.value ≤ 1
  single : ∀ earlier between later, log = earlier ++ between ++ later → posts between = 0 → locks between ≤ 1

/-- How the clients stand: whose lock has returned with no unlock since, and whether a
reset has posted meanwhile; whose reset has found no unit and is to post, and whether
anybody has posted meanwhile. -/
structure Ledger (ι : Type) where
  holding : ι → Bool := fun _ => false
  crossed : ι → Bool := fun _ => false
  resetting : ι → Bool := fun _ => false
  overtaken : ι → Bool := fun _ => false

variable [DecidableEq ι]

def Ledger.note (ledger : Ledger ι) : Event ι SemOp SemOp.Reply NamedSemaphore → Ledger ι
  | ⟨client, .semWait, _, _⟩ => { ledger with
      holding := Function.update ledger.holding client true
      crossed := Function.update ledger.crossed client false }
  | ⟨client, .semGetvalue, value, _⟩ => { ledger with
      resetting := Function.update ledger.resetting client (value == 0)
      overtaken := Function.update ledger.overtaken client false }
  | ⟨client, .semPost, _, _⟩ =>
    if ledger.resetting client then { ledger with
      crossed := fun _ => true
      resetting := Function.update ledger.resetting client false
      overtaken := fun _ => true }
    else { ledger with
      holding := Function.update ledger.holding client false
      overtaken := fun _ => true }

def ledger (log : Log ι) : Ledger ι := log.foldl Ledger.note {}

/-- A wait ends with a unit; a reset that found none posts before anybody else does;
an unlock is made before a reset has posted since its lock. -/
def apart (earlier : Log ι) : Event ι SemOp SemOp.Reply NamedSemaphore → Bool
  | ⟨_, .semWait, err, _⟩ => err == 0
  | ⟨_, .semGetvalue, _, _⟩ => true
  | ⟨client, .semPost, _, _⟩ =>
    if (ledger earlier).resetting client then !(ledger earlier).overtaken client
    else !(ledger earlier).crossed client

/-- No signal ends a wait, and resets keep out of the way of locks and unlocks. -/
def Apart (log : Log ι) : Prop := Throughout (fun earlier event => apart earlier event = true) log

instance (log : Log ι) : Decidable (Apart log) := inferInstanceAs (Decidable (Throughout _ log))

end Clients
end NamedMutex
end EthercatSlave
