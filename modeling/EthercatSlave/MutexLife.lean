import EthercatSlave.NamedMutex

/-! Whole lives of named mutexes. Clients construct objects under any names, lock and
unlock them and destroy them; objects of one name share a semaphore, which outlives
them all. The copy of the name, which nothing else reads, is left out. -/

namespace EthercatSlave

/-- An object is its client and a number there. `present` is the test of `imp_buf`. -/
inductive MutexOp (ι N : Type) where
  | malloc (object : ι × Nat)
  | present (object : ι × Nat)
  | semOpen (object : ι × Nat) (name : N)
  | clearSema (object : ι × Nat)
  | semWait (object : ι × Nat)
  | semPost (object : ι × Nat)
  | semClose (object : ι × Nat)
  | free (object : ι × Nat)
  deriving DecidableEq

abbrev MutexOp.Reply {ι N : Type} : MutexOp ι N → Type
  | .malloc _ => Bool
  | .present _ => Bool
  | .semOpen _ _ => Bool
  | .semWait _ => Int
  | _ => Unit

abbrev Mutex (ι N α : Type) := Program (MutexOp ι N) MutexOp.Reply α

/-- `sema` is the open semaphore `*p_sema` points to. -/
structure MutexObject (N : Type) where
  impBuf : Bool := false
  sema : Option N := none

/-- The named semaphores of the system and the objects of the clients. -/
structure Mutexes (ι N : Type) where
  semaphores : N → Option NamedSemaphore := fun _ => none
  objects : ι × Nat → MutexObject N := fun _ => {}

/-- How `malloc` and `sem_open` turn out, and whether a signal ends a `sem_wait`. -/
structure Supply where
  malloc : Bool := true
  semOpen : Bool := true
  signal : Bool := false

namespace Mutexes

variable {ι N : Type} [DecidableEq ι] [DecidableEq N]

def place (mutexes : Mutexes ι N) (object : ι × Nat) (mutex : MutexObject N) : Mutexes ι N :=
  { mutexes with objects := Function.update mutexes.objects object mutex }

/-- A call on the semaphore of an object. A client that follows a null pointer takes
no further step. -/
def onSema (signal : Bool) (mutexes : Mutexes ι N) (object : ι × Nat) (op : SemOp) :
    Option (op.Reply × Mutexes ι N) := do
  let name ← (mutexes.objects object).sema
  let sema ← mutexes.semaphores name
  let (reply, sema) ← NamedSemaphore.perform signal op sema
  return (reply, { mutexes with semaphores := Function.update mutexes.semaphores name (some sema) })

/-- `sem_open` with O_CREAT makes a semaphore of 1 only where there is none. -/
def perform (supply : Supply) : Handler (MutexOp ι N) MutexOp.Reply (Mutexes ι N)
  | .malloc object, mutexes => some (supply.malloc, mutexes.place object { impBuf := supply.malloc })
  | .present object, mutexes => some ((mutexes.objects object).impBuf, mutexes)
  | .semOpen object name, mutexes =>
    if supply.semOpen then
      let sema := (mutexes.semaphores name).getD {}
      let opened := { mutexes with semaphores := Function.update mutexes.semaphores name (some sema) }
      some (true, opened.place object { mutexes.objects object with sema := some name })
    else
      some (false, mutexes.place object { mutexes.objects object with sema := none })
  | .clearSema object, mutexes => some ((), mutexes.place object { mutexes.objects object with sema := none })
  | .semWait object, mutexes => mutexes.onSema supply.signal object .semWait
  | .semPost object, mutexes => mutexes.onSema supply.signal object .semPost
  | .semClose object, mutexes => some ((), mutexes.place object { mutexes.objects object with sema := none })
  | .free object, mutexes => some ((), mutexes.place object { mutexes.objects object with impBuf := false })

end Mutexes

namespace MutexLife
open Program

variable {ι N : Type}

def call (op : MutexOp ι N) : Mutex ι N op.Reply := ask op

/-- The constructor. -/
def construct (object : ι × Nat) (name : N) : Mutex ι N Unit := do
  let impBuf ← call (.malloc object)
  if impBuf then
    let opened ← call (.semOpen object name)
    if !opened then call (.clearSema object)

def lock (object : ι × Nat) : Mutex ι N Unit := do let _ ← call (.semWait object)

def unlock (object : ι × Nat) : Mutex ι N Unit := call (.semPost object)

/-- `~mutex`. -/
def destroy (object : ι × Nat) : Mutex ι N Unit := do
  let impBuf ← call (.present object)
  if impBuf then
    call (.semClose object)
    call (.free object)

inductive LifeCall (N : Type) where
  | construct (number : Nat) (name : N)
  | lock (number : Nat)
  | unlock (number : Nat)
  | destroy (number : Nat)

def LifeCall.perform (client : ι) : LifeCall N → Mutex ι N Unit
  | .construct number name => MutexLife.construct (client, number) name
  | .lock number => MutexLife.lock (client, number)
  | .unlock number => MutexLife.unlock (client, number)
  | .destroy number => MutexLife.destroy (client, number)

inductive Stage where
  | absent
  | unlocked
  | locked
  deriving DecidableEq

/-- Calls on objects that are there, no unlock of one that is not locked, no object
destroyed that is, and at the end nothing is there. -/
def Disciplined : (Nat → Stage) → List (LifeCall N) → Prop
  | stages, [] => ∀ number, stages number = .absent
  | stages, .construct number _ :: calls =>
    stages number = .absent ∧ Disciplined (Function.update stages number .unlocked) calls
  | stages, .lock number :: calls =>
    stages number ≠ .absent ∧ Disciplined (Function.update stages number .locked) calls
  | stages, .unlock number :: calls =>
    stages number = .locked ∧ Disciplined (Function.update stages number .unlocked) calls
  | stages, .destroy number :: calls =>
    stages number = .unlocked ∧ Disciplined (Function.update stages number .absent) calls

structure Client (N : Type) where
  calls : List (LifeCall N)
  disciplined : Disciplined (fun _ => .absent) calls

def perform (client : ι) : List (LifeCall N) → Mutex ι N Unit
  | [] => return
  | call :: calls => do
    call.perform client
    perform client calls

/-- The semaphores are those that were left behind before. -/
def pool (semaphores : N → Option NamedSemaphore) (clients : ι → Client N) :
    Pool ι (MutexOp ι N) MutexOp.Reply (Mutexes ι N) fun _ => Unit where
  threads client := perform client (clients client).calls
  world := { state := { semaphores } }

section Holders

variable [DecidableEq ι] [DecidableEq N]

abbrev MutexWorld (ι N : Type) := World ι (MutexOp ι N) MutexOp.Reply (Mutexes ι N)

abbrev MutexLog (ι N : Type) := List (Event ι (MutexOp ι N) MutexOp.Reply (Mutexes ι N))

/-- A lock has returned with a unit and no unlock since. -/
def holding (log : MutexLog ι N) (object : ι × Nat) : Bool :=
  log.foldl (fun held event => match event with
    | ⟨_, .semWait other, err, _⟩ => held || err == 0 && other == object
    | ⟨_, .semPost other, _, _⟩ => held && other != object
    | _ => held) false

/-- The object holds the semaphore of this name. -/
def Holder (world : MutexWorld ι N) (name : N) (object : ι × Nat) : Prop :=
  (world.state.objects object).sema = some name ∧ holding world.log object = true

/-- A signal ended a wait for the semaphore of this name. -/
def interrupted (name : N) : Event ι (MutexOp ι N) MutexOp.Reply (Mutexes ι N) → Bool
  | ⟨_, .semWait object, err, mutexes⟩ => err != 0 && (mutexes.objects object).sema == some name
  | _ => false

/-- The semaphore was not there or free at the start, and no wait for it was interrupted. -/
def Sound (semaphores : N → Option NamedSemaphore) (log : MutexLog ι N) (name : N) : Prop :=
  (∀ sema, semaphores name = some sema → sema.value = 1) ∧ ∀ event ∈ log, interrupted name event = false

/-- Nobody can go on with such a request: the semaphore has no unit, and an object
holds it where it is sound; or it never was opened. -/
def Waits (semaphores : N → Option NamedSemaphore) (world : MutexWorld ι N) : MutexOp ι N → Prop
  | .semWait object => ∀ name, (world.state.objects object).sema = some name →
      (∃ sema, world.state.semaphores name = some sema ∧ sema.value = 0) ∧
        (Sound semaphores world.log name → ∃ other, Holder world name other)
  | .semPost object => (world.state.objects object).sema = none
  | _ => False

end Holders
end MutexLife
end EthercatSlave
