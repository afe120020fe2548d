import EthercatSlave.Interleaving

/-! The life cycle of a thread object: the calls of its owner beside the body of
the pthread it created. The scheduling attributes of the pthread and the stack it
gets are left out, and so is a `pthread_create` that fails. -/

namespace EthercatSlave

/-- The two classes over the same life cycle. -/
inductive ThreadClass where
  | thread
  | rtthread
  deriving DecidableEq

/-- `present` is the test of `imp_buf` and its size, `loadThread` and `clearThread`
are accesses of `m_thread`; `begin`, `execute` and `exit` are made by the body. -/
inductive PthreadOp where
  | present
  | loadThread
  | clearThread
  | freeBuf
  | clearActiv
  | mutexLock
  | mutexUnlock
  | mutexDestroy
  | cancel (thread : Nat)
  | join (thread : Nat)
  | begin
  | execute
  | exit
  deriving DecidableEq

abbrev PthreadOp.Reply : PthreadOp → Type
  | .present => Bool
  | .loadThread => Nat
  | .execute => Bool
  | _ => Unit

/-- The object, its start mutex and its pthread. A `pthread_t` of 0 is none. -/
structure ThreadObject where
  impBuf : Bool := true
  mThread : Nat
  activ : Bool := false
  locked : Bool
  cancelled : Bool := false
  returned : Bool := false
  joined : Bool := false

namespace ThreadObject

/-- The constructor has created the pthread `thread`. -/
def created (thread : Nat) (crrunning : Bool) : ThreadObject := { mThread := thread, locked := !crrunning }

/-- `more` decides whether `Execute` goes on. A pthread that was cancelled may take
some more steps, but none once it was joined. -/
def perform (more : Bool) : Handler PthreadOp PthreadOp.Reply ThreadObject
  | .present, object => some (object.impBuf, object)
  | .loadThread, object => if object.impBuf then some (object.mThread, object) else none
  | .clearThread, object => if object.impBuf then some ((), { object with mThread := 0 }) else none
  | .freeBuf, object => some ((), { object with impBuf := false })
  | .clearActiv, object => some ((), { object with activ := false })
  | .mutexLock, object => if object.locked || object.joined then none else some ((), { object with locked := true })
  | .mutexUnlock, object => some ((), { object with locked := false })
  | .mutexDestroy, object => some ((), object)
  | .cancel _, object => some ((), { object with cancelled := true })
  | .join _, object =>
    -- waits for the end of the pthread
    if object.cancelled || object.returned then some ((), { object with joined := true }) else none
  | .begin, object => if object.joined then none else some ((), { object with activ := true })
  | .execute, object => if object.joined then none else some (more, object)
  | .exit, object => if object.joined then none else some ((), { object with activ := false, returned := true })

end ThreadObject

abbrev Life (α : Type) := Program PthreadOp PthreadOp.Reply α

namespace Threads
open Program

def call (op : PthreadOp) : Life op.Reply := ask op

-- the reply type reduces once the call is known, so it is no key for the rewriting
@[simp] theorem call_bind {α : Type} (op : PthreadOp) (next : op.Reply → Life α) :
    @Program.bind _ _ (no_index op.Reply) α (call op) next = .request op next := rfl

/-- `__Start_thread`. -/
def startThread : Life Unit := do
  call .mutexLock
  call .begin
  let _ ← loop (call .execute) id
  call .exit

def resume : Life Unit := call .mutexUnlock

/-- `rtthread::Suspend`. -/
def suspend : Life Unit := do
  let thread ← call .loadThread
  call (.cancel thread)

/-- What `Terminate` does with `m_thread` once the pthread is joined. In `rtthread`
the line is commented out. -/
def forget : ThreadClass → Life Unit
  | .thread => call .clearThread
  | .rtthread => return

def terminate (kind : ThreadClass) : Life Bool := do
  let present ← call .present
  if present then
    let thread ← call .loadThread
    if thread ≠ 0 then
      call .mutexDestroy
      let thread ← call .loadThread
      call (.cancel thread)
      let thread ← call .loadThread
      call (.join thread)
      forget kind
      call .clearActiv
      return true
    else
      return false
  else
    return false

/-- `~thread` and `~rtthread`. -/
def destroy (kind : ThreadClass) : Life Unit := do
  let present ← call .present
  if present then
    let _ ← terminate kind
    call .freeBuf
    call .clearActiv
  else
    call .clearActiv

inductive Call : ThreadClass → Type where
  | resume {kind : ThreadClass} : Call kind
  | suspend : Call .rtthread
  | terminate {kind : ThreadClass} : Call kind

def Call.terminates {kind : ThreadClass} : Call kind → Bool
  | .terminate => true
  | _ => false

/-- The result of a `Terminate`. -/
def Call.perform {kind : ThreadClass} : Call kind → Life (Option Bool)
  | .resume => do
    Threads.resume
    return none
  | .suspend => do
    Threads.suspend
    return none
  | .terminate => do
    let term ← Threads.terminate kind
    return some term

/-- These calls and the destructor. What the destructor's own `Terminate` returns is
not seen. -/
def life {kind : ThreadClass} : List (Call kind) → Life (List Bool)
  | [] => do
    destroy kind
    return []
  | call :: calls => do
    let term ← call.perform
    let terms ← life calls
    return term.toList ++ terms

inductive Party where
  | owner
  | body
  deriving DecidableEq

abbrev Party.Result : Party → Type
  | .owner => List Bool
  | .body => Unit

abbrev Log := List (Event Party PthreadOp PthreadOp.Reply ThreadObject)

def pool {kind : ThreadClass} (calls : List (Call kind)) (thread : Nat) (crrunning : Bool) :
    Pool Party PthreadOp PthreadOp.Reply ThreadObject Party.Result where
  threads
    | .owner => life calls
    | .body => startThread
  world := { state := .created thread crrunning }

/-- The calls that must not be applied to a pthread that was joined. -/
def touching : PthreadOp → Bool
  | .mutexDestroy | .cancel _ | .join _ => true
  | _ => false

def touches (log : Log) : List PthreadOp := (log.map Event.op).filter touching

/-- Nothing follows the join of the pthread, and at the end, to which its owner can
always go on, it was joined and the first `Terminate` alone has returned true. -/
structure Once (thread : Nat) (pool : Pool Party PthreadOp PthreadOp.Reply ThreadObject Party.Result) : Prop where
  last : ∀ earlier joined later, touches pool.world.log = earlier ++ .join joined :: later →
    joined = thread ∧ later = []
  steps : (pool.threads .owner).returned = none → ∀ more, (pool.step ThreadObject.perform .owner more).isSome = true
  joined : ∀ terms : List Bool, pool.threads .owner = .pure terms → .join thread ∈ touches pool.world.log
  first : ∀ terms : List Bool, pool.threads .owner = .pure terms →
    ∀ index term, terms[index]? = some term → term = decide (index = 0)

end Threads
end EthercatSlave
