import EthercatSlave.History
import EthercatSlave.Threads

/-! The construction of a thread object beside the pthread that its base constructor
creates. Each constructor sets the virtual table of its own class before its body.
The attributes, the stack and the name of the pthread are left out. -/

namespace EthercatSlave

/-- The members of `threadbase` that a thread is run with, and those of the classes
that are derived. -/
inductive ThreadMember (μ : Type) where
  | isrt
  | priority
  | ref
  | activ
  | cpu
  | rcpu
  | crrunning
  | own (member : μ)
  deriving DecidableEq

/-- `begin` is the entry of `__Start_thread`, and `storeVptr` and `loadVptr` are
accesses of the virtual table. An unlock tells whether `Resume` makes it. -/
inductive ConstructionOp (μ : Type) where
  | store (member : ThreadMember μ) (value : Int)
  | load (member : ThreadMember μ)
  | storeVptr (level : Nat)
  | loadVptr
  | malloc
  | storeBuf (impBuf : Bool)
  | loadBuf
  | memset
  | mutexInit
  | mutexLock
  | mutexUnlock (resumes : Bool)
  | sysconf
  | create
  | getNextcpu
  | setAffinity (cpu : Int)
  | setscheduler (priority : Int)
  | begin
  deriving DecidableEq

abbrev ConstructionOp.Reply {μ : Type} : ConstructionOp μ → Type
  | .load _ => Int
  | .loadVptr => Nat
  | .malloc => Bool
  | .loadBuf => Bool
  | .sysconf => Int
  | .getNextcpu => Int
  | _ => Unit

abbrev Constructing (μ α : Type) := Program (ConstructionOp μ) ConstructionOp.Reply α

/-- What the environment decides in a step. -/
structure Circumstance where
  allocates : Bool
  creates : Bool
  value : Int

/-- The memory of the object, its start mutex and whether its pthread was created.
What is not stored yet is garbage. -/
structure NewThread (μ : Type) where
  members : ThreadMember μ → Option Int := fun _ => none
  vptr : Nat := 0
  impBuf : Bool := false
  locked : Bool := false
  started : Bool := false

namespace NewThread

variable {μ : Type} [DecidableEq μ]

/-- There is no start mutex without a buffer. -/
def perform (now : Circumstance) : Handler (ConstructionOp μ) ConstructionOp.Reply (NewThread μ)
  | .store member value, object =>
    some ((), { object with members := fun other => if other = member then some value else object.members other })
  | .load member, object => some ((object.members member).getD now.value, object)
  | .storeVptr level, object => some ((), { object with vptr := level })
  | .loadVptr, object => some (object.vptr, object)
  | .malloc, object => some (now.allocates, object)
  | .storeBuf impBuf, object => some ((), { object with impBuf })
  | .loadBuf, object => some (object.impBuf, object)
  | .memset, object => if object.impBuf then some ((), object) else none
  | .mutexInit, object => if object.impBuf then some ((), { object with locked := false }) else none
  | .mutexLock, object => if object.impBuf && !object.locked then some ((), { object with locked := true }) else none
  | .mutexUnlock _, object => if object.impBuf then some ((), { object with locked := false }) else none
  | .sysconf, object => some (now.value, object)
  | .create, object => some ((), { object with started := now.creates })
  | .getNextcpu, object => some (now.value, object)
  | .setAffinity _, object => some ((), object)
  | .setscheduler _, object => some ((), object)
  | .begin, object => if object.started then some ((), object) else none

end NewThread

/-- What a derived class's `Execute` does with the object. -/
inductive ExecuteOp (μ : Type) where
  | load (member : ThreadMember μ)
  | store (member : ThreadMember μ) (value : Int)

abbrev ExecuteOp.Reply {μ : Type} : ExecuteOp μ → Type
  | .load _ => Int
  | .store .. => Unit

/-- An `Execute`, given its `ref`. -/
abbrev Execute (μ : Type) := Int → Program (ExecuteOp μ) ExecuteOp.Reply Int

/-- A class below `thread` or `rtthread`: what the body of its constructor sets, and
its `Execute` if it overrides that of the classes above. -/
structure Subclass (μ : Type) where
  sets : List (μ × Int)
  execute : Option (Execute μ)

/-- A derived class that overrides `Execute`, and the classes between it and the
thread class. -/
structure Derived (μ : Type) where
  between : List (Subclass μ)
  sets : List (μ × Int)
  execute : Execute μ

namespace Derived

variable {μ : Type}

def levels (derived : Derived μ) : List (Subclass μ) := derived.between ++ [⟨derived.sets, some derived.execute⟩]

/-- The virtual table of the complete object. That of `threadbase` is 0 and that of the
thread class 1. -/
def complete (derived : Derived μ) : Nat := derived.levels.length + 1

/-- The last override in the classes that the virtual table knows. -/
def overrider (derived : Derived μ) (vptr : Nat) : Option (Execute μ) :=
  ((derived.levels.take (vptr - 1)).filterMap Subclass.execute).getLast?

/-- The members that the constructors set. -/
def Sets (derived : Derived μ) : ThreadMember μ → Prop
  | .own member => ∃ level ∈ derived.levels, member ∈ level.sets.map Prod.fst
  | _ => True

end Derived

/-- The arguments of the constructors of `thread` and `rtthread`. -/
structure ThreadArguments where
  priority : Int
  ref : Int
  cpu : Int
  crrunning : Bool

namespace Construction
open Program
open Threads (Party)

variable {μ : Type}

def call (op : ConstructionOp μ) : Constructing μ op.Reply := ask op

@[simp] theorem call_bind {α : Type} (op : ConstructionOp μ) (next : op.Reply → Constructing μ α) :
    @Program.bind _ _ (no_index op.Reply) α (call op) next = .request op next := rfl

def threadbase (arguments : ThreadArguments) : Constructing μ Unit := do
  call (.storeVptr 0)
  call (.store .isrt 0)
  call (.store .priority arguments.priority)
  call (.store .ref arguments.ref)
  call (.store .activ 0)
  call (.store .rcpu arguments.cpu)
  call (.store .cpu arguments.cpu)
  call (.store .crrunning arguments.crrunning.toInt)
  call (.storeBuf false)

/-- The end of both constructors. -/
def release (crrunning : Bool) : Constructing μ Unit :=
  if crrunning then call (.mutexUnlock false) else return

def thread (arguments : ThreadArguments) : Constructing μ Unit := do
  threadbase arguments
  call (.storeVptr 1)
  call (.store .priority arguments.priority)
  call (.store .ref arguments.ref)
  call (.store .activ 0)
  call (.store .cpu arguments.cpu)
  call (.store .crrunning arguments.crrunning.toInt)
  let impBuf ← call .malloc
  call (.storeBuf impBuf)
  if impBuf then
    call .memset
    call .mutexInit
    call .mutexLock
    let nproc ← call .sysconf
    call .create
    if arguments.cpu < nproc ∧ arguments.cpu ≠ -1 then
      call (.setAffinity arguments.cpu)
      release arguments.crrunning
    else
      release arguments.crrunning
  else
    return

/-- The processor of a new `rtthread`. -/
def chooseCpu (cpu : Int) : Constructing μ Int :=
  if cpu = -1 then do
    let cpu ← call .getNextcpu
    call (.store .rcpu cpu)
    return cpu
  else
    return cpu

def rtthread (arguments : ThreadArguments) : Constructing μ Unit := do
  threadbase arguments
  call (.storeVptr 1)
  call (.store .priority arguments.priority)
  call (.store .ref arguments.ref)
  call (.store .activ 0)
  call (.store .crrunning arguments.crrunning.toInt)
  call (.store .isrt 1)
  let impBuf ← call .malloc
  call (.storeBuf impBuf)
  call .memset
  call .mutexInit
  call .mutexLock
  let nproc ← call .sysconf
  call .create
  let cpu ← chooseCpu arguments.cpu
  if cpu < nproc then
    call (.setAffinity cpu)
    release arguments.crrunning
  else
    release arguments.crrunning

def base : ThreadClass → ThreadArguments → Constructing μ Unit
  | .thread => thread
  | .rtthread => rtthread

def setMembers : List (μ × Int) → Constructing μ Unit
  | [] => return
  | (member, value) :: sets => do
    call (.store (.own member) value)
    setMembers sets

/-- The constructors of the derived classes, from the outermost on. -/
def construct : Nat → List (Subclass μ) → Constructing μ Unit
  | _, [] => return
  | vptr, level :: levels => do
    call (.storeVptr vptr)
    setMembers level.sets
    construct (vptr + 1) levels

/-- `thread::Resume` and `rtthread::Resume`. -/
def resume : Constructing μ Unit := do
  let _ ← call .loadBuf
  call (.mutexUnlock true)

/-- The constructing thread: the constructors, and so many calls of `Resume`. -/
def owner (kind : ThreadClass) (arguments : ThreadArguments) (derived : Derived μ) (resumes : Nat) :
    Constructing μ Unit := do
  base kind arguments
  construct 2 derived.levels
  times resume resumes

/-- `ExecThread` up to `Execute`. -/
def prepare : Constructing μ Unit := do
  let isrt ← call (.load .isrt)
  if isrt ≠ 0 then
    let priority ← call (.load .priority)
    call (.setscheduler priority)
    affine
  else
    affine
where
  affine : Constructing μ Unit := do
    let rcpu ← call (.load .rcpu)
    if rcpu ≠ -1 then
      let rcpu ← call (.load .rcpu)
      call (.setAffinity rcpu)
    else
      return

/-- The requests of an `Execute`. -/
def ofExecute : ExecuteOp μ → ConstructionOp μ
  | .load member => .load member
  | .store member value => .store member value

def ofExecuteReply : (op : ExecuteOp μ) → (ofExecute op).Reply → op.Reply
  | .load _, value => value
  | .store .., done => done

/-- The virtual call of `Execute`. The one of the thread classes returns 0. -/
def execute (derived : Derived μ) (ref : Int) : Constructing μ Int := do
  let vptr ← call .loadVptr
  match derived.overrider vptr with
  | some execute => (execute ref).embed ofExecute ofExecuteReply
  | none => return 0

def execThread (derived : Derived μ) (ref : Int) : Constructing μ Int := do
  prepare
  execute derived ref

/-- `__Start_thread`. -/
def startThread (derived : Derived μ) : Constructing μ Int := do
  call .begin
  let _ ← call .loadBuf
  call .mutexLock
  call (.store .activ 1)
  let ref ← call (.load .ref)
  let stat ← execThread derived ref
  call (.store .activ 0)
  return stat

section Threads

abbrev Log (μ : Type) := List (Event Party (ConstructionOp μ) ConstructionOp.Reply (NewThread μ))

abbrev Result : Party → Type
  | .owner => Unit
  | .body => Int

def pool (kind : ThreadClass) (arguments : ThreadArguments) (derived : Derived μ) (resumes : Nat) :
    Pool Party (ConstructionOp μ) ConstructionOp.Reply (NewThread μ) Result where
  threads
    | .owner => owner kind arguments derived resumes
    | .body => startThread derived
  world := { state := {} }

/-- The virtual table that the body's call of `Execute` finds. -/
def dispatched (event : Event Party (ConstructionOp μ) ConstructionOp.Reply (NewThread μ)) : Option Nat :=
  match event with
  | ⟨.body, .loadVptr, vptr, _⟩ => some vptr
  | _ => none

/-- The member of the object that the body reads. -/
def reads (event : Event Party (ConstructionOp μ) ConstructionOp.Reply (NewThread μ)) : Option (ThreadMember μ) :=
  match event with
  | ⟨.body, .load member, _, _⟩ => some member
  | _ => none

/-- The member that a constructor sets. -/
def sets (event : Event Party (ConstructionOp μ) ConstructionOp.Reply (NewThread μ)) : Option (ThreadMember μ) :=
  match event with
  | ⟨.owner, .store member _, _, _⟩ => some member
  | _ => none

def Resumed (log : Log μ) : Prop := ∃ event ∈ log, event.op = .mutexUnlock true

/-- The body runs the `Execute` of the complete object and reads what the constructors
set after they have set it, where it was asked for only after the first `Resume`. -/
structure Started (derived : Derived μ) (crrunning : Bool) (log : Log μ) : Prop where
  dispatch : ∀ event ∈ log, ∀ vptr, dispatched event = some vptr → derived.overrider vptr = some derived.execute
  members : ∀ earlier event later, log = earlier ++ event :: later → ∀ member, reads event = some member →
    derived.Sets member → (∃ store ∈ earlier, sets store = some member) ∧ ∀ store ∈ later, sets store ≠ some member
  resumed : crrunning = false → ∀ earlier event later, log = earlier ++ event :: later →
    (dispatched event).isSome ∨ (reads event).isSome → Resumed earlier

end Threads
end Construction
end EthercatSlave
