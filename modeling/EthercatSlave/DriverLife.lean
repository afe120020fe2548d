import EthercatSlave.Driver
import EthercatSlave.Interleaving

/-! Whole lives of driver handles. Each handle is opened, lent to any number of
`ioctl` calls and released, while interrupts enter the registered handlers. The
kernel's promises to a driver are part of the surroundings: a handle is lent only
after its `open` returned 0, released after the last call on it left, and
`free_irq` waits for the handlers under way. -/

namespace EthercatSlave

inductive LifeThread where
  | session (file : Nat)
  | caller (file number : Nat)
  | irq (number : Nat)
  deriving DecidableEq

inductive LifeOp where
  | kernel (op : KernelOp)
  | lend (file : Nat)
  | withdraw (file : Nat)
  | enter (file number : Nat)
  | leave (file number : Nat)
  | entered (number : Nat)
  | finished (number : Nat)

abbrev LifeOp.Reply : LifeOp → Type
  | .kernel op => op.Reply
  | .entered _ => Pointer
  | _ => Unit

instance Member.inhabitedValue (member : Member) : Inhabited member.Value := by
  cases member <;> exact inferInstance

instance KernelOp.inhabitedReply (op : KernelOp) : Inhabited op.Reply := by
  cases op with
  | load md member => exact Member.inhabitedValue member
  | _ => exact inferInstance

namespace DriverLife
open Program Driver

/-- `callers` are the calls inside a handle and `handlers` the handlers under way,
each with its number; `fault` is the access through a pointer to nothing that
stopped the machine. -/
structure State where
  kernel : Kernel := {}
  lent : Nat → Bool := fun _ => false
  callers : Nat → List Nat := fun _ => []
  handlers : List (Nat × Pointer) := []
  fault : Option KernelOp := none

/-- What the call follows a pointer to is there: a context, or an initialised semaphore. -/
def present (kernel : Kernel) : KernelOp → Bool
  | .load md _ => (kernel.context md).isSome
  | .store md _ _ => (kernel.context md).isSome
  | .semaInit md _ => (kernel.context md).isSome
  | .kfree md => md.isNone || (kernel.context md).isSome
  | .up md => (kernel.semaphore md).isSome
  | .downInterruptible md => (kernel.semaphore md).isSome
  | .downTimeout md _ => (kernel.semaphore md).isSome
  | _ => true

def awaits (handlers : List (Nat × Pointer)) : KernelOp → Bool
  | .freeIrq _ md => handlers.any fun entry => entry.2 == md
  | _ => false

/-- What a running machine does. -/
def serve (chance : Chance) : Handler LifeOp LifeOp.Reply State
  | .kernel op, state =>
    if !present state.kernel op then some (default, { state with fault := some op })
    else if awaits state.handlers op then none
    else (Kernel.perform chance op state.kernel).map fun (reply, kernel) => (reply, { state with kernel })
  | .lend file, state => some ((), { state with lent := Function.update state.lent file true })
  | .withdraw file, state =>
    if state.callers file = [] then some ((), { state with lent := Function.update state.lent file false }) else none
  | .enter file number, state =>
    if state.lent file then
      some ((), { state with callers := Function.update state.callers file (number :: state.callers file) })
    else none
  | .leave file number, state =>
    some ((), { state with callers := Function.update state.callers file ((state.callers file).erase number) })
  | .entered number, state =>
    state.kernel.irqs[chance.dispatch]?.map fun entry =>
      (entry.2, { state with handlers := (number, entry.2) :: state.handlers })
  | .finished number, state =>
    some ((), { state with handlers := state.handlers.filter fun entry => entry.1 != number })

def perform (chance : Chance) : Handler LifeOp LifeOp.Reply State
  | op, state => if state.fault.isSome then none else serve chance op state

abbrev Life (α : Type) := Program LifeOp LifeOp.Reply α

def call (op : LifeOp) : Life op.Reply := ask op

def inDriver {α : Type} (program : Driver α) : Life α := program.embed .kernel fun _ reply => reply

/-- One handle from `open` to `release`; a handle that could not be opened is given up. -/
def session (file : Nat) : Life Int := do
  let result ← inDriver (driverOpen file)
  if result = 0 then
    call (.lend file)
    call (.withdraw file)
    let _ ← inDriver (driverClose file)
  return result

def caller (w file number : Nat) (cmd : BitVec 32) (arg : BitVec w) : Life Int := do
  call (.enter file number)
  let result ← inDriver (driverUnioctl w file cmd arg)
  call (.leave file number)
  return result

def interrupt (number : Nat) : Life Unit := do
  let data ← call (.entered number)
  inDriver (rIrqHandler data)
  call (.finished number)

abbrev Result : LifeThread → Type
  | .session _ => Int
  | .caller _ _ => Int
  | .irq _ => Unit

/-- Any number of handles, of calls on each and of interrupts, from a kernel in
which the driver has no handler yet. -/
def pool (w : Nat) (cmd : Nat → Nat → BitVec 32) (arg : Nat → Nat → BitVec w) (start : Kernel) :
    Pool LifeThread LifeOp LifeOp.Reply State Result where
  threads
    | .session file => session file
    | .caller file number => caller w file number (cmd file number) (arg file number)
    | .irq number => interrupt number
  world := { state := { kernel := { start with irqs := [] } } }

/-- The handle whose session was given the memory at an address last. -/
def owner (log : List (Event LifeThread LifeOp LifeOp.Reply State)) (address : Nat) : Option Nat :=
  log.foldl (fun owner event => match event with
    | ⟨.session file, .kernel .kzalloc, given, _⟩ => if (given : Pointer) = some address then some file else owner
    | _ => owner) none

abbrev LifeWorld := World LifeThread LifeOp LifeOp.Reply State

/-- The two accesses that can go wrong: `driver_open` after a failed `kzalloc`, and
an interrupt between `request_irq` and `sema_init`. -/
def Excused (kernel : Kernel) : KernelOp → Prop
  | .store md member _ => md = none ∧ member = .devicename
  | .up md => (kernel.context md).isSome = true ∧ kernel.semaphore md = none
  | _ => False

def Owns (world : LifeWorld) (file address : Nat) : Prop :=
  owner world.log address = some file ∧ (world.state.kernel.contexts address).isSome = true

end DriverLife
end EthercatSlave
