import EthercatSlave.Interrupts
import EthercatSlave.Shield

/-! The test program of the driver. It waits for interrupts on a handle of its own
and prints how many it counted. `usleep` and the other messages change nothing. -/

namespace EthercatSlave

inductive TestOp where
  | kernel (op : KernelOp)
  | printed (i : BitVec 64)
  | usleep (usec : Nat)

abbrev TestOp.Reply : TestOp → Type
  | .kernel op => op.Reply
  | _ => Unit

abbrev Test (α : Type) := Program TestOp TestOp.Reply α

namespace UserSpaceTest
open Program Driver

def perform (chance : Chance) : Handler TestOp TestOp.Reply Kernel
  | .kernel op, kernel => Kernel.perform chance op kernel
  | .printed _, kernel => some ((), kernel)
  | .usleep _, kernel => some ((), kernel)

def call (op : TestOp) : Test op.Reply := ask op

def inDriver {α : Type} (program : Driver α) : Test α := program.embed .kernel fun _ reply => reply

/-- The bare number is a command without a parameter. -/
def waitIrq : BitVec 32 := BitVec.ofNat 32 irqmoddevWaitIrq

variable (w file : Nat) (unset : BitVec 64 → BitVec w)

/-- `if (err == 0) { ... }`. The second `ioctl` is given no argument: `unset` is what it finds in its place. -/
def countOne (i : BitVec 64) (err : Int) : Test (BitVec 64) :=
  if err = 0 then do
    let _ ← inDriver (driverUnioctl w file waitIrq (unset i))
    call (.printed (i + 1))
    return i + 1
  else
    return i

def round (i : BitVec 64) : Test (BitVec 64) := do
  let err ← inDriver (driverUnioctl w file Shield.irqmodDownTimeout 100)
  let i ← countOne w file unset i err
  call (.usleep 10000)
  return i

/-- `while (true)`: nothing comes after the loop. -/
def countAll : Test Int := do
  let _ ← whileDo (fun _ => true) (round w file unset) 0
  return 0

def main : Test Int := do
  let dev ← inDriver (driverOpen file)
  if dev = 0 then
    countAll w file unset
  else
    return -1

/-- The program beside any number of interrupts; `open` is called with `O_RDWR`. -/
def pool (start : Kernel) : Pool (KernelThread Unit) TestOp TestOp.Reply Kernel Interrupts.Result where
  threads
    | .task _ => main w file unset
    | .irq _ => inDriver interrupt
  world := { state := start.setFile file { fMode := 3 } }

abbrev Log := List (Event (KernelThread Unit) TestOp TestOp.Reply Kernel)

def inKernel : Event (KernelThread Unit) TestOp TestOp.Reply Kernel →
    Option (Event (KernelThread Unit) KernelOp KernelOp.Reply Kernel)
  | ⟨thread, .kernel op, reply, state⟩ => some ⟨thread, op, reply, state⟩
  | _ => none

def kernelLog (log : Log) : Interrupts.Log Unit := log.filterMap inKernel

def printing : Event (KernelThread Unit) TestOp TestOp.Reply Kernel → Option (BitVec 64)
  | ⟨_, .printed i, _, _⟩ => some i
  | _ => none

def printed (log : Log) : List (BitVec 64) := log.filterMap printing

/-- 1, 2, ... as an `unsigned long long`. -/
def numbers (count : Nat) : List (BitVec 64) := (List.range count).map fun index => BitVec.ofNat 64 (index + 1)

/-- A wait of `IRQMODDEV_WAIT_IRQ` that a signal ended. -/
def breaks (md : Pointer) : Event (KernelThread Unit) KernelOp KernelOp.Reply Kernel → Bool
  | ⟨_, .downInterruptible data, err, _⟩ => data == md && err != 0
  | _ => false

def broken (md : Pointer) (log : Interrupts.Log Unit) : Nat := log.countP (breaks md)

/-- `open` has made the semaphore. -/
def opened (md : Pointer) (log : Log) : Bool := (kernelLog log).any (Interrupts.initialises md)

/-- The interrupts that entered the handler with `md` and have returned from it. -/
def handled (md : Pointer) (pool : Pool (KernelThread Unit) TestOp TestOp.Reply Kernel Interrupts.Result) : Nat :=
  pool.completed (fun event => (inKernel event).bind Interrupts.entered) md

end UserSpaceTest
end EthercatSlave
