import EthercatSlave.Driver
import EthercatSlave.Interleaving

/-! The driver beside its interrupts. Any number of interrupts, each a thread of
its own, run the registered handler while tasks are in the driver. -/

namespace EthercatSlave
open Program Driver

inductive KernelThread (ι : Type) where
  | task (index : ι)
  | irq (number : Nat)
  deriving DecidableEq

namespace Interrupts

variable {ι : Type}

abbrev Log (ι : Type) := List (Event (KernelThread ι) KernelOp KernelOp.Reply Kernel)

abbrev Result : KernelThread ι → Type
  | .task _ => Int
  | .irq _ => Unit

def pool (tasks : ι → Driver Int) (start : Kernel) : Pool (KernelThread ι) KernelOp KernelOp.Reply Kernel Result where
  threads
    | .task index => tasks index
    | .irq _ => interrupt
  world := { state := start }

/-- The context an interrupt enters the handler with. -/
def entered : Event (KernelThread ι) KernelOp KernelOp.Reply Kernel → Option Pointer
  | ⟨_, .dispatch, data, _⟩ => some data
  | _ => none

def initialises (md : Pointer) : Event (KernelThread ι) KernelOp KernelOp.Reply Kernel → Bool
  | ⟨_, .semaInit data _, _, _⟩ => data == md
  | _ => false

/-- A wait that came back with a unit. -/
def takes (md : Pointer) : Event (KernelThread ι) KernelOp KernelOp.Reply Kernel → Bool
  | ⟨_, .downInterruptible data, err, _⟩ => data == md && err == 0
  | ⟨_, .downTimeout data _, err, _⟩ => data == md && err == 0
  | _ => false

/-- The interrupts that entered the handler with `md` and have returned from it. -/
def handled [DecidableEq ι] (md : Pointer) (pool : Pool (KernelThread ι) KernelOp KernelOp.Reply Kernel Result) : Nat :=
  pool.completed entered md

def taken (md : Pointer) (log : Log ι) : Nat := log.countP (takes md)

def takenBy [DecidableEq ι] (thread : KernelThread ι) (md : Pointer) (log : Log ι) : Nat :=
  log.countP fun event => decide (event.thread = thread) && takes md event

/-- One call of `open`, made while no handler is registered. -/
def opening (file : Nat) (start : Kernel) : Pool (KernelThread Unit) KernelOp KernelOp.Reply Kernel Result :=
  pool (fun _ => driverOpen file) { start with irqs := [] }

/-- No handler is entered before `sema_init` made the semaphore it raises. -/
def Undisturbed (log : Log ι) : Prop :=
  ∀ earlier event later md, log = earlier ++ event :: later → entered event = some md →
    earlier.any (initialises md) = true

/-- No handler is about to raise what is no semaphore, and a handle that has
just been opened counts its interrupts. -/
structure Sound (file : Nat) (pool : Pool (KernelThread Unit) KernelOp KernelOp.Reply Kernel Result) : Prop where
  handlers : ∀ number md, pool.threads (.irq number) = rIrqHandler md → (pool.world.state.semaphore md).isSome = true
  counted : pool.threads (.task ()) = .pure 0 →
    pool.world.state.semaphore (pool.world.state.files file).privateData =
      some (handled (pool.world.state.files file).privateData pool)

/-- Calls of `driver_unioctl` on one handle, each with its own command and argument. -/
def calling (w file : Nat) (cmd : Nat → BitVec 32) (arg : Nat → BitVec w) (start : Kernel) :
    Pool (KernelThread Nat) KernelOp KernelOp.Reply Kernel Result :=
  pool (fun index => driverUnioctl w file (cmd index) (arg index)) start

/-- No unit is lost or taken twice, and a call reports whether it took one. -/
structure Conserved (md : Pointer) (cmd : Nat → BitVec 32)
    (pool : Pool (KernelThread Nat) KernelOp KernelOp.Reply Kernel Result) : Prop where
  pending : ∃ units, pool.world.state.semaphore md = some units ∧
    units + taken md pool.world.log = handled md pool
  takers : ∀ event ∈ pool.world.log, takes md event = true → ∃ index, event.thread = .task index ∧
    (iocNr (cmd index) = irqmoddevWaitIrq ∨ iocNr (cmd index) = irqmoddevDownTimeout)
  once : ∀ index, takenBy (.task index) md pool.world.log ≤ 1
  returns : ∀ index, 0 < takenBy (.task index) md pool.world.log → pool.threads (.task index) = .pure (0 : Int)
  reported : ∀ index (result : Int), pool.threads (.task index) = .pure result →
    takenBy (.task index) md pool.world.log = if result = 0 then 1 else 0

end Interrupts
end EthercatSlave
