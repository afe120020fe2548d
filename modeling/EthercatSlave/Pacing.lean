import EthercatSlave.Interrupts
import EthercatSlave.RealTimeLoop

/-! The real-time loop on top of the driver it waits for, beside the interrupts.
A wait enters the driver; all other requests of the loop stay as they are. -/

namespace EthercatSlave
open Program Interrupts

inductive SystemOp (K : Type) where
  | loop (op : LoopOp K)
  | kernel (op : KernelOp)

abbrev SystemOp.Reply {K : Type} : SystemOp K → Type
  | .loop op => op.Reply
  | .kernel op => op.Reply

structure System (K δ : Type) where
  station : Station K δ
  kernel : Kernel := {}

/-- What a step may meet. `passing` nanoseconds go by before it. -/
structure Moment where
  chance : Chance := {}
  passing : Nat := 0

def Kernel.later (kernel : Kernel) (passing : Nat) : Kernel := { kernel with now := kernel.now + passing }

namespace System

variable {K δ : Type} [Measure K]

def perform (device : Device δ) (moment : Moment) : Handler (SystemOp K) SystemOp.Reply (System K δ)
  | .loop op, system => (system.station.perform device op).map fun (reply, station) =>
    (reply, ⟨station, system.kernel.later moment.passing⟩)
  | .kernel op, system =>
    (Kernel.perform moment.chance op (system.kernel.later moment.passing)).map fun (reply, kernel) =>
      (reply, ⟨system.station, kernel⟩)

end System

namespace Pacing

variable {K δ : Type}

/-- A descriptor stands for its file. On this machine `unsigned long` has 64 bits. -/
def entering : (op : LoopOp K) → Program (SystemOp K) SystemOp.Reply op.Reply
  | .shield (.ioctl handle cmd arg) =>
    (Driver.driverUnioctl 64 handle.toNat cmd arg).embed .kernel fun _ reply => reply
  | op => ask (SystemOp.loop op)

abbrev Result : KernelThread Unit → Type := fun _ => Unit

/-- The loop beside any number of interrupts. -/
def pool [Measure K] (system : System K δ) :
    Pool (KernelThread Unit) (SystemOp K) SystemOp.Reply (System K δ) Result where
  threads
    | .task _ => RealTimeLoop.executeFromthread.expand entering
    | .irq _ => Driver.interrupt.embed .kernel fun _ reply => reply
  world := { state := system }

/-- What `init` leaves when it returns 0: a handle opened for writing, whose
semaphore counts the interrupts handled so far. -/
structure Initialised (system : System K δ) (md : Pointer) (backlog : Nat) : Prop where
  opened : system.station.board.devhndl ≠ -1
  linked : (system.kernel.files system.station.board.devhndl.toNat).privateData = md
  writable : ∀ context, system.kernel.context md = some context → context.wOpen ≠ 0
  semaphore : system.kernel.semaphore md = some backlog
  accessible : system.kernel.accessible 100 4 = true

abbrev Event (K δ : Type) := EthercatSlave.Event (KernelThread Unit) (SystemOp K) SystemOp.Reply (System K δ)

/-- When an access was over. -/
def at_ (event : Event K δ) : Nat := event.state.kernel.now

def consumes (md : Pointer) : Event K δ → Bool
  | ⟨thread, .kernel op, reply, system⟩ => takes md ⟨thread, op, reply, system.kernel⟩
  | _ => false

/-- What of the run happens in the driver. -/
def inKernel : Event K δ → Option (EthercatSlave.Event (KernelThread Unit) KernelOp KernelOp.Reply Kernel)
  | ⟨thread, .kernel op, reply, system⟩ => some ⟨thread, op, reply, system.kernel⟩
  | _ => none

/-- The context an interrupt enters the handler with. -/
def enters (event : Event K δ) : Option Pointer := (inKernel event).bind entered

/-- Since the last call of `MainTask`: the interrupts consumed, and when the wait began. -/
structure Wait where
  units : Nat := 0
  began : Option Nat := none
  deriving DecidableEq

/-- A select window of the loop: when chip select fell, what had come before it and
the bytes sent in it. -/
structure Window where
  fell : Nat
  wait : Wait
  sent : List Byte := []
  deriving DecidableEq

/-- The request for WDOG_STATUS. `MainTask` starts with it, and nothing else sends it. -/
def wdogRequest : List Byte := [0x02, 0x03, 0x04, 0x40, 0x04, 0x01, 0xC0]

/-- `calls` holds the window that each call of `MainTask` began with. -/
structure Observed where
  wait : Wait := {}
  window : Option Window := none
  calls : List Window := []
  deriving DecidableEq

namespace Observed

def send (observed : Observed) (data : Byte) : Observed :=
  match observed.window with
  | none => observed
  | some window =>
    let window := { window with sent := window.sent ++ [data] }
    if window.sent = wdogRequest then { calls := observed.calls ++ [window] }
    else { observed with window := some window }

def note (md : Pointer) (observed : Observed) (event : Event K δ) : Observed :=
  if consumes md event then { observed with wait := { observed.wait with units := observed.wait.units + 1 } }
  else match event with
    | ⟨.task _, .kernel (.privateData _), _, system⟩ =>
      { observed with wait := { observed.wait with began := some system.kernel.now } }
    | ⟨.task _, .loop (.shield (.base (.select .low))), _, system⟩ =>
      { observed with window := some { fell := system.kernel.now, wait := observed.wait } }
    | ⟨.task _, .loop (.shield (.base (.transfer data))), _, _⟩ => observed.send data
    | _ => observed

end Observed

def observe (md : Pointer) (log : List (Event K δ)) : Observed := log.foldl (Observed.note md) {}

/-- The 100 ms of a wait. -/
def period : Nat := 100000000

/-- One interrupt was consumed for this call, or the wait for one took its time. -/
def Due (call : Window) : Prop :=
  call.wait.units = 1 ∨
    (call.wait.units = 0 ∧ ∃ began, call.wait.began = some began ∧ began + period ≤ call.fell)

/-- The calls of `MainTask` made by this time. -/
def callsBy (md : Pointer) (time : Nat) (log : List (Event K δ)) : Nat :=
  (observe md log).calls.countP fun call => decide (call.fell ≤ time)

/-- The interrupts that entered the handler with `md` and have returned from it. -/
def handled (md : Pointer) (pool : Pool (KernelThread Unit) (SystemOp K) SystemOp.Reply (System K δ) Result) : Nat :=
  pool.completed enters md

/-- Those of them that were over by this time. -/
def handledBy (md : Pointer) (time : Nat)
    (pool : Pool (KernelThread Unit) (SystemOp K) SystemOp.Reply (System K δ) Result) : Nat :=
  pool.completedWithin (fun event => decide (at_ event ≤ time)) enters md

/-- `MainTask` is never called without its interrupt or its 100 ms, and no interrupt serves two calls. -/
structure Paced (md : Pointer) (backlog start : Nat)
    (pool : Pool (KernelThread Unit) (SystemOp K) SystemOp.Reply (System K δ) Result) : Prop where
  due : ∀ call ∈ (observe md pool.world.log).calls, Due call
  conserved : ∃ units, pool.world.state.kernel.semaphore md = some units ∧
    units + pool.world.log.countP (consumes md) = backlog + handled md pool
  bounded : ∀ time, callsBy md time pool.world.log ≤ backlog + handledBy md time pool + (time - start) / period

end Pacing
end EthercatSlave
