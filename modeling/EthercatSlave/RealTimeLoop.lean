import EthercatSlave.Shield
import EthercatSlave.Stattool

/-! The real-time loop of the shield: wait for an interrupt, run one cycle and
measure it. -/

namespace EthercatSlave

/-- The measured times, in nanoseconds, and the number of cycles. -/
inductive Timer where
  | lastruntime
  | laststart
  | count
  deriving DecidableEq

inductive Tool where
  | runtime
  | period
  deriving DecidableEq

/-- `gpio` is the output an oscilloscope watches; `calc` is `stattool::calc`. -/
inductive LoopOp (K : Type) where
  | shield (op : ShieldOp)
  | getns
  | gpio (level : Level)
  | load (timer : Timer)
  | store (timer : Timer) (value : BitVec 64)
  | calc (tool : Tool) (value : K)

abbrev LoopOp.Reply {K : Type} : LoopOp K → Type
  | .shield op => op.Reply
  | .getns => BitVec 64
  | .load _ => BitVec 64
  | _ => Unit

abbrev Loop (K α : Type) := Program (LoopOp K) LoopOp.Reply α

/-- What the loop's thread works on. `clock` and `ioctl` supply what the next
readings of the clock show and what the next waits return. -/
structure Station (K δ : Type) where
  board : Board δ
  timers : Timer → BitVec 64
  tools : Tool → Statbuffer K
  clock : Nat → BitVec 64
  ioctl : Nat → Int := fun _ => 0

namespace Station

variable {K δ : Type} [Measure K]

/-- What the constructors leave of the object's memory. -/
def construct (station : Station K δ) : Station K δ :=
  { station with
    board := station.board.construct
    timers := fun _ => 0
    tools := fun tool => (station.tools tool).reset }

def perform (device : Device δ) : Handler (LoopOp K) LoopOp.Reply (Station K δ)
  | .shield (.ioctl ..), station => some (station.ioctl 0,
      { station with ioctl := fun index => station.ioctl (index + 1) })
  | .shield op, station => (station.board.perform device {} op).map fun (reply, board) =>
      (reply, { station with board })
  | .getns, station => some (station.clock 0, { station with clock := fun index => station.clock (index + 1) })
  | .gpio _, station => some ((), station)
  | .load timer, station => some (station.timers timer, station)
  | .store timer value, station => some ((), { station with timers := Function.update station.timers timer value })
  | .calc tool value, station =>
    some ((), { station with tools := Function.update station.tools tool ((station.tools tool).calcOne value) })

end Station

namespace RealTimeLoop
open Program

variable {K : Type}

def call (op : LoopOp K) : Loop K op.Reply := ask op

-- the reply type reduces once the call is known, so it is no key for the rewriting
@[simp] theorem call_bind {α : Type} (op : LoopOp K) (next : op.Reply → Loop K α) :
    @Program.bind _ _ (no_index op.Reply) α (call op) next = .request op next := rfl

def shield {α : Type} (program : Shield α) : Loop K α := program.embed .shield fun _ reply => reply

variable [Measure K]

/-- The first two cycles have no period to measure. -/
def recordTimes (startRun : BitVec 64) : Loop K Unit := do
  let count ← call (.load .count)
  if 1 < count then
    let laststart ← call (.load .laststart)
    let lastruntime ← call (.load .lastruntime)
    call (.calc .runtime (Measure.double lastruntime * 1E-3))
    call (.calc .period (Measure.double (startRun - laststart) * 1E-6))

/-- One round of the loop. The error of the wait is not looked at. -/
def iteration : Loop K Unit := do
  let _ ← shield (Shield.waitforirqOrTimeout 100)
  let startRun ← call .getns
  call (.gpio .high)
  let _ ← shield (Shield.base Rpi.mainTask)
  call (.gpio .low)
  let endRun ← call .getns
  call (.store .lastruntime (endRun - startRun))
  recordTimes startRun
  let count ← call (.load .count)
  call (.store .count (count + 1))
  call (.store .laststart startRun)

def executeFromthread : Loop K Unit := loop iteration fun _ => true

/-- What the clock shows when a round starts and when it ends. -/
def startOf (clock : Nat → BitVec 64) (round : Nat) : Nat := (clock (2 * round)).toNat
def endOf (clock : Nat → BitVec 64) (round : Nat) : Nat := (clock (2 * round + 1)).toNat

/-- The readings of these rounds do not decrease. -/
def Nondecreasing (rounds : Nat) (clock : Nat → BitVec 64) : Prop :=
  ∀ reading, reading + 1 < 2 * rounds → clock reading ≤ clock (reading + 1)

/-- The statistics are those of all rounds but the first two. -/
structure Tiles {δ : Type} (clock : Nat → BitVec 64) (rounds : Nat) (station : Station ℝ δ) : Prop where
  counted : ∀ tool, (station.tools tool).count.toNat = rounds - 2
  period : station.tools .period = Statbuffer.zero.calcAll ((List.range (rounds - 2)).map fun sample =>
    ((startOf clock (sample + 2) : ℝ) - startOf clock (sample + 1)) * 1E-6)
  runtime : station.tools .runtime = Statbuffer.zero.calcAll ((List.range (rounds - 2)).map fun sample =>
    ((endOf clock (sample + 2) : ℝ) - startOf clock (sample + 2)) * 1E-3)
  covered : 3 ≤ rounds → (station.tools .period).vmean * (rounds - 2 : Nat) =
    ((startOf clock (rounds - 1) : ℝ) - startOf clock 1) * 1E-6
  busy : 3 ≤ rounds → (station.tools .runtime).vmean * (rounds - 2 : Nat) ≤
    ((endOf clock (rounds - 1) : ℝ) - startOf clock 2) * 1E-3

end RealTimeLoop
end EthercatSlave
