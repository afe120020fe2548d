import EthercatSlave.SpiBus

/-! What one MainTask cycle amounts to, read off the core memory it finds: the
state the master put the slave in, the image it fetches and the one it sends. -/

namespace EthercatSlave
namespace Lan9252

/-- 32 bytes of the core memory as a process-data buffer. -/
def image (memory : BitVec 16 → Byte) (address : BitVec 16) : ProcBuffer := setParts 0 0 (content memory address 32)

/-- Bit 0 of WDOG_STATUS is clear. -/
def watchdogExpired (memory : BitVec 16 → Byte) : Bool := !(memory Rpi.wdogStatus).getLsbD 0

def operational (memory : BitVec 16 → Byte) : Bool := memory Rpi.alStatusReg0 &&& 0x0F == Rpi.esmOp

/-- The master is not in control of the outputs. -/
def failed (memory : BitVec 16 → Byte) : Bool := watchdogExpired memory || !operational memory

def status (memory : BitVec 16 → Byte) : Byte :=
  if watchdogExpired memory then memory Rpi.alStatusReg0 &&& 0x0F ||| 0x80 else memory Rpi.alStatusReg0 &&& 0x0F

end Lan9252

namespace RpiBase
open Lan9252

/-- The object after a cycle that sends the frame of `slot`. -/
def cycle (object : RpiBase) (slot : Fin qinSize) (memory : BitVec 16 → Byte) : RpiBase :=
  if failed memory then
    { object with bufferOut := 0, bufferIn := object.fromSlaveBufferIn slot }
  else
    { object with
      atomiccounter := object.atomiccounter + 1 + 1
      bufferOut := image memory 0x1000
      bufferOutEthToSlaveBuffer := image memory 0x1000
      bufferIn := object.fromSlaveBufferIn slot }

theorem cycle_published (object : RpiBase) (slot : Fin qinSize) (memory : BitVec 16 → Byte) :
    (object.cycle slot memory).bufferOutEthToSlaveBuffer =
      if failed memory then object.bufferOutEthToSlaveBuffer else image memory 0x1000 := by
  unfold cycle
  split <;> rfl

theorem cycle_curqoutidx (object : RpiBase) (slot : Fin qinSize) (memory : BitVec 16 → Byte) :
    (object.cycle slot memory).curqoutidx = object.curqoutidx := by
  unfold cycle
  split <;> rfl

/-- The object after `frame` was sent into `slot`. -/
def queue (object : RpiBase) (slot : Fin qinSize) (frame : ProcBuffer) : RpiBase :=
  { object with
    fromSlaveBufferIn := Function.update object.fromSlaveBufferIn slot frame
    curqoutidx := object.curqidx
    curqidx := if qinSize ≤ (object.curqidx + 1).toNat then 0 else object.curqidx + 1 }

end RpiBase

/-- The master has made `memory` of the core memory. -/
def Machine.facing (machine : Machine Lan9252) (memory : BitVec 16 → Byte) : Machine Lan9252 :=
  { machine with device := { machine.device with chip := { machine.device.chip with memory } } }

/-- A run of MainTask cycles, each with the core memory it finds. -/
def Cycles : List (BitVec 16 → Byte) → Machine Lan9252 → Machine Lan9252 → Prop
  | [], before, after => after = before
  | memory :: cycles, before, after => ∃ status middle,
      Eval lan9252.perform Rpi.mainTask (before.facing memory) status middle ∧ Cycles cycles middle after

/-- What the application receives after these cycles. -/
def Delivers (start : Machine Lan9252) (cycles : List (BitVec 16 → Byte)) (delivered : ProcBuffer) : Prop :=
  ∃ reached after, Cycles cycles start reached ∧ Eval lan9252.perform Rpi.receiveInput reached delivered after

/-- What a cycle finds: the core memory the master has made and the queue the
application has filled. -/
structure Found where
  memory : BitVec 16 → Byte
  frames : Fin qinSize → ProcBuffer
  slot : Fin qinSize

def Found.operational (found : Found) : Bool := !Lan9252.failed found.memory

def Machine.finding (machine : Machine (Recorded Lan9252)) (found : Found) : Machine (Recorded Lan9252) where
  object := { machine.object with fromSlaveBufferIn := found.frames, curqoutidx := BitVec.ofNat 32 found.slot }
  device := ⟨{ machine.device.device with chip := { machine.device.device.chip with memory := found.memory } },
    machine.device.trace⟩
  stack := machine.stack

/-- Cycles on a bus that is being recorded. -/
inductive Cycled (start : Machine (Recorded Lan9252)) : List Found → Machine (Recorded Lan9252) → Prop where
  | start : Cycled start [] start
  | cycle {cycles : List Found} {before after : Machine (Recorded Lan9252)} {found : Found} {status : Byte} :
      Cycled start cycles before → Eval lan9252.recorded.perform Rpi.mainTask (before.finding found) status after →
      Cycled start (cycles ++ [found]) after

/-- What a cycle must leave after `cycles`, of which `found` was the last. The frame
goes to 0x1200 of the core memory, through the FIFO at 0x0020; the image comes from
0x1000, through the one at 0x0000. -/
structure AfterCycle (cycles : List Found) (found : Found) (before : Machine (Recorded Lan9252)) (status : Byte)
    (after : Machine (Recorded Lan9252)) : Prop where
  counter : after.object.atomiccounter = BitVec.ofNat 32 (2 * cycles.countP Found.operational)
  even : after.object.atomiccounter.toNat % 2 = 0
  output : after.object.bufferOut = if found.operational then Lan9252.image found.memory 0x1000 else 0
  transfers : ∃ (made fetches : List Transaction) (sends : Transaction),
    after.device.trace = before.device.trace ++ made.flatMap Transaction.wire ∧
    made.filter (fun transaction => decide transaction.Burst) = fetches ++ [sends] ∧
    sends.command = Rpi.commSpiWrite ∧ sends.address = 0x0020 ∧
    sends.sent = (List.range 32).map (byte (found.frames found.slot)) ∧
    if found.operational then
      ∃ fetch : Transaction, fetches = [fetch] ∧ fetch.command = Rpi.commSpiRead ∧ fetch.address = 0x0000
    else fetches = []
  input : after.device.device.chip.memory =
    Lan9252.overwrite found.memory 0x1200 32 (byte (found.frames found.slot))
  state : status &&& 0x0F = found.memory Rpi.alStatusReg0 &&& 0x0F
  reserved : status &&& 0x70 = 0
  watchdog : status.getLsbD 7 = Lan9252.watchdogExpired found.memory

end EthercatSlave
