import EthercatSlave.CoreMemory
import EthercatSlave.Cycle

/-! What the object is for: an exchange between the application and the master
over the core memory of the chip. The application leaves frames and picks up
images, every cycle moves one of each, and the master changes the memory at
will. Buses, FIFOs, polls, indices and counters do not appear. -/

namespace EthercatSlave
open Lan9252

structure Exchange where
  queued : ProcBuffer
  published : ProcBuffer
  memory : BitVec 16 → Byte

namespace Exchange

/-- The calls on the object in any order, and what the master does in between. -/
inductive Action where
  | send (frame : ProcBuffer)
  | receive
  | cycle
  | read (address : CoreMemory.Address) (len : CoreMemory.Len)
  | write (address : CoreMemory.Address) (data : BitVec 32)
  | master (change : (BitVec 16 → Byte) → BitVec 16 → Byte)

inductive Answer where
  | done
  | image (image : ProcBuffer)
  | status (status : Byte)
  | bytes (bytes : List Byte)
  deriving DecidableEq

def serve : Action → Exchange → Answer × Exchange
  | .send frame, exchange => (.done, { exchange with queued := frame })
  | .receive, exchange => (.image exchange.published, exchange)
  | .cycle, exchange => (.status (status exchange.memory), { exchange with
      published := if failed exchange.memory then exchange.published else image exchange.memory 0x1000
      memory := overwrite exchange.memory 0x1200 32 (byte exchange.queued) })
  | .read address len, exchange => (.bytes (content exchange.memory address.1 len.count.toNat), exchange)
  | .write address data, exchange =>
    (.done, { exchange with memory := overwrite exchange.memory address.1 4 (byte data) })
  | .master change, exchange => (.done, { exchange with memory := change exchange.memory })

/-- The same actions on the object and the chip. Of a register read only the bytes
asked for count. -/
def Performs : Action → Machine Lan9252 → Answer → Machine Lan9252 → Prop
  | .send frame, before, answer, after =>
    answer = .done ∧ Eval lan9252.perform (Rpi.sendOutput frame) before () after
  | .receive, before, answer, after =>
    ∃ image, answer = .image image ∧ Eval lan9252.perform Rpi.receiveInput before image after
  | .cycle, before, answer, after =>
    ∃ status, answer = .status status ∧ Eval lan9252.perform Rpi.mainTask before status after
  | .read address len, before, answer, after =>
    ∃ value, answer = .bytes ((List.range len.count.toNat).map (byte value)) ∧
      Eval lan9252.perform (Rpi.readRegWait address.1 len.count) before value after
  | .write address data, before, answer, after =>
    answer = .done ∧ Eval lan9252.perform (Rpi.writeRegWait address.1 data) before () after
  | .master change, before, answer, after =>
    answer = .done ∧ after = before.facing (change before.device.chip.memory)

/-- The frame in the slot that is handed over. -/
def current (object : RpiBase) : ProcBuffer :=
  if inside : object.curqoutidx.toNat < qinSize then object.fromSlaveBufferIn ⟨_, inside⟩ else 0

/-- Both indices select a slot. -/
def InRing (object : RpiBase) : Prop := object.curqidx.toNat < qinSize ∧ object.curqoutidx.toNat < qinSize

/-- The frame the next cycle sends, the image the application would receive and
the core memory. -/
def view (machine : Machine Lan9252) : Exchange where
  queued := current machine.object
  published := machine.object.bufferOutEthToSlaveBuffer
  memory := machine.device.chip.memory

end Exchange
end EthercatSlave
