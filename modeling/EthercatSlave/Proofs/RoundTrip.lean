import EthercatSlave.Proofs.ProcessData

/-! A frame on its way to the master and back: the slave's input image in the
core memory is the frame in little-endian order, and a master that loops it
back has the application receive the same four words. -/

namespace EthercatSlave.Proofs.RoundTrip
open Lan9252 ProcessData

theorem overwritten (memory : BitVec 16 → Byte) (address : BitVec 16) (count index : Nat) (data : Nat → Byte)
    (small : count ≤ 65536) (inside : index < count) :
    overwrite memory address count data (address + BitVec.ofNat 16 index) = data index := by
  have offset : (address + BitVec.ofNat 16 index - address).toNat = index := by
    rw [BitVec.add_comm, BitVec.add_sub_cancel, BitVec.toNat_ofNat, Nat.mod_eq_of_lt (by omega)]
  rw [overwrite, offset, if_pos inside]

theorem image_of_bytes (memory : BitVec 16 → Byte) (address : BitVec 16) (frame : ProcBuffer)
    (same : ∀ index < 32, memory (address + BitVec.ofNat 16 index) = byte frame index) :
    image memory address = frame := by
  apply eq_of_parts 8 32 (by decide)
  intro index inside
  exact (image_byte memory address index inside).trans (same index inside)

/-- A sent frame reaches the core memory within one cycle, and comes back
unchanged in the first operational cycle after the master copied it. -/
theorem loop_back (frame : ProcBuffer) (object : RpiBase) (stack : Nat → BitVec 32) (bus : Bus) (chip : Chip)
    (ring : object.curqidx.toNat < qinSize) : ∃ status cycled,
    Eval lan9252.perform (do Rpi.sendOutput frame; Rpi.mainTask) ⟨object, ⟨bus, chip⟩, stack⟩ status cycled ∧
    (∀ word < 4, ∀ index < 8, cycled.device.chip.memory (0x1200 + BitVec.ofNat 16 (8 * word + index)) =
      byte (ul frame word) index) ∧
    ∀ memory, (∀ index < 32, memory (0x1000 + BitVec.ofNat 16 index) =
        cycled.device.chip.memory (0x1200 + BitVec.ofNat 16 index)) →
      operational memory = true → watchdogExpired memory = false → ∃ after,
        Eval lan9252.perform (do let _ ← Rpi.mainTask; Rpi.receiveInput) (cycled.facing memory) frame after := by
  have sent := sendOutput_eval object stack bus chip frame ⟨_, ring⟩ rfl
  obtain ⟨chip', stack', ran, memory'⟩ := mainTask_eval (object.queue ⟨_, ring⟩ frame) stack bus chip ⟨_, ring⟩ rfl
  have queued : (object.queue ⟨_, ring⟩ frame).fromSlaveBufferIn ⟨_, ring⟩ = frame := Function.update_self ..
  rw [queued] at memory'
  refine ⟨_, _, sent.bind ran, fun word low index small => ?_, fun memory copied operates watched => ?_⟩
  · rw [memory', overwritten _ _ _ _ _ (by decide) (by omega)]
    exact (part_part frame 8 8 word index small).symm
  · have whole : image memory 0x1000 = frame := by
      apply image_of_bytes
      intro index inside
      rw [copied index inside, memory', overwritten _ _ _ _ _ (by decide) inside]
    have running : failed memory = false := by
      rw [failed, watched, operates]
      rfl
    obtain ⟨chip'', stack'', ran', _⟩ := mainTask_eval ((object.queue ⟨_, ring⟩ frame).cycle ⟨_, ring⟩ chip.memory)
      stack' .released { chip' with memory } ⟨_, ring⟩ (by rw [RpiBase.cycle_curqoutidx]; rfl)
    have received := receiveInput_eval
      (((object.queue ⟨_, ring⟩ frame).cycle ⟨_, ring⟩ chip.memory).cycle ⟨_, ring⟩ memory) stack'' .released chip''
    rw [RpiBase.cycle_published, running, if_neg (by decide), whole] at received
    exact ⟨_, ran'.bind received⟩

/-- What a master that loops the inputs back makes of the core memory. -/
def loopedBack (memory : BitVec 16 → Byte) (address : BitVec 16) : Byte :=
  if address = 0x0440 then 0x01 else if address = 0x0130 then 0x08 else memory (address + 0x0200)

private theorem loopedBack_operates (memory : BitVec 16 → Byte) :
    operational (loopedBack memory) = true ∧ watchdogExpired (loopedBack memory) = false := by
  have state : loopedBack memory Rpi.alStatusReg0 = 0x08 := rfl
  have dog : loopedBack memory Rpi.wdogStatus = 0x01 := rfl
  rw [operational, watchdogExpired, state, dog]
  decide

theorem loop_back_first : ∃ status cycled after,
    Eval lan9252.perform (do Rpi.sendOutput 0x0123; Rpi.mainTask)
      ⟨RpiBase.construct {}, ⟨.released, .prompt fun _ => 0⟩, fun _ => 0⟩ status cycled ∧
    cycled.device.chip.memory 0x1200 = 0x23 ∧
    Eval lan9252.perform (do let _ ← Rpi.mainTask; Rpi.receiveInput)
      (cycled.facing (loopedBack cycled.device.chip.memory)) 0x0123 after := by
  obtain ⟨status, cycled, ran, bytes, back⟩ := loop_back 0x0123 (RpiBase.construct {}) (fun _ => 0) .released
    (.prompt fun _ => 0) (by decide)
  have copied : ∀ index < 32, loopedBack cycled.device.chip.memory (0x1000 + BitVec.ofNat 16 index) =
      cycled.device.chip.memory (0x1200 + BitVec.ofNat 16 index) := by
    intro index inside
    rw [loopedBack, if_neg (by bv_omega), if_neg (by bv_omega), BitVec.add_assoc,
      BitVec.add_comm (BitVec.ofNat 16 index), ← BitVec.add_assoc]
    rfl
  obtain ⟨operates, watched⟩ := loopedBack_operates cycled.device.chip.memory
  obtain ⟨after, ran'⟩ := back _ copied operates watched
  exact ⟨status, cycled, after, ran, bytes 0 (by decide) 0 (by decide), ran'⟩

end EthercatSlave.Proofs.RoundTrip
