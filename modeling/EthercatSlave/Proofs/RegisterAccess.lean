import EthercatSlave.Lan9252
import EthercatSlave.Proofs.Accesses
import Mathlib.Tactic.IntervalCases

/-! Register accesses against the LAN9252. Each function of the code is shown to
act on the chip as one register operation, so that nothing above this module
looks at the bytes on the bus. -/

namespace EthercatSlave.Proofs.RegisterAccess
open Program Rpi Lan9252 Accesses

variable (object : RpiBase) (stack : Nat → BitVec 32) (bus : Bus) (chip : Chip)

theorem address_bytes (address : BitVec 16) : (byte address 1 ++ byte address 0 : BitVec 16) = address := by
  apply BitVec.eq_of_getLsbD_eq
  intro bit inside
  rw [BitVec.getLsbD_append]
  split
  next small => rw [getLsbD_part]; simp [small]
  next large =>
    simp only [getLsbD_part, show bit - 8 < 8 by omega, decide_true, Bool.true_and]
    congr 1
    omega

theorem word_bytes (word data : BitVec 32) :
    setParts word 0 [byte data 0, byte data 1, byte data 2, byte data 3] = data := by
  apply eq_of_parts 8 4 (by decide)
  intro index inside
  rw [part_setParts _ _ _ _ (by simp)]
  interval_cases index <;> rfl

private theorem select_low (lan : Lan9252) : lan9252.select .low lan = ⟨.command, lan.chip⟩ := rfl

private theorem select_high (lan : Lan9252) : lan9252.select .high lan = ⟨.released, lan.chip⟩ := rfl

private theorem command_read :
    lan9252.transfer commSpiRead ⟨.command, chip⟩ = (0xFF, ⟨.addressHigh true, chip⟩) := rfl

private theorem command_write :
    lan9252.transfer commSpiWrite ⟨.command, chip⟩ = (0xFF, ⟨.addressHigh false, chip⟩) := rfl

private theorem address_high (read : Bool) (data : Byte) :
    lan9252.transfer data ⟨.addressHigh read, chip⟩ = (0xFF, ⟨.addressLow read data, chip⟩) := rfl

private theorem address_low (read : Bool) (address : BitVec 16) :
    lan9252.transfer (byte address 0) ⟨.addressLow read (byte address 1), chip⟩ =
      (0xFF, addressed read address chip) := by
  simp only [lan9252, exchange, address_bytes]

private theorem reading (data : Byte) (value : BitVec 32) (index : Nat) :
    lan9252.transfer data ⟨.reading value index, chip⟩ = (byte value index, ⟨.reading value (index + 1), chip⟩) := rfl

/-- `Write_Reg` is one register write, whatever state the last transaction left the bus in. -/
theorem writeReg_eval (address : BitVec 16) (data : BitVec 32) (direct : address ≠ 0x0020) :
    Eval lan9252.perform (writeReg address data) ⟨object, ⟨bus, chip⟩, stack⟩ ()
      ⟨object, ⟨.released, chip.writeRegister address data⟩, stack⟩ := by
  simp only [writeReg, bind_eq, spiWrite_bind, select_eq, request_bind, pure_bind, select_iff, transfer_iff, select_low,
    command_write, address_high, address_low, addressed, if_neg direct, Bool.false_eq_true, if_false, select_high]
  simp only [lan9252, exchange, List.nil_append, List.cons_append, word_bytes]
  exact .pure

private theorem readBytes_eval (latched result : BitVec 32) (count first : Nat) :
    Eval lan9252.perform (forUp readByte count first result) ⟨object, ⟨.reading latched first, chip⟩, stack⟩
      (setParts result first ((List.range' first count).map (byte latched)))
      ⟨object, ⟨.reading latched (first + count), chip⟩, stack⟩ := by
  induction count generalizing first result with
  | zero => exact .pure
  | succ count ih =>
    simp only [forUp, readByte, bind_eq, spiRead_bind, request_bind, pure_eq, pure_bind, transfer_iff, reading,
      List.range'_succ, List.map_cons, setParts]
    rw [show first + (count + 1) = first + 1 + count by omega]
    exact ih _ _

/-- `Read_Reg` latches one register and returns its low bytes; the others keep
what the local held. -/
theorem readReg_eval (address : BitVec 16) (len : Byte) (direct : address ≠ 0x0000) :
    Eval lan9252.perform (readReg address len) ⟨object, ⟨bus, chip⟩, stack⟩
      (setParts (stack 0) 0 ((List.range' 0 len.toNat).map (byte (chip.readRegister address).1)))
      ⟨object, ⟨.released, (chip.readRegister address).2⟩, fun index => stack (index + 1)⟩ := by
  simp only [readReg, bind_eq, indeterminate_bind, select_bind, spiWrite_bind, pure_eq, indeterminate_iff,
    select_iff, transfer_iff, select_low, command_read, address_high, address_low, addressed, if_neg direct,
    if_true]
  apply (readBytes_eval _ _ _ _ _ _ _).bind
  simp only [select_iff, select_high]
  exact .pure

/-- A four-byte read returns the register. -/
theorem readReg_word (address : BitVec 16) (direct : address ≠ 0x0000) :
    Eval lan9252.perform (readReg address 4) ⟨object, ⟨bus, chip⟩, stack⟩ (chip.readRegister address).1
      ⟨object, ⟨.released, (chip.readRegister address).2⟩, fun index => stack (index + 1)⟩ := by
  have read := readReg_eval object stack bus chip address 4 direct
  rwa [show (List.range' 0 (4 : Byte).toNat) = [0, 1, 2, 3] from rfl, List.map_cons, List.map_cons,
    List.map_cons, List.map_cons, List.map_nil, word_bytes] at read

end EthercatSlave.Proofs.RegisterAccess
