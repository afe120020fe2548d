import EthercatSlave.CoreMemory
import EthercatSlave.Proofs.RegisterAccess

/-! Indirect accesses through ECAT_CSR_CMD. Polling ends when the chip has acted
on the command, so each call is one access to the core memory. -/

namespace EthercatSlave.Proofs.IndirectAccess
open Program Rpi Lan9252 CoreMemory Accesses RegisterAccess

variable (object : RpiBase) (stack : Nat → BitVec 32) (bus : Bus) (chip : Chip)

theorem csrBusy_eq (status : BitVec 32) : csrBusy status = status.getLsbD 31 := by
  have bits : ∀ value : Byte, (value &&& 0x80 != 0) = value.getLsbD 7 := by decide
  rw [csrBusy, ecatCsrBusy, bits, getLsbD_part]
  rfl

section Command

variable (local_ : BitVec 32) (address : BitVec 16) (len direction : Byte)

private theorem command_byte (index : Nat) : byte (csrCommand local_ address len direction) index =
    ([byte address 0, byte address 1, len, direction][index]?).getD (byte local_ index) := by
  rw [byte, csrCommand, part_setParts _ _ _ _ (by simp)]
  simp

theorem command_address : part 16 (csrCommand local_ address len direction) 0 = address := by
  apply eq_of_parts 8 2 (by decide)
  intro index inside
  have bytes := part_part (csrCommand local_ address len direction) 8 2 0 index inside
  rw [Nat.mul_zero, Nat.zero_add] at bytes
  rw [bytes, show part 8 (csrCommand local_ address len direction) index = _ from command_byte ..]
  interval_cases index <;> rfl

theorem command_size : byte (csrCommand local_ address len direction) 2 = len := by
  rw [command_byte]
  rfl

theorem command_direction (bit : Nat) (inside : bit < 8) :
    (csrCommand local_ address len direction).getLsbD (24 + bit) = direction.getLsbD bit := by
  have top : byte (csrCommand local_ address len direction) 3 = direction := by
    rw [command_byte]
    rfl
  have same := congrArg (fun value : Byte => value.getLsbD bit) top
  simpa only [getLsbD_part, inside, decide_true, Bool.true_and] using same

end Command

theorem execute_idle : chip.execute.csrCmd.getLsbD 31 = false := by
  have done : chip.execute.csrCmd = chip.csrCmd &&& 0x7FFFFFFF := by
    unfold Chip.execute
    split <;> rfl
  rw [done, BitVec.getLsbD_and]
  simp

private theorem poll_waits (busy : chip.csrCmd.getLsbD 31 = true) (wait : Nat) :
    { chip with csrWait := wait + 1 }.readRegister ecatCsrCmd = (chip.csrCmd, { chip with csrWait := wait }) := by
  simp only [Chip.readRegister, ecatCsrCmd, Chip.pollCsr, busy, if_true]
  rfl

private theorem poll_done (busy : chip.csrCmd.getLsbD 31 = true) :
    { chip with csrWait := 0 }.readRegister ecatCsrCmd =
      ({ chip with csrWait := 0 }.execute.csrCmd, { chip with csrWait := 0 }.execute) := by
  simp only [Chip.readRegister, ecatCsrCmd, Chip.pollCsr, busy, if_true]
  rfl

/-- Waiting ends with the command carried out, whatever its number of busy polls. -/
theorem poll_eval (busy : chip.csrCmd.getLsbD 31 = true) :
    ∃ status after, Eval lan9252.perform (loop (readReg ecatCsrCmd 4) csrBusy) ⟨object, ⟨bus, chip⟩, stack⟩
      status ⟨object, ⟨.released, { chip with csrWait := 0 }.execute⟩, after⟩ := by
  let waiting (wait : Nat) (machine : Machine Lan9252) : Prop :=
    ∃ bus stack, machine = ⟨object, ⟨bus, { chip with csrWait := wait }⟩, stack⟩
  let acted (_ : BitVec 32) (machine : Machine Lan9252) : Prop :=
    ∃ stack, machine = ⟨object, ⟨.released, { chip with csrWait := 0 }.execute⟩, stack⟩
  have more : ∀ wait machine, waiting (wait + 1) machine → ∃ status following,
      Eval lan9252.perform (readReg ecatCsrCmd 4) machine status following ∧
        csrBusy status = true ∧ waiting wait following := by
    intro wait _ given
    obtain ⟨bus, stack, rfl⟩ := given
    have read := readReg_word object stack bus { chip with csrWait := wait + 1 } ecatCsrCmd (by decide)
    rw [poll_waits _ busy] at read
    exact ⟨_, _, read, (csrBusy_eq _).trans busy, _, _, rfl⟩
  have done : ∀ machine, waiting 0 machine → ∃ status following,
      Eval lan9252.perform (readReg ecatCsrCmd 4) machine status following ∧
        csrBusy status = false ∧ acted status following := by
    intro _ given
    obtain ⟨bus, stack, rfl⟩ := given
    have read := readReg_word object stack bus { chip with csrWait := 0 } ecatCsrCmd (by decide)
    rw [poll_done _ busy] at read
    exact ⟨_, _, read, (csrBusy_eq _).trans (execute_idle _), _, rfl⟩
  obtain ⟨status, _, ran, after, rfl⟩ := Eval.countdown (fun wait _ => waiting wait) acted (fun wait _ => more wait)
    (fun _ => done) chip.csrWait default ⟨object, ⟨bus, chip⟩, stack⟩ ⟨bus, stack, rfl⟩
  exact ⟨status, after, ran⟩

/-- All that one indirect access leaves changed. -/
def accessed (chip : Chip) (memory : BitVec 16 → Byte) (csrData csrCmd : BitVec 32) : Chip :=
  { chip with memory, csrData, csrCmd, csrWait := 0
              schedule := { chip.schedule with csr := fun index => chip.schedule.csr (index + 1) } }

private theorem command_acts (address : BitVec 16) (len direction : Byte) (local_ : BitVec 32) :
    { chip.writeRegister ecatCsrCmd (csrCommand local_ address len direction) with csrWait := 0 }.execute =
      accessed chip
        (if direction.getLsbD 6 then chip.memory else overwrite chip.memory address len.toNat (byte chip.csrData))
        (if direction.getLsbD 6 then setParts chip.csrData 0 (content chip.memory address len.toNat) else chip.csrData)
        (csrCommand local_ address len direction &&& 0x7FFFFFFF) := by
  have sent : chip.writeRegister ecatCsrCmd (csrCommand local_ address len direction) =
    { chip with csrCmd := csrCommand local_ address len direction, csrWait := chip.schedule.csr 0
                schedule := { chip.schedule with csr := fun index => chip.schedule.csr (index + 1) } } := rfl
  rw [sent, Chip.execute]
  simp only [command_address, command_size, show (30 : Nat) = 24 + 6 from rfl,
    command_direction _ _ _ _ 6 (by decide), accessed]
  split <;> rfl

/-- Sending a command and waiting for the chip is one access to the core memory. -/
theorem command_eval (address : BitVec 16) (len direction : Byte) (local_ : BitVec 32)
    (busy : direction.getLsbD 7 = true) :
    ∃ status after, Eval lan9252.perform
      ((writeReg ecatCsrCmd (csrCommand local_ address len direction)).bind fun _ =>
        loop (readReg ecatCsrCmd 4) csrBusy)
      ⟨object, ⟨bus, chip⟩, stack⟩ status ⟨object, ⟨.released, accessed chip
        (if direction.getLsbD 6 then chip.memory else overwrite chip.memory address len.toNat (byte chip.csrData))
        (if direction.getLsbD 6 then setParts chip.csrData 0 (content chip.memory address len.toNat) else chip.csrData)
        (csrCommand local_ address len direction &&& 0x7FFFFFFF)⟩, after⟩ := by
  obtain ⟨status, after, polled⟩ := poll_eval object stack .released
    (chip.writeRegister ecatCsrCmd (csrCommand local_ address len direction))
    ((command_direction _ _ _ _ 7 (by decide)).trans busy)
  rw [command_acts] at polled
  exact ⟨status, after, (writeReg_eval _ _ _ _ _ _ (by decide)).bind polled⟩

private theorem leading_bytes (word : BitVec 32) (value : Nat → Byte) (count index : Nat) (small : count ≤ 4)
    (inside : index < count) : byte (setParts word 0 ((List.range count).map value)) index = value index := by
  rw [byte, part_setParts _ _ _ _ (by simp; omega)]
  simp [inside]

private theorem readRegWait_eq (address : BitVec 16) (len : Byte) :
    readRegWait address len = .request .indeterminate fun local_ =>
      ((writeReg ecatCsrCmd (csrCommand local_ address len escRead)).bind fun _ =>
        loop (readReg ecatCsrCmd 4) csrBusy).bind fun _ => readReg ecatCsrData len := by
  simp only [readRegWait, bind_eq, indeterminate_bind, bind_assoc]

/-- `Read_Reg_Wait` fetches bytes of the core memory and changes none. -/
theorem readRegWait_eval (address : BitVec 16) (len : Byte) (small : len.toNat ≤ 4) :
    ∃ value csrData csrCmd after, Eval lan9252.perform (readRegWait address len) ⟨object, ⟨bus, chip⟩, stack⟩ value
      ⟨object, ⟨.released, accessed chip chip.memory csrData csrCmd⟩, after⟩ ∧
      ∀ index < len.toNat, byte value index = chip.memory (address + BitVec.ofNat 16 index) := by
  obtain ⟨_, middle, commanded⟩ := command_eval object (fun index => stack (index + 1)) bus chip address len escRead
    (stack 0) (by decide)
  rw [if_pos (by decide), if_pos (by decide)] at commanded
  have fetched := readReg_eval object middle .released (accessed chip chip.memory
    (setParts chip.csrData 0 (content chip.memory address len.toNat))
    (csrCommand (stack 0) address len escRead &&& 0x7FFFFFFF)) ecatCsrData len (by decide)
  rw [readRegWait_eq]
  refine ⟨_, _, _, _, indeterminate_iff.mpr (commanded.bind fetched), fun index inside => ?_⟩
  rw [← List.range_eq_range', leading_bytes _ _ _ _ small inside]
  exact leading_bytes _ _ _ _ small inside

private theorem writeRegWait_eq (address : BitVec 16) (data : BitVec 32) :
    writeRegWait address data = (writeReg ecatCsrData data).bind fun _ => .request .indeterminate fun local_ =>
      ((writeReg ecatCsrCmd (csrCommand local_ address 4 escWrite)).bind fun _ =>
        loop (readReg ecatCsrCmd 4) csrBusy).bind fun _ => .pure () := by
  simp only [writeRegWait, bind_eq, pure_eq, indeterminate_bind, bind_assoc]

/-- `Write_Reg_Wait` puts four bytes into the core memory. -/
theorem writeRegWait_eval (address : BitVec 16) (data : BitVec 32) :
    ∃ csrCmd after, Eval lan9252.perform (writeRegWait address data) ⟨object, ⟨bus, chip⟩, stack⟩ ()
      ⟨object, ⟨.released, accessed chip (overwrite chip.memory address 4 (byte data)) data csrCmd⟩, after⟩ := by
  have held := writeReg_eval object stack bus chip ecatCsrData data (by decide)
  obtain ⟨_, after, commanded⟩ := command_eval object (fun index => stack (index + 1)) .released
    { chip with csrData := data } address 4 escWrite (stack 0) (by decide)
  rw [if_neg (by decide), if_neg (by decide)] at commanded
  rw [writeRegWait_eq]
  exact ⟨_, after, held.bind (indeterminate_iff.mpr (commanded.bind .pure))⟩

private theorem overwrite_within (memory : BitVec 16 → Byte) (address : Address) (data : BitVec 32)
    (other : BitVec 16) : overwrite memory address.1 4 (byte data) other =
      ((Call.write address data).written other).getD (memory other) := by
  have fits : address.1.toNat ≤ 0xFFFC := address.2
  simp only [overwrite, Call.written]
  by_cases covered : address.1.toNat ≤ other.toNat ∧ other.toNat ≤ address.1.toNat + 3
  · have offset : (other - address.1).toNat = other.toNat - address.1.toNat :=
      BitVec.toNat_sub_of_le (BitVec.le_def.mpr covered.1)
    rw [if_pos covered, if_pos (by omega), offset]
    rfl
  · rw [if_neg covered, if_neg (by bv_omega)]
    rfl

/-- A call acts on the core memory as its abstract meaning says. -/
theorem call_eval (call : Call) :
    ∃ reply chip' after, Eval lan9252.perform call.perform ⟨object, ⟨bus, chip⟩, stack⟩ reply
      ⟨object, ⟨.released, chip'⟩, after⟩ ∧
      ∀ other, chip'.memory other = (call.written other).getD (chip.memory other) := by
  cases call with
  | read address len =>
    obtain ⟨value, csrData, csrCmd, after, ran, _⟩ :=
      readRegWait_eval object stack bus chip address.1 len.count len.count_le
    exact ⟨_, _, after, ran.bind .pure, fun _ => rfl⟩
  | write address data =>
    obtain ⟨csrCmd, after, ran⟩ := writeRegWait_eval object stack bus chip address.1 data
    exact ⟨_, _, after, ran.bind .pure, fun other => overwrite_within _ address data other⟩

theorem calls_eval (calls : List Call) :
    ∃ replies bus' chip' after, Eval lan9252.perform (performAll calls) ⟨object, ⟨bus, chip⟩, stack⟩ replies
      ⟨object, ⟨bus', chip'⟩, after⟩ ∧ replies.length = calls.length ∧
      ∀ other, chip'.memory other = (latest calls other).getD (chip.memory other) := by
  induction calls generalizing stack bus chip with
  | nil => exact ⟨_, _, _, _, .pure, rfl, fun _ => rfl⟩
  | cons call calls ih =>
    obtain ⟨reply, chip', middle, ran, effect⟩ := call_eval object stack bus chip call
    obtain ⟨replies, bus'', chip'', after, ran', length, effects⟩ := ih middle .released chip'
    refine ⟨_, _, _, _, ran.bind (ran'.bind .pure), congrArg Nat.succ length, fun other => ?_⟩
    rw [effects, effect, latest_cons]
    cases latest calls other <;> rfl

theorem performAll_append (first second : List Call) :
    performAll (first ++ second) = (performAll first).bind fun replies =>
      (performAll second).bind fun more => .pure (replies ++ more) := by
  induction first with
  | nil => simp only [List.nil_append, performAll, pure_eq, pure_bind, bind_pure]
  | cons call first ih => simp only [List.cons_append, performAll, ih, bind_eq, pure_eq, bind_assoc, pure_bind]

/-- In every sequence of calls, a read returns the bytes of the latest writes that cover them. -/
theorem reads_latest (earlier later : List Call) (address : Address) (len : Len) :
    ∃ replies value more machine, Eval lan9252.perform (performAll (earlier ++ .read address len :: later))
      ⟨object, ⟨bus, chip⟩, stack⟩ (replies ++ some value :: more) machine ∧ replies.length = earlier.length ∧
      ∀ index < len.count.toNat, byte value index =
        (latest earlier (address.1 + BitVec.ofNat 16 index)).getD
          (chip.memory (address.1 + BitVec.ofNat 16 index)) := by
  obtain ⟨replies, bus', chip', middle, before, length, effects⟩ := calls_eval object stack bus chip earlier
  obtain ⟨value, csrData, csrCmd, middle', ran, bytes⟩ :=
    readRegWait_eval object middle bus' chip' address.1 len.count len.count_le
  obtain ⟨more, bus'', chip'', after, afterwards, _, _⟩ :=
    calls_eval object middle' .released (accessed chip' chip'.memory csrData csrCmd) later
  refine ⟨replies, value, more, ⟨object, ⟨bus'', chip''⟩, after⟩, ?_, length, fun index inside =>
    (bytes index inside).trans (effects _)⟩
  rw [performAll_append]
  have reading : Eval lan9252.perform (Call.read address len).perform ⟨object, ⟨bus', chip'⟩, middle⟩ (some value)
      ⟨object, ⟨.released, accessed chip' chip'.memory csrData csrCmd⟩, middle'⟩ := ran.bind .pure
  have rest : Eval lan9252.perform (performAll (.read address len :: later)) ⟨object, ⟨bus', chip'⟩, middle⟩
      (some value :: more) ⟨object, ⟨bus'', chip''⟩, after⟩ := reading.bind (afterwards.bind .pure)
  exact before.bind (rest.bind .pure)

private theorem overwrite_inside (memory : BitVec 16 → Byte) (address : Address) (data : Nat → Byte) (index : Fin 4) :
    overwrite memory address.1 4 data (address.1 + BitVec.ofNat 16 index) = data index := by
  have offset : (address.1 + BitVec.ofNat 16 index - address.1).toNat = index := by
    rw [BitVec.add_comm, BitVec.add_sub_cancel, BitVec.toNat_ofNat, Nat.mod_eq_of_lt (by omega)]
  rw [overwrite, offset, if_pos index.isLt]

private theorem overwrite_outside (memory : BitVec 16 → Byte) (address : Address) (data : Nat → Byte)
    (other : BitVec 16) (outside : ∀ index : Fin 4, other ≠ address.1 + BitVec.ofNat 16 index) :
    overwrite memory address.1 4 data other = memory other := by
  refine if_neg fun inside => outside ⟨_, inside⟩ ?_
  rw [BitVec.ofNat_toNat, BitVec.setWidth_eq, BitVec.add_comm, BitVec.sub_add_cancel]

/-- The indirect accesses implement the core memory: a write changes exactly
its four bytes, a read none, and a read in any sequence of calls sees the latest
writes. Every run ends, whatever the chip's busy polls. -/
theorem implements_memory (object : RpiBase) (stack : Nat → BitVec 32) (bus : Bus) (chip : Chip) :
    (∀ (address : Address) (data : BitVec 32), ∃ chip' after,
      Eval lan9252.perform (writeRegWait address.1 data) ⟨object, ⟨bus, chip⟩, stack⟩ ()
        ⟨object, ⟨.released, chip'⟩, after⟩ ∧
      (∀ index : Fin 4, chip'.memory (address.1 + BitVec.ofNat 16 index) = byte data index) ∧
      ∀ other, (∀ index : Fin 4, other ≠ address.1 + BitVec.ofNat 16 index) →
        chip'.memory other = chip.memory other) ∧
    (∀ (address : Address) (len : Len), ∃ value chip' after,
      Eval lan9252.perform (readRegWait address.1 len.count) ⟨object, ⟨bus, chip⟩, stack⟩ value
        ⟨object, ⟨.released, chip'⟩, after⟩ ∧
      chip'.memory = chip.memory ∧
      ∀ index < len.count.toNat, byte value index = chip.memory (address.1 + BitVec.ofNat 16 index)) ∧
    ∀ (earlier later : List Call) (address : Address) (len : Len), ∃ replies value more machine,
      Eval lan9252.perform (performAll (earlier ++ .read address len :: later)) ⟨object, ⟨bus, chip⟩, stack⟩
        (replies ++ some value :: more) machine ∧
      replies.length = earlier.length ∧
      ∀ index < len.count.toNat, byte value index =
        (latest earlier (address.1 + BitVec.ofNat 16 index)).getD
          (chip.memory (address.1 + BitVec.ofNat 16 index)) := by
  refine ⟨fun address data => ?_, fun address len => ?_, reads_latest object stack bus chip⟩
  · obtain ⟨csrCmd, after, ran⟩ := writeRegWait_eval object stack bus chip address.1 data
    exact ⟨_, after, ran, overwrite_inside chip.memory address (byte data), overwrite_outside _ address _⟩
  · obtain ⟨value, csrData, csrCmd, after, ran, bytes⟩ :=
      readRegWait_eval object stack bus chip address.1 len.count len.count_le
    exact ⟨value, _, after, ran, rfl, bytes⟩

end EthercatSlave.Proofs.IndirectAccess
