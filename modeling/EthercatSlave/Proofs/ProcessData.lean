import EthercatSlave.Cycle
import EthercatSlave.Proofs.IndirectAccess

/-! The process-data transfers on a LAN9252 and the cycle made of them. Polling
ends because every transfer is ready after finitely many answers; the byte and
word loops then move one 32-byte image. -/

namespace EthercatSlave.Proofs.ProcessData
open Program Rpi Lan9252 Accesses RegisterAccess IndirectAccess

variable (object : RpiBase) (stack : Nat → BitVec 32) (bus : Bus) (chip : Chip)

theorem readNotReady_eq (status : BitVec 32) : readNotReady status = !readReady status := by
  simp only [readNotReady, readReady, pramReadAvail, bne, Bool.not_and, Bool.not_not]

theorem writeNotReady_eq (status : BitVec 32) : writeNotReady status = !writeReady status := by
  simp only [writeNotReady, writeReady, pramWriteAvail, bne, Bool.not_and, Bool.not_not, ← decide_not, BitVec.not_le]

/-- Polling a command register ends with the transfer ready. -/
theorem polls_eval {ready notReady : BitVec 32 → Bool} (opposite : ∀ status, notReady status = !ready status)
    (address : BitVec 16) (direct : address ≠ 0x0000) (put : Polls ready → Chip)
    (reads : ∀ polls, (put polls).readRegister address = (polls.next.1, put polls.next.2)) (polls : Polls ready) :
    ∃ status polls' after, Eval lan9252.perform (loop (readReg address 4) notReady)
      ⟨object, ⟨bus, put polls⟩, stack⟩ status ⟨object, ⟨.released, put polls'⟩, after⟩ := by
  let waiting (count : Nat) (machine : Machine Lan9252) : Prop :=
    ∃ bus polls stack, machine = ⟨object, ⟨bus, put polls⟩, stack⟩ ∧ polls.waits.length = count
  let finished (_ : BitVec 32) (machine : Machine Lan9252) : Prop :=
    ∃ polls stack, machine = ⟨object, ⟨.released, put polls⟩, stack⟩
  have more : ∀ count machine, waiting (count + 1) machine → ∃ status following,
      Eval lan9252.perform (readReg address 4) machine status following ∧
        notReady status = true ∧ waiting count following := by
    intro count _ given
    obtain ⟨bus, ⟨waits, last, unready, ready⟩, stack, rfl, length⟩ := given
    have read := readReg_word object stack bus (put ⟨waits, last, unready, ready⟩) address direct
    rw [reads] at read
    cases waits with
    | nil => cases length
    | cons status waits =>
      refine ⟨_, _, read, ?_, _, _, _, rfl, Nat.succ.inj length⟩
      rw [opposite, Polls.next, unready status (List.mem_cons_self ..)]
      rfl
  have done : ∀ machine, waiting 0 machine → ∃ status following,
      Eval lan9252.perform (readReg address 4) machine status following ∧
        notReady status = false ∧ finished status following := by
    intro _ given
    obtain ⟨bus, ⟨waits, last, unready, ready⟩, stack, rfl, length⟩ := given
    have read := readReg_word object stack bus (put ⟨waits, last, unready, ready⟩) address direct
    rw [reads] at read
    cases List.eq_nil_of_length_eq_zero length
    refine ⟨_, _, read, ?_, _, _, rfl⟩
    rw [opposite, Polls.next, ready]
    rfl
  obtain ⟨status, _, ran, polls', after, rfl⟩ := Eval.countdown (fun count _ => waiting count) finished
    (fun count _ => more count) (fun _ => done) polls.waits.length default ⟨object, ⟨bus, put polls⟩, stack⟩
      ⟨bus, polls, stack, rfl, rfl⟩
  exact ⟨status, polls', after, ran⟩

theorem image_byte (memory : BitVec 16 → Byte) (address : BitVec 16) (index : Nat) (inside : index < 32) :
    byte (image memory address) index = memory (address + BitVec.ofNat 16 index) := by
  rw [byte, image, part_setParts _ _ _ _ (by simp [content])]
  simp [content, inside]

theorem overwrite_zero (memory : BitVec 16 → Byte) (address : BitVec 16) (data : Nat → Byte) :
    overwrite memory address 0 data = memory := by
  funext other
  rw [overwrite, if_neg (Nat.not_lt_zero _)]

theorem overwrite_succ (memory : BitVec 16 → Byte) (address : BitVec 16) (count : Nat) (data : Nat → Byte)
    (small : count < 65536) :
    (fun other => if other = address + BitVec.ofNat 16 count then data count
      else overwrite memory address count data other) = overwrite memory address (count + 1) data := by
  funext other
  have offset : other = address + BitVec.ofNat 16 count ↔ (other - address).toNat = count := by
    rw [← BitVec.toNat_inj, BitVec.toNat_add, BitVec.toNat_sub, BitVec.toNat_ofNat, Nat.mod_eq_of_lt small]
    omega
  simp only [overwrite, offset]
  by_cases last : (other - address).toNat = count
  · rw [if_pos last, if_pos (by omega), last]
  · rw [if_neg last]
    congr 1
    exact propext ⟨fun low => by omega, fun low => by omega⟩

private theorem read_fifo :
    (⟨part 16 (0x00201000 : BitVec 32) 0, (part 16 (0x00201000 : BitVec 32) 1).toNat⟩ : Fifo) = ⟨0x1000, 32⟩ := rfl

private theorem write_fifo :
    (⟨part 16 (0x00201200 : BitVec 32) 0, (part 16 (0x00201200 : BitVec 32) 1).toNat⟩ : Fifo) = ⟨0x1200, 32⟩ := rfl

private theorem fifo_read (data : Byte) (offset : BitVec 16) (left : Nat) :
    lan9252.transfer data ⟨.readingFifo, { chip with readFifo := ⟨offset, left + 1⟩ }⟩ =
      (chip.memory offset, ⟨.readingFifo, { chip with readFifo := ⟨offset + 1, left⟩ }⟩) := rfl

private theorem next_offset (address : BitVec 16) (index : Nat) :
    address + BitVec.ofNat 16 index + 1 = address + BitVec.ofNat 16 (index + 1) := by
  rw [BitVec.add_assoc, BitVec.ofNat_add]
  rfl

private theorem receive_eval : Eval lan9252.perform (forUp receiveByte 32 0 ())
    ⟨object, ⟨.readingFifo, { chip with readFifo := ⟨0x1000, 32⟩ }⟩, stack⟩ ()
    ⟨{ object with bufferOut := image chip.memory 0x1000 },
      ⟨.readingFifo, { chip with readFifo := ⟨0x1020, 0⟩ }⟩, stack⟩ := by
  let received (index : Nat) (buffer : ProcBuffer) : Machine Lan9252 := ⟨{ object with bufferOut := buffer },
    ⟨.readingFifo, { chip with readFifo := ⟨0x1000 + BitVec.ofNat 16 index, 32 - index⟩ }⟩, stack⟩
  refine fill 8 32 (image chip.memory 0x1000) rfl (fun _ _ => ()) received (fun index inside buffer => ?_)
    object.bufferOut
  obtain ⟨left, remaining⟩ : ∃ left, 32 - index = left + 1 := ⟨31 - index, by omega⟩
  have writes : RpiBase.write { object with bufferOut := buffer } (.bufferOutByte index)
      (chip.memory (0x1000 + BitVec.ofNat 16 index)) =
        some { object with bufferOut := setPart buffer index (byte (image chip.memory 0x1000) index) } := by
    rw [image_byte _ _ _ inside]
    exact if_pos inside
  simp only [received, remaining, show 32 - (index + 1) = left by omega, receiveByte, bind_eq, spiRead_bind,
    transfer_iff, fifo_read, next_offset]
  exact stored writes

private theorem publish_eval : Eval lan9252.perform (forUp publishWord 4 0 ()) ⟨object, ⟨bus, chip⟩, stack⟩ ()
    ⟨{ object with bufferOutEthToSlaveBuffer := object.bufferOut }, ⟨bus, chip⟩, stack⟩ := by
  let published (_ : Nat) (buffer : ProcBuffer) : Machine Lan9252 :=
    ⟨{ object with bufferOutEthToSlaveBuffer := buffer }, ⟨bus, chip⟩, stack⟩
  refine fill 64 4 object.bufferOut rfl (fun _ _ => ()) published (fun index inside buffer => ?_)
    object.bufferOutEthToSlaveBuffer
  have reads : RpiBase.read { object with bufferOutEthToSlaveBuffer := buffer } (.bufferOut index) =
      some (ul object.bufferOut index) := if_pos inside
  rw [publishWord, bind_eq, load_bind]
  exact (load_iff reads).mpr (stored (if_pos inside))

private theorem take_eval (slot : Fin qinSize) (index : BitVec 32) (selects : index.toNat = slot) :
    Eval lan9252.perform (forUp (takeWord index) 4 0 ()) ⟨object, ⟨bus, chip⟩, stack⟩ ()
      ⟨{ object with bufferIn := object.fromSlaveBufferIn slot }, ⟨bus, chip⟩, stack⟩ := by
  let taken (_ : Nat) (buffer : ProcBuffer) : Machine Lan9252 :=
    ⟨{ object with bufferIn := buffer }, ⟨bus, chip⟩, stack⟩
  refine fill 64 4 (object.fromSlaveBufferIn slot) rfl (fun _ _ => ()) taken (fun word inside buffer => ?_)
    object.bufferIn
  have reads : RpiBase.read { object with bufferIn := buffer } (.fromSlaveBufferIn index word) =
      some (ul (object.fromSlaveBufferIn slot) word) := by
    simp only [RpiBase.read, selects, slot.isLt, inside, dif_pos, if_true]
    rfl
  rw [takeWord, bind_eq, load_bind]
  exact (load_iff reads).mpr (stored (if_pos inside))

private theorem clear_eval : Eval lan9252.perform (forUp clearWord 4 0 ()) ⟨object, ⟨bus, chip⟩, stack⟩ ()
    ⟨{ object with bufferOut := 0 }, ⟨bus, chip⟩, stack⟩ := by
  let cleared (_ : Nat) (buffer : ProcBuffer) : Machine Lan9252 :=
    ⟨{ object with bufferOut := buffer }, ⟨bus, chip⟩, stack⟩
  refine fill 64 4 0 rfl (fun _ _ => ()) cleared (fun index inside buffer => ?_) object.bufferOut
  have zero : part 64 (0 : ProcBuffer) index = 0 := by simp [part]
  rw [zero]
  exact stored (if_pos inside)

theorem increment_eval : Eval lan9252.perform (increment .atomiccounter) ⟨object, ⟨bus, chip⟩, stack⟩ ()
    ⟨{ object with atomiccounter := object.atomiccounter + 1 }, ⟨bus, chip⟩, stack⟩ := by
  rw [increment, bind_eq, load_bind]
  exact (load_iff rfl).mpr (stored rfl)

private theorem send_step (index left : Nat) (inside : index < 32) :
    Eval lan9252.perform (sendByte index ())
      ⟨object, ⟨.writingFifo, { chip with
        memory := overwrite chip.memory 0x1200 index (byte object.bufferIn)
        writeFifo := ⟨0x1200 + BitVec.ofNat 16 index, left + 1⟩ }⟩, stack⟩ ()
      ⟨object, ⟨.writingFifo, { chip with
        memory := overwrite chip.memory 0x1200 (index + 1) (byte object.bufferIn)
        writeFifo := ⟨0x1200 + BitVec.ofNat 16 (index + 1), left⟩ }⟩, stack⟩ := by
  have reads : object.read (.bufferInByte index) = some (byte object.bufferIn index) := if_pos inside
  have pushed : lan9252.transfer (byte object.bufferIn index)
      ⟨.writingFifo, { chip with
        memory := overwrite chip.memory 0x1200 index (byte object.bufferIn)
        writeFifo := ⟨0x1200 + BitVec.ofNat 16 index, left + 1⟩ }⟩ =
      (0xFF, ⟨.writingFifo, { chip with
        memory := overwrite chip.memory 0x1200 (index + 1) (byte object.bufferIn)
        writeFifo := ⟨0x1200 + BitVec.ofNat 16 (index + 1), left⟩ }⟩) := by
    rw [← overwrite_succ _ _ _ _ (by omega), ← next_offset]
    rfl
  rw [sendByte, bind_eq, load_bind]
  refine (load_iff reads).mpr (transfer_iff.mpr ?_)
  rw [pushed]
  exact .pure

private theorem send_eval : Eval lan9252.perform (forUp sendByte 31 0 ())
    ⟨object, ⟨.writingFifo, { chip with writeFifo := ⟨0x1200, 32⟩ }⟩, stack⟩ ()
    ⟨object, ⟨.writingFifo, { chip with
      memory := overwrite chip.memory 0x1200 31 (byte object.bufferIn)
      writeFifo := ⟨0x121F, 1⟩ }⟩, stack⟩ := by
  let sent (index : Nat) (_ : Unit) (machine : Machine Lan9252) : Prop :=
    machine = ⟨object, ⟨.writingFifo, { chip with
      memory := overwrite chip.memory 0x1200 index (byte object.bufferIn)
      writeFifo := ⟨0x1200 + BitVec.ofNat 16 index, 32 - index⟩ }⟩, stack⟩
  have each : ∀ index value machine, 0 ≤ index → index < 0 + 31 → sent index value machine →
      ∃ value' following, Eval lan9252.perform (sendByte index value) machine value' following ∧
        sent (index + 1) value' following := by
    intro index _ _ _ inside same
    subst same
    have step := send_step object stack chip index (31 - index) (by omega)
    rw [show 31 - index + 1 = 32 - index by omega, show 31 - index = 32 - (index + 1) by omega] at step
    exact ⟨_, _, step, rfl⟩
  obtain ⟨_, _, ran, rfl⟩ := Eval.forUp sent 31 0 () _ each rfl
  rwa [overwrite_zero] at ran

/-- A cycle's fetch copies the output image of the core memory into the object. -/
theorem spiReadProcRamFifo_eval : ∃ chip' after,
    Eval lan9252.perform spiReadProcRamFifo ⟨object, ⟨bus, chip⟩, stack⟩ ()
      ⟨{ object with
          atomiccounter := object.atomiccounter + 1 + 1
          bufferOut := image chip.memory 0x1000
          bufferOutEthToSlaveBuffer := image chip.memory 0x1000 }, ⟨.released, chip'⟩, after⟩ ∧
      chip'.memory = chip.memory := by
  let counted : RpiBase := { object with atomiccounter := object.atomiccounter + 1 }
  let fetched : RpiBase := { counted with bufferOut := image chip.memory 0x1000 }
  let ready (polls : Polls readReady) : Chip := { chip with
    readAddrLen := 0x00201000
    readFifo := ⟨0x1000, 32⟩
    readPolls := polls
    schedule := { chip.schedule with read := fun index => chip.schedule.read (index + 1) } }
  have asked := writeReg_eval counted stack bus chip ecatPramRdAddrLen 0x00201000 (by decide)
  have started := writeReg_eval counted stack .released { chip with readAddrLen := 0x00201000 } ecatPramRdCmd
    0x80000000 (by decide)
  have begun : Chip.writeRegister { chip with readAddrLen := 0x00201000 } ecatPramRdCmd 0x80000000 =
      ready (chip.schedule.read 0) := by
    simp only [ready, ← read_fifo]
    rfl
  rw [begun] at started
  obtain ⟨_, polls, after, polled⟩ := polls_eval counted stack .released readNotReady_eq ecatPramRdCmd (by decide)
    ready (fun _ => rfl) (chip.schedule.read 0)
  let emptied : Chip := { ready polls with readFifo := ⟨0x1020, 0⟩ }
  have published := publish_eval fetched after .readingFifo emptied
  have last := increment_eval { fetched with bufferOutEthToSlaveBuffer := image chip.memory 0x1000 } after .released
    emptied
  refine ⟨emptied, after, ?_, rfl⟩
  refine (increment_eval object stack bus chip).bind (asked.bind (started.bind (polled.bind ?_)))
  simp only [bind_eq, select_bind, spiWrite_bind, select_iff, transfer_iff]
  exact (receive_eval counted after (ready polls)).bind (published.bind (select_iff.mpr last))

/-- A cycle's transmission copies the current frame into the core memory. -/
theorem spiWriteProcRamFifo_eval (slot : Fin qinSize) (selects : object.curqoutidx.toNat = slot) : ∃ chip' after,
    Eval lan9252.perform spiWriteProcRamFifo ⟨object, ⟨bus, chip⟩, stack⟩ ()
      ⟨{ object with bufferIn := object.fromSlaveBufferIn slot }, ⟨.released, chip'⟩, after⟩ ∧
      chip'.memory = overwrite chip.memory 0x1200 32 (byte (object.fromSlaveBufferIn slot)) := by
  let taken : RpiBase := { object with bufferIn := object.fromSlaveBufferIn slot }
  let ready (polls : Polls writeReady) : Chip := { chip with
    writeAddrLen := 0x00201200
    writeFifo := ⟨0x1200, 32⟩
    writePolls := polls
    schedule := { chip.schedule with write := fun index => chip.schedule.write (index + 1) } }
  have asked := writeReg_eval taken stack bus chip ecatPramWrAddrLen 0x00201200 (by decide)
  have started := writeReg_eval taken stack .released { chip with writeAddrLen := 0x00201200 } ecatPramWrCmd
    0x80000000 (by decide)
  have begun : Chip.writeRegister { chip with writeAddrLen := 0x00201200 } ecatPramWrCmd 0x80000000 =
      ready (chip.schedule.write 0) := by
    simp only [ready, ← write_fifo]
    rfl
  rw [begun] at started
  obtain ⟨_, polls, after, polled⟩ := polls_eval taken stack .released writeNotReady_eq ecatPramWrCmd (by decide)
    ready (fun _ => rfl) (chip.schedule.write 0)
  have last := send_step taken after (ready polls) 31 0 (by decide)
  refine ⟨{ ready polls with
    memory := overwrite chip.memory 0x1200 32 (byte (object.fromSlaveBufferIn slot))
    writeFifo := ⟨0x1220, 0⟩ }, after, ?_, rfl⟩
  rw [spiWriteProcRamFifo, bind_eq, load_bind]
  refine (load_iff rfl).mpr ((take_eval object stack bus chip slot _ selects).bind
    (asked.bind (started.bind (polled.bind ?_))))
  simp only [bind_eq, select_bind, spiWrite_bind, select_iff, transfer_iff]
  exact (send_eval taken after (ready polls)).bind (last.bind (select_iff.mpr .pure))

private theorem low_bit : ∀ value : Byte, (value &&& 0x01 == 0x01) = value.getLsbD 0 := by decide

private theorem mainTask_eq : mainTask = (readRegWait wdogStatus 1).bind fun dog =>
    (readRegWait alStatusReg0 1).bind fun al =>
      (if !(byte dog 0 &&& 0x01 == 0x01) || !(byte al 0 &&& 0x0F == esmOp) then
        (forUp clearWord 4 0 ()).bind fun _ => spiWriteProcRamFifo
      else spiReadProcRamFifo.bind fun _ => spiWriteProcRamFifo).bind fun _ =>
        .pure (if !(byte dog 0 &&& 0x01 == 0x01) then byte al 0 &&& 0x0F ||| 0x80 else byte al 0 &&& 0x0F) := by
  simp only [mainTask, bind_eq]
  congr 1
  funext dog
  congr 1
  funext al
  split <;> simp only [bind_assoc, pure_eq]

/-- One MainTask cycle, against a chip that may be in any state and may keep
every one of its transfers waiting for any finite number of polls. -/
theorem mainTask_eval (slot : Fin qinSize) (selects : object.curqoutidx.toNat = slot) : ∃ chip' after,
    Eval lan9252.perform mainTask ⟨object, ⟨bus, chip⟩, stack⟩ (status chip.memory)
      ⟨object.cycle slot chip.memory, ⟨.released, chip'⟩, after⟩ ∧
      chip'.memory = overwrite chip.memory 0x1200 32 (byte (object.fromSlaveBufferIn slot)) := by
  obtain ⟨dog, data₁, cmd₁, stack₁, ran₁, dogByte⟩ :=
    readRegWait_eval object stack bus chip wdogStatus 1 (by decide)
  obtain ⟨al, data₂, cmd₂, stack₂, ran₂, alByte⟩ := readRegWait_eval object stack₁ .released
    (accessed chip chip.memory data₁ cmd₁) alStatusReg0 1 (by decide)
  have expired : (!(byte dog 0 &&& 0x01 == 0x01)) = watchdogExpired chip.memory := by
    rw [dogByte 0 (by decide), low_bit, BitVec.add_zero]
    rfl
  have state : byte al 0 = chip.memory alStatusReg0 := by
    rw [alByte 0 (by decide), BitVec.add_zero]
    rfl
  let reached : Chip := accessed (accessed chip chip.memory data₁ cmd₁) chip.memory data₂ cmd₂
  suffices rest : ∃ chip' after, Eval lan9252.perform
      (if failed chip.memory then (forUp clearWord 4 0 ()).bind fun _ => spiWriteProcRamFifo
        else spiReadProcRamFifo.bind fun _ => spiWriteProcRamFifo)
      ⟨object, ⟨.released, reached⟩, stack₂⟩ () ⟨object.cycle slot chip.memory, ⟨.released, chip'⟩, after⟩ ∧
      chip'.memory = overwrite chip.memory 0x1200 32 (byte (object.fromSlaveBufferIn slot)) by
    obtain ⟨chip', after, ran, memory⟩ := rest
    refine ⟨chip', after, ?_, memory⟩
    rw [mainTask_eq]
    refine ran₁.bind (ran₂.bind ?_)
    rw [expired, state]
    exact ran.bind .pure
  by_cases fails : failed chip.memory = true
  · rw [if_pos fails, RpiBase.cycle, if_pos fails]
    obtain ⟨chip', after, sent, memory⟩ :=
      spiWriteProcRamFifo_eval { object with bufferOut := 0 } stack₂ .released reached slot selects
    exact ⟨chip', after, (clear_eval object stack₂ .released reached).bind sent, memory⟩
  · rw [if_neg fails, RpiBase.cycle, if_neg fails]
    obtain ⟨fetched, stack₃, ran₃, same⟩ := spiReadProcRamFifo_eval object stack₂ .released reached
    obtain ⟨chip', after, sent, memory⟩ := spiWriteProcRamFifo_eval
      { object with
        atomiccounter := object.atomiccounter + 1 + 1
        bufferOut := image chip.memory 0x1000
        bufferOutEthToSlaveBuffer := image chip.memory 0x1000 } stack₃ .released fetched slot selects
    rw [same] at memory
    exact ⟨chip', after, ran₃.bind sent, memory⟩

/-- Without interference the application gets the published image at the first attempt. -/
theorem receiveInput_eval : Eval lan9252.perform receiveInput ⟨object, ⟨bus, chip⟩, stack⟩
    object.bufferOutEthToSlaveBuffer ⟨object, ⟨bus, chip⟩, stack⟩ := by
  have copied : Eval lan9252.perform (forUp copyWord 4 0 0) ⟨object, ⟨bus, chip⟩, stack⟩
      object.bufferOutEthToSlaveBuffer ⟨object, ⟨bus, chip⟩, stack⟩ := by
    refine fill 64 4 object.bufferOutEthToSlaveBuffer rfl (fun _ buffer => buffer)
      (fun _ _ => (⟨object, ⟨bus, chip⟩, stack⟩ : Machine Lan9252)) (fun index inside buffer => ?_) 0
    have reads : object.read (.bufferOutEthToSlaveBuffer index) = some (ul object.bufferOutEthToSlaveBuffer index) :=
      if_pos inside
    rw [copyWord, bind_eq, load_bind]
    exact (load_iff reads).mpr .pure
  have attempted : Eval lan9252.perform attempt ⟨object, ⟨bus, chip⟩, stack⟩
      (object.bufferOutEthToSlaveBuffer, false) ⟨object, ⟨bus, chip⟩, stack⟩ := by
    rw [attempt, bind_eq, load_bind]
    refine (load_iff rfl).mpr (copied.bind ((load_iff rfl).mpr ?_))
    change Eval _ (.pure (object.bufferOutEthToSlaveBuffer, object.atomiccounter != object.atomiccounter)) _ _ _
    rw [bne_self_eq_false]
    exact .pure
  exact .leave attempted rfl .pure

/-- Without interference a send puts the frame into the current slot and hands that slot over. -/
theorem sendOutput_eval (frame : ProcBuffer) (slot : Fin qinSize) (selects : object.curqidx.toNat = slot) :
    Eval lan9252.perform (sendOutput frame) ⟨object, ⟨bus, chip⟩, stack⟩ ()
      ⟨object.queue slot frame, ⟨bus, chip⟩, stack⟩ := by
  let queued (_ : Nat) (buffer : ProcBuffer) : Machine Lan9252 :=
    ⟨{ object with fromSlaveBufferIn := Function.update object.fromSlaveBufferIn slot buffer }, ⟨bus, chip⟩, stack⟩
  have start : queued 0 (object.fromSlaveBufferIn slot) = ⟨object, ⟨bus, chip⟩, stack⟩ := by
    simp only [queued, Function.update_eq_self]
  have copied : Eval lan9252.perform (forUp (queueWord frame) 4 0 ()) ⟨object, ⟨bus, chip⟩, stack⟩ ()
      (queued 4 frame) := by
    rw [← start]
    refine fill 64 4 frame rfl (fun _ _ => ()) queued (fun word inside buffer => ?_) (object.fromSlaveBufferIn slot)
    have writes : (queued word buffer).object.write (.fromSlaveBufferIn object.curqidx word) (ul frame word) =
        some (queued (word + 1) (setPart buffer word (ul frame word))).object := by
      simp only [RpiBase.write, selects, slot.isLt, inside, dif_pos, if_true, queued, Function.update_self,
        Function.update_idem]
      rfl
    rw [queueWord, bind_eq, load_bind]
    exact (load_iff rfl).mpr (stored writes)
  let advanced : RpiBase := { (queued 4 frame).object with
    curqoutidx := object.curqidx
    curqidx := object.curqidx + 1 }
  have wrapped : Eval lan9252.perform
      (if qinSize ≤ (object.curqidx + 1).toNat then store .curqidx 0 else .pure ()) ⟨advanced, ⟨bus, chip⟩, stack⟩ ()
      ⟨object.queue slot frame, ⟨bus, chip⟩, stack⟩ := by
    unfold RpiBase.queue
    split
    next => exact stored rfl
    next => exact .pure
  refine copied.bind ?_
  simp only [bind_eq, load_bind, store_bind, request_bind, increment]
  exact (load_iff rfl).mpr ((store_iff rfl).mpr ((load_iff rfl).mpr ((store_iff rfl).mpr
    ((load_iff rfl).mpr wrapped))))

end EthercatSlave.Proofs.ProcessData
