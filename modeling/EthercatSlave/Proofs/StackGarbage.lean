import EthercatSlave.Indeterminate
import EthercatSlave.Proofs.Ignoring
import EthercatSlave.Proofs.SpiTraffic

/-! No function looks at a byte that nothing was stored in. A command word is
composed of all its bytes, a four-byte read replaces the whole result, and of a
one-byte read only that byte is used. -/

namespace EthercatSlave.Proofs.StackGarbage
open Program Rpi Shield Indeterminate

variable {δ α : Type} {device : Device δ}

/-- The content of an uninitialised local. -/
def Garbage (op : RpiOp) : Prop := op = .indeterminate

/-- Requests other than that for the content of a local. -/
private def Known (op : RpiOp) : Prop := ¬ Garbage op

private theorem known_select (level : Level) : Known (.select level) := (nomatch ·)
private theorem known_transfer (data : Byte) : Known (.transfer data) := (nomatch ·)
private theorem known_load (cell : Cell) : Known (.load cell) := (nomatch ·)
private theorem known_store (cell : Cell) (value : BitVec cell.width) : Known (.store cell value) := (nomatch ·)

section Registers

theorem writeReg_ignores (address : BitVec 16) (data : BitVec 32) : (writeReg address data).Ignores Garbage := by
  apply Ignores.of_uses
  refine ⟨known_select _, fun _ => ?_⟩
  iterate 7 refine ⟨known_transfer _, fun _ => ?_⟩
  exact ⟨known_select _, fun _ => trivial⟩

/-- The whole result is replaced. -/
theorem readBytes_eq (first second : BitVec 32) : forUp readByte 4 0 first = forUp readByte 4 0 second := by
  simp only [forUp, readByte, bind_eq, pure_eq, spiRead_bind, request_bind, pure_bind]
  congr 1; funext a
  congr 1; funext b
  congr 1; funext c
  congr 1; funext d
  exact congrArg Program.pure (setParts_covering first second [a, b, c, d] rfl)

private theorem readByte_ignores (index : Nat) (result : BitVec 32) : (readByte index result).Ignores Garbage :=
  Ignores.seen (known_transfer _) fun _ => trivial

theorem readReg_ignores (address : BitVec 16) : (readReg address 4).Ignores Garbage := by
  simp only [readReg, bind_eq, indeterminate_bind, select_bind, spiWrite_bind, pure_eq]
  refine ⟨fun _ first second => ?_, fun result => ?_⟩
  · dsimp only
    rw [show (4 : Byte).toNat = 4 from rfl, readBytes_eq first second]
  · refine Ignores.seen (known_select _) fun _ => ?_
    iterate 3 refine Ignores.seen (known_transfer _) fun _ => ?_
    exact Ignores.bind (Ignores.forUp _ _ _ readByte_ignores) fun _ => Ignores.seen (known_select _) fun _ => trivial

/-- A program that uses one byte of what a one-byte read delivers. -/
theorem readReg_bind_ignores (address : BitVec 16) {next : BitVec 32 → Rpi α}
    (rest : ∀ value, (next value).Ignores Garbage)
    (low : ∀ first second, byte first 0 = byte second 0 → next first = next second) :
    ((readReg address 1).bind next).Ignores Garbage := by
  simp only [readReg, bind_eq, indeterminate_bind, select_bind, spiWrite_bind, pure_eq, request_bind, pure_bind,
    show (1 : Byte).toNat = 1 from rfl, forUp, readByte, spiRead_bind]
  refine ⟨fun _ first second => ?_, fun result => ?_⟩
  · have same : ∀ answer : Byte, next (setPart first 0 answer) = next (setPart second 0 answer) := by
      intro answer
      apply low
      rw [byte, byte, part_setPart_self _ _ _ (by decide), part_setPart_self _ _ _ (by decide)]
    simp only [same]
  · refine Ignores.seen (known_select _) fun _ => ?_
    iterate 4 refine Ignores.seen (known_transfer _) fun _ => ?_
    exact Ignores.seen (known_select _) fun _ => rest _

theorem readRegWait_bind_ignores (address : BitVec 16) {next : BitVec 32 → Rpi α}
    (rest : ∀ value, (next value).Ignores Garbage)
    (low : ∀ first second, byte first 0 = byte second 0 → next first = next second) :
    ((readRegWait address 1).bind next).Ignores Garbage := by
  simp only [readRegWait, bind_eq, indeterminate_bind, loop_bind, request_bind]
  refine ⟨fun _ first second => ?_, fun tempLong => ?_⟩
  · dsimp only
    rw [SpiTraffic.csrCommand_eq first, SpiTraffic.csrCommand_eq second]
  · dsimp only
    rw [Program.bind_assoc]
    refine Ignores.bind (writeReg_ignores _ _) fun _ => ⟨fun _ => readReg_ignores _, fun _ => ?_⟩
    exact readReg_bind_ignores ecatCsrData rest low

theorem writeRegWait_ignores (address : BitVec 16) (data : BitVec 32) :
    (writeRegWait address data).Ignores Garbage := by
  simp only [writeRegWait, bind_eq, indeterminate_bind, loop_bind]
  refine Ignores.bind (writeReg_ignores _ _) fun _ => ⟨fun _ first second => ?_, fun tempLong => ?_⟩
  · dsimp only
    rw [SpiTraffic.csrCommand_eq first, SpiTraffic.csrCommand_eq second]
  · exact Ignores.bind (writeReg_ignores _ _) fun _ => ⟨fun _ => readReg_ignores _, fun _ => trivial⟩

end Registers

section Cycles

private theorem sendOutput_known (frame : ProcBuffer) : (sendOutput frame).Uses Known := by
  have queued : (forUp (queueWord frame) 4 0 ()).Uses Known :=
    Uses.forUp 4 0 () fun _ _ => ⟨known_load _, fun _ => ⟨known_store _ _, fun _ => trivial⟩⟩
  simp only [sendOutput, increment, bind_eq, load_bind, store_eq, request_bind, pure_bind, pure_eq]
  refine Uses.bind queued fun _ => ⟨known_load _, fun _ => ⟨known_store _ _, fun _ => ?_⟩⟩
  refine ⟨known_load _, fun _ => ⟨known_store _ _, fun _ => ⟨known_load _, fun _ => ?_⟩⟩⟩
  dsimp only
  split
  · exact ⟨known_store _ _, fun _ => trivial⟩
  · trivial

theorem sendAll_ignores (frames : List ProcBuffer) : (OutputQueue.sendAll frames).Ignores Garbage := by
  induction frames with
  | nil => trivial
  | cons frame frames ih => exact Ignores.bind (Ignores.of_uses (sendOutput_known frame)) fun _ => ih

private theorem increment_ignores (cell : Cell) : (increment cell).Ignores Garbage :=
  Ignores.of_uses ⟨known_load _, fun _ => ⟨known_store _ _, fun _ => trivial⟩⟩

theorem spiReadProcRamFifo_ignores : spiReadProcRamFifo.Ignores Garbage := by
  have received : (forUp receiveByte 32 0 ()).Uses Known :=
    Uses.forUp 32 0 () fun _ _ => ⟨known_transfer _, fun _ => ⟨known_store _ _, fun _ => trivial⟩⟩
  have published : (forUp publishWord 4 0 ()).Uses Known :=
    Uses.forUp 4 0 () fun _ _ => ⟨known_load _, fun _ => ⟨known_store _ _, fun _ => trivial⟩⟩
  have last : (increment .atomiccounter).Uses Known := ⟨known_load _, fun _ => ⟨known_store _ _, fun _ => trivial⟩⟩
  simp only [spiReadProcRamFifo, bind_eq, loop_bind, select_bind, spiWrite_bind]
  refine Ignores.bind (increment_ignores _) fun _ => Ignores.bind (writeReg_ignores _ _) fun _ => ?_
  refine Ignores.bind (writeReg_ignores _ _) fun _ => ⟨fun _ => readReg_ignores _, fun _ => Ignores.of_uses ?_⟩
  refine ⟨known_select _, fun _ => ⟨known_transfer _, fun _ =>
    ⟨known_transfer _, fun _ => ⟨known_transfer _, fun _ => ?_⟩⟩⟩⟩
  exact Uses.bind received fun _ => Uses.bind published fun _ => ⟨known_select _, fun _ => last⟩

theorem spiWriteProcRamFifo_ignores : spiWriteProcRamFifo.Ignores Garbage := by
  have taken : ∀ index, (forUp (takeWord index) 4 0 ()).Uses Known :=
    fun _ => Uses.forUp 4 0 () fun _ _ => ⟨known_load _, fun _ => ⟨known_store _ _, fun _ => trivial⟩⟩
  have sent : ∀ index, (sendByte index ()).Uses Known := fun _ =>
    ⟨known_load _, fun _ => ⟨known_transfer _, fun _ => trivial⟩⟩
  simp only [spiWriteProcRamFifo, bind_eq, loop_bind, load_bind, select_bind, spiWrite_bind]
  refine Ignores.seen (known_load _) fun _ => Ignores.bind (Ignores.of_uses (taken _)) fun _ => ?_
  refine Ignores.bind (writeReg_ignores _ _) fun _ => Ignores.bind (writeReg_ignores _ _) fun _ => ?_
  refine ⟨fun _ => readReg_ignores _, fun _ => Ignores.of_uses ?_⟩
  refine ⟨known_select _, fun _ => ⟨known_transfer _, fun _ =>
    ⟨known_transfer _, fun _ => ⟨known_transfer _, fun _ => ?_⟩⟩⟩⟩
  exact Uses.bind (Uses.forUp 31 0 () fun index _ => sent index) fun _ => Uses.bind (sent 31) fun _ =>
    ⟨known_select _, fun _ => trivial⟩

theorem mainTask_ignores : mainTask.Ignores Garbage := by
  have cleared : (forUp clearWord 4 0 ()).Ignores Garbage :=
    Ignores.of_uses (Uses.forUp 4 0 () fun _ _ => ⟨known_store _ _, fun _ => trivial⟩)
  simp only [mainTask, bind_eq, pure_eq]
  refine readRegWait_bind_ignores wdogStatus (fun watchdog => ?_) fun first second same => by simp only [same]
  refine readRegWait_bind_ignores alStatusReg0 (fun state => ?_) fun first second same => by simp only [same]
  split
  · exact Ignores.bind cleared fun _ => Ignores.bind spiWriteProcRamFifo_ignores fun _ => trivial
  · exact Ignores.bind spiReadProcRamFifo_ignores fun _ => Ignores.bind spiWriteProcRamFifo_ignores fun _ => trivial

end Cycles

section Boards

/-- The same among the requests of the shield. -/
def BoardGarbage (op : ShieldOp) : Prop := op = .base .indeterminate

theorem base_ignores {program : Rpi α} (ignores : program.Ignores Garbage) : (base program).Ignores BoardGarbage := by
  have within : ∀ op, BoardGarbage (.base op) → Garbage op := fun _ hidden => ShieldOp.base.inj hidden
  exact Ignores.embed within ignores

private theorem isResetneeded_ignores : isResetneeded.Ignores BoardGarbage := by
  simp only [isResetneeded, bind_eq, pure_eq]
  refine Ignores.bind (base_ignores (readReg_ignores _)) fun _ => ?_
  split
  · trivial
  · exact Ignores.bind (base_ignores (readReg_ignores _)) fun _ => trivial

private theorem doResetshield_ignores : doResetshield.Ignores BoardGarbage := by
  simp only [doResetshield, bind_eq, call_bind, pure_eq]
  refine Ignores.bind (base_ignores (writeReg_ignores _ _)) fun _ => ⟨(nomatch ·), fun _ => ?_⟩
  refine Ignores.bind (base_ignores (writeReg_ignores _ _)) fun _ => ⟨(nomatch ·), fun _ => ?_⟩
  exact Ignores.bind (base_ignores (readReg_ignores _)) fun _ => trivial

private theorem doInitirq_ignores : doInitirq.Ignores BoardGarbage := by
  simp only [doInitirq, bind_eq, call_bind, pure_eq]
  refine Ignores.bind (base_ignores (writeRegWait_ignores _ _)) fun _ =>
    Ignores.bind (base_ignores (writeReg_ignores _ _)) fun _ => ?_
  refine Ignores.bind (base_ignores (writeReg_ignores _ _)) fun _ =>
    ⟨(nomatch ·), fun _ => ⟨(nomatch ·), fun _ => ⟨(nomatch ·), fun _ => ?_⟩⟩⟩
  dsimp only
  split <;> trivial

private theorem spiInit_ignores : spiInit.Ignores BoardGarbage := by
  simp only [spiInit, bind_eq, call_bind, pure_eq]
  refine ⟨(nomatch ·), fun _ => ?_⟩
  dsimp only
  split
  · trivial
  · refine ⟨(nomatch ·), fun _ => ?_⟩
    dsimp only
    split <;> trivial

private theorem init_ignores : Shield.init.Ignores BoardGarbage := by
  have opening : ∀ err : Int, (if err ≠ 0 then Program.pure err else doInitirq : Shield Int).Ignores BoardGarbage := by
    intro err
    split
    · trivial
    · exact doInitirq_ignores
  simp only [Shield.init, bind_eq, pure_eq]
  refine Ignores.bind spiInit_ignores fun err => ?_
  split
  · trivial
  · refine Ignores.bind isResetneeded_ignores fun needed => ?_
    split
    · exact Ignores.bind doResetshield_ignores opening
    · exact opening err

theorem call_ignores (call : Call) : call.perform.Ignores BoardGarbage := by
  cases call with
  | init => exact init_ignores
  | isResetneeded => exact isResetneeded_ignores
  | doResetshield => exact doResetshield_ignores
  | doInitirq => exact doInitirq_ignores
  | mainTask => exact Ignores.bind (base_ignores mainTask_ignores) fun _ => trivial

theorem performAll_ignores (calls : List Call) : (performAll calls).Ignores BoardGarbage := by
  induction calls with
  | nil => trivial
  | cons call calls ih => exact Ignores.bind (call_ignores call) fun _ => Ignores.bind ih fun _ => trivial

/-- Requests are answered alike on boards that differ in their stack only. -/
theorem perform_alike (outcome : Outcome) (op : ShieldOp) (first second : Board (Recorded δ))
    (same : SameBut first second) :
    Option.Rel (Answers SameBut (BoardGarbage op)) (Board.perform device.recorded outcome op first)
      (Board.perform device.recorded outcome op second) := by
  obtain ⟨stack, rfl⟩ : ∃ stack, second = filled first stack := ⟨_, same.symm⟩
  cases op with
  | base op =>
    cases op with
    | indeterminate => exact .some ⟨fun known => absurd rfl known, rfl⟩
    | load cell =>
      simp only [Board.perform, Device.perform, filled]
      cases first.machine.object.read cell with
      | none => exact .none
      | some held => exact .some ⟨fun _ => rfl, rfl⟩
    | store cell value =>
      simp only [Board.perform, Device.perform, filled]
      cases first.machine.object.write cell value with
      | none => exact .none
      | some object => exact .some ⟨fun _ => rfl, rfl⟩
    | _ => exact .some ⟨fun _ => rfl, rfl⟩
  | openDevice =>
    simp only [Board.perform]
    cases outcome.opened with
    | none => exact .some ⟨fun _ => rfl, rfl⟩
    | some handle =>
      dsimp only
      by_cases taken : (handle : Int) ∈ first.handles
      · have taken' : (handle : Int) ∈ (filled first stack).handles := taken
        rw [if_pos taken, if_pos taken']
        exact .none
      · have free : (handle : Int) ∉ (filled first stack).handles := taken
        rw [if_neg taken, if_neg free]
        exact .some ⟨fun _ => rfl, rfl⟩
  | _ => exact .some ⟨fun _ => rfl, rfl⟩

/-- What is in the bytes that nothing was stored in makes no difference, under any schedule. -/
theorem garbage_invisible (device : Device δ) (board : Board δ) (stack : Nat → BitVec 32) (frames : List ProcBuffer)
    (calls : List Call) (schedule : List (Thread × Outcome)) : Option.Rel Indistinguishable
      ((pool board frames calls).run (Board.perform device.recorded) schedule)
      ((pool (filled board stack) frames calls).run (Board.perform device.recorded) schedule) := by
  have steps : Pool.InStep BoardGarbage SameBut (pool board frames calls) (pool (filled board stack) frames calls) := by
    refine ⟨rfl, rfl, fun thread => ?_⟩
    cases thread with
    | app => exact base_ignores (sendAll_ignores frames)
    | rt => exact performAll_ignores calls
  have ran := steps.run (@perform_alike δ device) schedule
  revert ran
  generalize (pool board frames calls).run (Board.perform device.recorded) schedule = first
  generalize (pool (filled board stack) frames calls).run (Board.perform device.recorded) schedule = second
  intro given
  rcases given with same | _
  · exact .some ⟨same.states, same.threads⟩
  · exact .none

end Boards
end EthercatSlave.Proofs.StackGarbage
