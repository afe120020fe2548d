import EthercatSlave.Cycle
import EthercatSlave.Proofs.SpiTraffic

/-! Every MainTask cycle, in a run of any length. The state a cycle leaves comes
from its evaluation against the chip, its transfers from the traffic it makes. -/

namespace EthercatSlave.Proofs.CycleInvariant
open Lan9252 SpiTraffic Transaction

variable {start before after : Machine (Recorded Lan9252)} {cycles : List Found} {found : Found} {status : Byte}

def unrecorded (machine : Machine (Recorded Lan9252)) : Machine Lan9252 :=
  ⟨machine.object, machine.device.device, machine.stack⟩

theorem unrecorded_commutes (op : RpiOp) (machine : Machine (Recorded Lan9252)) :
    lan9252.perform op (unrecorded machine) =
      (lan9252.recorded.perform op machine).map fun (reply, following) => (reply, unrecorded following) := by
  cases op with
  | select => rfl
  | transfer => rfl
  | indeterminate => rfl
  | load cell =>
    simp only [Device.perform, unrecorded, Option.map_map]
    rfl
  | store cell value =>
    simp only [Device.perform, unrecorded, Option.map_map]
    rfl

private theorem slot_selects (slot : Fin qinSize) : (BitVec.ofNat 32 slot).toNat = slot := by
  have small : slot.val < 2 ^ 32 := Nat.lt_trans slot.isLt (by decide)
  rw [BitVec.toNat_ofNat, Nat.mod_eq_of_lt small]

theorem finding_eval (machine : Machine (Recorded Lan9252)) (found : Found) : ∃ after,
    Eval lan9252.recorded.perform Rpi.mainTask (machine.finding found) (Lan9252.status found.memory) after ∧
      after.object = (machine.finding found).object.cycle found.slot found.memory ∧
        after.device.device.chip.memory = overwrite found.memory 0x1200 32 (byte (found.frames found.slot)) := by
  obtain ⟨chip, stack, ran, memory⟩ := ProcessData.mainTask_eval (machine.finding found).object machine.stack
    machine.device.device.bus { machine.device.device.chip with memory := found.memory } found.slot
      (slot_selects found.slot)
  obtain ⟨after, ran, seen⟩ :=
    @Eval.unview _ _ _ _ _ (machine.finding found) _ _ unrecorded unrecorded_commutes _ _ _ _ ran rfl
  have device : after.device.device = ⟨.released, chip⟩ := (congrArg Machine.device seen).symm
  exact ⟨after, ran, (congrArg Machine.object seen).symm, by rw [device]; exact memory⟩

/-- The bus is idle between cycles and the counter counts the operational ones. -/
def Between (cycles : List Found) (machine : Machine (Recorded Lan9252)) : Prop :=
  machine.object.atomiccounter = BitVec.ofNat 32 (2 * cycles.countP Found.operational) ∧
    ∃ object done, Idle Legal object done machine

theorem status_bits (memory : BitVec 16 → Byte) :
    Lan9252.status memory &&& 0x0F = memory Rpi.alStatusReg0 &&& 0x0F ∧ Lan9252.status memory &&& 0x70 = 0 ∧
      (Lan9252.status memory).getLsbD 7 = watchdogExpired memory := by
  unfold Lan9252.status
  generalize memory Rpi.alStatusReg0 = state
  cases watchdogExpired memory <;> revert state <;> decide

theorem status_operational (found : Found) : Lan9252.status found.memory = Rpi.esmOp ↔ found.operational = true := by
  unfold Lan9252.status Found.operational failed operational
  generalize found.memory Rpi.alStatusReg0 = state
  cases watchdogExpired found.memory <;> revert state <;> decide

/-- A burst of lawful traffic goes through the FIFO of its direction. -/
theorem burst_address {traffic : List Transaction} {transaction : Transaction} (legal : Legal traffic)
    (member : transaction ∈ traffic) (burst : transaction.Burst) :
    transaction.command = Rpi.commSpiRead ∧ transaction.address = 0x0000 ∨
      transaction.command = Rpi.commSpiWrite ∧ transaction.address = 0x0020 := by
  obtain ⟨earlier, later, split⟩ := List.append_of_mem member
  rcases (legal earlier transaction later split).burst burst with ⟨command, address, _⟩ | ⟨command, address, _⟩
  · exact .inl ⟨command, address⟩
  · exact .inr ⟨command, address⟩

theorem cycle_kept (between : Between cycles before)
    (ran : Eval lan9252.recorded.perform Rpi.mainTask (before.finding found) status after) :
    Between (cycles ++ [found]) after ∧ AfterCycle (cycles ++ [found]) found before status after := by
  obtain ⟨counted, object, done, idle⟩ := between
  obtain ⟨after', ran', state, memory⟩ := finding_eval before found
  obtain ⟨rfl, rfl⟩ := ran.deterministic ran'
  have found_idle : Idle Legal (before.finding found).object done (before.finding found) := ⟨rfl, idle.trace, idle.kept⟩
  have within : ∀ op before reply after, lan9252.recorded.perform op before = some (reply, after) →
      ∃ _ : Unit, lan9252.recorded.perform op before = some (reply, after) :=
    fun _ _ _ _ performed => ⟨(), performed⟩
  obtain ⟨_, object', made, ⟨fetches, sends, moved, command, sent, fetched⟩, idle'⟩ :=
    Rules.solo_eval within (by exact found_idle.traffic) (mainTask_ensures found_idle) ran
  have frame : object'.bufferIn = found.frames found.slot := by
    rw [← idle'.object, state]
    unfold RpiBase.cycle
    split <;> rfl
  have counter : after.object.atomiccounter =
      BitVec.ofNat 32 (2 * (cycles ++ [found]).countP Found.operational) := by
    rw [List.countP_append, List.countP_singleton, Nat.mul_add, BitVec.ofNat_add, ← counted, state]
    unfold RpiBase.cycle Found.operational
    cases failed found.memory with
    | true => simp [Machine.finding]
    | false => simp [Machine.finding, BitVec.add_assoc]
  obtain ⟨low, reserved, watchdog⟩ := status_bits found.memory
  have bursts : ∀ transaction ∈ fetches ++ [sends], transaction ∈ done ++ made ∧ transaction.Burst := by
    intro transaction member
    rw [← moved] at member
    obtain ⟨made, burst⟩ := List.mem_filter.mp member
    exact ⟨List.mem_append_right _ made, of_decide_eq_true burst⟩
  have sent_to : sends.address = 0x0020 := by
    obtain ⟨member, burst⟩ := bursts sends (List.mem_append_right _ (List.mem_singleton.mpr rfl))
    rcases burst_address idle'.kept member burst with ⟨reads, _⟩ | ⟨_, address⟩
    · exact absurd (command.symm.trans reads) (by decide)
    · exact address
  refine ⟨⟨counter, object', done ++ made, idle'⟩, counter, ?_, ?_,
    ⟨made, fetches, sends, ?_, moved, command, sent_to, ?_, ?_⟩, memory, low, reserved, watchdog⟩
  · rw [counter, BitVec.toNat_ofNat]
    omega
  · rw [state]
    unfold RpiBase.cycle Found.operational
    cases failed found.memory <;> rfl
  · rw [idle'.trace, List.flatMap_append, idle.trace]
  · rw [sent, frame]
    rfl
  · simp only [status_operational] at fetched
    split at fetched
    next operates =>
      rw [if_pos operates]
      obtain ⟨fetch, same, reading⟩ := fetched
      have there : fetch ∈ fetches ++ [sends] := by
        rw [same]
        exact List.mem_cons_self
      obtain ⟨member, burst⟩ := bursts fetch there
      rcases burst_address idle'.kept member burst with ⟨_, address⟩ | ⟨writes, _⟩
      · exact ⟨fetch, same, reading, address⟩
      · exact absurd (reading.symm.trans writes) (by decide)
    next halted =>
      rw [if_neg halted]
      exact fetched

theorem between_cycles (zero : start.object.atomiccounter = 0) (fresh : start.device.trace = [])
    (cycled : Cycled start cycles before) : Between cycles before := by
  induction cycled with
  | start =>
    refine ⟨zero, start.object, [], rfl, fresh, fun _ _ _ none => ?_⟩
    simp at none
  | cycle _ ran between => exact (cycle_kept between ran).1

/-- In every run of cycles from a constructed object, whatever each of them finds,
the next cycle completes and leaves what it must. -/
theorem cycle_invariant (object : RpiBase) (lan : Lan9252) (stack : Nat → BitVec 32) (cycles : List Found)
    (found : Found)
    (before : Machine (Recorded Lan9252)) (cycled : Cycled ⟨object.construct, ⟨lan, []⟩, stack⟩ cycles before) :
    (∃ status after, Eval lan9252.recorded.perform Rpi.mainTask (before.finding found) status after) ∧
      ∀ status after, Eval lan9252.recorded.perform Rpi.mainTask (before.finding found) status after →
        AfterCycle (cycles ++ [found]) found before status after := by
  have between := between_cycles rfl rfl cycled
  refine ⟨?_, fun _ _ ran => (cycle_kept between ran).2⟩
  obtain ⟨after, ran, _, _⟩ := finding_eval before found
  exact ⟨_, after, ran⟩

def driven : Found where
  memory address := if address = 0x0440 then 0x01 else if address = 0x0130 then 0x08 else 0x55
  frames _ := 0
  slot := ⟨0, Nat.zero_lt_succ _⟩

/-- The first cycle after the start. -/
theorem cycle_invariant_first : ∃ status after, Eval lan9252.recorded.perform Rpi.mainTask
      (Machine.finding ⟨RpiBase.construct {}, ⟨⟨.released, .prompt fun _ => 0⟩, []⟩, fun _ => 0⟩ driven) status after ∧
    AfterCycle [driven] driven
      ⟨RpiBase.construct {}, ⟨⟨.released, .prompt fun _ => 0⟩, []⟩, fun _ => 0⟩ status after := by
  obtain ⟨⟨status, after, ran⟩, left⟩ :=
    cycle_invariant {} ⟨.released, .prompt fun _ => 0⟩ (fun _ => 0) [] driven _ .start
  exact ⟨status, after, ran, left status after ran⟩

end EthercatSlave.Proofs.CycleInvariant
