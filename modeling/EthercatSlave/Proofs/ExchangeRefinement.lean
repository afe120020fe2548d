import EthercatSlave.Exchange
import EthercatSlave.Proofs.ProcessData
import EthercatSlave.Proofs.Refinement

/-! The object and the chip together behave as the exchange they are for, over any
sequence of calls and however long the chip keeps its host polling. -/

namespace EthercatSlave.Proofs.ExchangeRefinement
open Lan9252 IndirectAccess ProcessData Exchange

variable {object : RpiBase} {before after : Machine Lan9252} {action : Exchange.Action} {answer : Exchange.Answer}

theorem current_eq (slot : Fin qinSize) (selects : object.curqoutidx.toNat = slot) :
    current object = object.fromSlaveBufferIn slot := by
  have inside : object.curqoutidx.toNat < qinSize := selects ▸ slot.isLt
  rw [current, dif_pos inside]
  exact congrArg object.fromSlaveBufferIn (Fin.ext selects)

theorem queue_inRing (ring : InRing object) (frame : ProcBuffer) : InRing (object.queue ⟨_, ring.1⟩ frame) := by
  have small := ring.1
  constructor
  · change BitVec.toNat (if qinSize ≤ (object.curqidx + 1).toNat then 0 else object.curqidx + 1) < qinSize
    split
    · decide
    · omega
  · exact small

theorem queue_current (ring : InRing object) (frame : ProcBuffer) :
    current (object.queue ⟨_, ring.1⟩ frame) = frame := by
  rw [current_eq ⟨_, ring.1⟩ rfl]
  exact Function.update_self ..

theorem cycle_inRing (ring : InRing object) (slot : Fin qinSize) (memory : BitVec 16 → Byte) :
    InRing (object.cycle slot memory) ∧ current (object.cycle slot memory) = current object := by
  unfold RpiBase.cycle
  split
  · exact ⟨ring, rfl⟩
  · exact ⟨ring, rfl⟩

theorem bytes_eq (value : BitVec 32) (memory : BitVec 16 → Byte) (address : BitVec 16) (count : Nat)
    (same : ∀ index < count, byte value index = memory (address + BitVec.ofNat 16 index)) :
    (List.range count).map (byte value) = content memory address count := by
  apply List.map_congr_left
  intro index member
  exact same index (List.mem_range.mp member)

/-- Some run of an action does to the view what the exchange does. -/
theorem served (action : Exchange.Action) (before : Machine Lan9252) (ring : InRing before.object) :
    ∃ answer after, Performs action before answer after ∧ InRing after.object ∧
      (answer, view after) = serve action (view before) := by
  obtain ⟨object, ⟨bus, chip⟩, stack⟩ := before
  cases action with
  | send frame =>
    have sent := sendOutput_eval object stack bus chip frame ⟨_, ring.1⟩ rfl
    have queued := queue_current ring frame
    refine ⟨.done, _, ⟨rfl, sent⟩, queue_inRing ring frame, ?_⟩
    simp only [view, serve, queued]
    rfl
  | receive =>
    exact ⟨_, _, ⟨_, rfl, receiveInput_eval object stack bus chip⟩, ring, rfl⟩
  | cycle =>
    obtain ⟨chip', stack', ran, memory⟩ := mainTask_eval object stack bus chip ⟨_, ring.2⟩ rfl
    obtain ⟨kept, same⟩ := cycle_inRing ring ⟨_, ring.2⟩ chip.memory
    refine ⟨_, _, ⟨_, rfl, ran⟩, kept, ?_⟩
    simp only [view, serve, same, memory, RpiBase.cycle_published, current_eq ⟨_, ring.2⟩ rfl]
  | read address len =>
    obtain ⟨value, csrData, csrCmd, stack', ran, bytes⟩ :=
      readRegWait_eval object stack bus chip address.1 len.count len.count_le
    refine ⟨_, _, ⟨_, rfl, ran⟩, ring, ?_⟩
    rw [bytes_eq value chip.memory address.1 len.count.toNat bytes]
    rfl
  | write address data =>
    obtain ⟨csrCmd, stack', ran⟩ := writeRegWait_eval object stack bus chip address.1 data
    exact ⟨_, _, ⟨rfl, ran⟩, ring, rfl⟩
  | master change => exact ⟨_, _, ⟨rfl, rfl⟩, ring, rfl⟩

/-- Every other run of the action agrees with it. -/
theorem performs_deterministic {answer' : Exchange.Answer} {after' : Machine Lan9252}
    (one : Performs action before answer after) (other : Performs action before answer' after') :
    answer = answer' ∧ after = after' := by
  cases action with
  | send frame =>
    obtain ⟨rfl, one⟩ := one
    obtain ⟨rfl, other⟩ := other
    exact ⟨rfl, (one.deterministic other).2⟩
  | receive =>
    obtain ⟨image, rfl, one⟩ := one
    obtain ⟨image', rfl, other⟩ := other
    obtain ⟨rfl, same⟩ := one.deterministic other
    exact ⟨rfl, same⟩
  | cycle =>
    obtain ⟨status, rfl, one⟩ := one
    obtain ⟨status', rfl, other⟩ := other
    obtain ⟨rfl, same⟩ := one.deterministic other
    exact ⟨rfl, same⟩
  | read address len =>
    obtain ⟨value, rfl, one⟩ := one
    obtain ⟨value', rfl, other⟩ := other
    obtain ⟨rfl, same⟩ := one.deterministic other
    exact ⟨rfl, same⟩
  | write address data =>
    obtain ⟨rfl, one⟩ := one
    obtain ⟨rfl, other⟩ := other
    exact ⟨rfl, (one.deterministic other).2⟩
  | master change =>
    obtain ⟨rfl, rfl⟩ := one
    obtain ⟨rfl, rfl⟩ := other
    exact ⟨rfl, rfl⟩

def refinement : Refinement Exchange.serve Exchange.Performs where
  valid machine := InRing machine.object
  view := view
  ready action before ring := by
    obtain ⟨answer, after, performs, _⟩ := served action before ring
    exact ⟨answer, after, performs⟩
  exact ring performs := by
    obtain ⟨answer, after, performs', kept, same⟩ := served _ _ ring
    obtain ⟨rfl, rfl⟩ := performs_deterministic performs performs'
    exact ⟨kept, same⟩

/-- Any sequence of calls, cycles, register accesses and changes by the master runs
to its end, and every run of it gives the answers of the exchange and leaves its
core memory, whatever the chip's polls, the stack and the counters were. -/
theorem exchange_refined (machine : Machine Lan9252) (ring : InRing machine.object) (actions : List Exchange.Action) :
    (∃ answers after, Performed Performs actions machine answers after) ∧
      ∀ answers after, Performed Performs actions machine answers after →
        (answers, view after) = serveAll serve actions (view machine) :=
  ⟨refinement.performed_ready ring actions, fun _ _ ran => (refinement.performed_exact ring ran).2⟩

/-- A chip in operation whose outputs are all 0x55. -/
def operating (address : BitVec 16) : Byte := if address = 0x0130 then 0x08 else 0x55

def exchanged : List Exchange.Action :=
  [.send 0x0123, .cycle, .receive, .read ⟨0x1200, by decide⟩ .two]

theorem exchange_refined_once : ∃ answers after,
    Performed Performs exchanged ⟨RpiBase.construct {}, ⟨.released, .prompt operating⟩, fun _ => 0⟩ answers after ∧
      answers = [.done, .status 0x08,
        .image 0x5555555555555555555555555555555555555555555555555555555555555555, .bytes [0x23, 0x01]] := by
  have ring : InRing (RpiBase.construct {}) := by
    constructor <;> decide
  obtain ⟨⟨answers, after, ran⟩, runs⟩ :=
    exchange_refined ⟨RpiBase.construct {}, ⟨.released, .prompt operating⟩, fun _ => 0⟩ ring exchanged
  have answered : (serveAll serve exchanged
      (view ⟨RpiBase.construct {}, ⟨.released, .prompt operating⟩, fun _ => 0⟩)).1 = [.done, .status 0x08,
        .image 0x5555555555555555555555555555555555555555555555555555555555555555, .bytes [0x23, 0x01]] := by
    decide +kernel
  exact ⟨answers, after, ran, (congrArg Prod.fst (runs answers after ran)).trans answered⟩

end EthercatSlave.Proofs.ExchangeRefinement
