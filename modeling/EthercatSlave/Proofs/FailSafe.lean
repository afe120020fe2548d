import EthercatSlave.Proofs.ProcessData
import Mathlib.Data.List.Induction

/-! What the application is given while the master is not in control. A failed
cycle leaves the published image alone, so zeros are delivered exactly when the
image of the last operational cycle was zero itself. -/

namespace EthercatSlave.Proofs.FailSafe
open Lan9252 ProcessData

variable {start : Machine Lan9252} {cycles : List (BitVec 16 → Byte)}

/-- The image left published, given what was published before the cycles. -/
def published (held : ProcBuffer) (cycles : List (BitVec 16 → Byte)) : ProcBuffer :=
  cycles.foldl (fun held memory => if failed memory then held else image memory 0x1000) held

/-- After every completed cycle the application gets zeros unless that cycle was
operational. -/
def SafeOutputs (start : Machine Lan9252) (cycles : List (BitVec 16 → Byte)) : Prop :=
  ∀ completed later, cycles = completed ++ later → ∃ delivered, Delivers start completed delivered ∧
    ((∀ last ∈ completed.getLast?, failed last = true) → delivered = 0)

/-- Nothing is published at the start, and no cycle fails right after one that fetched a non-zero image. -/
def ClearedFirst (start : Machine Lan9252) (cycles : List (BitVec 16 → Byte)) : Prop :=
  start.object.bufferOutEthToSlaveBuffer = 0 ∧
    ∀ earlier memory next later, cycles = earlier ++ memory :: next :: later →
      failed memory = false → failed next = true → image memory 0x1000 = 0

theorem cycles_run (cycles : List (BitVec 16 → Byte)) (start : Machine Lan9252)
    (ring : start.object.curqoutidx.toNat < qinSize) : ∃ reached, Cycles cycles start reached ∧
      reached.object.bufferOutEthToSlaveBuffer = published start.object.bufferOutEthToSlaveBuffer cycles := by
  induction cycles generalizing start with
  | nil => exact ⟨start, rfl, rfl⟩
  | cons memory cycles ih =>
    obtain ⟨chip, stack, ran, _⟩ := mainTask_eval start.object start.stack start.device.bus
      { start.device.chip with memory } ⟨_, ring⟩ rfl
    obtain ⟨reached, rest, held⟩ := ih ⟨start.object.cycle ⟨_, ring⟩ memory, ⟨.released, chip⟩, stack⟩
      (by rwa [RpiBase.cycle_curqoutidx])
    refine ⟨reached, ⟨_, _, ran, rest⟩, ?_⟩
    rw [held, RpiBase.cycle_published]
    rfl

theorem cycles_deterministic {first second : Machine Lan9252} (left : Cycles cycles start first)
    (right : Cycles cycles start second) : first = second := by
  induction cycles generalizing start with
  | nil => exact left.trans right.symm
  | cons memory cycles ih =>
    obtain ⟨_, _, ran, rest⟩ := left
    obtain ⟨_, _, ran', rest'⟩ := right
    obtain ⟨_, rfl⟩ := ran.deterministic ran'
    exact ih rest rest'

theorem delivers_iff (ring : start.object.curqoutidx.toNat < qinSize) (delivered : ProcBuffer) :
    Delivers start cycles delivered ↔ delivered = published start.object.bufferOutEthToSlaveBuffer cycles := by
  obtain ⟨reached, ran, held⟩ := cycles_run cycles start ring
  have received := receiveInput_eval reached.object reached.stack reached.device.bus reached.device.chip
  rw [held] at received
  constructor
  · intro given
    obtain ⟨reached', after, ran', received'⟩ := given
    cases cycles_deterministic ran ran'
    exact (received'.deterministic received).1
  · intro same
    subst same
    exact ⟨reached, _, ran, received⟩

theorem published_concat (held : ProcBuffer) (memory : BitVec 16 → Byte) : published held (cycles ++ [memory]) =
    if failed memory then published held cycles else image memory 0x1000 := by
  simp only [published, List.foldl_append, List.foldl_cons, List.foldl_nil]

private theorem cleared_of_guarded (guarded : ClearedFirst start cycles) (completed later : List (BitVec 16 → Byte))
    (split : cycles = completed ++ later) (fails : ∀ last ∈ completed.getLast?, failed last = true) :
    published start.object.bufferOutEthToSlaveBuffer completed = 0 := by
  induction completed using List.reverseRecOn generalizing later with
  | nil => exact guarded.1
  | append_singleton earlier next ih =>
    have failing : failed next = true := fails next (by simp)
    rw [published_concat, if_pos failing]
    rcases List.eq_nil_or_concat earlier with rfl | ⟨before, memory, rfl⟩
    · exact guarded.1
    · cases failing' : failed memory with
      | true => exact ih (next :: later) (by simpa using split) (by simpa using failing')
      | false =>
        rw [List.concat_eq_append, published_concat, failing']
        exact guarded.2 before memory next later (by simpa using split) failing' failing

/-- Fail-safe outputs hold exactly in the runs where the stale image is zero anyway. -/
theorem safe_outputs_iff (start : Machine Lan9252) (cycles : List (BitVec 16 → Byte))
    (ring : start.object.curqoutidx.toNat < qinSize) : SafeOutputs start cycles ↔ ClearedFirst start cycles := by
  constructor
  · intro safe
    have zero : ∀ completed later, cycles = completed ++ later →
        (∀ last ∈ completed.getLast?, failed last = true) →
        published start.object.bufferOutEthToSlaveBuffer completed = 0 := by
      intro completed later split fails
      obtain ⟨delivered, delivers, cleared⟩ := safe completed later split
      rw [← (delivers_iff ring delivered).mp delivers]
      exact cleared fails
    refine ⟨zero [] cycles rfl (by simp), fun earlier memory next later split operates fails => ?_⟩
    have last := zero (earlier ++ [memory] ++ [next]) later (by simpa using split) (by simpa using fails)
    rwa [published_concat, if_pos fails, published_concat, if_neg (by simp [operates])] at last
  · intro guarded completed later split
    exact ⟨_, (delivers_iff ring _).mpr rfl, cleared_of_guarded guarded completed later split⟩

def fresh : Machine Lan9252 := ⟨RpiBase.construct {}, ⟨.released, .prompt fun _ => 0⟩, fun _ => 0⟩

def running (address : BitVec 16) : Byte :=
  if address = 0x0440 then 0x01 else if address = 0x0130 then 0x08 else if address = 0x1000 then 0x55 else 0x00

def tripped (address : BitVec 16) : Byte := if address = 0x0130 then 0x08 else 0x00

def stopped (address : BitVec 16) : Byte := if address = 0x1000 then 0x00 else running address

theorem safe_outputs_tripped : SafeOutputs fresh [tripped, running, stopped, tripped] := by
  apply (safe_outputs_iff fresh [tripped, running, stopped, tripped] (by decide)).mpr
  refine ⟨rfl, fun earlier memory next later split operates fails => ?_⟩
  rcases earlier with _ | ⟨_, _ | ⟨_, _ | ⟨_, rest⟩⟩⟩
  · cases split
    cases operates
  · cases split
    cases fails
  · cases split
    decide +kernel
  · have length := congrArg List.length split
    simp at length
    omega

/-- The outputs of the last operational cycle outlive the watchdog. -/
theorem outputs_outlive_watchdog : ¬ SafeOutputs fresh [running, tripped] := by
  intro safe
  obtain ⟨delivered, delivers, cleared⟩ := safe [running, tripped] [] rfl
  have stale : delivered = image running 0x1000 := (delivers_iff (by decide) delivered).mp delivers
  have failing : ∀ last ∈ [running, tripped].getLast?, failed last = true := by
    intro last member
    cases member
    rfl
  have zero : byte (image running 0x1000) 0 = 0 := by
    rw [← stale, cleared failing]
    rfl
  rw [image_byte _ _ _ (by decide)] at zero
  exact absurd zero (by decide)

end EthercatSlave.Proofs.FailSafe
