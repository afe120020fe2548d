import EthercatSlave.Slave

/-! One rule for each access of the process-data layer, against any device. They
let a program be evaluated access by access from an explicit machine state. -/

namespace EthercatSlave.Proofs.Accesses
open Program

variable {δ α : Type} {device : Device δ} {object : RpiBase} {state : δ} {stack : Nat → BitVec 32}
  {value : α} {after : Machine δ}

theorem loaded {cell : Cell} {held : BitVec cell.width} {before after : Machine δ}
    (performed : device.perform (.load cell) before = some (held, after)) :
    before.object.read cell = some held ∧ after = before := by
  obtain ⟨_, reads, same⟩ := Option.map_eq_some_iff.mp performed
  cases same
  exact ⟨reads, rfl⟩

theorem written {cell : Cell} {data : BitVec cell.width} {reply : Unit} {before after : Machine δ}
    (performed : device.perform (.store cell data) before = some (reply, after)) :
    ∃ object, before.object.write cell data = some object ∧ after = { before with object } := by
  obtain ⟨object, writes, same⟩ := Option.map_eq_some_iff.mp performed
  cases same
  exact ⟨object, writes, rfl⟩

theorem select_iff {level : Level} {next : Unit → Rpi α} :
    Eval device.perform (.request (.select level) next) ⟨object, state, stack⟩ value after ↔
      Eval device.perform (next ()) ⟨object, device.select level state, stack⟩ value after := by
  rw [Eval.request_iff]
  constructor
  · intro given
    obtain ⟨_, _, ⟨⟩, rest⟩ := given
    exact rest
  · exact fun rest => ⟨_, _, rfl, rest⟩

theorem transfer_iff {data : Byte} {next : Byte → Rpi α} :
    Eval device.perform (.request (.transfer data) next) ⟨object, state, stack⟩ value after ↔
      Eval device.perform (next (device.transfer data state).1)
        ⟨object, (device.transfer data state).2, stack⟩ value after := by
  rw [Eval.request_iff]
  constructor
  · intro given
    obtain ⟨_, _, ⟨⟩, rest⟩ := given
    exact rest
  · exact fun rest => ⟨_, _, rfl, rest⟩

theorem indeterminate_iff {next : BitVec 32 → Rpi α} :
    Eval device.perform (.request .indeterminate next) ⟨object, state, stack⟩ value after ↔
      Eval device.perform (next (stack 0)) ⟨object, state, fun index => stack (index + 1)⟩ value after := by
  rw [Eval.request_iff]
  constructor
  · intro given
    obtain ⟨_, _, ⟨⟩, rest⟩ := given
    exact rest
  · exact fun rest => ⟨_, _, rfl, rest⟩

theorem load_iff {cell : Cell} {held : BitVec cell.width} {next : BitVec cell.width → Rpi α}
    (holds : object.read cell = some held) :
    Eval device.perform (.request (.load cell) next) ⟨object, state, stack⟩ value after ↔
      Eval device.perform (next held) ⟨object, state, stack⟩ value after := by
  rw [Eval.request_iff]
  simp only [Device.perform, holds, Option.map_some, Option.some.injEq, Prod.mk.injEq]
  constructor
  · intro given
    obtain ⟨_, _, ⟨rfl, rfl⟩, rest⟩ := given
    exact rest
  · exact fun rest => ⟨_, _, ⟨rfl, rfl⟩, rest⟩

theorem store_iff {cell : Cell} {data : BitVec cell.width} {written : RpiBase} {next : Unit → Rpi α}
    (writes : object.write cell data = some written) :
    Eval device.perform (.request (.store cell data) next) ⟨object, state, stack⟩ value after ↔
      Eval device.perform (next ()) ⟨written, state, stack⟩ value after := by
  rw [Eval.request_iff]
  simp only [Device.perform, writes, Option.map_some, Option.some.injEq, Prod.mk.injEq]
  constructor
  · intro given
    obtain ⟨_, _, ⟨_, rfl⟩, rest⟩ := given
    exact rest
  · exact fun rest => ⟨(), _, ⟨trivial, rfl⟩, rest⟩

/-- A store that ends a function. -/
theorem stored {cell : Cell} {data : BitVec cell.width} {written : RpiBase}
    (writes : object.write cell data = some written) :
    Eval device.perform (Rpi.store cell data) ⟨object, state, stack⟩ () ⟨written, state, stack⟩ :=
  (store_iff writes).mpr .pure

/-- A loop that sets the parts of a buffer one after the other, whatever else
it does on the way, leaves the buffer they make up. -/
theorem fill {Op σ β : Type} {Reply : Op → Type} {handle : Handler Op Reply σ} {body : Nat → β → Program Op Reply β}
    {width : Nat} (size count : Nat) (source : BitVec width) (covers : width = size * count)
    (held : Nat → BitVec width → β) (state : Nat → BitVec width → σ)
    (each : ∀ index < count, ∀ buffer, Eval handle (body index (held index buffer)) (state index buffer)
      (held (index + 1) (setPart buffer index (part size source index)))
      (state (index + 1) (setPart buffer index (part size source index))))
    (buffer : BitVec width) :
    Eval handle (forUp body count 0 (held 0 buffer)) (state 0 buffer) (held count source) (state count source) := by
  let filled (index : Nat) (value : β) (current : σ) : Prop := ∃ buffer, value = held index buffer ∧
    current = state index buffer ∧ ∀ before < index, part size buffer before = part size source before
  have each' : ∀ index value current, 0 ≤ index → index < 0 + count → filled index value current →
      ∃ value' following, Eval handle (body index value) current value' following ∧
        filled (index + 1) value' following := by
    intro index _ _ _ inside given
    obtain ⟨buffer, rfl, rfl, same⟩ := given
    rw [Nat.zero_add] at inside
    refine ⟨_, _, each index inside buffer, _, rfl, rfl, fun before low => ?_⟩
    have fits : size * index + size ≤ width := by
      rw [covers, ← Nat.mul_succ]
      exact Nat.mul_le_mul_left _ inside
    by_cases last : before = index
    · rw [last, part_setPart_self _ _ _ fits]
    · rw [part_setPart_of_ne _ _ last]
      exact same before (by omega)
  obtain ⟨_, _, ran, buffer', rfl, rfl, same⟩ := Eval.forUp filled count 0 _ _ each'
    ⟨buffer, rfl, rfl, fun _ none => absurd none (Nat.not_lt_zero _)⟩
  rw [Nat.zero_add] at ran same
  rwa [eq_of_parts size count (Nat.le_of_eq covers) same] at ran

end EthercatSlave.Proofs.Accesses
