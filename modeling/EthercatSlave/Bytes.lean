import Mathlib.Init

/-! Views of a machine word as an array of narrower words, least significant
first, as a C union gives them on a little-endian target. Parts of every size
share one set of lemmas; `byte` is the eight-bit view. -/

namespace EthercatSlave

def part (size : Nat) (word : BitVec width) (index : Nat) : BitVec size := word.extractLsb' (size * index) size

def setPart (word : BitVec width) (index : Nat) (value : BitVec size) : BitVec width :=
  (word &&& ~~~(((BitVec.allOnes size).setWidth width) <<< (size * index))) |||
    ((value.setWidth width) <<< (size * index))

abbrev Byte := BitVec 8

abbrev byte (word : BitVec width) (index : Nat) : Byte := part 8 word index

@[simp] theorem getLsbD_part (word : BitVec width) (index bit : Nat) :
    (part size word index).getLsbD bit = (decide (bit < size) && word.getLsbD (size * index + bit)) :=
  BitVec.getLsbD_extractLsb' ..

theorem getLsbD_setPart (word : BitVec width) (index bit : Nat) (value : BitVec size) (inside : bit < width) :
    (setPart word index value).getLsbD bit =
      if size * index ≤ bit ∧ bit < size * index + size then value.getLsbD (bit - size * index)
      else word.getLsbD bit := by
  simp only [setPart, BitVec.getLsbD_or, BitVec.getLsbD_and, BitVec.getLsbD_not, BitVec.getLsbD_shiftLeft,
    BitVec.getLsbD_setWidth, BitVec.getLsbD_allOnes]
  by_cases below : bit < size * index
  · simp [below, inside, Nat.not_le.mpr below]
  · have fits : bit - size * index < width := by omega
    by_cases above : bit < size * index + size
    · have small : bit - size * index < size := by omega
      simp [below, above, inside, small, fits, Nat.not_lt.mp below]
    · have big : ¬ bit - size * index < size := by omega
      have zero : value.getLsbD (bit - size * index) = false := BitVec.getLsbD_of_ge _ _ (by omega)
      simp [below, above, inside, big, zero]

@[simp] theorem part_setPart_self (word : BitVec width) (index : Nat) (value : BitVec size)
    (inside : size * index + size ≤ width) : part size (setPart word index value) index = value := by
  apply BitVec.eq_of_getLsbD_eq
  intro bit small
  rw [getLsbD_part, getLsbD_setPart _ _ _ _ (by omega), if_pos (by omega)]
  simp [small]

@[simp] theorem part_setPart_of_ne (word : BitVec width) {index other : Nat} (value : BitVec size)
    (different : other ≠ index) : part size (setPart word index value) other = part size word other := by
  apply BitVec.eq_of_getLsbD_eq
  intro bit small
  rw [getLsbD_part, getLsbD_part]
  have apart : ¬ (size * index ≤ size * other + bit ∧ size * other + bit < size * index + size) := by
    intro given
    obtain ⟨low, high⟩ := given
    rcases Nat.lt_or_gt_of_ne different with before | after
    · have := Nat.mul_le_mul_left size (Nat.succ_le_of_lt before)
      rw [Nat.mul_succ] at this
      omega
    · have := Nat.mul_le_mul_left size (Nat.succ_le_of_lt after)
      rw [Nat.mul_succ] at this
      omega
  by_cases inside : size * other + bit < width
  · rw [getLsbD_setPart _ _ _ _ inside, if_neg apart]
  · rw [BitVec.getLsbD_of_ge _ _ (by omega), BitVec.getLsbD_of_ge _ _ (by omega)]

/-- A word is determined by its parts when they cover it. -/
theorem eq_of_parts {first second : BitVec width} (size count : Nat) (covers : width ≤ size * count)
    (same : ∀ index < count, part size first index = part size second index) : first = second := by
  apply BitVec.eq_of_getLsbD_eq
  intro bit inside
  have positive : 0 < size := by
    apply Nat.pos_of_ne_zero
    intro same
    subst same
    omega
  have quotient : bit / size < count := Nat.div_lt_of_lt_mul (by omega)
  have equal := congrArg (fun value : BitVec size => value.getLsbD (bit % size)) (same (bit / size) quotient)
  simpa only [getLsbD_part, Nat.mod_lt bit positive, decide_true, Bool.true_and, Nat.div_add_mod] using equal

/-- A part of a part is a part of the whole. -/
theorem part_part (word : BitVec width) (small count outer inner : Nat) (inside : inner < count) :
    part small (part (small * count) word outer) inner = part small word (count * outer + inner) := by
  apply BitVec.eq_of_getLsbD_eq
  intro bit fits
  have bound : small * inner + bit < small * count :=
    calc small * inner + bit < small * inner + small := by omega
      _ = small * (inner + 1) := (Nat.mul_succ ..).symm
      _ ≤ small * count := Nat.mul_le_mul_left _ inside
  simp only [getLsbD_part, fits, bound, decide_true, Bool.true_and]
  rw [Nat.mul_add, Nat.mul_assoc, Nat.add_assoc]

/-- `setPart` with the given values in turn, the first one at `index`. -/
def setParts (word : BitVec width) (index : Nat) : List (BitVec size) → BitVec width
  | [] => word
  | value :: values => setParts (setPart word index value) (index + 1) values

theorem part_setParts (word : BitVec width) (index other : Nat) (values : List (BitVec size))
    (inside : size * (index + values.length) ≤ width) :
    part size (setParts word index values) other =
      if index ≤ other then (values[other - index]?).getD (part size word other) else part size word other := by
  induction values generalizing word index with
  | nil => simp [setParts]
  | cons value values ih =>
    simp only [List.length_cons] at inside
    have rest : size * (index + 1 + values.length) ≤ width := by
      rwa [Nat.add_right_comm, Nat.add_assoc]
    have first : size * index + size ≤ width := by
      rw [← Nat.mul_succ]
      exact Nat.le_trans (Nat.mul_le_mul_left _ (by omega)) inside
    rw [setParts, ih _ _ rest]
    by_cases same : other = index
    · subst other
      rw [if_neg (by omega), part_setPart_self _ _ _ first, if_pos (Nat.le_refl _)]
      simp
    · rw [part_setPart_of_ne _ _ same]
      by_cases after : index + 1 ≤ other
      · obtain ⟨offset, rfl⟩ := Nat.exists_eq_add_of_le after
        rw [if_pos after, if_pos (by omega), show index + 1 + offset - (index + 1) = offset by omega,
          show index + 1 + offset - index = offset + 1 by omega, List.getElem?_cons_succ]
      · rw [if_neg after, if_neg (by omega)]

/-- Writing every part of a word forgets what it held. -/
theorem setParts_covering (first second : BitVec width) (values : List (BitVec size))
    (covers : width = size * values.length) : setParts first 0 values = setParts second 0 values := by
  apply eq_of_parts size values.length (Nat.le_of_eq covers)
  intro index inside
  rw [part_setParts _ _ _ _ (by simp [covers]), part_setParts _ _ _ _ (by simp [covers])]
  simp [inside]

end EthercatSlave
