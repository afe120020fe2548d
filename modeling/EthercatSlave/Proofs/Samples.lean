import Mathlib.Algebra.BigOperators.Group.List.Basic
import Mathlib.Algebra.Order.BigOperators.Group.List
import Mathlib.Algebra.Order.Field.Basic
import Mathlib.Data.List.MinMax
import Mathlib.Tactic.Ring
import Mathlib.Tactic.FieldSimp
import Mathlib.Tactic.Linarith

/-! Samples of an ordered field: their mean and variance, and how both follow from
the sums of the values and of their squares. -/

namespace EthercatSlave.Samples

variable {K : Type} [Field K]

def mean (values : List K) : K := values.sum / values.length

/-- The sum of the squared deviations from the mean. -/
def deviation (values : List K) : K := (values.map fun value => (value - mean values) ^ 2).sum

/-- The sample variance. -/
def variance (values : List K) : K := deviation values / (values.length - 1)

theorem sum_shifted (values : List K) (center : K) :
    (values.map fun value => (value - center) ^ 2).sum =
      (values.map (· ^ 2)).sum - 2 * center * values.sum + values.length * center ^ 2 := by
  induction values with
  | nil => simp
  | cons value values ih =>
    simp only [List.map_cons, List.sum_cons, List.length_cons, ih]
    push_cast
    ring

/-- The variance of one pass over the values is that of two passes. -/
theorem deviation_eq [CharZero K] {values : List K} (nonempty : values ≠ []) :
    deviation values = (values.map (· ^ 2)).sum - values.sum * values.sum / values.length := by
  have positive : (values.length : K) ≠ 0 := Nat.cast_ne_zero.mpr (by simpa using nonempty)
  rw [deviation, sum_shifted, mean]
  field_simp
  ring

theorem mean_mul_length [CharZero K] {values : List K} (nonempty : values ≠ []) :
    mean values * values.length = values.sum :=
  div_mul_cancel₀ _ (Nat.cast_ne_zero.mpr (by simpa using nonempty))

theorem sum_differences (points : Nat → K) (count : Nat) :
    ((List.range count).map fun index => points (index + 1) - points index).sum = points count - points 0 := by
  induction count with
  | zero => simp
  | succ count ih => rw [List.sum_range_succ, ih, sub_add_sub_cancel']

theorem mean_perm {values permuted : List K} (same : values.Perm permuted) : mean values = mean permuted := by
  rw [mean, mean, same.sum_eq, same.length_eq]

theorem variance_perm {values permuted : List K} (same : values.Perm permuted) :
    variance values = variance permuted := by
  rw [variance, variance, deviation, deviation, mean_perm same, (same.map _).sum_eq, same.length_eq]

section Order

variable [LinearOrder K] [IsStrictOrderedRing K]

theorem deviation_nonneg (values : List K) : 0 ≤ deviation values := by
  apply List.sum_nonneg
  intro square member
  obtain ⟨value, _, rfl⟩ := List.mem_map.mp member
  exact sq_nonneg _

theorem mean_between {values : List K} {low high : K} (nonempty : values ≠ [])
    (above : ∀ value ∈ values, low ≤ value) (below : ∀ value ∈ values, value ≤ high) :
    low ≤ mean values ∧ mean values ≤ high := by
  have positive : (0 : K) < values.length := Nat.cast_pos.mpr (List.length_pos_of_ne_nil nonempty)
  constructor
  · rw [mean, le_div_iff₀ positive, mul_comm, ← nsmul_eq_mul]
    exact List.card_nsmul_le_sum values low above
  · rw [mean, div_le_iff₀ positive, mul_comm, ← nsmul_eq_mul]
    exact List.sum_le_card_nsmul values high below

end Order

end EthercatSlave.Samples
