import EthercatSlave.Stattool
import EthercatSlave.Proofs.Samples
import Mathlib.Analysis.Real.Sqrt

/-! In exact arithmetic the running statistics are those of the values. -/

namespace EthercatSlave.Proofs.Statistics
open Samples Statbuffer

/-- The buffer holds the statistics of these values. -/
structure Describes (values : List ℝ) (sbuf : Statbuffer ℝ) : Prop where
  v : values.getLast? = some sbuf.v
  count : sbuf.count.toNat = values.length
  vmin : IsLeast {value | value ∈ values} sbuf.vmin
  vmax : IsGreatest {value | value ∈ values} sbuf.vmax
  vrange : sbuf.vrange = sbuf.vmax - sbuf.vmin
  vmean : sbuf.vmean = mean values
  between : sbuf.vmin ≤ sbuf.vmean ∧ sbuf.vmean ≤ sbuf.vmax
  nonneg : 0 ≤ sbuf.vstddev
  variance : 2 ≤ values.length → sbuf.vstddev ^ 2 = variance values
  single : values.length = 1 → sbuf.vstddev = 0

/-- What the running sums hold after these values. -/
structure Accumulated (values : List ℝ) (sbuf : Statbuffer ℝ) : Prop where
  count : sbuf.count = BitVec.ofNat 64 values.length
  icSum : sbuf.icSum = values.sum
  icSum2 : sbuf.icSum2 = (values.map (· ^ 2)).sum

def Extremes (values : List ℝ) (sbuf : Statbuffer ℝ) : Prop :=
  IsLeast {value | value ∈ values} sbuf.vmin ∧ IsGreatest {value | value ∈ values} sbuf.vmax

variable {values : List ℝ} {sbuf : Statbuffer ℝ} {value : ℝ}

theorem accumulated_reset : Accumulated [] sbuf.reset where
  count := rfl
  icSum := by norm_num [reset, zero]
  icSum2 := by norm_num [reset, zero]

theorem accumulated_step (sums : Accumulated values sbuf) : Accumulated (values ++ [value]) (sbuf.calcOne value) where
  count := by
    simp only [calcOne, sums.count, List.length_append, List.length_singleton, BitVec.ofNat_add]
    rfl
  icSum := by
    simp only [calcOne, sums.icSum, List.sum_append, List.sum_singleton]
  icSum2 := by
    simp only [calcOne, sums.icSum2, List.map_append, List.map_singleton, List.sum_append, List.sum_singleton, sq]

theorem accumulated_all (sbuf : Statbuffer ℝ) (values : List ℝ) : Accumulated values (sbuf.reset.calcAll values) := by
  induction values using List.reverseRecOn with
  | nil => exact @accumulated_reset sbuf
  | append_singleton values value ih =>
    rw [calcAll, List.foldl_append]
    exact accumulated_step ih

theorem count_eq_zero_iff (sums : Accumulated values sbuf) (few : values.length < 2 ^ 64) :
    sbuf.count = 0 ↔ values = [] := by
  rw [sums.count, ← BitVec.toNat_inj, BitVec.toNat_ofNat, Nat.mod_eq_of_lt few]
  exact List.length_eq_zero_iff

theorem extremes_first (first : sbuf.count = 0) : Extremes [value] (sbuf.calcOne value) := by
  simp only [Extremes, calcOne, first, if_true, List.mem_singleton, Set.ofPred_eq_eq_singleton]
  exact ⟨isLeast_singleton, isGreatest_singleton⟩

theorem extremes_step (extremes : Extremes values sbuf) (later : sbuf.count ≠ 0) :
    Extremes (values ++ [value]) (sbuf.calcOne value) := by
  obtain ⟨⟨least, above⟩, ⟨greatest, below⟩⟩ := extremes
  have members : {other | other ∈ values ++ [value]} = insert value {other | other ∈ values} := by
    ext other
    simp [or_comm]
  simp only [Extremes, members, calcOne, if_neg later]
  constructor
  · have smaller := IsLeast.insert value ⟨least, above⟩
    split
    next less => rwa [min_eq_left less.le] at smaller
    next more => rwa [min_eq_right (not_lt.mp more)] at smaller
  · have larger := IsGreatest.insert value ⟨greatest, below⟩
    split
    next more => rwa [max_eq_left more.le] at larger
    next less => rwa [max_eq_right (not_lt.mp less)] at larger

theorem extremes_all (nonempty : values ≠ []) (few : values.length < 2 ^ 64) :
    Extremes values (sbuf.reset.calcAll values) := by
  induction values using List.reverseRecOn with
  | nil => exact absurd rfl nonempty
  | append_singleton values value ih =>
    rw [List.length_append] at few
    have sums : Accumulated values (sbuf.reset.calcAll values) := accumulated_all sbuf values
    have shorter : values.length < 2 ^ 64 := Nat.lt_of_le_of_lt (Nat.le_add_right _ _) few
    rw [calcAll, List.foldl_append]
    cases values with
    | nil => exact extremes_first ((count_eq_zero_iff sums shorter).mpr rfl)
    | cons first values =>
      have later := mt (count_eq_zero_iff sums shorter).mp (List.cons_ne_nil _ _)
      exact extremes_step (ih (List.cons_ne_nil _ _) shorter) later

section LastValue

variable (sums : Accumulated values sbuf) (few : (values ++ [value]).length < 2 ^ 64)

include sums few

theorem count_step : (sbuf.count + 1).toNat = (values ++ [value]).length := by
  have after : Accumulated (values ++ [value]) (sbuf.calcOne value) := accumulated_step sums
  have count := congrArg BitVec.toNat after.count
  rwa [BitVec.toNat_ofNat, Nat.mod_eq_of_lt few] at count

theorem vmean_step : (sbuf.calcOne value).vmean = mean (values ++ [value]) := by
  have quotient : (sbuf.calcOne value).vmean = (sbuf.calcOne value).icSum / ((sbuf.count + 1).toNat : ℝ) := rfl
  rw [quotient, (accumulated_step sums).icSum, count_step sums few, mean]

/-- What the square root is taken of. -/
theorem sqrtval_step : ((sbuf.calcOne value).icSum2 - (sbuf.calcOne value).icSum * (sbuf.calcOne value).icSum /
    ((sbuf.count + 1).toNat : ℝ)) / ((sbuf.count + 1 - 1).toNat : ℝ) = variance (values ++ [value]) := by
  have after : Accumulated (values ++ [value]) (sbuf.calcOne value) := accumulated_step sums
  have length : (values ++ [value]).length = values.length + 1 := by simp
  have earlier : (sbuf.count + 1 - 1).toNat = values.length := by
    rw [BitVec.add_sub_cancel, sums.count, BitVec.toNat_ofNat, Nat.mod_eq_of_lt (by omega)]
  rw [after.icSum, after.icSum2, count_step sums few, ← deviation_eq (by simp), earlier, variance, length]
  push_cast
  rw [add_sub_cancel_right]

theorem vstddev_step : (sbuf.calcOne value).vstddev =
    if 2 ≤ (values ++ [value]).length then √(variance (values ++ [value])) else 0 := by
  have several : 1 < sbuf.count + 1 ↔ 2 ≤ (values ++ [value]).length := by
    rw [BitVec.lt_def, count_step sums few]
    exact Iff.rfl
  have guarded : (sbuf.calcOne value).vstddev =
      if 1 < sbuf.count + 1 then if (0.0 : ℝ) < variance (values ++ [value]) then √(variance (values ++ [value]))
        else 0.0 else 0.0 := by
    rw [← sqrtval_step sums few]
    rfl
  have zero : (0.0 : ℝ) = 0 := by norm_num
  rw [guarded, zero]
  simp only [several]
  -- the guard only keeps the square root of zero away
  split
  · split
    · rfl
    next none => rw [Real.sqrt_eq_zero_of_nonpos (not_lt.mp none)]
  · rfl

end LastValue

theorem variance_nonneg (several : 2 ≤ values.length) : 0 ≤ variance values := by
  apply div_nonneg (deviation_nonneg values)
  have enough : (2 : ℝ) ≤ values.length := by exact_mod_cast several
  linarith

/-- The values described do not depend on their order. -/
theorem describes_unique {other : Statbuffer ℝ} {permuted : List ℝ} (first : Describes values sbuf)
    (second : Describes permuted other) (same : values.Perm permuted) :
    other.count = sbuf.count ∧ other.vmean = sbuf.vmean ∧ other.vmax = sbuf.vmax ∧ other.vmin = sbuf.vmin ∧
      other.vstddev = sbuf.vstddev ∧ other.vrange = sbuf.vrange := by
  have members : {value | value ∈ permuted} = {value | value ∈ values} := by
    ext value
    exact same.mem_iff.symm
  have length := same.length_eq
  have vmin : other.vmin = sbuf.vmin := (members ▸ second.vmin).unique first.vmin
  have vmax : other.vmax = sbuf.vmax := (members ▸ second.vmax).unique first.vmax
  have vstddev : other.vstddev = sbuf.vstddev := by
    cases Nat.lt_or_ge values.length 2 with
    | inl few =>
      have positive := List.length_pos_of_mem first.vmin.1
      rw [first.single (by omega), second.single (by omega)]
    | inr several =>
      apply (sq_eq_sq₀ second.nonneg first.nonneg).mp
      rw [first.variance several, second.variance (length ▸ several)]
      exact (variance_perm same).symm
  refine ⟨?_, ?_, vmax, vmin, vstddev, ?_⟩
  · rw [← BitVec.toNat_inj, first.count, second.count, length]
  · rw [first.vmean, second.vmean, mean_perm same]
  · rw [first.vrange, second.vrange, vmin, vmax]

theorem describes_all (nonempty : values ≠ []) (few : values.length < 2 ^ 64) :
    Describes values (sbuf.reset.calcAll values) := by
  have extremes : Extremes values (sbuf.reset.calcAll values) := extremes_all nonempty few
  have count := congrArg BitVec.toNat (accumulated_all sbuf values).count
  rw [BitVec.toNat_ofNat, Nat.mod_eq_of_lt few] at count
  obtain ⟨earlier, value, rfl⟩ := (List.eq_nil_or_concat' values).resolve_left nonempty
  have sums := accumulated_all sbuf earlier
  have last : sbuf.reset.calcAll (earlier ++ [value]) = (sbuf.reset.calcAll earlier).calcOne value := by
    rw [calcAll, List.foldl_append]
    rfl
  rw [last] at extremes count ⊢
  have vmean := vmean_step sums few
  have vstddev := vstddev_step sums few
  obtain ⟨least, greatest⟩ := extremes
  refine ⟨?_, count, least, greatest, rfl, vmean, ?_, ?_, fun several => ?_, fun single => ?_⟩
  · rw [List.getLast?_concat]
    rfl
  · rw [vmean]
    exact mean_between nonempty (fun _ member => least.2 member) (fun _ member => greatest.2 member)
  · rw [vstddev]
    split
    · exact Real.sqrt_nonneg _
    · exact le_rfl
  · rw [vstddev, if_pos several, Real.sq_sqrt (variance_nonneg several)]
  · rw [vstddev, if_neg (by omega)]

/-- After `reset`, fewer than 2^64 values leave their statistics, and all but the
last value is the same in every order. -/
theorem statistics_true (sbuf : Statbuffer ℝ) (values : List ℝ) (nonempty : values ≠ [])
    (few : values.length < 2 ^ 64) :
    Describes values (sbuf.reset.calcAll values) ∧
      ∀ permuted, values.Perm permuted →
        { sbuf.reset.calcAll permuted with v := (sbuf.reset.calcAll values).v } = sbuf.reset.calcAll values := by
  have described : Describes values (sbuf.reset.calcAll values) := describes_all nonempty few
  refine ⟨described, fun permuted same => ?_⟩
  have reordered : Describes permuted (sbuf.reset.calcAll permuted) :=
    describes_all (fun empty => nonempty (empty ▸ same).eq_nil) (same.length_eq ▸ few)
  obtain ⟨count, vmean, vmax, vmin, vstddev, vrange⟩ := describes_unique described reordered same
  have first := accumulated_all sbuf values
  have second := accumulated_all sbuf permuted
  have icSum : (sbuf.reset.calcAll permuted).icSum = (sbuf.reset.calcAll values).icSum := by
    rw [first.icSum, second.icSum, same.sum_eq]
  have icSum2 : (sbuf.reset.calcAll permuted).icSum2 = (sbuf.reset.calcAll values).icSum2 := by
    rw [first.icSum2, second.icSum2, (same.map _).sum_eq]
  exact Statbuffer.ext rfl count vmean vmax vmin vstddev vrange icSum icSum2

/-- The counter of the values comes back to zero. -/
theorem count_wraps : ¬ ∀ (sbuf : Statbuffer ℝ) (values : List ℝ), values ≠ [] →
    Describes values (sbuf.reset.calcAll values) := by
  intro described
  obtain ⟨values, length⟩ : ∃ values : List ℝ, values.length = 2 ^ 64 :=
    ⟨List.replicate (2 ^ 64) 1, List.length_replicate⟩
  have nonempty : values ≠ [] := List.ne_nil_of_length_pos (by omega)
  let sbuf : Statbuffer ℝ := ⟨0, 0, 0, 0, 0, 0, 0, 0, 0⟩
  have counted := (described sbuf values nonempty).count
  rw [(accumulated_all sbuf values).count, BitVec.toNat_ofNat, length, Nat.mod_self] at counted
  exact absurd counted (by norm_num)

theorem statistics_true_pair :
    Describes [3, 1] ((reset (⟨0, 0, 0, 0, 0, 0, 0, 0, 0⟩ : Statbuffer ℝ)).calcAll [3, 1]) :=
  (statistics_true _ [3, 1] (List.cons_ne_nil _ _) (by decide)).1

end EthercatSlave.Proofs.Statistics
