import EthercatSlave.Priority
import Mathlib.Algebra.Group.Nat.Defs

/-! The retry of `setscheduler` ends: after one raise the soft limit is the priority
itself. It serves every priority up to the hard limit unless the hard limit is lost
in an `int`. -/

namespace EthercatSlave.Proofs.PriorityRaise
open Program Priority

variable {refuses : Bool} {pid policy prio : BitVec 32} {kernel : Scheduler}

abbrev Raises (policyMax prio : BitVec 32) (rlim : Rlimit) : Prop :=
  (limit policyMax rlim.rlimCur).toInt < prio.toInt ∧ prio.toInt ≤ (limit policyMax rlim.rlimMax).toInt

/-- The kernel once it refused a call of `sched_setscheduler`. -/
def denied (kernel : Scheduler) : Scheduler := { kernel with calls := kernel.calls + 1, errno := eperm }

@[simp] theorem denied_rlim : (denied kernel).rlim = kernel.rlim := rfl

@[simp] theorem denied_priorityMax : (denied kernel).priorityMax = kernel.priorityMax := rfl

def raised (prio : BitVec 32) (kernel : Scheduler) : Scheduler :=
  { kernel with rlim := { kernel.rlim with rlimCur := prio.signExtend 64 } }

private theorem no_error : ¬ (0 : Int) ≠ 0 := fun fails => fails rfl

/-- `raise_soft_prio` up to its test. -/
theorem raise_tests {err : Int} {after : Scheduler} (known : kernel.priorityMax policy ≠ -1)
    (tested : Eval (Scheduler.perform refuses) (if Raises (kernel.priorityMax policy) prio kernel.rlim then
        .request (.setrlimit { kernel.rlim with rlimCur := prio.signExtend 64 }) fun (err : Int) =>
          if err ≠ 0 then call .errno else .pure err
      else .pure (-1 : Int)) kernel err after) :
    Eval (Scheduler.perform refuses) (raiseSoftPrio policy prio) kernel err after := by
  simp only [raiseSoftPrio, bind_eq, call_bind, pure_eq]
  have answered : Scheduler.perform refuses (.schedGetPriorityMax policy) kernel =
      some (kernel.priorityMax policy, kernel) := by
    simp only [Scheduler.perform, if_neg known]
  apply Eval.request answered
  rw [if_neg known]
  apply Eval.request rfl
  dsimp only
  rw [if_neg no_error]
  exact tested

theorem raise_stays (known : kernel.priorityMax policy ≠ -1)
    (stays : ¬ Raises (kernel.priorityMax policy) prio kernel.rlim) :
    Eval (Scheduler.perform refuses) (raiseSoftPrio policy prio) kernel (-1) kernel := by
  apply raise_tests known
  rw [if_neg stays]
  exact .pure

theorem raise_raises (known : kernel.priorityMax policy ≠ -1)
    (raises : Raises (kernel.priorityMax policy) prio kernel.rlim)
    (within : (prio.signExtend 64).toNat ≤ kernel.rlim.rlimMax.toNat) :
    Eval (Scheduler.perform refuses) (raiseSoftPrio policy prio) kernel 0 (raised prio kernel) := by
  apply raise_tests known
  rw [if_pos raises]
  have set : Scheduler.perform refuses (.setrlimit { kernel.rlim with rlimCur := prio.signExtend 64 }) kernel =
      some ((0 : Int), raised prio kernel) := by
    simp only [Scheduler.perform, if_neg (Nat.not_lt.mpr within), if_neg (Nat.lt_irrefl _)]
    rfl
  apply Eval.request set
  rw [if_neg no_error]
  exact .pure

theorem pass_granted (honest : refuses = false) (low : prio.toNat ≤ kernel.rlim.rlimCur.toNat) :
    Eval (Scheduler.perform refuses) (tryAgain pid policy prio) kernel (0, false)
      { kernel with calls := kernel.calls + 1 } := by
  simp only [tryAgain, bind_eq, call_bind, pure_eq]
  have answered : Scheduler.perform refuses (.schedSetscheduler pid policy prio) kernel =
      some ((0 : Int), { kernel with calls := kernel.calls + 1 }) := by
    simp only [Scheduler.perform, honest, Bool.false_or, decide_eq_true_eq, if_neg (Nat.not_lt.mpr low)]
  apply Eval.request answered
  rw [if_neg no_error]
  exact .pure

variable (pid) in
theorem pass_denied {err1 : Int} {after : Scheduler}
    (denies : refuses = true ∨ kernel.rlim.rlimCur.toNat < prio.toNat)
    (raising : Eval (Scheduler.perform refuses) (raiseSoftPrio policy prio) (denied kernel) err1 after) :
    Eval (Scheduler.perform refuses) (tryAgain pid policy prio) kernel (eperm, decide (err1 = 0)) after := by
  simp only [tryAgain, bind_eq, call_bind, pure_eq]
  have answered : Scheduler.perform refuses (.schedSetscheduler pid policy prio) kernel =
      some ((-1 : Int), denied kernel) := by
    have denies : (refuses || decide (kernel.rlim.rlimCur.toNat < prio.toNat)) = true := by
      simpa only [Bool.or_eq_true, decide_eq_true_eq] using denies
    simp only [Scheduler.perform, if_pos denies]
    rfl
  apply Eval.request answered
  rw [if_pos (by decide : (-1 : Int) ≠ 0)]
  apply Eval.request rfl
  have known : (denied kernel).errno = eperm := rfl
  rw [if_pos known]
  exact raising.bind .pure

theorem once {err : Int} {after : Scheduler}
    (pass : Eval (Scheduler.perform refuses) (tryAgain pid policy prio) kernel (err, false) after) :
    Eval (Scheduler.perform refuses) (setscheduler pid policy prio) kernel err after := by
  simp only [setscheduler, bind_eq, loop_bind, pure_eq]
  exact .leave pass rfl .pure

theorem twice {err err' : Int} {middle after : Scheduler}
    (first : Eval (Scheduler.perform refuses) (tryAgain pid policy prio) kernel (err, true) middle)
    (second : Eval (Scheduler.perform refuses) (tryAgain pid policy prio) middle (err', false) after) :
    Eval (Scheduler.perform refuses) (setscheduler pid policy prio) kernel err' after := by
  simp only [setscheduler, bind_eq, loop_bind, pure_eq]
  exact .again first rfl (.leave second rfl .pure)

section Limits

variable {policyMax : BitVec 32} {rlim : BitVec 64}

theorem toInt_prio (positive : 1 ≤ prio.toInt) : prio.toInt = prio.toNat ∧ prio.toNat < 2 ^ 31 := by
  have bound := prio.isLt
  rw [BitVec.toInt_eq_toNat_cond] at positive ⊢
  split at positive <;> split <;> omega

theorem toNat_extended (positive : 1 ≤ prio.toInt) : (prio.signExtend 64).toNat = prio.toNat := by
  have small := (toInt_prio positive).2
  have sign : prio.msb = false := by
    rw [BitVec.msb_eq_false_iff_two_mul_lt]
    omega
  rw [BitVec.signExtend_eq_setWidth_of_msb_false sign, BitVec.toNat_setWidth, Nat.mod_eq_of_lt (by omega)]

/-- A limit that fits an `int` is not lost in it. -/
theorem limit_small (small : rlim.toNat < 2 ^ 31) : (limit policyMax rlim).toInt = rlim.toNat := by
  have finite : rlim ≠ rlimInfinity := by
    intro same
    rw [same] at small
    exact absurd small (by decide)
  have narrowed : (rlim.setWidth 32).toNat = rlim.toNat := by
    rw [BitVec.toNat_setWidth, Nat.mod_eq_of_lt (by omega)]
  rw [limit, if_neg finite, BitVec.toInt_eq_toNat_cond, narrowed, if_pos (by omega)]

/-- What is lost only makes a limit smaller. -/
theorem le_of_limit (positive : 1 ≤ prio.toInt) (within : prio.toInt ≤ (limit policyMax rlim).toInt) :
    prio.toNat ≤ rlim.toNat := by
  obtain ⟨same, small⟩ := toInt_prio positive
  by_cases infinite : rlim = rlimInfinity
  · have most : rlim.toNat = 2 ^ 64 - 1 := by
      rw [infinite]
      rfl
    omega
  · rw [same, limit, if_neg infinite, BitVec.toInt_eq_toNat_cond, BitVec.toNat_setWidth] at within
    have less := Nat.mod_le rlim.toNat (2 ^ 32)
    split at within <;> omega

theorem raises_iff (positive : 1 ≤ prio.toInt) {limits : Rlimit} (above : limits.rlimCur.toNat < prio.toNat) :
    Raises policyMax prio limits ↔ prio.toInt ≤ (limit policyMax limits.rlimMax).toInt := by
  obtain ⟨same, small⟩ := toInt_prio positive
  have soft : (limit policyMax limits.rlimCur).toInt < prio.toInt := by
    rw [limit_small (by omega), same]
    omega
  exact and_iff_right soft

theorem raised_once (positive : 1 ≤ prio.toInt) : ¬ Raises policyMax prio (raised prio kernel).rlim := by
  obtain ⟨same, small⟩ := toInt_prio positive
  intro again
  have soft := again.1
  rw [raised, limit_small (by rw [toNat_extended positive]; exact small), toNat_extended positive, same] at soft
  exact absurd soft (Int.lt_irrefl _)

end Limits

section Calls

variable (pid) (positive : 1 ≤ prio.toInt) (known : kernel.priorityMax policy ≠ -1)

include positive known

/-- Where the raise is tried the call is made again. -/
theorem raised_eval (denies : refuses = true ∨ kernel.rlim.rlimCur.toNat < prio.toNat)
    (raises : Raises (kernel.priorityMax policy) prio kernel.rlim) :
    Eval (Scheduler.perform refuses) (tryAgain pid policy prio) kernel (eperm, true)
      (raised prio (denied kernel)) := by
  have within : (prio.signExtend 64).toNat ≤ (denied kernel).rlim.rlimMax.toNat := by
    rw [toNat_extended positive, denied_rlim]
    exact le_of_limit positive raises.2
  have raising : Eval (Scheduler.perform refuses) (raiseSoftPrio policy prio) (denied kernel) 0
      (raised prio (denied kernel)) := by
    apply raise_raises _ _ within
    · rwa [denied_priorityMax]
    · rwa [denied_priorityMax, denied_rlim]
  have pass := pass_denied pid denies raising
  rwa [decide_eq_true rfl] at pass

omit positive in
theorem stays_eval (denies : refuses = true ∨ kernel.rlim.rlimCur.toNat < prio.toNat)
    (stays : ¬ Raises (kernel.priorityMax policy) prio kernel.rlim) :
    Eval (Scheduler.perform refuses) (tryAgain pid policy prio) kernel (eperm, false) (denied kernel) := by
  have raising : Eval (Scheduler.perform refuses) (raiseSoftPrio policy prio) (denied kernel) (-1)
      (denied kernel) := by
    apply raise_stays
    · rwa [denied_priorityMax]
    · rwa [denied_priorityMax, denied_rlim]
  have pass := pass_denied pid denies raising
  rwa [decide_eq_false (by decide)] at pass

theorem stubborn_stops : ∃ err after, Eval (Scheduler.perform true) (setscheduler pid policy prio) kernel err after ∧
    after.calls ≤ kernel.calls + 2 := by
  by_cases raises : Raises (kernel.priorityMax policy) prio kernel.rlim
  · have first := raised_eval pid positive known (.inl rfl : true = true ∨ _) raises
    have known' : (raised prio (denied kernel)).priorityMax policy ≠ -1 := known
    have second := stays_eval pid known' (.inl rfl : true = true ∨ _) (raised_once positive)
    exact ⟨_, _, twice first second, Nat.le_refl _⟩
  · have first := stays_eval pid known (.inl rfl : true = true ∨ _) raises
    exact ⟨_, _, once first, Nat.le_succ _⟩

/-- A priority within the soft limit, or that the raise brings within it. -/
theorem granted_raised (ordered : kernel.rlim.rlimCur.toNat ≤ kernel.rlim.rlimMax.toNat)
    (grants : prio.toNat ≤ kernel.rlim.rlimCur.toNat ∨
      prio.toInt ≤ (limit (kernel.priorityMax policy) kernel.rlim.rlimMax).toInt) :
    ∃ after, Eval (Scheduler.perform false) (setscheduler pid policy prio) kernel 0 after ∧
      Raised prio kernel 0 after := by
  by_cases low : prio.toNat ≤ kernel.rlim.rlimCur.toNat
  · have granted : (0 : Int) = 0 ↔ prio.toNat ≤ kernel.rlim.rlimMax.toNat := by simp [Nat.le_trans low ordered]
    exact ⟨_, once (pass_granted rfl low), Nat.le_succ _, granted, rfl, Nat.le_refl _, fun fails => (fails rfl).elim⟩
  · have above := Nat.lt_of_not_le low
    have within := grants.resolve_left low
    have first := raised_eval pid positive known (.inr above : false = true ∨ _)
      ((raises_iff positive above).mpr within)
    have enough : prio.toNat ≤ (raised prio (denied kernel)).rlim.rlimCur.toNat :=
      Nat.le_of_eq (toNat_extended positive).symm
    have granted : (0 : Int) = 0 ↔ prio.toNat ≤ kernel.rlim.rlimMax.toNat := by simp [le_of_limit positive within]
    refine ⟨_, twice first (pass_granted rfl enough), Nat.le_refl _, granted, rfl, ?_, fun fails => (fails rfl).elim⟩
    exact Nat.le_trans (Nat.le_of_lt above) enough

theorem refused_eval (above : kernel.rlim.rlimCur.toNat < prio.toNat)
    (beyond : ¬ prio.toInt ≤ (limit (kernel.priorityMax policy) kernel.rlim.rlimMax).toInt) :
    Eval (Scheduler.perform false) (setscheduler pid policy prio) kernel eperm (denied kernel) :=
  once (stays_eval pid known (.inr above) ((not_congr (raises_iff positive above)).mpr beyond))

end Calls

/-- For limits in order and a priority of the policy: the soft limit serves it, it is
above the hard limit, or the hard limit is infinite or still serves it as an `int`. -/
theorem meets_iff (pid policy prio : BitVec 32) (kernel : Scheduler)
    (ordered : kernel.rlim.rlimCur.toNat ≤ kernel.rlim.rlimMax.toNat) (positive : 1 ≤ prio.toInt)
    (allowed : prio.toInt ≤ (kernel.priorityMax policy).toInt) :
    Meets pid policy prio kernel ↔
      prio.toNat ≤ kernel.rlim.rlimCur.toNat ∨ kernel.rlim.rlimMax.toNat < prio.toNat ∨
        kernel.rlim.rlimMax = rlimInfinity ∨ prio.toInt ≤ (kernel.rlim.rlimMax.setWidth 32).toInt := by
  have known : kernel.priorityMax policy ≠ -1 := by
    intro unknown
    rw [unknown] at allowed
    exact absurd (Int.le_trans positive allowed) (by decide)
  have hard : prio.toInt ≤ (limit (kernel.priorityMax policy) kernel.rlim.rlimMax).toInt ↔
      kernel.rlim.rlimMax = rlimInfinity ∨ prio.toInt ≤ (kernel.rlim.rlimMax.setWidth 32).toInt := by
    unfold limit
    split
    next infinite => simp [infinite, allowed]
    next finite => simp [finite]
  rw [← hard]
  have stubborn := stubborn_stops pid positive known
  by_cases grants : prio.toNat ≤ kernel.rlim.rlimCur.toNat ∨
      prio.toInt ≤ (limit (kernel.priorityMax policy) kernel.rlim.rlimMax).toInt
  · obtain ⟨after, ran, meets⟩ := granted_raised pid positive known ordered grants
    exact iff_of_true ⟨⟨0, after, ran, meets⟩, stubborn⟩ (grants.imp_right .inr)
  · obtain ⟨above, beyond⟩ := not_or.mp grants
    have ran := refused_eval pid positive known (Nat.lt_of_not_le above) beyond
    constructor
    · intro meets
      obtain ⟨⟨err, after, ran', met⟩, _⟩ := meets
      obtain ⟨rfl, rfl⟩ := ran.deterministic ran'
      have refused : ¬ prio.toNat ≤ kernel.rlim.rlimMax.toNat := (not_congr met.granted).mp (by decide)
      exact .inr (.inl (Nat.lt_of_not_le refused))
    · intro given
      have high := (given.resolve_left above).resolve_right beyond
      have refused : eperm = 0 ↔ prio.toNat ≤ kernel.rlim.rlimMax.toNat :=
        iff_of_false (by decide) (Nat.not_le.mpr high)
      exact ⟨⟨eperm, denied kernel, ran, Nat.le_succ _, refused, rfl, Nat.le_refl _, fun _ => rfl⟩, stubborn⟩

def limited (soft hard : BitVec 64) : Scheduler := { rlim := ⟨soft, hard⟩, priorityMax := fun _ => 99 }

theorem meets_iff_ninety : Meets 0 1 90 (limited 0 95) :=
  (meets_iff 0 1 90 (limited 0 95) (by decide) (by decide) (by decide)).mpr (by decide)

/-- A hard limit of 2^32 is 0 in an `int`: no priority below it is granted. -/
theorem wide_limit_lost : ¬ ∀ (pid policy prio : BitVec 32) (kernel : Scheduler),
    kernel.rlim.rlimCur.toNat ≤ kernel.rlim.rlimMax.toNat → 1 ≤ prio.toInt →
    prio.toInt ≤ (kernel.priorityMax policy).toInt → Meets pid policy prio kernel := by
  intro meets
  have ran : Eval (Scheduler.perform false) (setscheduler 0 1 50) (limited 0 (2 ^ 32)) eperm
      (denied (limited 0 (2 ^ 32))) := refused_eval 0 (by decide) (by decide) (by decide) (by decide)
  obtain ⟨⟨err, after, ran', met⟩, _⟩ := meets 0 1 50 (limited 0 (2 ^ 32)) (by decide) (by decide) (by decide)
  obtain ⟨rfl, rfl⟩ := ran.deterministic ran'
  exact absurd (met.granted.mpr (by decide)) (by decide)

end EthercatSlave.Proofs.PriorityRaise
