import EthercatSlave.Proofs.KernelCalls
import Mathlib.Algebra.Group.Int.Defs
import Mathlib.Algebra.Group.Nat.Defs

/-! How long `down_timeoutms` waits. Its clock arithmetic wraps around, which is
harmless as long as the timeout in nanoseconds fits its types. -/

namespace EthercatSlave.Proofs.DownTimeout
open Program Driver

section Arithmetic

/-- The jiffies that `down_timeout` is called with when `rest` is left. -/
def localjiffies (w jiffy : Nat) (rest : BitVec 64) : Nat :=
  let counted := BitVec.ofNat w ((((rest / facUs2ns).setWidth 32).toNat * 1000 + jiffy - 1) / jiffy)
  (if 1 < counted then counted else 1).toNat

private theorem toNat_one {w : Nat} (wide : 0 < w) : (1 : BitVec w).toNat = 1 := by
  have small : 1 < 2 ^ w := Nat.one_lt_two_pow (by omega)
  change (BitVec.ofNat w 1).toNat = 1
  rw [BitVec.toNat_ofNat, Nat.mod_eq_of_lt small]

theorem localjiffies_pos (w jiffy : Nat) (rest : BitVec 64) (wide : 0 < w) : 0 < localjiffies w jiffy rest := by
  have one := toNat_one wide
  simp only [localjiffies]
  split
  next more =>
    have more := BitVec.lt_def.mp more
    omega
  next => omega

theorem localjiffies_fit (w jiffy : Nat) (rest : BitVec 64) (wide : 0 < w) (positive : 0 < jiffy)
    (left : 0 < rest.toNat) :
    (localjiffies w jiffy rest - 1) * jiffy < rest.toNat := by
  have one := toNat_one wide
  have few : ((rest / facUs2ns).setWidth 32).toNat * 1000 ≤ rest.toNat := by
    have small : ((rest / facUs2ns).setWidth 32).toNat ≤ rest.toNat / 1000 := by
      rw [BitVec.toNat_setWidth, BitVec.toNat_udiv]
      exact Nat.mod_le _ _
    omega
  simp only [localjiffies]
  generalize ((rest / facUs2ns).setWidth 32).toNat = usecs at few
  split
  next more =>
    have rounded := Nat.div_mul_le_self (usecs * 1000 + jiffy - 1) jiffy
    have counted : (BitVec.ofNat w ((usecs * 1000 + jiffy - 1) / jiffy)).toNat ≤
        (usecs * 1000 + jiffy - 1) / jiffy := by
      rw [BitVec.toNat_ofNat]
      exact Nat.mod_le _ _
    have bound := Nat.mul_le_mul_right jiffy counted
    rw [Nat.sub_mul, Nat.one_mul]
    omega
  next =>
    rw [one, Nat.sub_self, Nat.zero_mul]
    exact left

theorem rest_bmod (endtime : BitVec 64) (now spent : Nat) :
    (endtime - BitVec.ofNat 64 (now + spent)).toInt =
      ((endtime - BitVec.ofNat 64 now).toInt - spent).bmod (2 ^ 64) := by
  have split : endtime - BitVec.ofNat 64 (now + spent) = endtime - BitVec.ofNat 64 now - BitVec.ofNat 64 spent := by
    rw [BitVec.ofNat_add]
    bv_omega
  rw [split, BitVec.toInt_sub, BitVec.toInt_ofNat', Int.sub_bmod_bmod]

theorem rest_toInt (endtime : BitVec 64) (now spent : Nat)
    (low : -2 ^ 63 ≤ (endtime - BitVec.ofNat 64 now).toInt - spent) :
    (endtime - BitVec.ofNat 64 (now + spent)).toInt = (endtime - BitVec.ofNat 64 now).toInt - spent := by
  have high : (endtime - BitVec.ofNat 64 now).toInt < 2 ^ 63 := BitVec.toInt_lt
  rw [rest_bmod, Int.bmod_eq_of_le]
  · omega
  · omega

end Arithmetic

section Rounds

variable {w units : Nat} {kernel : Kernel} {md : Pointer} {endtime : BitVec 64} {script : Nat → Chance}

private theorem scripted {op : KernelOp} {reply : op.Reply} {following : Kernel}
    (answered : Kernel.perform (script 0) op kernel = some (reply, following)) :
    Handler.scripted Kernel.perform op (kernel, script) = some (reply, following, fun index => script (index + 1)) :=
  congrArg (Option.map _) answered

private theorem now_le {α : Type} {program : Driver α} {before after : Kernel × (Nat → Chance)} {value : α}
    (ran : Eval (Handler.scripted Kernel.perform) program before value after) : before.1.now ≤ after.1.now := by
  let passed (state : Kernel × (Nat → Chance)) : Prop := before.1.now ≤ state.1.now
  have each : ∀ op state reply following, Handler.scripted Kernel.perform op state = some (reply, following) →
      passed state → passed following := by
    intro op state reply following answered holds
    obtain ⟨⟨_, _⟩, performed, same⟩ := Option.map_eq_some_iff.mp answered
    cases same
    exact Nat.le_trans holds (Kernel.now_le performed)
  have starts : passed before := Nat.le_refl _
  have ends : passed after := Eval.keeps each ran starts
  exact ends

theorem round_taken {last : Int × BitVec 64} (held : kernel.semaphore md = some units)
    (granted : ((script 1).down && decide (0 < units)) = true) :
    Eval (Handler.scripted Kernel.perform) (waitRound w md endtime last) (kernel, script) (0, last.2)
      ({ kernel.setSemaphore md (units - 1) with now := kernel.now + (script 1).elapsed },
        fun index => script (index + 2)) := by
  have takes : ∀ jiffies, Kernel.perform (script 1) (.downTimeout md jiffies) kernel = some ((0 : Int),
      { kernel.setSemaphore md (units - 1) with now := kernel.now + (script 1).elapsed }) := by
    intro jiffies
    simp only [Kernel.perform, held, Option.map_some, granted, if_true]
  simp only [waitRound, bind_eq, call_bind, pure_eq]
  apply Eval.request (scripted rfl)
  apply Eval.request (scripted (takes _))
  exact Eval.pure

theorem round_expired {last : Int × BitVec 64} (held : kernel.semaphore md = some units)
    (refused : ((script 1).down && decide (0 < units)) = false) :
    Eval (Handler.scripted Kernel.perform) (waitRound w md endtime last) (kernel, script)
      (-etime, endtime - BitVec.ofNat 64 (kernel.expire (localjiffies w kernel.jiffy last.2) (script 1).elapsed).now)
      (kernel.expire (localjiffies w kernel.jiffy last.2) (script 1).elapsed, fun index => script (index + 3)) := by
  have expires : ∀ jiffies, Kernel.perform (script 1) (.downTimeout md jiffies) kernel =
      some (-etime, kernel.expire jiffies (script 1).elapsed) := by
    intro jiffies
    simp only [Kernel.perform, held, Option.map_some, refused, Bool.false_eq_true, if_false]
  simp only [waitRound, bind_eq, call_bind, pure_eq]
  apply Eval.request (scripted rfl)
  apply Eval.request (scripted (expires _))
  apply Eval.request (scripted rfl)
  exact Eval.pure

/-- How a wait for `left` nanoseconds ends: with a unit, or in time. -/
def Ended (md : Pointer) (units left slack : Nat) (before : Kernel) (result : Int) (after : Kernel) : Prop :=
  (result = 0 ∧ 0 < units ∧ after.semaphore md = some (units - 1)) ∨
  (result ≠ 0 ∧ after.semaphore md = some units ∧ before.now + left ≤ after.now ∧ after.now < before.now + left + slack)

theorem waiting_iff {err : Int} {rest : BitVec 64} (failed : err ≠ 0) :
    waiting (err, rest) = decide (0 < rest.toInt) := by
  simp only [waiting, bne_iff_ne.mpr failed, Bool.true_and]

private theorem toNat_rest {rest : BitVec 64} {left : Nat} (equal : rest.toInt = left) : rest.toNat = left := by
  rw [BitVec.toInt_eq_toNat_cond] at equal
  split at equal <;> omega

/-- The loop ends. What is left shrinks in every round, and the last one spends
less than `slack` more than what is left. -/
theorem wait_ends {slack : Nat} (wide : 0 < w) (small : slack ≤ 2 ^ 63 + 1) (left : Nat) (positive : 0 < kernel.jiffy)
    (short : ∀ index, (script index).elapsed % kernel.jiffy < slack) {err : Int} (failed : err ≠ 0)
    (held : kernel.semaphore md = some units) (rest : (endtime - BitVec.ofNat 64 kernel.now).toInt = left)
    (some_left : 0 < left) :
    ∃ last after script', Eval (Handler.scripted Kernel.perform)
      (.doWhile (waitRound w md endtime) waiting (err, endtime - BitVec.ofNat 64 kernel.now) .pure)
        (kernel, script) last
      (after, script') ∧ Ended md units left slack kernel last.1 after := by
  induction left using Nat.strongRecOn generalizing kernel script err with
  | ind left ih =>
    by_cases granted : ((script 1).down && decide (0 < units)) = true
    · refine ⟨_, _, _, .leave (round_taken held granted) rfl .pure, .inl ⟨rfl, ?_, ?_⟩⟩
      · simp only [Bool.and_eq_true, decide_eq_true_eq] at granted
        exact granted.2
      · exact Kernel.semaphore_setSemaphore held
    · have round := @round_expired w _ _ _ endtime _ (err, endtime - BitVec.ofNat 64 kernel.now) held
        (Bool.eq_false_iff.mpr granted)
      have fits := localjiffies_fit w kernel.jiffy _ wide positive (toNat_rest rest ▸ some_left)
      rw [toNat_rest rest] at fits
      have within := short 1
      -- `spent` covers all but the last jiffy and some of the last one
      generalize localjiffies w kernel.jiffy _ = jiffies at round fits
      let spent := (jiffies - 1) * kernel.jiffy + 1 + (script 1).elapsed % kernel.jiffy
      have later : (kernel.expire jiffies (script 1).elapsed).now = kernel.now + spent := by
        simp only [Kernel.expire, spent, Nat.add_assoc]
      have bound : spent < left + slack := by omega
      have rest' : (endtime - BitVec.ofNat 64 (kernel.now + spent)).toInt = left - spent := by
        rw [rest_toInt endtime kernel.now spent (by rw [rest]; omega), rest]
      have expired : -etime ≠ 0 := by decide
      rw [later] at round
      by_cases more : spent < left
      · have again : waiting (-etime, endtime - BitVec.ofNat 64 (kernel.now + spent)) = true := by
          rw [waiting_iff expired, rest']
          exact decide_eq_true (by omega)
        have rest'' : (endtime - BitVec.ofNat 64 (kernel.expire jiffies (script 1).elapsed).now).toInt =
            ((left - spent : Nat) : Int) := by
          rw [later, rest']
          omega
        obtain ⟨last, after, script', ran, ended⟩ := @ih (left - spent) (by omega)
          (kernel.expire jiffies (script 1).elapsed) (fun index => script (index + 3)) positive
          (fun index => short (index + 3)) _ expired held rest'' (by omega)
        rw [later] at ran
        refine ⟨last, after, script', .again round again ran, ended.imp_right ?_⟩
        intro refusal
        obtain ⟨refused, kept, early, late⟩ := refusal
        rw [later] at early late
        exact ⟨refused, kept, by omega, by omega⟩
      · have done : waiting (-etime, endtime - BitVec.ofNat 64 (kernel.now + spent)) = false := by
          rw [waiting_iff expired, rest']
          exact decide_eq_false (by omega)
        exact ⟨_, _, _, .leave round done .pure, .inr ⟨expired, held, by rw [later]; omega, by rw [later]; omega⟩⟩

/-- A round without units in which a jiffy is longer than what is left. -/
theorem round_long (wide : 0 < w) {err : Int} {rest : BitVec 64} {spent : Nat} (held : kernel.semaphore md = some 0)
    (positive : 0 < rest.toNat) (long : rest.toNat ≤ kernel.jiffy) (spends : (script 1).elapsed + 1 = spent)
    (within : spent ≤ kernel.jiffy) :
    ∃ after, Eval (Handler.scripted Kernel.perform) (waitRound w md endtime (err, rest)) (kernel, script)
        (-etime, endtime - BitVec.ofNat 64 (kernel.now + spent)) (after, fun index => script (index + 3)) ∧
      after.now = kernel.now + spent ∧ after.semaphore md = some 0 ∧ after.jiffy = kernel.jiffy := by
  have round := @round_expired w 0 kernel md endtime script (err, rest) held (by simp)
  have fits := localjiffies_fit w kernel.jiffy rest wide (by omega) positive
  have some_jiffy := localjiffies_pos w kernel.jiffy rest wide
  have single : localjiffies w kernel.jiffy rest = 1 := by
    apply Nat.le_antisymm ?_ some_jiffy
    apply Nat.le_of_not_lt
    intro more
    have whole := Nat.mul_le_mul_right kernel.jiffy (show 1 ≤ localjiffies w kernel.jiffy rest - 1 by omega)
    omega
  have later : (kernel.expire 1 (script 1).elapsed).now = kernel.now + spent := by
    have small : (script 1).elapsed < kernel.jiffy := by omega
    simp only [Kernel.expire, Nat.sub_self, Nat.zero_mul, Nat.mod_eq_of_lt small]
    omega
  rw [single, later] at round
  exact ⟨_, round, later, held, rfl⟩

end Rounds

section Calls

variable {w units : Nat} {kernel : Kernel} {md : Pointer} {file : Nat} {cmd : BitVec 32} {script : Nat → Chance}

def restNs (w : Nat) (timeoutMs : BitVec w) : BitVec 64 := (facMs2ns w * timeoutMs).setWidth 64

private theorem endtime_sub (now : BitVec 64) (rest : BitVec 64) : now + rest - now = rest := by
  bv_omega

theorem downTimeoutms_ends {slack left : Nat} {arg : BitVec w} (wide : 0 < w) (small : slack ≤ 2 ^ 63 + 1)
    (positive : 0 < kernel.jiffy) (short : ∀ index, (script index).elapsed % kernel.jiffy < slack)
    (held : kernel.semaphore md = some units) (rest : (restNs w arg).toInt = left) (some_left : 0 < left) :
    ∃ result after script', Eval (Handler.scripted Kernel.perform) (downTimeoutms w md arg) (kernel, script) result
      (after, script') ∧ Ended md units left slack kernel result after := by
  let endtime := BitVec.ofNat 64 kernel.now + restNs w arg
  have start : endtime - BitVec.ofNat 64 kernel.now = restNs w arg := endtime_sub _ _
  have enters : waiting (-1, restNs w arg) = true := by
    rw [waiting_iff (by decide), rest]
    exact decide_eq_true (by omega)
  obtain ⟨last, after, script', ran, ended⟩ :=
    @wait_ends w units kernel md endtime (fun index => script (index + 1)) slack
    wide small left positive (fun index => short (index + 1)) (-1) (by decide) held (by rw [start, rest]) some_left
  rw [start] at ran
  refine ⟨last.1, after, script', ?_, ended⟩
  have loops : Eval (Handler.scripted Kernel.perform) (whileDo waiting (waitRound w md endtime) (-1, restNs w arg))
      (kernel, fun index => script (index + 1)) last (after, script') := by
    rw [whileDo, if_pos enters]
    exact ran
  simp only [downTimeoutms, bind_eq, call_bind, pure_eq]
  exact .request (scripted rfl) (loops.bind .pure)

theorem downTimeoutms_returns {arg : BitVec w} (none_left : (restNs w arg).toInt ≤ 0) :
    Eval (Handler.scripted Kernel.perform) (downTimeoutms w md arg) (kernel, script) (-1)
      (kernel, fun index => script (index + 1)) := by
  have skips : waiting (-1, restNs w arg) = false := by
    rw [waiting_iff (by decide)]
    exact decide_eq_false (by omega)
  have loops (endtime : BitVec 64) : Eval (Handler.scripted Kernel.perform)
    (whileDo waiting (waitRound w md endtime) (-1, restNs w arg))
      (kernel, fun index => script (index + 1)) (-1, restNs w arg) (kernel, fun index => script (index + 1)) := by
    rw [whileDo, if_neg (by rw [skips]; decide)]
    exact .pure
  simp only [downTimeoutms, bind_eq, call_bind, pure_eq]
  exact .request (scripted rfl) ((loops _).bind .pure)

structure Prepared (kernel : Kernel) (file : Nat) (md : Pointer) (units : Nat) : Prop where
  linked : (kernel.files file).privateData = md
  held : kernel.semaphore md = some units
  writable : ∀ context, kernel.context md = some context → context.wOpen ≠ 0

def prologue (cmd : BitVec 32) : Nat :=
  1 + (if iocDir cmd &&& iocWrite ≠ 0 then 1 else 0) + (if iocDir cmd &&& iocRead ≠ 0 then 1 else 0) + 1

private theorem checked_iff {α : Type} {direction : BitVec 32} {address : Nat} {next : Bool → Driver α} {result : α}
    {state : Kernel × (Nat → Chance)} (accessible : kernel.accessible address (iocSize cmd) = true) :
    Eval (Handler.scripted Kernel.perform) ((checkParameter cmd direction address false).bind next) (kernel, script)
        result state ↔
      Eval (Handler.scripted Kernel.perform) (next false)
        (kernel, fun index => script (index + if iocDir cmd &&& direction ≠ 0 then 1 else 0)) result state := by
  have access : ∀ chance, Kernel.perform chance (.accessOk address (iocSize cmd)) kernel = some (true, kernel) := by
    intro chance
    rw [← accessible]
    rfl
  by_cases asked : iocDir cmd &&& direction ≠ 0
  · simp only [checkParameter, if_pos asked, bind_eq, call_eq, pure_eq, request_bind, pure_bind]
    rw [Eval.answered_iff (scripted (access _))]
    rfl
  · simp only [checkParameter, if_neg asked, pure_eq, pure_bind, Nat.add_zero]

theorem driverUnioctl_iff {arg : BitVec w} {result : Int} {state : Kernel × (Nat → Chance)}
    (command : iocNr cmd = irqmoddevDownTimeout) (prepared : Prepared kernel file md units)
    (accessible : kernel.accessible arg.toNat (iocSize cmd) = true) :
    Eval (Handler.scripted Kernel.perform) (driverUnioctl w file cmd arg) (kernel, script) result state ↔
      Eval (Handler.scripted Kernel.perform) (downTimeoutms w md arg)
        (kernel, fun index => script (index + prologue cmd)) result state := by
  obtain ⟨context, present, _⟩ := Option.bind_eq_some_iff.mp prepared.held
  have data : ∀ chance, Kernel.perform chance (.privateData file) kernel = some (md, kernel) := by
    intro chance
    rw [← prepared.linked]
    rfl
  have writable : ∀ chance, Kernel.perform chance (.load md .wOpen) kernel = some (context.wOpen, kernel) :=
    fun chance => congrArg (Option.map _) present
  have api : ∀ script, Eval (Handler.scripted Kernel.perform) (myApi w cmd md arg) (kernel, script) result state ↔
      Eval (Handler.scripted Kernel.perform) (downTimeoutms w md arg)
        (kernel, fun index => script (index + 1)) result state := by
    intro script
    rw [myApi, if_neg (by rw [command]; decide), if_pos command]
    simp only [bind_eq, call_bind]
    rw [Eval.answered_iff (scripted (writable _)), if_neg (prepared.writable context present)]
  simp only [driverUnioctl, bind_eq, call_bind]
  rw [Eval.answered_iff (scripted (data _)), checked_iff accessible, checked_iff accessible, if_neg (by decide), api]
  simp only [prologue, Nat.add_assoc]

end Calls

theorem restNs_toInt {w : Nat} {arg : BitVec w} (width : w = 32 ∨ w = 64) (requested : 1 ≤ arg.toInt) :
    (restNs w arg).toInt ≤ 1000000 * arg.toInt ∧
      ((restNs w arg).toInt = 1000000 * arg.toInt ↔ 1000000 * arg.toInt < if w = 32 then 2 ^ 32 else 2 ^ 63) := by
  have requested' := BitVec.toInt_eq_toNat_cond arg
  have signed := BitVec.toInt_eq_toNat_cond (restNs w arg)
  rcases width with rfl | rfl
  · have rest : (restNs 32 arg).toNat = 1000000 * arg.toNat % 2 ^ 32 := by
      rw [restNs, BitVec.toNat_setWidth, BitVec.toNat_mul, facMs2ns, BitVec.toNat_ofNat,
        Nat.mod_eq_of_lt (show 1000000 < 2 ^ 32 by decide)]
      omega
    rw [if_pos rfl]
    split at requested' <;> split at signed <;> omega
  · have rest : (restNs 64 arg).toNat = 1000000 * arg.toNat % 2 ^ 64 := by
      rw [restNs, BitVec.toNat_setWidth, BitVec.toNat_mul, facMs2ns, BitVec.toNat_ofNat,
        Nat.mod_eq_of_lt (show 1000000 < 2 ^ 64 by decide)]
      omega
    rw [if_neg (by decide)]
    split at requested' <;> split at signed <;> omega

/-- The call comes to an end, returns 0 iff it took a unit, and else returns
neither too early nor more than a jiffy late. -/
def Honoured (w jiffy : Nat) (arg : BitVec w) : Prop :=
  ∀ file cmd md units (start : Kernel) script, iocNr cmd = irqmoddevDownTimeout → Prepared start file md units →
    start.jiffy = jiffy → start.accessible arg.toNat (iocSize cmd) = true →
    ∃ result after script', Eval (Handler.scripted Kernel.perform) (driverUnioctl w file cmd arg) (start, script) result
      (after, script') ∧ ∃ units', after.semaphore md = some units' ∧ (result = 0 ↔ units' + 1 = units) ∧
        (result ≠ 0 → units' = units ∧ start.now + 1000000 * arg.toInt ≤ after.now ∧
          after.now ≤ start.now + 1000000 * arg.toInt + jiffy)

theorem honoured_of_fits {w jiffy : Nat} {arg : BitVec w} (wide : 0 < w) (positive : 0 < jiffy)
    (requested : 1 ≤ arg.toInt)
    (fits : (restNs w arg).toInt = 1000000 * arg.toInt) (short : jiffy ≤ 2 ^ 63 + 1) : Honoured w jiffy arg := by
  intro file cmd md units start script command prepared same accessible
  subst same
  have left : (restNs w arg).toInt = ((1000000 * arg.toInt).toNat : Int) := by omega
  obtain ⟨result, after, script', ran, ended⟩ := @downTimeoutms_ends w units start md
    (fun index => script (index + prologue cmd)) start.jiffy (1000000 * arg.toInt).toNat arg wide short positive
    (fun index => Nat.mod_lt _ positive) prepared.held left (by omega)
  refine ⟨result, after, script', (driverUnioctl_iff command prepared accessible).mpr ran, ?_⟩
  rcases ended with ⟨taken, available, held⟩ | ⟨refused, held, early, late⟩
  · exact ⟨_, held, by omega, fun failed => absurd taken failed⟩
  · exact ⟨_, held, by omega, fun _ => ⟨rfl, by omega, by omega⟩⟩

def asking (jiffy : Nat) : Kernel :=
  { contexts := Function.update (fun _ => none) 0 (some { wOpen := 1, irqLsigsema := some 0 })
    files := fun _ => { privateData := some 0 }
    jiffy }

def irqmodDownTimeout : BitVec 32 := 0x4004422A

theorem asking_prepared (jiffy : Nat) : Prepared (asking jiffy) 0 (some 0) 0 := by
  refine ⟨rfl, rfl, fun context present => ?_⟩
  cases present
  decide

/-- What the timeout being honoured says about a call without units. -/
theorem asking_honoured {w jiffy : Nat} {arg : BitVec w} (honoured : Honoured w jiffy arg) (script : Nat → Chance) :
    ∃ result after script', Eval (Handler.scripted Kernel.perform) (downTimeoutms w (some 0) arg) (asking jiffy, script)
      result (after, script') ∧ 1000000 * arg.toInt ≤ after.now ∧ after.now ≤ 1000000 * arg.toInt + jiffy := by
  obtain ⟨result, after, script', ran, units', held, took, late⟩ :=
    honoured 0 irqmodDownTimeout (some 0) 0 (asking jiffy)
    (fun index => script (index - prologue irqmodDownTimeout)) rfl (asking_prepared jiffy) rfl rfl
  have failed : result ≠ 0 := fun zero => absurd (took.mp zero) (Nat.succ_ne_zero _)
  obtain ⟨_, early, late⟩ := late failed
  have ran := (driverUnioctl_iff rfl (asking_prepared jiffy) rfl).mp ran
  simp only [Nat.add_sub_cancel] at ran
  refine ⟨result, after, script', ran, ?_, ?_⟩
  · have start : ((asking jiffy).now : Int) = 0 := rfl
    omega
  · have start : ((asking jiffy).now : Int) = 0 := rfl
    omega

/-- A timeout that does not fit ends too early. -/
theorem fits_of_honoured {w jiffy : Nat} {arg : BitVec w} (wide : 0 < w) (positive : 0 < jiffy)
    (requested : 1 ≤ arg.toInt)
    (bound : (restNs w arg).toInt ≤ 1000000 * arg.toInt) (honoured : Honoured w jiffy arg) :
    (restNs w arg).toInt = 1000000 * arg.toInt := by
  obtain ⟨result, after, script', ran, early, _⟩ := asking_honoured honoured fun _ => { down := false }
  by_cases some_left : 0 < (restNs w arg).toInt
  · have short : ∀ index : Nat, ((fun _ : Nat => ({ down := false } : Chance)) index).elapsed %
      (asking jiffy).jiffy < 1 :=
      fun _ => by simp
    obtain ⟨result', after', script'', ran', ended⟩ := @downTimeoutms_ends w 0 (asking jiffy) (some 0)
      (fun _ => { down := false }) 1 (restNs w arg).toInt.toNat arg wide (by decide) positive short rfl
        (by omega) (by omega)
    obtain ⟨_, same⟩ := ran.deterministic ran'
    obtain ⟨rfl, _⟩ := Prod.mk.inj same
    have start : (asking jiffy).now = 0 := rfl
    rcases ended with ⟨_, never, _⟩ | ⟨_, _, _, late⟩
    · exact absurd never (Nat.lt_irrefl 0)
    · omega
  · obtain ⟨_, same⟩ := ran.deterministic (downTimeoutms_returns (Int.not_lt.mp some_left))
    obtain ⟨rfl, _⟩ := Prod.mk.inj same
    have start : ((asking jiffy).now : Int) = 0 := rfl
    omega

/-- Wakes up right before the end, then past the range of the rest, then one jiffy later. -/
def oversleeping (timeout jiffy : Nat) (index : Nat) : Chance :=
  { elapsed := if index < 3 then timeout - 2 else if index < 6 then 2 ^ 63 + 1 else jiffy - 1 }

/-- In a longer jiffy the rest can turn positive again. -/
theorem short_of_honoured {w jiffy : Nat} {arg : BitVec w} (wide : 0 < w) (requested : 1 ≤ arg.toInt)
    (fits : (restNs w arg).toInt = 1000000 * arg.toInt) (honoured : Honoured w jiffy arg) : jiffy ≤ 2 ^ 63 + 1 := by
  apply Nat.le_of_not_lt
  intro long
  obtain ⟨timeout, timed⟩ : ∃ timeout : Nat, (restNs w arg).toInt = timeout := Int.eq_ofNat_of_zero_le (by omega)
  obtain ⟨result, after, script', ran, _, late⟩ := asking_honoured honoured (oversleeping timeout jiffy)
  have limit : (restNs w arg).toInt < 2 ^ 63 := BitVec.toInt_lt
  have enters : waiting (-1, restNs w arg) = true := by
    rw [waiting_iff (by decide)]
    exact decide_eq_true (by omega)
  simp only [downTimeoutms, bind_eq, call_bind, pure_eq] at ran
  rw [Eval.answered_iff (scripted rfl), whileDo] at ran
  rw [restNs] at enters
  rw [if_pos enters] at ran
  let endtime := BitVec.ofNat 64 (asking jiffy).now + restNs w arg
  have start : endtime - BitVec.ofNat 64 (asking jiffy).now = restNs w arg := endtime_sub _ _
  have left : (restNs w arg).toNat = timeout := toNat_rest timed
  have clock : (asking jiffy).now = 0 := rfl
  -- the first round leaves one nanosecond
  obtain ⟨one, round, now, held, same⟩ := @round_long w (asking jiffy) (some 0) endtime
    (fun index => oversleeping timeout jiffy (index + 1)) wide (-1) (restNs w arg) (timeout - 1) rfl (by omega)
    (by show (restNs w arg).toNat ≤ jiffy; omega) (by show timeout - 2 + 1 = timeout - 1; omega)
    (by show timeout - 1 ≤ jiffy; omega)
  have rest : (endtime - BitVec.ofNat 64 ((asking jiffy).now + (timeout - 1))).toInt = 1 := by
    rw [rest_toInt endtime _ _ (by rw [start]; omega), start]
    omega
  rw [← now] at round rest
  have again : waiting (-etime, endtime - BitVec.ofNat 64 one.now) = true := by
    rw [waiting_iff (by decide), rest]
    rfl
  have ran := (Eval.again_iff round again).mp ran
  -- the second one wraps the rest around
  obtain ⟨two, round, now', held, same'⟩ := @round_long w one (some 0) endtime
    (fun index => oversleeping timeout jiffy (index + 3 + 1)) wide (-etime) (endtime - BitVec.ofNat 64 one.now)
      (2 ^ 63 + 2)
    held (by rw [toNat_rest rest]; decide) (by rw [toNat_rest rest, same]; show 1 ≤ jiffy; omega) rfl
    (by rw [same]; show _ ≤ jiffy; omega)
  have rest : (endtime - BitVec.ofNat 64 (one.now + (2 ^ 63 + 2))).toInt = ((2 ^ 63 - 1 : Nat) : Int) := by
    rw [rest_bmod, rest]
    rfl
  rw [← now'] at round rest
  have again : waiting (-etime, endtime - BitVec.ofNat 64 two.now) = true := by
    rw [waiting_iff (by decide), rest]
    rfl
  have ran := (Eval.again_iff round again).mp ran
  -- whatever follows the third one is too late
  obtain ⟨three, round, now'', _, _⟩ := @round_long w two (some 0) endtime
    (fun index => oversleeping timeout jiffy (index + 3 + 3 + 1)) wide (-etime)
      (endtime - BitVec.ofNat 64 two.now) jiffy
    held (by rw [toNat_rest rest]; decide) (by rw [toNat_rest rest, same', same]; show _ ≤ jiffy; omega)
    (by show jiffy - 1 + 1 = jiffy; omega) (by rw [same', same]; exact Nat.le_refl jiffy)
  have passed : three.now ≤ after.now := by
    cases ran with
    | again ran _ rest =>
      obtain ⟨_, rfl⟩ := round.deterministic ran
      exact now_le rest
    | leave ran _ rest =>
      obtain ⟨_, rfl⟩ := round.deterministic ran
      exact now_le rest
  omega

/-- `down_timeoutms` honours its timeout exactly when the timeout in nanoseconds
fits `unsigned long` (`w` = 32) or `long long` (`w` = 64); a jiffy of up to 2^63 + 1
nanoseconds does no harm. -/
theorem timeout_honoured_iff (w jiffy : Nat) (arg : BitVec w) (width : w = 32 ∨ w = 64) (positive : 0 < jiffy)
    (requested : 1 ≤ arg.toInt) : Honoured w jiffy arg ↔
      1000000 * arg.toInt < (if w = 32 then 2 ^ 32 else 2 ^ 63) ∧ jiffy ≤ 2 ^ 63 + 1 := by
  have wide : 0 < w := by omega
  obtain ⟨bound, fits_iff⟩ := restNs_toInt width requested
  rw [← fits_iff]
  constructor
  · intro honoured
    have fits := fits_of_honoured wide positive requested bound honoured
    exact ⟨fits, short_of_honoured wide requested fits honoured⟩
  · intro given
    obtain ⟨fits, short⟩ := given
    exact honoured_of_fits wide positive requested fits short

theorem timeout_honoured_hundred :
    Honoured 64 4000000 100 ↔ 1000000 * (100 : BitVec 64).toInt < 2 ^ 63 ∧ 4000000 ≤ 2 ^ 63 + 1 :=
  timeout_honoured_iff 64 4000000 100 (.inr rfl) (by decide) (by decide)

/-- On a 32-bit machine a timeout of 4295 ms is over in less than one. -/
theorem long_timeout_cut : ¬ Honoured 32 4000000 4295 := by
  intro honoured
  have fits := fits_of_honoured (by decide) (by decide) (by decide) (by decide) honoured
  exact absurd fits (by decide)

end EthercatSlave.Proofs.DownTimeout
