import EthercatSlave.Proofs.Handlers
import EthercatSlave.Proofs.KernelCalls

/-! Units of the semaphore between interrupts and waiting calls. A wait that takes
a unit is the last thing its call does, so units and calls match one to one. -/

namespace EthercatSlave.Proofs.Conservation
open Program Driver Interrupts Handlers

variable {chance : Chance} {before after : Kernel} {op : KernelOp} {reply : op.Reply} {md : Pointer} {file w : Nat}

section Calls

/-- The handle refers to `md`. -/
def Linked (file : Nat) (md : Pointer) : (op : KernelOp) → op.Reply → Prop
  | .privateData other, reply => other = file → reply = md
  | _, _ => True

/-- A wait on `md` that came back with a unit. -/
def Taking (md : Pointer) : (op : KernelOp) → op.Reply → Prop
  | .downInterruptible data, err => data = md ∧ err = 0
  | .downTimeout data _, err => data = md ∧ err = 0
  | _, _ => False

def Waits (cmd : BitVec 32) : Prop := iocNr cmd = irqmoddevWaitIrq ∨ iocNr cmd = irqmoddevDownTimeout

theorem taking_iff {thread : KernelThread Nat} : takes md ⟨thread, op, reply, after⟩ = true ↔ Taking md op reply := by
  cases op with
  | downInterruptible => simp [takes, Taking]
  | downTimeout => simp [takes, Taking]
  | _ => simp [takes, Taking]

/-- A call on the handle: over with 0 once it takes a unit, and only then with 0. -/
def Ending (file : Nat) (md : Pointer) (cmd : BitVec 32) (program : Driver Int) : Prop :=
  program.EndsAt (Linked file md) (Taking md) (fun result => result = 0 ∧ Waits cmd) (· ≠ 0)

theorem waitRound_ends {endtime : BitVec 64} {last : Int × BitVec 64} {ended other : Int × BitVec 64 → Prop}
    (takes : ∀ rest, ended (0, rest)) (fails : ∀ err rest, err ≠ 0 → other (err, rest)) :
    (waitRound w md endtime last).EndsAt (Linked file md) (Taking md) ended other := by
  simp only [waitRound, bind_eq, call_bind, pure_eq]
  intro jiffies _
  refine ⟨False.elim, fun _ (err : Int) _ => ⟨?_, ?_⟩⟩
  · intro ⟨_, zero⟩
    exact ⟨_, if_pos zero, zero ▸ takes last.2⟩
  · intro refused
    have failed : err ≠ 0 := fun zero => refused ⟨rfl, zero⟩
    simp only [if_neg failed]
    exact fun _ _ => ⟨False.elim, fun _ => fails _ _ failed⟩

theorem downTimeoutms_ends {cmd : BitVec 32} {arg : BitVec w} (waits : Waits cmd) :
    Ending file md cmd (downTimeoutms w md arg) := by
  simp only [Ending, downTimeoutms, bind_eq, call_bind, pure_eq]
  intro start _
  refine ⟨False.elim, fun _ => EndsAt.bind ?_⟩
  unfold whileDo
  split
  · -- a further round is only made after a failure
    refine ⟨fun last => last.1 ≠ 0, (nomatch ·), fun last failed => waitRound_ends ?_ ?_⟩
    · exact fun rest => ⟨rfl, _, rfl, _, rfl, rfl, waits⟩
    · exact fun err rest failed => ⟨fun _ => failed, fun _ => failed⟩
  · change (-1 : Int) ≠ 0
    decide

theorem myApi_ends {cmd : BitVec 32} {arg : BitVec w} : Ending file md cmd (myApi w cmd md arg) := by
  simp only [Ending, myApi, bind_eq, call_eq, pure_eq, request_bind, pure_bind]
  split
  next wait =>
    intro (wOpen : Int) _
    refine ⟨False.elim, fun _ => ?_⟩
    dsimp only
    split
    · change -einval ≠ 0
      decide
    · intro (err : Int) _
      exact ⟨fun ⟨_, zero⟩ => ⟨err, rfl, zero, .inl wait⟩, fun refused zero => refused ⟨rfl, zero⟩⟩
  next =>
    split
    next wait =>
      intro (wOpen : Int) _
      refine ⟨False.elim, fun _ => ?_⟩
      dsimp only
      split
      · change -einval ≠ 0
        decide
      · exact downTimeoutms_ends (.inr wait)
    next =>
      change -enotty ≠ 0
      decide

private theorem checkParameter_ends {cmd direction : BitVec 32} {address : Nat} {parameterError : Bool}
    {next : Bool → Driver Int} {ended other : Int → Prop}
    (rest : ∀ failed, (next failed).EndsAt (Linked file md) (Taking md) ended other) :
    ((checkParameter cmd direction address parameterError).bind next).EndsAt (Linked file md)
      (Taking md) ended other := by
  unfold checkParameter
  split
  · exact fun ok _ => ⟨False.elim, fun _ => rest _⟩
  · exact rest _

theorem driverUnioctl_ends {cmd : BitVec 32} {arg : BitVec w} : Ending file md cmd (driverUnioctl w file cmd arg) := by
  simp only [Ending, driverUnioctl, bind_eq, call_bind, pure_eq]
  intro mycontext linked
  obtain rfl := linked rfl
  refine ⟨False.elim, fun _ => checkParameter_ends fun failed => checkParameter_ends fun failed => ?_⟩
  split
  · change -efault ≠ 0
    decide
  · exact myApi_ends

end Calls

section Steps

/-- Calls that make or free no context and no semaphore. -/
def Counting : KernelOp → Prop
  | .kzalloc | .kfree _ | .store _ _ _ | .semaInit _ _ | .setPrivateData _ _ => False
  | _ => True

def Raising : KernelOp → Prop
  | .dispatch | .up _ => True
  | _ => False

theorem counting_of_raising (raising : Raising op) : Counting op := by
  cases op with
  | dispatch => trivial
  | up => trivial
  | _ => exact raising.elim

theorem not_taking_of_raising (raising : Raising op) : ¬ Taking md op reply := by
  cases op with
  | dispatch => exact id
  | up => exact id
  | _ => exact raising.elim

/-- Calls a call on an open handle makes. -/
def Serving : KernelOp → Prop
  | .dispatch | .up _ => False
  | op => Counting op

theorem counting_of_serving (serving : Serving op) : Counting op := by
  cases op with
  | dispatch => exact serving.elim
  | up => exact serving.elim
  | _ => exact serving

theorem tasking_of_serving (serving : Serving op) : Tasking op := by
  cases op with
  | dispatch => exact serving
  | up => exact serving
  | _ => trivial

private theorem checkParameter_serves {cmd direction : BitVec 32} {address : Nat} {parameterError : Bool} :
    (checkParameter cmd direction address parameterError).Uses Serving := by
  unfold checkParameter
  split
  · exact ⟨trivial, fun _ => trivial⟩
  · trivial

private theorem downTimeoutms_serves {arg : BitVec w} : (downTimeoutms w md arg).Uses Serving := by
  have round : ∀ endtime last, (waitRound w md endtime last).Uses Serving := by
    intro endtime last
    refine ⟨trivial, fun _ => ⟨trivial, fun err => ?_⟩⟩
    change Uses Serving (if err = (0 : Int) then _ else _)
    split
    · trivial
    · exact ⟨trivial, fun _ => trivial⟩
  simp only [downTimeoutms, bind_eq, call_bind, pure_eq]
  refine ⟨trivial, fun _ => Uses.bind ?_ fun _ => trivial⟩
  unfold whileDo
  split
  · exact ⟨round _, fun _ => trivial⟩
  · trivial

theorem driverUnioctl_serves {cmd : BitVec 32} {arg : BitVec w} : (driverUnioctl w file cmd arg).Uses Serving := by
  refine ⟨trivial, fun mycontext => checkParameter_serves.bind fun _ => checkParameter_serves.bind fun failed => ?_⟩
  cases failed with
  | true => trivial
  | false =>
    simp only [Bool.false_eq_true, if_false, myApi, bind_eq, call_eq, pure_eq, request_bind, pure_bind]
    split
    · refine ⟨trivial, fun (wOpen : Int) => ?_⟩
      dsimp only
      split
      · trivial
      · exact ⟨trivial, fun _ => trivial⟩
    · split
      · refine ⟨trivial, fun (wOpen : Int) => ?_⟩
        dsimp only
        split
        · trivial
        · exact downTimeoutms_serves
      · trivial

theorem driverUnioctl_counts {cmd : BitVec 32} {arg : BitVec w} : (driverUnioctl w file cmd arg).Uses Counting :=
  driverUnioctl_serves.mono fun _ => counting_of_serving

theorem interrupt_raises : interrupt.Uses Raising := ⟨trivial, fun _ => ⟨trivial, fun _ => trivial⟩⟩

theorem semaphore_wait {data : Pointer} {units count : Nat} {advanced : Nat} (held : before.semaphore md = some units)
    (waited : before.semaphore data = some count) (some_left : 0 < count) :
    ∃ units', Kernel.semaphore { before.setSemaphore data (count - 1) with now := advanced } md = some units' ∧
      units' + (if data = md then 1 else 0) = units := by
  by_cases own : data = md
  · subst own
    have same := Option.some.inj (waited.symm.trans held)
    refine ⟨count - 1, Kernel.semaphore_setSemaphore waited, ?_⟩
    rw [if_pos rfl]
    omega
  · refine ⟨units, ?_, by rw [if_neg own, Nat.add_zero]⟩
    rw [← held]
    exact Kernel.semaphore_setSemaphore_of_ne fun same => own same.symm

/-- What one call does to the units: an `up` adds one, a successful wait removes one. -/
theorem performed_balance {ι : Type} {thread : KernelThread ι} {units : Nat}
    (performed : Kernel.perform chance op before = some (reply, after)) (counting : Counting op)
    (held : before.semaphore md = some units) : ∃ units', after.semaphore md = some units' ∧
      units' + (if takes md ⟨thread, op, reply, after⟩ then 1 else 0) =
        units + if raises md ⟨thread, op, reply, after⟩ then 1 else 0 := by
  cases op with
  | up data =>
    obtain ⟨count, found, rfl⟩ := Kernel.up_performed performed
    by_cases own : data = md
    · subst own
      have same := Option.some.inj (found.symm.trans held)
      exact ⟨count + 1, Kernel.semaphore_setSemaphore found, by simp [takes, raises, same]⟩
    · refine ⟨units, ?_, by simp [takes, raises, own]⟩
      rw [← held]
      exact Kernel.semaphore_setSemaphore_of_ne fun same => own same.symm
  | downInterruptible data =>
    obtain ⟨count, found, waited⟩ := Option.bind_eq_some_iff.mp performed
    split at waited
    · cases waited
      exact ⟨units, held, by simp [takes, raises, eintr]⟩
    · split at waited
      next some_left =>
        cases waited
        obtain ⟨units', left, equal⟩ := @semaphore_wait before md data units count before.now held found some_left
        refine ⟨units', left, ?_⟩
        simpa [takes, raises] using equal
      next => cases waited
  | downTimeout data jiffies =>
    obtain ⟨count, found, same⟩ := Option.map_eq_some_iff.mp performed
    split at same
    next granted =>
      cases same
      simp only [Bool.and_eq_true, decide_eq_true_eq] at granted
      obtain ⟨units', left, equal⟩ :=
        @semaphore_wait before md data units count (before.now + chance.elapsed) held found granted.2
      refine ⟨units', left, ?_⟩
      simpa [takes, raises] using equal
    next =>
      cases same
      exact ⟨units, held, by simp [takes, raises, etime]⟩
  | kzalloc => exact counting.elim
  | kfree => exact counting.elim
  | store => exact counting.elim
  | semaInit => exact counting.elim
  | setPrivateData => exact counting.elim
  | _ =>
    refine ⟨units, ?_, rfl⟩
    simp only [Kernel.perform, Option.map_eq_some_iff] at performed
    grind [Kernel.semaphore, Kernel.context]

end Steps

section Runs

variable {cmd : Nat → BitVec 32} {thread : KernelThread Nat} {log : Log Nat}
    {event : Event (KernelThread Nat) KernelOp KernelOp.Reply Kernel}

theorem takenBy_own {state : Kernel} : takenBy thread md (log ++ [⟨thread, op, reply, state⟩]) =
    takenBy thread md log + if takes md ⟨thread, op, reply, state⟩ then 1 else 0 := by
  rw [takenBy, takenBy, List.countP_append, List.countP_singleton, decide_eq_true rfl, Bool.true_and]

theorem takenBy_other {other : KernelThread Nat} {state : Kernel} (different : other ≠ thread) :
    takenBy other md (log ++ [⟨thread, op, reply, state⟩]) = takenBy other md log := by
  rw [takenBy, takenBy, List.countP_append, List.countP_singleton, decide_eq_false fun same => different same.symm]
  rfl

theorem taken_snoc : taken md (log ++ [event]) = taken md log + if takes md event then 1 else 0 := by
  rw [taken, taken, List.countP_append, List.countP_singleton]

theorem ups_snoc : ups md (log ++ [event]) = ups md log + if raises md event then 1 else 0 := by
  rw [ups, ups, List.countP_append, List.countP_singleton]

/-- A call is still to take a unit, or it took its one unit and is over. -/
def Calling (file : Nat) (md : Pointer) (cmd : BitVec 32) (program : Driver Int) (taken : Nat) : Prop :=
  (taken = 0 ∧ Ending file md cmd program ∧ program.Uses Counting) ∨ (taken = 1 ∧ Waits cmd ∧ program = .pure (0 : Int))

/-- Every unit ever raised, `backlog` of them before the run, is pending or taken. -/
structure Balanced (file backlog : Nat) (md : Pointer) (cmd : Nat → BitVec 32)
    (pool : Pool (KernelThread Nat) KernelOp KernelOp.Reply Kernel Result) : Prop where
  linked : (pool.world.state.files file).privateData = md
  pending : ∃ units, pool.world.state.semaphore md = some units ∧
    units + taken md pool.world.log = backlog + ups md pool.world.log
  calls : ∀ index, Calling file md (cmd index) (pool.threads (.task index)) (takenBy (.task index) md pool.world.log)
  interrupts : ∀ number, takenBy (.irq number) md pool.world.log = 0 ∧ (pool.threads (.irq number)).Uses Raising

variable {backlog : Nat} {pool next : Pool (KernelThread Nat) KernelOp KernelOp.Reply Kernel Result}

private theorem counting_of_balanced (balanced : Balanced file backlog md cmd pool) :
    ∀ thread, (pool.threads thread).Uses Counting
  | .task index => by
    rcases balanced.calls index with ⟨_, _, counts⟩ | ⟨_, _, ended⟩
    · exact counts
    · rw [ended]
      trivial
  | .irq number => (balanced.interrupts number).2.mono fun _ => counting_of_raising

private theorem file_kept (performed : Kernel.perform chance op before = some (reply, after)) (counting : Counting op) :
    after.files = before.files := by
  refine Kernel.files_kept ?_ performed
  intro _ _ same
  subst same
  exact counting

theorem linked_of_performed (performed : Kernel.perform chance op before = some (reply, after))
    (linked : (before.files file).privateData = md) : Linked file md op reply := by
  cases op with
  | privateData other =>
    cases performed
    intro same
    subst same
    exact linked
  | _ => trivial

/-- A step that makes no request leaves all counts alone. -/
private theorem silent_step {rest : Driver (Result thread)} (balanced : Balanced file backlog md cmd pool)
    (stepped : (pool.threads thread).advance (Kernel.perform chance) pool.world.state =
      some (none, rest, pool.world.state)) :
    Balanced file backlog md cmd ⟨Function.update pool.threads thread rest, pool.world⟩ := by
  refine ⟨balanced.linked, balanced.pending, fun index => ?_, fun number => ?_⟩
  · by_cases own : .task index = thread
    · subst own
      simp only [Function.update_self]
      rcases balanced.calls index with ⟨untaken, ends, counts⟩ | ⟨_, _, ended⟩
      · rcases ends.advance stepped (fun _ _ => (nomatch ·)) with ⟨_, _, _, made, _⟩ | ⟨_, ends⟩
        · cases made
        · exact .inl ⟨untaken, ends, (counts.advance stepped).2⟩
      · rw [ended] at stepped
        cases stepped
    · simp only [Function.update_of_ne own]
      exact balanced.calls index
  · refine ⟨(balanced.interrupts number).1, ?_⟩
    by_cases own : .irq number = thread
    · subst own
      simp only [Function.update_self]
      exact ((balanced.interrupts number).2.advance stepped).2
    · simp only [Function.update_of_ne own]
      exact (balanced.interrupts number).2

private theorem request_step {rest : Driver (Result thread)} (balanced : Balanced file backlog md cmd pool)
    (stepped : (pool.threads thread).advance (Kernel.perform chance) pool.world.state =
      some (some ⟨op, reply⟩, rest, after))
    (performed : Kernel.perform chance op pool.world.state = some (reply, after)) :
    Balanced file backlog md cmd
      ⟨Function.update pool.threads thread rest, after, pool.world.log ++ [⟨thread, op, reply, after⟩]⟩ := by
  have counting := ((counting_of_balanced balanced thread).advance stepped).1 op reply rfl
  have possible : ∀ op' reply', some (⟨op, reply⟩ : (op : KernelOp) × op.Reply) = some ⟨op', reply'⟩ →
      Linked file md op' reply' := by
    intro _ _ stopped
    cases stopped
    exact linked_of_performed performed balanced.linked
  refine ⟨?_, ?_, fun index => ?_, fun number => ?_⟩
  · rw [file_kept performed counting]
    exact balanced.linked
  · obtain ⟨units, held, equal⟩ := balanced.pending
    obtain ⟨units', held', equal'⟩ := @performed_balance _ _ _ op reply md _ thread _ performed counting held
    refine ⟨units', held', ?_⟩
    rw [taken_snoc, ups_snoc]
    omega
  · by_cases own : .task index = thread
    · subst own
      simp only [Function.update_self]
      rcases balanced.calls index with ⟨untaken, ends, counts⟩ | ⟨_, _, ended⟩
      · rcases ends.advance stepped possible with ⟨_, _, _, made, takes, stops, rfl, waits⟩ | ⟨quiet, ends⟩
        · cases made
          exact .inr ⟨by rw [takenBy_own, untaken, if_pos (taking_iff.mpr takes)], waits, stops⟩
        · have untaken' : ¬ takes md ⟨.task index, op, reply, after⟩ = true := taking_iff.not.mpr (quiet op reply rfl)
          exact .inl ⟨by rw [takenBy_own, untaken, if_neg untaken'], ends, (counts.advance stepped).2⟩
      · rw [ended] at stepped
        cases stepped
    · simp only [Function.update_of_ne own, takenBy_other own]
      exact balanced.calls index
  · obtain ⟨untaken, raises⟩ := balanced.interrupts number
    by_cases own : .irq number = thread
    · subst own
      have raising := (raises.advance stepped).1 op reply rfl
      have untaken' : ¬ takes md ⟨.irq number, op, reply, after⟩ = true :=
        taking_iff.not.mpr (not_taking_of_raising raising)
      simp only [Function.update_self]
      exact ⟨by rw [takenBy_own, untaken, if_neg untaken'], (raises.advance stepped).2⟩
    · simp only [Function.update_of_ne own, takenBy_other own]
      exact ⟨untaken, raises⟩

theorem balanced_step (balanced : Balanced file backlog md cmd pool)
    (stepped : pool.step Kernel.perform thread chance = some next) : Balanced file backlog md cmd next := by
  obtain ⟨event, rest, state, advanced, rfl⟩ := Pool.step_eq stepped
  rcases advance_performed advanced with ⟨rfl, rfl⟩ | ⟨op, reply, rfl, performed⟩
  · exact silent_step balanced advanced
  · exact request_step balanced advanced performed

theorem conserved_of_balanced (balanced : Balanced file 0 md cmd pool)
    (returned : ups md pool.world.log = handled md pool) : Conserved md cmd pool := by
  have someone : ∀ event ∈ pool.world.log, takes md event = true → 0 < takenBy event.thread md pool.world.log := by
    intro event member takes
    exact List.countP_pos_iff.mpr ⟨event, member, by simp [takes]⟩
  refine ⟨?_, fun event member takes => ?_, fun index => ?_, fun index some_taken => ?_,
    fun index result returned => ?_⟩
  · simpa only [Nat.zero_add, returned] using balanced.pending
  · have taken := someone event member takes
    cases which : event.thread with
    | task index =>
      rw [which] at taken
      rcases balanced.calls index with ⟨untaken, _⟩ | ⟨_, waits, _⟩
      · omega
      · exact ⟨index, rfl, waits⟩
    | irq number =>
      rw [which, (balanced.interrupts number).1] at taken
      exact absurd taken (Nat.lt_irrefl 0)
  · rcases balanced.calls index with ⟨untaken, _⟩ | ⟨taken, _⟩ <;> omega
  · rcases balanced.calls index with ⟨untaken, _⟩ | ⟨_, _, ended⟩
    · omega
    · exact ended
  · rcases balanced.calls index with ⟨untaken, ends, _⟩ | ⟨taken, _, ended⟩
    · rw [returned] at ends
      rw [untaken, if_neg ends]
    · cases ended.symm.trans returned
      rw [taken, if_pos rfl]

theorem balanced_run {schedule : List (KernelThread Nat × Chance)} (balanced : Balanced file backlog md cmd pool)
    (ran : pool.run Kernel.perform schedule = some next) : Balanced file backlog md cmd next :=
  Pool.run_induction (fun _ _ _ _ balanced stepped => balanced_step balanced stepped) balanced ran

theorem calling_balanced {arg : Nat → BitVec w} {start : Kernel} (linked : (start.files file).privateData = md)
    (held : start.semaphore md = some backlog) : Balanced file backlog md cmd (calling w file cmd arg start) where
  linked := linked
  pending := ⟨backlog, held, rfl⟩
  calls _ := .inl ⟨rfl, driverUnioctl_ends, driverUnioctl_counts⟩
  interrupts _ := ⟨rfl, interrupt_raises⟩

end Runs

section Opening

private theorem request_linked {α : Type} {start : Kernel} {next : op.Reply → Driver α} {result : α}
    (opened : Eval (Kernel.perform chance) (.request op next) before result start)
    (link : ∀ file md, op ≠ .setPrivateData file md) (linked : (before.files file).privateData = md) :
    ∃ reply middle, Kernel.perform chance op before = some (reply, middle) ∧ (middle.files file).privateData = md ∧
      Eval (Kernel.perform chance) (next reply) middle result start := by
  obtain ⟨reply, middle, performed, opened⟩ := Eval.request_iff.mp opened
  refine ⟨reply, middle, performed, ?_, opened⟩
  rw [Kernel.files_kept link performed]
  exact linked

/-- A successful `open` leaves a handle whose semaphore has no unit. -/
theorem semaphore_of_opened {start : Kernel} (opened : Eval (Kernel.perform chance) (driverOpen file) before 0 start) :
    start.semaphore (start.files file).privateData = some 0 := by
  simp only [driverOpen, rIntConfig, bind_eq, call_eq, pure_eq, request_bind, pure_bind] at opened
  obtain ⟨md, _, _, opened⟩ := Eval.request_iff.mp opened
  obtain ⟨_, _, performed, opened⟩ := Eval.request_iff.mp opened
  have linked := Kernel.setPrivateData_performed performed
  obtain ⟨_, _, _, linked, opened⟩ := request_linked opened (by nofun) linked
  obtain ⟨busy, _, _, linked, opened⟩ := request_linked opened (by nofun) linked
  -- the last accesses of `open`, after the interrupt is configured
  have rest : ∀ {middle : Kernel}, (middle.files file).privateData = md →
      Eval (Kernel.perform chance) (.request (.load md .irqNumber) fun irq =>
        .request (.requestIrq irq md) fun failed =>
        if failed ≠ (0 : Int) then .pure (-efault) else .request (.fMode file) fun mode =>
          .request (.store md .wOpen (if mode &&& fmodeWrite ≠ 0 then 1 else 0)) fun _ =>
            .request (.semaInit md 0) fun _ => .pure 0) middle (0 : Int) start →
      start.semaphore (start.files file).privateData = some 0 := by
    intro middle linked opened
    obtain ⟨_, _, _, linked, opened⟩ := request_linked opened (by nofun) linked
    obtain ⟨failed, _, _, linked, opened⟩ := request_linked opened (by nofun) linked
    split at opened
    · cases opened
    · obtain ⟨_, _, _, linked, opened⟩ := request_linked opened (by nofun) linked
      obtain ⟨_, _, _, linked, opened⟩ := request_linked opened (by nofun) linked
      obtain ⟨_, _, performed, linked, opened⟩ := request_linked opened (by nofun) linked
      cases opened
      rw [linked]
      exact Kernel.semaInit_performed performed
  split at opened
  · obtain ⟨_, _, _, linked, opened⟩ := request_linked opened (by nofun) linked
    obtain ⟨_, _, _, linked, opened⟩ := request_linked opened (by nofun) linked
    dsimp only at opened
    split at opened
    · obtain ⟨_, _, _, linked, opened⟩ := request_linked opened (by nofun) linked
      exact rest linked opened
    · exact rest linked opened
  · exact rest linked opened

end Opening

/-- After a successful `open`, in every interleaving of interrupts and calls on
the handle, units are neither lost nor taken twice and every call reports its own. -/
theorem units_conserved (w file : Nat) (cmd : Nat → BitVec 32) (arg : Nat → BitVec w) (chance : Chance)
    (before start : Kernel) (schedule : List (KernelThread Nat × Chance))
    (final : Pool (KernelThread Nat) KernelOp KernelOp.Reply Kernel Result)
    (opened : Eval (Kernel.perform chance) (driverOpen file) before 0 start)
    (ran : (calling w file cmd arg start).run Kernel.perform schedule = some final) :
    Conserved (start.files file).privateData cmd final := by
  refine conserved_of_balanced (balanced_run (calling_balanced rfl (semaphore_of_opened opened)) ran) ?_
  exact ups_eq_handled (fun _ => driverUnioctl_serves.mono fun _ => tasking_of_serving) ran _

/-- An interrupt is handled, then one of the calls waits for it. -/
def waited : List (KernelThread Nat × Chance) :=
  List.replicate 2 (.irq 0, ({} : Chance)) ++ List.replicate 6 (.task 0, ({} : Chance))

theorem units_conserved_waited : ∃ start final,
    (calling 64 0 (fun _ => 0x4004422A) (fun _ => 100) start).run Kernel.perform waited = some final ∧
      taken (start.files 0).privateData final.world.log = 1 ∧
      Conserved (start.files 0).privateData (fun _ => 0x4004422A) final := by
  have ends : ((driverOpen 0).exec (Kernel.perform { kzalloc := some 0 }) 0
      (({} : Kernel).setFile 0 { fMode := 3 })).bind
      (fun (result, start) =>
        ((calling 64 0 (fun _ => 0x4004422A) (fun _ => 100) start).run Kernel.perform waited).map fun final =>
          (result, taken (start.files 0).privateData final.world.log)) = some (0, 1) := by decide +kernel
  obtain ⟨⟨result, start⟩, opened, runs⟩ := Option.bind_eq_some_iff.mp ends
  obtain ⟨final, ran, same⟩ := Option.map_eq_some_iff.mp runs
  obtain ⟨rfl, once⟩ := Prod.mk.inj same
  exact ⟨start, final, ran, once,
    units_conserved 64 0 _ _ _ _ start waited final (exec_sound opened) ran⟩

end EthercatSlave.Proofs.Conservation
