import EthercatSlave.Proofs.Composition
import EthercatSlave.Proofs.Conservation
import EthercatSlave.UserSpaceTest

/-! Each round of the test program that counts an interrupt waits twice, so it
counts every second one. The handle is its own: no other task takes its units. -/

namespace EthercatSlave.Proofs.UserSpaceTest
open Program Driver Interrupts EthercatSlave.UserSpaceTest
open Conservation (Counting Raising)
open Handlers (raises ups)
open Shield (irqmodDownTimeout)

variable {chance : Chance} {kernel kernel' : Kernel} {op : KernelOp} {reply : op.Reply} {md other : Pointer}

section Contexts

/-- What other threads leave of a context: whether it is writable and has a semaphore. -/
def view (kernel : Kernel) (md : Pointer) : Option (Int × Bool) :=
  (kernel.context md).map fun context => (context.wOpen, context.irqLsigsema.isSome)

theorem semaphore_none {wOpen : Int} (seen : view kernel md = some (wOpen, false)) : kernel.semaphore md = none := by
  obtain ⟨context, present, same⟩ := Option.map_eq_some_iff.mp seen
  rw [Kernel.semaphore, present, Option.bind_some]
  exact Option.isSome_eq_false_iff.mp (congrArg Prod.snd same) |> Option.isNone_iff_eq_none.mp

theorem context_setContext_of_ne {content : Option MyContext} (different : other ≠ md) :
    (kernel.setContext md content).context other = kernel.context other := by
  cases md with
  | none => rfl
  | some address =>
    cases other with
    | none => rfl
    | some address' => exact Function.update_of_ne (fun same => different (congrArg some same)) ..

theorem context_setContext {context : MyContext} {content : Option MyContext}
    (present : kernel.context md = some context) :
    (kernel.setContext md content).context md = content := by
  cases md with
  | none => cases present
  | some address => exact Function.update_self ..

theorem view_setSemaphore {count count' : Nat} (held : kernel.semaphore other = some count) :
    view (kernel.setSemaphore other count') md = view kernel md := by
  obtain ⟨context, present, made⟩ := Option.bind_eq_some_iff.mp held
  have changed : kernel.setSemaphore other count' =
      kernel.setContext other (some { context with irqLsigsema := some count' }) := by
    simp only [Kernel.setSemaphore, present]
  rw [changed]
  by_cases own : md = other
  · subst own
    simp [view, context_setContext present, present, made]
  · simp only [view, context_setContext_of_ne own]

/-- No wait and no interrupt makes a semaphore or changes the mode of a handle. -/
theorem view_kept (performed : Kernel.perform chance op kernel = some (reply, kernel')) (counting : Counting op) :
    view kernel' md = view kernel md := by
  cases op with
  | up data =>
    obtain ⟨count, held, rfl⟩ := Kernel.up_performed performed
    exact view_setSemaphore held
  | downInterruptible data =>
    obtain ⟨count, held, waited⟩ := Option.bind_eq_some_iff.mp performed
    split at waited
    · cases waited
      rfl
    · split at waited
      · cases waited
        exact view_setSemaphore held
      · cases waited
  | downTimeout data jiffies =>
    obtain ⟨count, held, same⟩ := Option.map_eq_some_iff.mp performed
    split at same
    · cases same
      exact view_setSemaphore held
    · cases same
      rfl
  | kzalloc => exact counting.elim
  | kfree => exact counting.elim
  | store => exact counting.elim
  | semaInit => exact counting.elim
  | setPrivateData => exact counting.elim
  | _ =>
    simp only [Kernel.perform, Option.map_eq_some_iff] at performed
    grind [view, Kernel.context]

theorem semaphore_isSome : (kernel.semaphore md).isSome = ((view kernel md).map Prod.snd).getD false := by
  unfold view Kernel.semaphore
  cases kernel.context md <;> rfl

/-- The calls that neither make, count nor free a semaphore. -/
def Quiet : KernelOp → Prop
  | .up _ | .downInterruptible _ | .downTimeout _ _ | .semaInit _ _ | .kfree _ => False
  | _ => True

theorem semaphore_kept (performed : Kernel.perform chance op kernel = some (reply, kernel')) (quiet : Quiet op) :
    kernel'.semaphore md = kernel.semaphore md := by
  cases op with
  | kzalloc =>
    simp only [Kernel.perform] at performed
    split at performed
    next => cases performed; rfl
    next address _ =>
      split at performed
      next fresh =>
        cases performed
        have absent : kernel.context (some address) = none := Option.isNone_iff_eq_none.mp fresh
        by_cases own : md = some address
        · subst own
          have given : (kernel.setContext (some address) (some {})).context (some address) = some {} :=
            Function.update_self ..
          rw [Kernel.semaphore, Kernel.semaphore, given, absent]
          rfl
        · rw [Kernel.semaphore, Kernel.semaphore, context_setContext_of_ne own]
      next => cases performed
  | store data member value =>
    obtain ⟨context, present, same⟩ := Option.map_eq_some_iff.mp performed
    cases same
    by_cases own : md = data
    · subst own
      rw [Kernel.semaphore, Kernel.semaphore, context_setContext present, present]
      cases member <;> rfl
    · rw [Kernel.semaphore, Kernel.semaphore, context_setContext_of_ne own]
  | up => exact quiet.elim
  | downInterruptible => exact quiet.elim
  | downTimeout => exact quiet.elim
  | semaInit => exact quiet.elim
  | kfree => exact quiet.elim
  | setPrivateData => cases performed; rfl
  | _ =>
    simp only [Kernel.perform, Option.map_eq_some_iff] at performed
    grind [Kernel.semaphore, Kernel.context]

end Contexts

abbrev TestWorld := World (KernelThread Unit) TestOp TestOp.Reply Kernel

variable {before after world later : TestWorld} {thread : KernelThread Unit} {state : Kernel}

section Events

theorem acts_kernelLog {reply : op.Reply} (acts : Pool.acts perform thread (.kernel op) before reply after) :
    kernelLog after.log = kernelLog before.log ++ [⟨thread, op, reply, after.state⟩] := by
  obtain ⟨_, _, grows⟩ := acts
  rw [grows, kernelLog, List.filterMap_append]
  rfl

theorem acts_printed {reply : op.Reply} (acts : Pool.acts perform thread (.kernel op) before reply after) :
    printed after.log = printed before.log := by
  obtain ⟨_, _, grows⟩ := acts
  rw [grows, printed, List.filterMap_append]
  exact List.append_nil _

theorem taken_acts {reply : op.Reply} (acts : Pool.acts perform thread (.kernel op) before reply after) :
    taken md (kernelLog after.log) =
      taken md (kernelLog before.log) + if takes md ⟨thread, op, reply, after.state⟩ then 1 else 0 := by
  rw [acts_kernelLog acts, taken, taken, List.countP_append, List.countP_singleton]

theorem ups_acts {reply : op.Reply} (acts : Pool.acts perform thread (.kernel op) before reply after) :
    ups md (kernelLog after.log) =
      ups md (kernelLog before.log) + if raises md ⟨thread, op, reply, after.state⟩ then 1 else 0 := by
  rw [acts_kernelLog acts, ups, ups, List.countP_append, List.countP_singleton]

theorem opened_acts {reply : op.Reply} (acts : Pool.acts perform thread (.kernel op) before reply after) :
    opened md after.log = (opened md before.log || initialises md ⟨thread, op, reply, after.state⟩) := by
  rw [opened, opened, acts_kernelLog acts, List.any_append, List.any_cons, List.any_nil, Bool.or_false]

theorem broken_acts {reply : op.Reply} (acts : Pool.acts perform thread (.kernel op) before reply after) :
    broken md (kernelLog after.log) =
      broken md (kernelLog before.log) + if breaks md ⟨thread, op, reply, after.state⟩ then 1 else 0 := by
  rw [acts_kernelLog acts, broken, broken, List.countP_append, List.countP_singleton]

theorem quiet_opens (quiet : Quiet op) : initialises md ⟨thread, op, reply, state⟩ = false := by
  cases op with
  | semaInit => exact quiet.elim
  | _ => rfl

theorem quiet_counts (quiet : Quiet op) : takes md ⟨thread, op, reply, state⟩ = false ∧
    raises md ⟨thread, op, reply, state⟩ = false ∧ breaks md ⟨thread, op, reply, state⟩ = false := by
  cases op with
  | up => exact quiet.elim
  | downInterruptible => exact quiet.elim
  | downTimeout => exact quiet.elim
  | _ => exact ⟨rfl, rfl, rfl⟩

/-- What has no semaphore is neither raised nor waited for. -/
theorem untouched_kept (performed : Kernel.perform chance op kernel = some (reply, kernel'))
    (missing : kernel.semaphore md = none) :
    takes md ⟨thread, op, reply, state⟩ = false ∧ raises md ⟨thread, op, reply, state⟩ = false := by
  have different : ∀ {data : Pointer} {count : Nat}, kernel.semaphore data = some count → ¬ data = md := by
    intro data count held same
    rw [same, missing] at held
    cases held
  cases op with
  | up data =>
    obtain ⟨count, held, _⟩ := Kernel.up_performed performed
    simp [takes, raises, different held]
  | downInterruptible data =>
    obtain ⟨count, held, _⟩ := Option.bind_eq_some_iff.mp performed
    simp [takes, raises, different held]
  | downTimeout data jiffies =>
    obtain ⟨count, held, _⟩ := Option.map_eq_some_iff.mp performed
    simp [takes, raises, different held]
  | _ => exact ⟨rfl, rfl⟩

end Events

section Balance

variable {backlog : Pointer → Nat}

/-- Units pending, taken and raised agree for every semaphore, `backlog` units being older than the run. -/
structure Balanced (backlog : Pointer → Nat) (world : TestWorld) : Prop where
  pending : ∀ md units, world.state.semaphore md = some units →
    units + taken md (kernelLog world.log) = backlog md + ups md (kernelLog world.log)
  untouched : ∀ md, world.state.semaphore md = none →
    backlog md = 0 ∧ taken md (kernelLog world.log) = 0 ∧ ups md (kernelLog world.log) = 0

theorem Balanced.quiet (balanced : Balanced backlog before)
    (acts : Pool.acts perform thread (.kernel op) before reply after) (quiet : Quiet op) : Balanced backlog after := by
  have takes := fun md => (@taken_acts op md before after thread reply acts)
  have raises := fun md => (@ups_acts op md before after thread reply acts)
  simp only [(quiet_counts quiet).1, (quiet_counts quiet).2.1, Bool.false_eq_true, if_false,
    Nat.add_zero] at takes raises
  obtain ⟨chance, performed, _⟩ := acts
  refine ⟨fun md units held => ?_, fun md missing => ?_⟩
  · rw [takes, raises]
    exact balanced.pending md units ((semaphore_kept performed quiet).symm.trans held)
  · rw [takes, raises]
    exact balanced.untouched md ((semaphore_kept performed quiet).symm.trans missing)

theorem Balanced.counting (balanced : Balanced backlog before)
    (acts : Pool.acts perform thread (.kernel op) before reply after) (counting : Counting op) :
    Balanced backlog after := by
  have takes := fun md => (@taken_acts op md before after thread reply acts)
  have raises := fun md => (@ups_acts op md before after thread reply acts)
  obtain ⟨chance, performed, _⟩ := acts
  refine ⟨fun md units held => ?_, fun md missing => ?_⟩
  · cases found : before.state.semaphore md with
    | none =>
      have appeared := @semaphore_isSome after.state md
      rw [view_kept performed counting, ← semaphore_isSome, held, found] at appeared
      cases appeared
    | some units' =>
      obtain ⟨units'', held', equal⟩ :=
        @Conservation.performed_balance _ _ _ op reply md _ thread _ performed counting found
      cases held.symm.trans held'
      have old := balanced.pending md units' found
      rw [takes, raises]
      omega
  · have vanished := @semaphore_isSome before.state md
    rw [← view_kept performed counting, ← semaphore_isSome, missing] at vanished
    have found : before.state.semaphore md = none := Option.isNone_iff_eq_none.mp (by simpa using vanished)
    obtain ⟨untaken, unraised⟩ := @untouched_kept _ _ _ op reply md thread after.state performed found
    rw [takes, raises, untaken, unraised]
    exact balanced.untouched md found

/-- A new semaphore starts with nothing pending, taken or raised. -/
theorem Balanced.semaInit {done : Unit} (balanced : Balanced backlog before)
    (acts : Pool.acts perform thread (.kernel (.semaInit md 0)) before done after)
    (missing : before.state.semaphore md = none) : Balanced backlog after := by
  have takes := fun other => @taken_acts (.semaInit md 0) other before after thread done acts
  have raises := fun other => @ups_acts (.semaInit md 0) other before after thread done acts
  obtain ⟨chance, performed, _⟩ := acts
  change Kernel.perform chance (.semaInit md 0) before.state = some (done, after.state) at performed
  have made : after.state.semaphore md = some 0 := Kernel.semaInit_performed performed
  have elsewhere : ∀ other, other ≠ md → after.state.semaphore other = before.state.semaphore other := by
    intro other different
    obtain ⟨context, _, same⟩ := Option.map_eq_some_iff.mp performed
    have changed := (Prod.mk.inj same).2
    rw [← changed, Kernel.semaphore, Kernel.semaphore, context_setContext_of_ne different]
  refine ⟨fun other units held => ?_, fun other absent => ?_⟩
  · rw [takes, raises]
    by_cases own : other = md
    · subst own
      obtain ⟨none_old, untaken, unraised⟩ := balanced.untouched other missing
      cases made.symm.trans held
      change 0 + (_ + 0) = _ + (_ + 0)
      omega
    · exact balanced.pending other units ((elsewhere other own).symm.trans held)
  · rw [takes, raises]
    by_cases own : other = md
    · subst own
      cases made.symm.trans absent
    · exact balanced.untouched other ((elsewhere other own).symm.trans absent)

end Balance

section Promises

variable {backlog : Pointer → Nat} {file count spent number : Nat}

/-- The waits of the handle that came back, with a unit or with a signal. -/
def waits (md : Pointer) (world : TestWorld) : Nat :=
  taken md (kernelLog world.log) + broken md (kernelLog world.log)

/-- The numbers printed are half of the waits, as far as they are pairs. -/
structure Tallied (backlog : Pointer → Nat) (file : Nat) (world : TestWorld) : Prop where
  printed : ∃ count, printed world.log = numbers count ∧
    2 * count ≤ waits (world.state.files file).privateData world ∧
    waits (world.state.files file).privateData world ≤ 2 * count + 2
  late : 0 < taken (world.state.files file).privateData (kernelLog world.log) →
    opened (world.state.files file).privateData world.log = true
  recent : opened (world.state.files file).privateData world.log = true →
    backlog (world.state.files file).privateData = 0 ∧
      (world.state.semaphore (world.state.files file).privateData).isSome = true

/-- Interrupts raise units and change nothing else. -/
structure Spared (before after : TestWorld) : Prop where
  files : after.state.files = before.state.files
  view : ∀ md, view after.state md = view before.state md
  opened : ∀ md, opened md after.log = opened md before.log
  taken : ∀ md, taken md (kernelLog after.log) = taken md (kernelLog before.log)
  broken : ∀ md, broken md (kernelLog after.log) = broken md (kernelLog before.log)
  printed : printed after.log = printed before.log

theorem Spared.waits (spared : Spared before after) (md : Pointer) :
    UserSpaceTest.waits md after = UserSpaceTest.waits md before := by
  rw [UserSpaceTest.waits, UserSpaceTest.waits, spared.taken, spared.broken]

theorem Tallied.spared (tallied : Tallied backlog file before) (spared : Spared before after) :
    Tallied backlog file after := by
  refine ⟨?_, ?_, ?_⟩
  · simp only [spared.printed, spared.files, spared.waits]
    exact tallied.printed
  · simp only [spared.files, spared.taken, spared.opened]
    exact tallied.late
  · simp only [spared.files, spared.opened, semaphore_isSome, spared.view]
    simpa only [semaphore_isSome] using tallied.recent

def protocol (backlog : Pointer → Nat) (file : Nat) : Protocol (KernelThread Unit) TestOp TestOp.Reply Kernel where
  invariant world := Balanced backlog world ∧ Tallied backlog file world
  rely thread := match thread with
    | .task _ => Spared
    | .irq _ => fun _ _ => True
  guarantee thread := match thread with
    | .task _ => fun _ _ => True
    | .irq _ => Spared
  refl thread world := by
    cases thread with
    | task => exact ⟨rfl, fun _ => rfl, fun _ => rfl, fun _ => rfl, fun _ => rfl, rfl⟩
    | irq => trivial
  trans thread {first second third} left right := by
    cases thread with
    | task =>
      constructor
      · exact right.files.trans left.files
      · exact fun md => (right.view md).trans (left.view md)
      · exact fun md => (right.opened md).trans (left.opened md)
      · exact fun md => (right.taken md).trans (left.taken md)
      · exact fun md => (right.broken md).trans (left.broken md)
      · exact right.printed.trans left.printed
    | irq => trivial
  compatible {thread other before after} different step := by
    cases thread <;> cases other
    · exact absurd rfl different
    · trivial
    · exact step
    · trivial

theorem raising_spared (acts : Pool.acts perform thread (.kernel op) before reply after) (raising : Raising op) :
    Spared before after := by
  have counting := Conservation.counting_of_raising raising
  have quiet : ∀ md, takes md ⟨thread, op, reply, after.state⟩ = false ∧
      breaks md ⟨thread, op, reply, after.state⟩ = false := by
    intro md
    cases op with
    | dispatch => exact ⟨rfl, rfl⟩
    | up => exact ⟨rfl, rfl⟩
    | _ => exact raising.elim
  constructor
  · obtain ⟨_, performed, _⟩ := acts
    refine Kernel.files_kept ?_ performed
    intro _ _ same
    subst same
    exact counting
  · obtain ⟨_, performed, _⟩ := acts
    exact fun md => view_kept performed counting
  · intro md
    rw [opened_acts acts]
    cases op with
    | semaInit => exact raising.elim
    | _ => exact Bool.or_false _
  · intro md
    rw [taken_acts acts, (quiet md).1]
    rfl
  · intro md
    rw [broken_acts acts, (quiet md).2]
    rfl
  · exact acts_printed acts

theorem interrupt_ensures : ((protocol backlog file).rules perform (.irq number)).Ensures (inDriver interrupt)
    (fun _ _ => True) world := by
  have uses : (inDriver interrupt).Uses fun op => ∃ raise, op = TestOp.kernel raise ∧ Raising raise :=
    Uses.through (Conservation.interrupt_raises.mono fun raise raising => ⟨raise, rfl, raising⟩)
  refine Rules.Ensures.of_uses (fun _ _ holds => holds) ?_ uses trivial
  intro op before reply after raised kept _ acts
  obtain ⟨raise, rfl, raising⟩ := raised
  have spared := raising_spared acts raising
  exact ⟨⟨kept.1.counting acts (Conservation.counting_of_raising raising), kept.2.spared spared⟩, spared, trivial⟩

end Promises

section Counting

variable {backlog : Pointer → Nat} {file count spent w : Nat}

/-- In the middle of its loop the program has printed `count` numbers and its handle was waited on `spent` times. -/
structure Counts (backlog : Pointer → Nat) (file : Nat) (md : Pointer) (count spent : Nat) (world : TestWorld) :
    Prop where
  linked : (world.state.files file).privateData = md
  writable : ∃ wOpen, wOpen ≠ 0 ∧ view world.state md = some (wOpen, true)
  opened : opened md world.log = true
  recent : backlog md = 0
  printed : printed world.log = numbers count
  waits : waits md world = spent

theorem Counts.stable (counts : Counts backlog file md count spent world) (spared : Spared world later) :
    Counts backlog file md count spent later := by
  constructor
  · rw [spared.files]
    exact counts.linked
  · rw [spared.view]
    exact counts.writable
  · exact (spared.opened md).trans counts.opened
  · exact counts.recent
  · exact spared.printed.trans counts.printed
  · exact (spared.waits md).trans counts.waits

theorem Counts.tallied (counts : Counts backlog file md count spent world) (least : 2 * count ≤ spent)
    (most : spent ≤ 2 * count + 2) : Tallied backlog file world := by
  refine ⟨⟨count, counts.printed, ?_, ?_⟩, fun _ => ?_, fun _ => ?_⟩
  · rw [counts.linked, counts.waits]
    exact least
  · rw [counts.linked, counts.waits]
    exact most
  · rw [counts.linked]
    exact counts.opened
  · obtain ⟨wOpen, _, seen⟩ := counts.writable
    rw [counts.linked, semaphore_isSome, seen]
    exact ⟨counts.recent, rfl⟩

/-- A call on the handle: what it takes or loses to a signal is spent. -/
theorem Counts.step (counts : Counts backlog file md count spent before)
    (acts : Pool.acts perform thread (.kernel op) before reply after) (counting : Counting op) :
    Counts backlog file md count (spent + ((if takes md ⟨thread, op, reply, after.state⟩ then 1 else 0) +
      if breaks md ⟨thread, op, reply, after.state⟩ then 1 else 0)) after := by
  have taken := @taken_acts op md before after thread reply acts
  have broken := @broken_acts op md before after thread reply acts
  have opened := @opened_acts op md before after thread reply acts
  have printed := acts_printed acts
  obtain ⟨chance, performed, _⟩ := acts
  constructor
  · have same : after.state.files = before.state.files := by
      refine Kernel.files_kept ?_ performed
      intro _ _ same
      subst same
      exact counting
    rw [same]
    exact counts.linked
  · rw [view_kept performed counting]
    exact counts.writable
  · rw [opened, counts.opened]
    rfl
  · exact counts.recent
  · exact printed.trans counts.printed
  · have before_spent := counts.waits
    unfold UserSpaceTest.waits at before_spent ⊢
    omega

theorem Counts.idle (counts : Counts backlog file md count spent before)
    (acts : Pool.acts perform thread (.kernel op) before reply after) (counting : Counting op) (quiet : Quiet op) :
    Counts backlog file md count spent after := by
  have counts' := counts.step acts counting
  simpa only [(quiet_counts quiet).1, (quiet_counts quiet).2.2, Bool.false_eq_true, if_false,
    Nat.add_zero] using counts'

/-- The requests of a wait with a timeout. -/
def Timed : KernelOp → Prop
  | .downInterruptible _ => False
  | op => Counting op

theorem counting_of_timed (timed : Timed op) : Counting op := by
  cases op with
  | downInterruptible => exact timed.elim
  | _ => exact timed

theorem downTimeout_timed {arg : BitVec w} : (driverUnioctl w file irqmodDownTimeout arg).Uses Timed := by
  have checks : ∀ direction failed, (checkParameter irqmodDownTimeout direction arg.toNat failed).Uses Timed := by
    intro direction failed
    unfold checkParameter
    split
    · exact ⟨trivial, fun _ => trivial⟩
    · trivial
  have round : ∀ md endtime last, (waitRound w md endtime last).Uses Timed := by
    intro md endtime last
    refine ⟨trivial, fun _ => ⟨trivial, fun err => ?_⟩⟩
    change Uses Timed (if err = (0 : Int) then _ else _)
    split
    · trivial
    · exact ⟨trivial, fun _ => trivial⟩
  have waits : ∀ md, (downTimeoutms w md arg).Uses Timed := by
    intro md
    simp only [downTimeoutms, bind_eq, call_bind, pure_eq]
    refine ⟨trivial, fun _ => Uses.bind ?_ fun _ => trivial⟩
    unfold whileDo
    split
    · exact ⟨round md _, fun _ => trivial⟩
    · trivial
  refine ⟨trivial, fun md => (checks _ _).bind fun _ => (checks _ _).bind fun failed => ?_⟩
  split
  · trivial
  · simp only [myApi, bind_eq, call_eq, pure_eq, request_bind, pure_bind]
    rw [if_neg (by decide), if_pos (by decide)]
    refine ⟨trivial, fun (wOpen : Int) => ?_⟩
    dsimp only
    split
    · trivial
    · exact waits md

/-- The first `ioctl` of a round returns 0 with a unit, or fails without one. -/
theorem downTimeout_ensures {arg : BitVec w} (counts : Counts backlog file md count (2 * count) world) :
    ((protocol backlog file).rules perform (.task ())).Ensures (inDriver (driverUnioctl w file irqmodDownTimeout arg))
      (fun err after => err = 0 ∧ Counts backlog file md count (2 * count + 1) after ∨
        err ≠ 0 ∧ Counts backlog file md count (2 * count) after) world := by
  have stable : ∀ {spent : Nat} {world later : TestWorld}, Spared world later →
      Counts backlog file md count spent world → Counts backlog file md count spent later :=
    fun moves counts => counts.stable moves
  have ends : Conservation.Ending file md irqmodDownTimeout (driverUnioctl w file irqmodDownTimeout arg) :=
    Conservation.driverUnioctl_ends
  have ended : (((protocol backlog file).rules perform (.task ())).via .kernel fun _ reply => reply).Ensures
      (driverUnioctl w file irqmodDownTimeout arg)
      (fun err after => (err = 0 ∧ Conservation.Waits irqmodDownTimeout) ∧
        Counts backlog file md count (2 * count + 1) after ∨ err ≠ 0 ∧ Counts backlog file md count (2 * count) after)
      world := by
    refine Rules.Ensures.of_endsAt stable stable ?_ downTimeout_timed ends counts
    intro op before reply after timed kept counts acts
    obtain ⟨given, acts, rfl⟩ := acts
    have unbroken : breaks md ⟨.task (), op, given, after.state⟩ = false := by
      cases op with
      | downInterruptible data => exact timed.elim
      | _ => rfl
    have balanced := kept.1.counting acts (counting_of_timed timed)
    have counts' := counts.step acts (counting_of_timed timed)
    simp only [unbroken, Bool.false_eq_true, if_false, Nat.add_zero] at counts'
    have took : takes md ⟨.task (), op, given, after.state⟩ = true ↔ Conservation.Taking md op given := by
      cases op <;> simp [takes, Conservation.Taking]
    have linked : Conservation.Linked file md op given := by
      obtain ⟨_, performed, _⟩ := acts
      exact Conservation.linked_of_performed performed counts.linked
    by_cases taking : Conservation.Taking md op given
    · rw [if_pos (took.mpr taking)] at counts'
      exact ⟨⟨balanced, counts'.tallied (by omega) (by omega)⟩, trivial, linked, fun _ => counts',
        fun other => absurd taking other⟩
    · rw [if_neg (took.not.mpr taking)] at counts'
      exact ⟨⟨balanced, counts'.tallied (by omega) (by omega)⟩, trivial, linked, fun other => absurd other taking,
        fun _ => counts'⟩
  exact Rules.Ensures.embed (ended.mono fun _ _ _ outcome => outcome.imp (And.imp_left And.left) id)

/-- The second `ioctl` sleeps until it has a unit or a signal. -/
theorem waitIrq_eq (arg : BitVec w) : driverUnioctl w file waitIrq arg = .request (.privateData file) fun md =>
    .request (.load md .wOpen) fun (wOpen : Int) =>
      if wOpen = 0 then .pure (-einval) else .request (.downInterruptible md) .pure := by
  simp only [driverUnioctl, bind_eq, call_bind, checkParameter]
  rfl

theorem waitIrq_ensures {arg : BitVec w} (counts : Counts backlog file md count (2 * count + 1) world) :
    ((protocol backlog file).rules perform (.task ())).Ensures (inDriver (driverUnioctl w file waitIrq arg))
      (fun _ => Counts backlog file md count (2 * count + 2)) world := by
  rw [waitIrq_eq]
  intro between moves kept data after acts
  have linked := (counts.stable moves).linked
  have counts := (counts.stable moves).idle acts trivial trivial
  refine ⟨⟨kept.1.quiet acts trivial, counts.tallied (by omega) (by omega)⟩, trivial, ?_⟩
  have same : data = md := by
    obtain ⟨_, performed, _⟩ := acts
    exact (Prod.mk.inj (Option.some.inj performed)).1.symm.trans linked
  subst same
  intro between moves kept (wOpen : Int) after acts
  obtain ⟨mode, writes, seen⟩ := (counts.stable moves).writable
  have counts := (counts.stable moves).idle acts trivial trivial
  refine ⟨⟨kept.1.quiet acts trivial, counts.tallied (by omega) (by omega)⟩, trivial, ?_⟩
  have loaded : wOpen = mode := by
    obtain ⟨_, performed, _⟩ := acts
    obtain ⟨context, present, loads⟩ := Option.map_eq_some_iff.mp performed
    obtain ⟨context', present', modes⟩ := Option.map_eq_some_iff.mp seen
    cases present.symm.trans present'
    exact (Prod.mk.inj loads).1.symm.trans (Prod.mk.inj modes).1
  simp only [loaded, if_neg writes]
  intro between moves kept (err : Int) after acts
  have counts := (counts.stable moves).step acts trivial
  have once : ((if takes data ⟨.task (), .downInterruptible data, err, after.state⟩ then 1 else 0) +
      if breaks data ⟨.task (), .downInterruptible data, err, after.state⟩ then 1 else 0) = 1 := by
    by_cases zero : err = 0 <;> simp [takes, breaks, zero]
  rw [once] at counts
  exact ⟨⟨kept.1.counting acts trivial, counts.tallied (by omega) (by omega)⟩, trivial,
    fun _ moves _ => counts.stable moves⟩

theorem numbers_succ (count : Nat) : numbers (count + 1) = numbers count ++ [BitVec.ofNat 64 count + 1] := by
  simp only [numbers, List.range_succ, List.map_append, List.map_singleton, BitVec.ofNat_add]
  rfl

/-- A step outside the kernel. -/
theorem Counts.outside {number : Nat} (counts : Counts backlog file md count spent before)
    (kept : after.state = before.state) (kernels : kernelLog after.log = kernelLog before.log)
    (prints : UserSpaceTest.printed after.log = numbers number) : Counts backlog file md number spent after := by
  constructor
  · rw [kept]
    exact counts.linked
  · rw [kept]
    exact counts.writable
  · rw [UserSpaceTest.opened, kernels]
    exact counts.opened
  · exact counts.recent
  · exact prints
  · rw [UserSpaceTest.waits, kernels]
    exact counts.waits

theorem Balanced.outside (balanced : Balanced backlog before) (kept : after.state = before.state)
    (kernels : kernelLog after.log = kernelLog before.log) : Balanced backlog after := by
  constructor
  · rw [kept, kernels]
    exact balanced.pending
  · rw [kept, kernels]
    exact balanced.untouched

/-- Two waits are printed as one. -/
theorem printed_step {i : BitVec 64} {done : Unit} (counts : Counts backlog file md count (2 * count + 2) before)
    (balanced : Balanced backlog before) (same : i = BitVec.ofNat 64 count)
    (acts : Pool.acts perform thread (.printed (i + 1)) before done after) :
    Counts backlog file md (count + 1) (2 * (count + 1)) after ∧ Balanced backlog after := by
  obtain ⟨_, performed, grows⟩ := acts
  have kept : after.state = before.state := (Prod.mk.inj (Option.some.inj performed)).2.symm
  have kernels : kernelLog after.log = kernelLog before.log := by
    rw [grows, kernelLog, List.filterMap_append]
    exact List.append_nil _
  have prints : printed after.log = printed before.log ++ [i + 1] := by
    rw [grows, printed, List.filterMap_append]
    rfl
  rw [counts.printed, same, ← numbers_succ] at prints
  exact ⟨counts.outside kept kernels prints, balanced.outside kept kernels⟩

theorem usleep_step {usec : Nat} {done : Unit} (counts : Counts backlog file md count spent before)
    (balanced : Balanced backlog before) (acts : Pool.acts perform thread (.usleep usec) before done after) :
    Counts backlog file md count spent after ∧ Balanced backlog after := by
  obtain ⟨_, performed, grows⟩ := acts
  have kept : after.state = before.state := (Prod.mk.inj (Option.some.inj performed)).2.symm
  have kernels : kernelLog after.log = kernelLog before.log := by
    rw [grows, kernelLog, List.filterMap_append]
    exact List.append_nil _
  have prints : printed after.log = printed before.log := by
    rw [grows, printed, List.filterMap_append]
    exact List.append_nil _
  exact ⟨counts.outside kept kernels (prints.trans counts.printed), balanced.outside kept kernels⟩

/-- In front of each round the waits are paired. -/
def Entering (backlog : Pointer → Nat) (file : Nat) (md : Pointer) (i : BitVec 64) (world : TestWorld) : Prop :=
  ∃ count, i = BitVec.ofNat 64 count ∧ Counts backlog file md count (2 * count) world

theorem countOne_ensures {unset : BitVec 64 → BitVec w} {i : BitVec 64} {err : Int}
    (kept : (protocol backlog file).invariant world) (same : i = BitVec.ofNat 64 count)
    (outcome : err = 0 ∧ Counts backlog file md count (2 * count + 1) world ∨
      err ≠ 0 ∧ Counts backlog file md count (2 * count) world) :
    ((protocol backlog file).rules perform (.task ())).Ensures (countOne w file unset i err)
      (fun i => Entering backlog file md i) world := by
  unfold countOne
  obtain ⟨zero, counts⟩ | ⟨failed, counts⟩ := outcome
  · rw [if_pos zero]
    refine .bind kept ((waitIrq_ensures counts).mono fun _ _ _ counts => ?_)
    intro between moves kept done after acts
    obtain ⟨counts, balanced⟩ := printed_step (counts.stable moves) kept.1 same acts
    refine ⟨⟨balanced, counts.tallied (by omega) (by omega)⟩, trivial, fun later moves _ => ?_⟩
    refine ⟨count + 1, ?_, counts.stable moves⟩
    rw [same, BitVec.ofNat_add]
    rfl
  · rw [if_neg failed]
    exact fun later moves _ => ⟨count, same, counts.stable moves⟩

theorem round_ensures {unset : BitVec 64 → BitVec w} {i : BitVec 64} (kept : (protocol backlog file).invariant world)
    (enters : Entering backlog file md i world) : ((protocol backlog file).rules perform (.task ())).Ensures
      (round w file unset i) (fun i => Entering backlog file md i) world := by
  obtain ⟨count, same, counts⟩ := enters
  refine .bind kept ((downTimeout_ensures counts).mono fun err after kept outcome => ?_)
  refine .bind kept ((countOne_ensures kept same outcome).mono fun i' after kept enters => ?_)
  obtain ⟨count', same', counts'⟩ := enters
  intro between moves kept done after acts
  obtain ⟨counts', balanced⟩ := usleep_step (counts'.stable moves) kept.1 acts
  exact ⟨⟨balanced, counts'.tallied (by omega) (by omega)⟩, trivial,
    fun later moves _ => ⟨count', same', counts'.stable moves⟩⟩

theorem countAll_ensures {unset : BitVec 64 → BitVec w} (kept : (protocol backlog file).invariant world)
    (counts : Counts backlog file md 0 0 world) : ((protocol backlog file).rules perform (.task ())).Ensures
      (countAll w file unset) (fun _ _ => True) world := by
  have loops : countAll w file unset = .doWhile (round w file unset) (fun _ => true) 0 fun _ => .pure 0 := rfl
  rw [loops]
  refine Rules.Ensures.loop (fun i => Entering backlog file md i) kept ⟨0, rfl, counts⟩ fun i start kept enters => ?_
  refine (round_ensures kept enters).mono fun last after _ enters => ?_
  exact Rules.Exits.intro (fun _ => enters) fun stopped => absurd stopped Bool.noConfusion

end Counting

section Opening

variable {backlog : Pointer → Nat} {file w : Nat} {wOpen : Int}

/-- Nothing was waited for or printed yet. -/
structure Idle (world : TestWorld) : Prop where
  taken : ∀ md, taken md (kernelLog world.log) = 0
  broken : ∀ md, broken md (kernelLog world.log) = 0
  printed : printed world.log = []
  unopened : ∀ md, opened md world.log = false

/-- While `open` is under way, its context is no semaphore yet. -/
structure Opening (file : Nat) (md : Pointer) (wOpen : Int) (world : TestWorld) : Prop where
  idle : Idle world
  linked : world.state.files file = { fMode := 3, privateData := md }
  view : view world.state md = some (wOpen, false)

theorem Idle.stable (idle : Idle world) (spared : Spared world later) : Idle later :=
  ⟨fun md => (spared.taken md).trans (idle.taken md), fun md => (spared.broken md).trans (idle.broken md),
    spared.printed.trans idle.printed, fun md => (spared.opened md).trans (idle.unopened md)⟩

theorem Idle.tallied (idle : Idle world) : Tallied backlog file world := by
  refine ⟨⟨0, idle.printed, Nat.zero_le _, ?_⟩, fun some_taken => ?_, fun opened => ?_⟩
  · rw [waits, idle.taken, idle.broken]
    exact Nat.zero_le _
  · rw [idle.taken] at some_taken
    cases some_taken
  · rw [idle.unopened] at opened
    cases opened

theorem Idle.quiet (idle : Idle before) (acts : Pool.acts perform thread (.kernel op) before reply after)
    (quiet : Quiet op) : Idle after := by
  refine ⟨fun md => ?_, fun md => ?_, (acts_printed acts).trans idle.printed, fun md => ?_⟩
  · rw [taken_acts acts, (quiet_counts quiet).1]
    exact idle.taken md
  · rw [broken_acts acts, (quiet_counts quiet).2.2]
    exact idle.broken md
  · rw [opened_acts acts, idle.unopened, quiet_opens quiet]
    rfl

theorem Opening.stable (opening : Opening file md wOpen world) (spared : Spared world later) :
    Opening file md wOpen later := by
  refine ⟨opening.idle.stable spared, ?_, ?_⟩
  · rw [spared.files]
    exact opening.linked
  · rw [spared.view]
    exact opening.view

/-- What `open` does with the context between linking it and `sema_init`. -/
def Preparing : KernelOp → Prop
  | .kzalloc | .setPrivateData _ _ => False
  | op => Quiet op

theorem view_prepared {made : Bool} (performed : Kernel.perform chance op kernel = some (reply, kernel'))
    (preparing : Preparing op) (seen : view kernel md = some (wOpen, made)) :
    ∃ wOpen', view kernel' md = some (wOpen', made) := by
  cases op with
  | store data member value =>
    obtain ⟨context, present, same⟩ := Option.map_eq_some_iff.mp performed
    cases same
    by_cases own : md = data
    · subst own
      obtain ⟨context', present', modes⟩ := Option.map_eq_some_iff.mp seen
      cases present.symm.trans present'
      obtain ⟨_, rfl⟩ := Prod.mk.inj modes
      cases member <;> exact ⟨_, by rw [view, context_setContext present]; rfl⟩
    · exact ⟨wOpen, by rw [view, context_setContext_of_ne own]; exact seen⟩
  | kzalloc => exact preparing.elim
  | setPrivateData => exact preparing.elim
  | up => exact preparing.elim
  | downInterruptible => exact preparing.elim
  | downTimeout => exact preparing.elim
  | semaInit => exact preparing.elim
  | kfree => exact preparing.elim
  | _ =>
    refine ⟨wOpen, ?_⟩
    simp only [Kernel.perform, Option.map_eq_some_iff] at performed
    grind [view, Kernel.context]

theorem Opening.step (opening : Opening file md wOpen before)
    (acts : Pool.acts perform thread (.kernel op) before reply after) (preparing : Preparing op) :
    ∃ wOpen', Opening file md wOpen' after := by
  have quiet : Quiet op := by cases op <;> first | exact preparing | exact trivial
  have idle := opening.idle.quiet acts quiet
  obtain ⟨_, performed, _⟩ := acts
  obtain ⟨wOpen', seen⟩ := view_prepared performed preparing opening.view
  refine ⟨wOpen', idle, ?_, seen⟩
  have same : after.state.files = before.state.files := by
    refine Kernel.files_kept ?_ performed
    intro _ _ same
    subst same
    exact preparing
  rw [same]
  exact opening.linked

theorem writable_step {value : Int} {done : Unit} (opening : Opening file md wOpen before)
    (acts : Pool.acts perform thread (.kernel (.store md .wOpen value)) before done after) :
    Opening file md value after := by
  obtain ⟨_, idle, linked, _⟩ := opening.step acts trivial
  refine ⟨idle, linked, ?_⟩
  obtain ⟨_, performed, _⟩ := acts
  obtain ⟨context, present, same⟩ := Option.map_eq_some_iff.mp performed
  obtain ⟨context', present', modes⟩ := Option.map_eq_some_iff.mp opening.view
  cases present.symm.trans present'
  obtain ⟨_, unmade⟩ := Prod.mk.inj modes
  rw [← (Prod.mk.inj same).2, view, context_setContext present, ← unmade]
  rfl

theorem semaInit_step {done : Unit} (opening : Opening file md wOpen before) (writes : wOpen ≠ 0)
    (balanced : Balanced backlog before)
    (acts : Pool.acts perform thread (.kernel (.semaInit md 0)) before done after) :
    Balanced backlog after ∧ Counts backlog file md 0 0 after := by
  have missing := semaphore_none opening.view
  refine ⟨balanced.semaInit acts missing, ?_⟩
  have untaken := @taken_acts (.semaInit md 0) md before after thread done acts
  have unbroken := @broken_acts (.semaInit md 0) md before after thread done acts
  have opens := @opened_acts (.semaInit md 0) md before after thread done acts
  have prints := acts_printed acts
  obtain ⟨chance, performed, _⟩ := acts
  change Kernel.perform chance (.semaInit md 0) before.state = some (done, after.state) at performed
  obtain ⟨context, present, same⟩ := Option.map_eq_some_iff.mp performed
  obtain ⟨context', present', modes⟩ := Option.map_eq_some_iff.mp opening.view
  cases present.symm.trans present'
  constructor
  · have files : after.state.files = before.state.files := by
      refine Kernel.files_kept ?_ performed
      intro _ _ same
      cases same
    rw [files, opening.linked]
  · refine ⟨wOpen, writes, ?_⟩
    rw [← (Prod.mk.inj same).2, view, context_setContext present, ← (Prod.mk.inj modes).1]
    rfl
  · rw [opens]
    simp [initialises]
  · exact (balanced.untouched md missing).1
  · exact prints.trans opening.idle.printed
  · rw [waits, untaken, unbroken, opening.idle.taken, opening.idle.broken]
    rfl

variable (backlog file) in
abbrev inOpen : Rules KernelOp KernelOp.Reply TestWorld :=
  ((protocol backlog file).rules perform (.task ())).via .kernel fun _ reply => reply

theorem preparing_ensures {α : Type} {next : op.Reply → Driver α} {post : α → TestWorld → Prop}
    (preparing : Preparing op) (opening : Opening file md wOpen world)
    (rest : ∀ reply wOpen after, (protocol backlog file).invariant after → Opening file md wOpen after →
      (inOpen backlog file).Ensures (next reply) post after) :
    (inOpen backlog file).Ensures (.request op next) post world := by
  intro between moves kept reply after acts
  obtain ⟨_, acts, rfl⟩ := acts
  obtain ⟨wOpen', opening'⟩ := (opening.stable moves).step acts preparing
  have quiet : Quiet op := by cases op <;> first | exact preparing | exact trivial
  have kept' : (protocol backlog file).invariant after := ⟨kept.1.quiet acts quiet, opening'.idle.tallied⟩
  exact ⟨kept', trivial, rest _ wOpen' after kept' opening'⟩

theorem kzalloc_view {given : Pointer} (performed : Kernel.perform chance .kzalloc kernel = some (given, kernel')) :
    given = none ∨ view kernel' given = some (0, false) := by
  simp only [Kernel.perform] at performed
  split at performed
  · cases performed
    exact .inl rfl
  next address _ =>
    split at performed
    · cases performed
      have cleared : (kernel.setContext (some address) (some {})).context (some address) = some {} :=
        Function.update_self ..
      exact .inr (congrArg (Option.map _) cleared)
    · cases performed

/-- What a returned value is worth. -/
def Opened (backlog : Pointer → Nat) (file : Nat) (result : Int) (world : TestWorld) : Prop :=
  result = 0 → ∃ md, Counts backlog file md 0 0 world

theorem Opened.failed {result : Int} (failed : result ≠ 0) :
    (inOpen backlog file).Ensures (.pure result) (Opened backlog file) world :=
  fun _ _ _ zero => absurd zero failed

/-- The last accesses of `open`, once the interrupt is requested. -/
theorem finish_ensures (opening : Opening file md wOpen world) :
    (inOpen backlog file).Ensures (.request (.fMode file) fun mode =>
      .request (.store md .wOpen (if mode &&& fmodeWrite ≠ 0 then 1 else 0)) fun _ =>
        .request (.semaInit md 0) fun _ => .pure 0) (Opened backlog file) world := by
  intro between moves kept _ after acts
  obtain ⟨mode, acts, rfl⟩ := acts
  have opening := opening.stable moves
  obtain ⟨wOpen', opening'⟩ := opening.step acts trivial
  refine ⟨⟨kept.1.quiet acts trivial, opening'.idle.tallied⟩, trivial, ?_⟩
  have given : mode = 3 := by
    obtain ⟨_, performed, _⟩ := acts
    exact (Prod.mk.inj (Option.some.inj performed)).1.symm.trans (congrArg File.fMode opening.linked)
  subst given
  intro between moves kept _ after acts
  obtain ⟨_, acts, rfl⟩ := acts
  have opening := writable_step (opening'.stable moves) acts
  refine ⟨⟨kept.1.quiet acts trivial, opening.idle.tallied⟩, trivial, ?_⟩
  intro between moves kept _ after acts
  obtain ⟨_, acts, rfl⟩ := acts
  have writes : (if (3 : BitVec 32) &&& fmodeWrite ≠ 0 then (1 : Int) else 0) ≠ 0 := by decide
  obtain ⟨balanced, counts⟩ := semaInit_step (opening.stable moves) writes kept.1 acts
  exact ⟨⟨balanced, counts.tallied (Nat.le_refl 0) (Nat.zero_le _)⟩, trivial,
    fun _ moves _ _ => ⟨md, counts.stable moves⟩⟩

theorem driverOpen_ensures (idle : Idle world) (mode : (world.state.files file).fMode = 3) :
    (inOpen backlog file).Ensures (driverOpen file) (Opened backlog file) world := by
  simp only [driverOpen, rIntConfig, bind_eq, call_eq, pure_eq, request_bind, pure_bind]
  -- the context is allocated
  intro between moves kept _ after acts
  obtain ⟨given, acts, rfl⟩ := acts
  have idle := (idle.stable moves).quiet acts trivial
  refine ⟨⟨kept.1.quiet acts trivial, idle.tallied⟩, trivial, ?_⟩
  have files : after.state.files = world.state.files := by
    obtain ⟨chance, performed, _⟩ := acts
    change Kernel.perform chance .kzalloc between.state = some (given, after.state) at performed
    have kept : after.state.files = between.state.files := by
      refine Kernel.files_kept ?_ performed
      intro _ _ same
      cases same
    exact kept.trans moves.files
  have cleared : given = none ∨ view after.state given = some (0, false) := by
    obtain ⟨_, performed, _⟩ := acts
    exact kzalloc_view performed
  -- and the handle refers to it
  intro between moves kept _ linked acts
  obtain ⟨_, acts, rfl⟩ := acts
  have idle := (idle.stable moves).quiet acts trivial
  refine ⟨⟨kept.1.quiet acts trivial, idle.tallied⟩, trivial, ?_⟩
  obtain ⟨_, performed, _⟩ := acts
  have same : linked.state = between.state.setFile file { between.state.files file with privateData := given } :=
    (Prod.mk.inj (Option.some.inj performed)).2.symm
  obtain none | seen := cleared
  · -- the null pointer is followed
    subst none
    intro _ _ _ _ _ acts
    obtain ⟨_, ⟨_, performed, _⟩, _⟩ := acts
    cases performed
  have opening : Opening file given 0 linked := by
    refine ⟨idle, ?_, ?_⟩
    · rw [same]
      change Function.update _ file _ file = _
      rw [Function.update_self, moves.files, files, mode]
    · rw [same]
      exact (moves.view given).trans seen
  apply preparing_ensures (by trivial) opening; intro _ _ _ _ opening
  apply preparing_ensures (by trivial) opening; intro busy wOpen _ kept opening
  have configured : ∀ world, Opening file given wOpen world → (inOpen backlog file).Ensures
      (if busy = 0 then .request (.gpioToIrq gpioAnyGpio) fun irq => .request (.store given .irqNumber irq) fun _ =>
        if 0 ≤ irq then .request (.load given .irqNumber) fun _ => .pure () else .pure ()
      else .pure ()) (fun _ after => ∃ wOpen, Opening file given wOpen after) world := by
    intro world opening
    split
    · apply preparing_ensures (by trivial) opening; intro irq _ _ _ opening
      apply preparing_ensures (by trivial) opening; intro _ wOpen _ _ opening
      split
      · apply preparing_ensures (by trivial) opening
        exact fun _ wOpen _ _ opening _ moves _ => ⟨wOpen, opening.stable moves⟩
      · exact fun _ moves _ => ⟨wOpen, opening.stable moves⟩
    · exact fun _ moves _ => ⟨wOpen, opening.stable moves⟩
  refine Rules.Ensures.bind kept ((configured _ opening).mono fun _ _ _ opening => ?_)
  obtain ⟨_, opening⟩ := opening
  apply preparing_ensures (by trivial) opening; intro _ _ _ _ opening
  apply preparing_ensures (by trivial) opening; intro failed _ _ _ opening
  split
  · exact Opened.failed (by decide)
  · exact finish_ensures opening

end Opening

section Runs

variable {backlog : Pointer → Nat} {file w : Nat}

theorem main_ensures {unset : BitVec 64 → BitVec w} (kept : (protocol backlog file).invariant world) (idle : Idle world)
    (mode : (world.state.files file).fMode = 3) : ((protocol backlog file).rules perform (.task ())).Ensures
      (main w file unset) (fun _ _ => True) world := by
  have opened : ((protocol backlog file).rules perform (.task ())).Ensures (inDriver (driverOpen file))
      (Opened backlog file) world := Rules.Ensures.embed (driverOpen_ensures idle mode)
  refine .bind kept (opened.mono fun dev after kept opened => ?_)
  split
  next zero =>
    obtain ⟨md, counts⟩ := opened zero
    exact countAll_ensures kept counts
  next => exact fun _ _ _ => trivial

theorem starts (unset : BitVec 64 → BitVec w) (start : Kernel) :
    (protocol (fun md => (start.semaphore md).getD 0) file).Holds perform (fun _ _ _ => True)
      (pool w file unset start) := by
  have balanced : Balanced (fun md => (start.semaphore md).getD 0) (pool w file unset start).world := by
    refine ⟨fun md units held => ?_, fun md missing => ⟨?_, rfl, rfl⟩⟩
    · have pending : start.semaphore md = some units := held
      simp only [pending, Option.getD_some]
      rfl
    · have none_made : start.semaphore md = none := missing
      simp only [none_made, Option.getD_none]
  have idle : Idle (pool w file unset start).world := ⟨fun _ => rfl, fun _ => rfl, rfl, fun _ => rfl⟩
  refine ⟨⟨balanced, idle.tallied⟩, fun thread => ?_⟩
  cases thread with
  | task =>
    have given : (start.setFile file { fMode := 3 }).files file = { fMode := 3 } := Function.update_self ..
    exact main_ensures ⟨balanced, idle.tallied⟩ idle (congrArg File.fMode given)
  | irq number => exact interrupt_ensures

def testHandling : Visit (KernelThread Unit) TestOp TestOp.Reply Kernel Pointer := Handlers.handling.among inKernel

theorem silent_of_tasking (tasking : Handlers.Tasking op) : testHandling.Silent (.kernel op) :=
  fun thread reply state => Handlers.silent_of_tasking tasking thread reply state

theorem main_silent (unset : BitVec 64 → BitVec w) : (main w file unset).Uses testHandling.Silent := by
  have within : ∀ {α : Type} {program : Driver α}, program.Uses Handlers.Tasking →
      (inDriver program).Uses testHandling.Silent :=
    fun tasks => Uses.through (tasks.mono fun _ => silent_of_tasking)
  have calls : ∀ {cmd : BitVec 32} {arg : BitVec w}, (inDriver (driverUnioctl w file cmd arg)).Uses testHandling.Silent :=
    within (Conservation.driverUnioctl_serves.mono fun _ => Conservation.tasking_of_serving)
  have counts : ∀ i err, (countOne w file unset i err).Uses testHandling.Silent := by
    intro i err
    unfold countOne
    split
    · exact calls.bind fun _ => ⟨fun _ _ _ => ⟨rfl, rfl⟩, fun _ => trivial⟩
    · trivial
  refine (within Handlers.driverOpen_tasks).bind fun dev => ?_
  split
  · refine ⟨fun i => calls.bind fun err => (counts i err).bind fun _ => ?_, fun _ => trivial⟩
    exact ⟨fun _ _ _ => ⟨rfl, rfl⟩, fun _ => trivial⟩
  · trivial

theorem pool_staged (unset : BitVec 64 → BitVec w) (start : Kernel) : (pool w file unset start).Staged testHandling
  | .task _ => .outside (main_silent unset) fun _ => (nomatch ·)
  | .irq _ => .before (Visit.entering_among Handlers.interrupt_enters fun _ _ _ _ => rfl)

/-- Each interrupt handled raised one unit. -/
theorem ups_eq_handled {unset : BitVec 64 → BitVec w} {start : Kernel} {schedule : List (KernelThread Unit × Chance)}
    {final : Pool (KernelThread Unit) TestOp TestOp.Reply Kernel Result}
    (ran : (pool w file unset start).run perform schedule = some final) (md : Pointer) :
    ups md (kernelLog final.world.log) = UserSpaceTest.handled md final := by
  refine .trans ?_ ((Pool.run_staged (pool_staged unset start) ran).left md)
  rw [ups, kernelLog, List.countP_filterMap]
  refine List.countP_congr fun event _ => ?_
  obtain ⟨thread, op, reply, state⟩ := event
  cases op with
  | kernel op =>
    change raises md _ = true ↔ _
    rw [Handlers.raises_eq]
    rfl
  | _ =>
    constructor
    · intro raises
      cases raises
    · intro raises
      cases raises

end Runs
end EthercatSlave.Proofs.UserSpaceTest
