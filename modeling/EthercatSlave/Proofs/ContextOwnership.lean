import EthercatSlave.DriverLife
import EthercatSlave.Proofs.KernelCalls
import EthercatSlave.Proofs.RelyGuarantee

/-! Who owns a driver context. A session owns the contexts it was given; what each
thread may rely on, and what the kernel calls of a session do to what it owns. -/

namespace EthercatSlave.Proofs.ContextOwnership
open Program Driver DriverLife

variable {chance : Chance} {op : KernelOp} {reply : op.Reply} {md : Pointer} {thread other : LifeThread}
  {file address : Nat} {number : Int} {first second third before between after world : LifeWorld}

section Predicates

/-- What every registered handler of a context is called with. -/
def entries (world : LifeWorld) (md : Pointer) : List (Int × Pointer) :=
  world.state.kernel.irqs.filter fun entry => entry.2 == md

def Alone (world : LifeWorld) (md : Pointer) : Prop := ∀ entry ∈ world.state.handlers, entry.2 ≠ md

def numberOf (world : LifeWorld) (address : Nat) : Option Int :=
  (world.state.kernel.contexts address).map MyContext.irqNumber

structure Safe (world : LifeWorld) : Prop where
  excused : ∀ op, world.state.fault = some op → Excused world.state.kernel op
  lent : ∀ file, world.state.lent file = true → ∃ address,
    (world.state.kernel.files file).privateData = some address ∧ owner world.log address = some file ∧
      (world.state.kernel.semaphore (some address)).isSome = true
  inside : ∀ file number, number ∈ world.state.callers file → world.state.lent file = true
  registered : ∀ entry ∈ world.state.kernel.irqs, (world.state.kernel.context entry.2).isSome = true
  underway : ∀ entry ∈ world.state.handlers, (world.state.kernel.context entry.2).isSome = true

/-- A context that stays its session's. -/
structure Untouched (file address : Nat) (before after : LifeWorld) : Prop where
  owned : Owns after file address
  numbered : numberOf after address = numberOf before address
  semaphore : (before.state.kernel.semaphore (some address)).isSome = true →
    (after.state.kernel.semaphore (some address)).isSome = true
  entries : entries after (some address) = entries before (some address)
  alone : ContextOwnership.entries before (some address) = [] → Alone before (some address) → Alone after (some address)

structure SessionRely (file : Nat) (before after : LifeWorld) : Prop where
  pointed : (after.state.kernel.files file).privateData = (before.state.kernel.files file).privateData
  lent : after.state.lent file = before.state.lent file
  kept : ∀ address, Owns before file address → Untouched file address before after
  gained : ∀ address, Owns after file address → Owns before file address

def OwnRely : LifeThread → LifeWorld → LifeWorld → Prop
  | .session file, before, after => SessionRely file before after
  | .caller file number, before, after => number ∈ before.state.callers file →
      number ∈ after.state.callers file ∧
        (after.state.kernel.files file).privateData = (before.state.kernel.files file).privateData
  | .irq number, before, after => ∀ md, (number, md) ∈ before.state.handlers → (number, md) ∈ after.state.handlers

/-- A machine that stopped stays so. -/
def Relies (thread : LifeThread) (before after : LifeWorld) : Prop :=
  (before.state.fault.isSome = true → after.state.fault.isSome = true) ∧ OwnRely thread before after

theorem Untouched.trans (one : Untouched file address first second) (two : Untouched file address second third) :
    Untouched file address first third where
  owned := two.owned
  numbered := two.numbered.trans one.numbered
  semaphore := fun held => two.semaphore (one.semaphore held)
  entries := two.entries.trans one.entries
  alone := fun none alone => two.alone (one.entries.trans none) (one.alone none alone)

theorem relies_refl (thread : LifeThread) (world : LifeWorld) : Relies thread world world := by
  refine ⟨id, ?_⟩
  cases thread with
  | session file =>
    exact ⟨rfl, rfl, fun _ owned => ⟨owned, rfl, id, rfl, fun _ alone => alone⟩, fun _ owned => owned⟩
  | caller => exact fun inside => ⟨inside, rfl⟩
  | irq => exact fun _ runs => runs

theorem Relies.trans (one : Relies thread first second) (two : Relies thread second third) :
    Relies thread first third := by
  refine ⟨fun stopped => two.1 (one.1 stopped), ?_⟩
  cases thread with
  | session file =>
    obtain ⟨-, one⟩ := one
    obtain ⟨-, two⟩ := two
    refine ⟨two.pointed.trans one.pointed, two.lent.trans one.lent, fun address owned => ?_, fun address owned => ?_⟩
    · exact (one.kept address owned).trans (two.kept address (one.kept address owned).owned)
    · exact one.gained address (two.gained address owned)
  | caller file number =>
    intro inside
    have middle := one.2 inside
    have last := two.2 middle.1
    exact ⟨last.1, last.2.trans middle.2⟩
  | irq number => exact fun md runs => two.2 md (one.2 md runs)

def protocol : Protocol LifeThread LifeOp LifeOp.Reply DriverLife.State where
  invariant := Safe
  rely := Relies
  guarantee thread before after := ∀ other, other ≠ thread → Relies other before after
  refl := relies_refl
  trans _ _ _ _ := Relies.trans
  compatible different guarantees := guarantees _ different

abbrev lifeRules (thread : LifeThread) : Rules LifeOp LifeOp.Reply LifeWorld := protocol.rules DriverLife.perform thread

abbrev driverRules (thread : LifeThread) : Rules KernelOp KernelOp.Reply LifeWorld :=
  (lifeRules thread).via LifeOp.kernel fun _ reply => reply

end Predicates

section Frames

/-- Calls that neither make nor free a context, nor change who refers to it. -/
def Plain : KernelOp → Prop
  | .kzalloc | .kfree _ | .setPrivateData _ _ | .requestIrq _ _ | .freeIrq _ _ => False
  | .store _ member _ => member ≠ .irqNumber
  | _ => True

structure Frame (before after : Kernel) : Prop where
  files : after.files = before.files
  irqs : after.irqs = before.irqs
  numbers : ∀ address, (after.contexts address).map MyContext.irqNumber =
    (before.contexts address).map MyContext.irqNumber
  semaphores : ∀ address, (before.semaphore (some address)).isSome = true →
    (after.semaphore (some address)).isSome = true

/-- What the reply of a plain call tells about the kernel it leaves. -/
def Answers (kernel : Kernel) : (op : KernelOp) → op.Reply → Prop
  | .load md .irqNumber, reply => (kernel.context md).map MyContext.irqNumber = some reply
  | .privateData file, reply => (kernel.files file).privateData = reply
  | .semaInit md _, _ => (kernel.semaphore md).isSome = true
  | _, _ => True

theorem Frame.refl (kernel : Kernel) : Frame kernel kernel := ⟨rfl, rfl, fun _ => rfl, fun _ held => held⟩

theorem Frame.live {kernel kernel' : Kernel} (frame : Frame kernel kernel') (address : Nat) :
    (kernel'.contexts address).isSome = (kernel.contexts address).isSome := by
  have same := congrArg Option.isSome (frame.numbers address)
  simpa only [Option.isSome_map] using same

theorem Frame.context {kernel kernel' : Kernel} (frame : Frame kernel kernel') (md : Pointer) :
    (kernel'.context md).isSome = (kernel.context md).isSome := by
  cases md with
  | none => rfl
  | some address => exact frame.live address

/-- A context written in place, its interrupt kept. -/
theorem frame_setContext {kernel : Kernel} {context content : MyContext} (held : kernel.context md = some context)
    (number : content.irqNumber = context.irqNumber)
    (semaphore : context.irqLsigsema.isSome = true → content.irqLsigsema.isSome = true) :
    Frame kernel (kernel.setContext md (some content)) := by
  cases md with
  | none => exact Frame.refl kernel
  | some address =>
    refine ⟨rfl, rfl, fun address' => ?_, fun address' initialised => ?_⟩
    · by_cases same : address' = address
      · subst same
        have written : (kernel.setContext (some address') (some content)).contexts address' = some content :=
          Function.update_self ..
        rw [written, show kernel.contexts address' = some context from held]
        exact congrArg some number
      · exact congrArg (Option.map MyContext.irqNumber) (Function.update_of_ne same ..)
    · by_cases same : address' = address
      · subst same
        rw [Kernel.semaphore_setContext held]
        have before : kernel.semaphore (some address') = context.irqLsigsema := by rw [Kernel.semaphore, held]; rfl
        exact semaphore (before ▸ initialised)
      · have kept : (kernel.setContext (some address) (some content)).semaphore (some address') =
            kernel.semaphore (some address') :=
          congrArg (fun found => Option.bind found MyContext.irqLsigsema) (Function.update_of_ne same ..)
        rwa [kept]

theorem frame_setSemaphore {kernel : Kernel} {count : Nat} : Frame kernel (kernel.setSemaphore md count) := by
  unfold Kernel.setSemaphore
  split
  next => exact Frame.refl kernel
  next context held => exact frame_setContext held rfl fun _ => rfl

theorem plain_performed {kernel kernel' : Kernel} (plain : Plain op)
    (performed : Kernel.perform chance op kernel = some (reply, kernel')) :
    Frame kernel kernel' ∧ Answers kernel' op reply := by
  cases op with
  | kzalloc => exact plain.elim
  | kfree => exact plain.elim
  | setPrivateData => exact plain.elim
  | requestIrq => exact plain.elim
  | freeIrq => exact plain.elim
  | load md member =>
    obtain ⟨context, held, same⟩ := Option.map_eq_some_iff.mp performed
    cases same
    refine ⟨Frame.refl kernel, ?_⟩
    cases member with
    | irqNumber => exact congrArg (Option.map MyContext.irqNumber) held
    | _ => trivial
  | store md member value =>
    obtain ⟨context, held, same⟩ := Option.map_eq_some_iff.mp performed
    cases same
    refine ⟨frame_setContext held ?_ ?_, trivial⟩
    · cases member with
      | irqNumber => exact absurd rfl plain
      | _ => rfl
    · cases member <;> exact id
  | semaInit md count =>
    refine ⟨?_, ?_⟩
    · obtain ⟨context, held, same⟩ := Option.map_eq_some_iff.mp performed
      cases same
      exact frame_setContext held rfl fun _ => rfl
    · change (kernel'.semaphore md).isSome = true
      rw [Kernel.semaInit_performed performed]
      rfl
  | up md =>
    obtain ⟨count, _, rfl⟩ := Kernel.up_performed performed
    exact ⟨frame_setSemaphore, trivial⟩
  | downInterruptible md =>
    obtain ⟨count, _, waited⟩ := Option.bind_eq_some_iff.mp performed
    split at waited
    · cases waited
      exact ⟨Frame.refl kernel, trivial⟩
    · split at waited
      · cases waited
        exact ⟨frame_setSemaphore, trivial⟩
      · cases waited
  | downTimeout md jiffies =>
    obtain ⟨count, _, same⟩ := Option.map_eq_some_iff.mp performed
    split at same
    · cases same
      have frame : Frame kernel (kernel.setSemaphore md (count - 1)) := frame_setSemaphore
      exact ⟨⟨frame.files, frame.irqs, frame.numbers, frame.semaphores⟩, trivial⟩
    · cases same
      exact ⟨⟨rfl, rfl, fun _ => rfl, fun _ held => held⟩, trivial⟩
  | gpioRequest gpio =>
    simp only [Kernel.perform] at performed
    split at performed
    · cases performed
      exact ⟨⟨rfl, rfl, fun _ => rfl, fun _ held => held⟩, trivial⟩
    · cases performed
      exact ⟨Frame.refl kernel, trivial⟩
  | gpioFree gpio =>
    cases performed
    exact ⟨⟨rfl, rfl, fun _ => rfl, fun _ held => held⟩, trivial⟩
  | privateData file =>
    cases performed
    exact ⟨Frame.refl kernel, rfl⟩
  | dispatch =>
    obtain ⟨entry, _, same⟩ := Option.map_eq_some_iff.mp performed
    cases same
    exact ⟨Frame.refl kernel, trivial⟩
  | _ =>
    cases performed
    exact ⟨Frame.refl kernel, trivial⟩

end Frames

section Steps

theorem owner_quiet {log : List (Event LifeThread LifeOp LifeOp.Reply DriverLife.State)} {op : LifeOp}
    {reply : op.Reply} {state : DriverLife.State} (quiet : op ≠ .kernel .kzalloc) :
    owner (log ++ [⟨thread, op, reply, state⟩]) = owner log := by
  funext address
  unfold owner
  rw [List.foldl_append]
  simp only [List.foldl_cons, List.foldl_nil]
  split
  next same => exact absurd (by injection same) quiet
  next => rfl

theorem acts_kernel {reply : LifeOp.Reply (.kernel op)}
    (acts : Pool.acts DriverLife.perform thread (.kernel op) before reply after) :
    before.state.fault = none ∧ after.log = before.log ++ [⟨thread, .kernel op, reply, after.state⟩] ∧
      (present before.state.kernel op = false ∧ after.state = { before.state with fault := some op } ∨
        present before.state.kernel op = true ∧ awaits before.state.handlers op = false ∧ ∃ chance kernel,
          Kernel.perform chance op before.state.kernel = some (reply, kernel) ∧
            after.state = { before.state with kernel }) := by
  obtain ⟨chance, performed, logged⟩ := acts
  simp only [DriverLife.perform] at performed
  split at performed
  · cases performed
  next running =>
    refine ⟨by simpa using running, logged, ?_⟩
    simp only [serve] at performed
    split at performed
    next absent =>
      injection performed with same
      injection same with _ stated
      exact .inl ⟨by simpa using absent, stated.symm⟩
    next there =>
      split at performed
      · cases performed
      next free =>
        obtain ⟨⟨answer, kernel⟩, done, same⟩ := Option.map_eq_some_iff.mp performed
        injection same with answered stated
        subst answered
        exact .inr ⟨by simpa using there, by simpa using free, chance, kernel, done, stated.symm⟩

theorem Safe.of_frame (safe : Safe before) (running : before.state.fault = none)
    (frame : Frame before.state.kernel after.state.kernel)
    (state : after.state = { before.state with kernel := after.state.kernel })
    (owners : owner after.log = owner before.log) : Safe after := by
  have lent : after.state.lent = before.state.lent := by rw [state]
  have callers : after.state.callers = before.state.callers := by rw [state]
  have handlers : after.state.handlers = before.state.handlers := by rw [state]
  have fault : after.state.fault = none := by rw [state]; exact running
  refine ⟨fun op faulted => ?_, fun file held => ?_, fun file number inside => ?_, fun entry listed => ?_,
    fun entry runs => ?_⟩
  · rw [fault] at faulted
    cases faulted
  · rw [lent] at held
    obtain ⟨address, pointed, owned, initialised⟩ := safe.lent file held
    exact ⟨address, by rw [frame.files]; exact pointed, by rw [owners]; exact owned,
      frame.semaphores address initialised⟩
  · rw [callers] at inside
    rw [lent]
    exact safe.inside file number inside
  · rw [frame.irqs] at listed
    rw [frame.context]
    exact safe.registered entry listed
  · rw [handlers] at runs
    rw [frame.context]
    exact safe.underway entry runs

theorem relies_of_frame (frame : Frame before.state.kernel after.state.kernel)
    (state : after.state = { before.state with kernel := after.state.kernel })
    (owners : owner after.log = owner before.log) (thread : LifeThread) : Relies thread before after := by
  refine ⟨fun stopped => by rw [state]; exact stopped, ?_⟩
  have owns : ∀ file address, Owns after file address ↔ Owns before file address := by
    intro file address
    rw [Owns, Owns, owners, frame.live]
  cases thread with
  | session file =>
    refine ⟨by rw [frame.files], by rw [state], fun address owned => ?_, fun address => (owns file address).mp⟩
    refine ⟨(owns file address).mpr owned, frame.numbers address, frame.semaphores address, ?_, fun _ alone => ?_⟩
    · rw [entries, entries, frame.irqs]
    · rw [Alone, state]
      exact alone
  | caller file number => exact fun inside => ⟨by rw [state]; exact inside, by rw [frame.files]⟩
  | irq number => exact fun md runs => by rw [state]; exact runs

/-- Steps that only say which calls and handlers are under way. -/
theorem session_spared (kernel : after.state.kernel = before.state.kernel) (lent : after.state.lent = before.state.lent)
    (owners : owner after.log = owner before.log)
    (alone : ∀ address, entries before (some address) = [] → Alone before (some address) → Alone after (some address)) :
    SessionRely file before after := by
  have owns : ∀ address, Owns after file address ↔ Owns before file address := by
    intro address
    rw [Owns, Owns, owners, kernel]
  constructor
  · rw [kernel]
  · rw [lent]
  · intro address owned
    constructor
    · exact (owns address).mpr owned
    · rw [numberOf, numberOf, kernel]
    · rw [kernel]
      exact id
    · rw [entries, entries, kernel]
    · exact alone address
  · exact fun address => (owns address).mp

theorem Safe.of_kernel (safe : Safe before) (running : after.state.fault = none)
    (kernel : after.state.kernel = before.state.kernel) (lent : after.state.lent = before.state.lent)
    (owners : owner after.log = owner before.log)
    (inside : ∀ file number, number ∈ after.state.callers file → before.state.lent file = true)
    (underway : ∀ entry ∈ after.state.handlers, (before.state.kernel.context entry.2).isSome = true) :
    Safe after := by
  constructor
  · intro op fault
    rw [running] at fault
    cases fault
  · intro file held
    rw [lent] at held
    obtain ⟨address, pointed, owned, initialised⟩ := safe.lent file held
    exact ⟨address, by rw [kernel]; exact pointed, by rw [owners]; exact owned, by rw [kernel]; exact initialised⟩
  · intro file number member
    rw [lent]
    exact inside file number member
  · rw [kernel]
    exact safe.registered
  · rw [kernel]
    exact underway

/-- The access that stops the machine. -/
theorem faulted {reply : LifeOp.Reply (.kernel op)} (safe : Safe before)
    (excused : Excused before.state.kernel op) (quiet : op ≠ .kzalloc)
    (state : after.state = { before.state with fault := some op })
    (logged : after.log = before.log ++ [⟨thread, .kernel op, reply, after.state⟩]) :
    Safe after ∧ (∀ other, Relies other before after) ∧ after.state.fault.isSome = true := by
  have owners : owner after.log = owner before.log := by
    rw [logged]
    exact owner_quiet fun same => quiet (LifeOp.kernel.inj same)
  obtain ⟨state', log'⟩ := after
  cases state
  refine ⟨⟨fun op faulted => Option.some.inj faulted ▸ excused, ?_, safe.inside, safe.registered, safe.underway⟩,
    fun other => ⟨fun _ => rfl, ?_⟩, rfl⟩
  · intro file held
    obtain ⟨address, pointed, owned, initialised⟩ := safe.lent file held
    exact ⟨address, pointed, (congrFun owners address).trans owned, initialised⟩
  · have owns : ∀ file address, Owns ⟨{ before.state with fault := some op }, log'⟩ file address ↔
        Owns before file address := by
      intro file address
      exact and_congr_left fun _ => by rw [show owner log' = owner before.log from owners]
    cases other with
    | session file =>
      exact ⟨rfl, rfl, fun address owned => ⟨(owns file address).mpr owned, rfl, id, rfl, fun _ alone => alone⟩,
        fun address => (owns file address).mp⟩
    | caller file number => exact fun inside => ⟨inside, rfl⟩
    | irq number => exact fun md runs => runs

end Steps

section Own

/-- A step of a session on its own handle and on the context it was given. -/
structure Local (file : Nat) (md : Pointer) (before after : LifeWorld) : Prop where
  started : before.state.fault = none
  running : after.state.fault = none
  files : ∀ other, other ≠ file → after.state.kernel.files other = before.state.kernel.files other
  lent : ∀ other, other ≠ file → after.state.lent other = before.state.lent other
  contexts : ∀ address, md ≠ some address →
    after.state.kernel.contexts address = before.state.kernel.contexts address
  irqs : ∀ other, md ≠ other → entries after other = entries before other
  handlers : after.state.handlers = before.state.handlers
  callers : after.state.callers = before.state.callers
  owners : ∀ address, md ≠ some address → owner after.log address = owner before.log address
  apart : ∀ other address, other ≠ file → md = some address → ¬ Owns before other address ∧ ¬ Owns after other address
  inside : before.state.callers file ≠ [] →
    (after.state.kernel.files file).privateData = (before.state.kernel.files file).privateData

theorem Local.untouched (here : Local file md before after) {number : Nat} (different : number ≠ file)
    (owned : Owns before number address) : Untouched number address before after := by
  have elsewhere : md ≠ some address := fun same => (here.apart number address different same).1 owned
  have context := here.contexts address elsewhere
  constructor
  · exact ⟨(here.owners address elsewhere).trans owned.1, by rw [context]; exact owned.2⟩
  · rw [numberOf, numberOf, context]
  · intro initialised
    rw [Kernel.semaphore, Kernel.context, Option.bind_some, context]
    exact initialised
  · exact here.irqs _ elsewhere
  · intro _ alone
    rw [Alone, here.handlers]
    exact alone

theorem Local.relies (here : Local file md before after) (different : other ≠ .session file) :
    Relies other before after := by
  refine ⟨fun stopped => absurd stopped (by simp [here.started]), ?_⟩
  cases other with
  | session number =>
    have apart : number ≠ file := fun same => different (congrArg LifeThread.session same)
    refine ⟨by rw [here.files number apart], here.lent number apart, fun _ => here.untouched apart,
      fun address owned => ?_⟩
    have elsewhere : md ≠ some address := fun same => (here.apart number address apart same).2 owned
    rw [Owns, here.owners address elsewhere, here.contexts address elsewhere] at owned
    exact owned
  | caller number call =>
    intro inside
    refine ⟨by rw [here.callers]; exact inside, ?_⟩
    by_cases own : number = file
    · subst own
      exact here.inside (List.ne_nil_of_mem inside)
    · rw [here.files number own]
  | irq number => exact fun md runs => by rw [here.handlers]; exact runs

theorem Local.live (here : Local file md before after) {other : Pointer} (elsewhere : md ≠ other)
    (held : (before.state.kernel.context other).isSome = true) :
    (after.state.kernel.context other).isSome = true := by
  cases other with
  | none => exact held
  | some address =>
    change (after.state.kernel.contexts address).isSome = true
    rw [here.contexts address elsewhere]
    exact held

theorem Local.safe (here : Local file md before after) (safe : Safe before)
    (lends : after.state.lent file = true → ∃ address,
      (after.state.kernel.files file).privateData = some address ∧ owner after.log address = some file ∧
        (after.state.kernel.semaphore (some address)).isSome = true)
    (entered : before.state.callers file ≠ [] → after.state.lent file = true)
    (listed : ∀ entry ∈ after.state.kernel.irqs, md = entry.2 → (after.state.kernel.context md).isSome = true)
    (runs : ∀ entry ∈ before.state.handlers, md = entry.2 → (after.state.kernel.context md).isSome = true) :
    Safe after := by
  constructor
  · intro op fault
    rw [here.running] at fault
    cases fault
  · intro number held
    by_cases own : number = file
    · subst own
      exact lends held
    · rw [here.lent number own] at held
      obtain ⟨address, pointed, owned, initialised⟩ := safe.lent number held
      have live : (before.state.kernel.contexts address).isSome = true := Option.isSome_of_isSome_bind initialised
      have kept := here.untouched own ⟨owned, live⟩
      exact ⟨address, by rw [here.files number own]; exact pointed, kept.owned.1, kept.semaphore initialised⟩
  · intro number call inside
    rw [here.callers] at inside
    by_cases own : number = file
    · subst own
      exact entered (List.ne_nil_of_mem inside)
    · rw [here.lent number own]
      exact safe.inside number call inside
  · intro entry member
    by_cases own : md = entry.2
    · rw [← own]
      exact listed entry member own
    · have found : entry ∈ entries after entry.2 := List.mem_filter.mpr ⟨member, by simp⟩
      rw [here.irqs entry.2 own] at found
      exact here.live own (safe.registered entry (List.mem_filter.mp found).1)
  · intro entry member
    rw [here.handlers] at member
    by_cases own : md = entry.2
    · rw [← own]
      exact runs entry member own
    · exact here.live own (safe.underway entry member)

/-- Outside the time it is lent nobody else uses a handle. -/
theorem Local.safe_closed (here : Local file md before after) (safe : Safe before)
    (closed : before.state.lent file = false) (still : after.state.lent file = false)
    (listed : ∀ entry ∈ after.state.kernel.irqs, md = entry.2 → (after.state.kernel.context md).isSome = true)
    (runs : ∀ entry ∈ before.state.handlers, md = entry.2 → (after.state.kernel.context md).isSome = true) :
    Safe after := by
  apply here.safe safe (fun held => absurd held (by simp [still])) _ listed runs
  intro occupied
  obtain ⟨call, inside⟩ := List.exists_mem_of_ne_nil _ occupied
  exact absurd (safe.inside file call inside) (by simp [closed])

/-- A session that touches one context gains no other. -/
theorem Local.only (here : Local file (some address) before after)
    (only : ∀ other, Owns before file other → other = address) :
    ∀ other, Owns after file other → other = address := by
  intro other owned
  by_contra different
  have elsewhere : some address ≠ some other := fun same => different (Option.some.inj same).symm
  rw [Owns, here.owners other elsewhere, here.contexts other elsewhere] at owned
  exact different (only other owned)

theorem callers_of_closed (safe : Safe before) (closed : before.state.lent file = false) :
    before.state.callers file = [] := by
  apply List.eq_nil_iff_forall_not_mem.mpr
  intro call inside
  exact absurd (safe.inside file call inside) (by simp [closed])

/-- What a session knows of the context it was given. -/
structure Holding (file address : Nat) (number : Int) (registered : Bool) (world : LifeWorld) : Prop where
  owned : Owns world file address
  only : ∀ other, Owns world file other → other = address
  numbered : numberOf world address = some number
  entries : ContextOwnership.entries world (some address) = if registered then [(number, some address)] else []
  alone : registered = false → Alone world (some address)

structure Placed (file : Nat) (md : Pointer) (lent : Bool) (world : LifeWorld) : Prop where
  pointed : (world.state.kernel.files file).privateData = md
  lent : world.state.lent file = lent

def Bare (file : Nat) (world : LifeWorld) : Prop := ∀ address, ¬ Owns world file address

def Initialised (address : Nat) (world : LifeWorld) : Prop :=
  (world.state.kernel.semaphore (some address)).isSome = true

variable {registered lent : Bool}

theorem Holding.stable (holding : Holding file address number registered before)
    (moves : Relies (.session file) before after) : Holding file address number registered after := by
  have kept := moves.2.kept address holding.owned
  constructor
  · exact kept.owned
  · exact fun other owned => holding.only other (moves.2.gained other owned)
  · exact kept.numbered.trans holding.numbered
  · exact kept.entries.trans holding.entries
  · intro unregistered
    exact kept.alone (by rw [holding.entries, unregistered]; rfl) (holding.alone unregistered)

theorem Placed.stable (placed : Placed file md lent before) (moves : Relies (.session file) before after) :
    Placed file md lent after :=
  ⟨moves.2.pointed.trans placed.pointed, moves.2.lent.trans placed.lent⟩

theorem Bare.stable (bare : Bare file before) (moves : Relies (.session file) before after) : Bare file after :=
  fun address owned => bare address (moves.2.gained address owned)

theorem Initialised.stable (initialised : Initialised address before) (owned : Owns before file address)
    (moves : Relies (.session file) before after) : Initialised address after :=
  (moves.2.kept address owned).semaphore initialised

end Own

section Changes

variable {registered : Bool} {old : Pointer}

theorem Holding.of_same (holding : Holding file address number registered before)
    (contexts : after.state.kernel.contexts = before.state.kernel.contexts)
    (irqs : after.state.kernel.irqs = before.state.kernel.irqs)
    (handlers : after.state.handlers = before.state.handlers)
    (owners : owner after.log = owner before.log) : Holding file address number registered after := by
  constructor
  · rw [Owns, contexts, owners]
    exact holding.owned
  · intro other owned
    rw [Owns, contexts, owners] at owned
    exact holding.only other owned
  · rw [numberOf, contexts]
    exact holding.numbered
  · rw [ContextOwnership.entries, irqs]
    exact holding.entries
  · rw [Alone, handlers]
    exact holding.alone

theorem Bare.of_same (bare : Bare file before) (contexts : after.state.kernel.contexts = before.state.kernel.contexts)
    (owners : owner after.log = owner before.log) : Bare file after := by
  intro address owned
  rw [Owns, contexts, owners] at owned
  exact bare address owned

theorem owner_kzalloc {log : List (Event LifeThread LifeOp LifeOp.Reply DriverLife.State)} {given : Pointer}
    {state : DriverLife.State} : owner (log ++ [⟨.session file, .kernel .kzalloc, given, state⟩]) address =
      if given = some address then some file else owner log address := by
  unfold owner
  rw [List.foldl_append]
  rfl

/-- The answer to `kzalloc` is a new context or nothing. -/
theorem kzalloc_step {given : Pointer} (safe : Safe before) (bare : Bare file before)
    (placed : Placed file old false before)
    (acts : Pool.acts DriverLife.perform (.session file) (.kernel .kzalloc) before given after) :
    Safe after ∧ (∀ other, other ≠ .session file → Relies other before after) ∧ Placed file old false after ∧
      (given = none ∧ Bare file after ∨ ∃ address, given = some address ∧ Holding file address 0 false after) := by
  obtain ⟨running, logged, ⟨absent, _⟩ | ⟨_, _, chance, kernel, performed, state⟩⟩ := acts_kernel acts
  · cases absent
  obtain ⟨state', log'⟩ := after
  cases state
  simp only [Kernel.perform] at performed
  split at performed
  next =>
    cases performed
    have owners : owner log' = owner before.log := by
      funext address
      rw [show log' = _ from logged, owner_kzalloc, if_neg (Option.some_ne_none _).symm]
    have frame := Frame.refl before.state.kernel
    have kept : Safe ⟨before.state, log'⟩ := safe.of_frame running frame rfl owners
    have spared : ∀ other, Relies other before ⟨before.state, log'⟩ := relies_of_frame frame rfl owners
    exact ⟨kept, fun other _ => spared other, ⟨placed.pointed, placed.lent⟩, .inl ⟨rfl, bare.of_same rfl owners⟩⟩
  next address _ =>
    split at performed
    next fresh =>
      cases performed
      have dead : before.state.kernel.contexts address = none := Option.isNone_iff_eq_none.mp fresh
      have owners : ∀ other, owner log' other = if address = other then some file else owner before.log other := by
        intro other
        rw [show log' = _ from logged, owner_kzalloc]
        simp only [Option.some.injEq]
      have changed : ∀ other, some address ≠ some other →
          (before.state.kernel.setContext (some address) (some {})).contexts other =
            before.state.kernel.contexts other :=
        fun other different => Function.update_of_ne (fun same => different (congrArg some same.symm)) ..
      have given : (before.state.kernel.setContext (some address) (some {})).contexts address = some {} :=
        Function.update_self ..
      have unlisted : ∀ entry ∈ before.state.kernel.irqs, entry.2 ≠ some address := by
        intro entry member same
        have live := safe.registered entry member
        rw [same, Kernel.context, Option.bind_some, dead] at live
        cases live
      have here : Local file (some address) before
          ⟨{ before.state with kernel := before.state.kernel.setContext (some address) (some {}) }, log'⟩ := by
        constructor
        · exact running
        · exact running
        · exact fun _ _ => rfl
        · exact fun _ _ => rfl
        · exact changed
        · exact fun _ _ => rfl
        · rfl
        · rfl
        · exact fun other different => (owners other).trans (if_neg fun same => different (congrArg some same))
        · rintro other _ different ⟨rfl⟩
          constructor
          · exact fun owned => absurd owned.2 (by simp [dead])
          · intro owned
            have same := owned.1
            rw [owners, if_pos rfl] at same
            exact different (Option.some.inj same).symm
        · exact fun _ => rfl
      have live : (Kernel.context (before.state.kernel.setContext (some address) (some {}))
          (some address)).isSome = true :=
        congrArg Option.isSome given
      refine ⟨here.safe_closed safe placed.lent placed.lent (fun _ _ _ => live) (fun _ _ _ => live),
        fun other different => here.relies different, ⟨placed.pointed, placed.lent⟩, .inr ⟨address, rfl, ?_⟩⟩
      constructor
      · exact ⟨(owners address).trans (if_pos rfl), live⟩
      · exact here.only fun other owned => absurd owned (bare other)
      · exact congrArg (Option.map MyContext.irqNumber) given
      · apply List.filter_eq_nil_iff.mpr
        intro entry member same
        exact unlisted entry member (eq_of_beq same)
      · intro _ entry member same
        have held := safe.underway entry member
        rw [same, Kernel.context, Option.bind_some, dead] at held
        cases held
    next => cases performed

theorem setPrivateData_step {given : Unit} (safe : Safe before) (placed : Placed file old false before)
    (acts : Pool.acts DriverLife.perform (.session file) (.kernel (.setPrivateData file md)) before given after) :
    Safe after ∧ (∀ other, other ≠ .session file → Relies other before after) ∧ Placed file md false after ∧
      (Bare file before → Bare file after) ∧
      ∀ address number registered, Holding file address number registered before →
        Holding file address number registered after := by
  obtain ⟨running, logged, ⟨absent, _⟩ | ⟨_, _, chance, kernel, performed, state⟩⟩ := acts_kernel acts
  · cases absent
  have owners : owner after.log = owner before.log := by
    rw [logged]
    exact owner_quiet nofun
  obtain ⟨state', log'⟩ := after
  cases state
  cases performed
  have here : Local file none before ⟨{ before.state with
      kernel := before.state.kernel.setFile file { before.state.kernel.files file with privateData := md } },
        log'⟩ := by
    constructor
    · exact running
    · exact running
    · exact fun other different => Function.update_of_ne different ..
    · exact fun _ _ => rfl
    · exact fun _ _ => rfl
    · exact fun _ _ => rfl
    · rfl
    · rfl
    · exact fun address _ => congrFun owners address
    · nofun
    · exact fun occupied => absurd (callers_of_closed safe placed.lent) occupied
  have pointed : (Function.update before.state.kernel.files file
      { before.state.kernel.files file with privateData := md } file).privateData = md := by
    rw [Function.update_self]
  refine ⟨here.safe_closed safe placed.lent placed.lent ?_ ?_, fun other different => here.relies different,
    ⟨pointed, placed.lent⟩, fun bare => bare.of_same rfl owners,
    fun _ _ _ holding => holding.of_same rfl rfl rfl owners⟩
  · intro entry member same
    rw [same]
    exact safe.registered entry member
  · intro entry member same
    rw [same]
    exact safe.underway entry member

/-- A kernel call of a session about a context it owns. -/
theorem local_of_owned {kernel : Kernel} {log : List (Event LifeThread LifeOp LifeOp.Reply DriverLife.State)}
    (running : before.state.fault = none) (owners : owner log = owner before.log)
    (owned : owner before.log address = some file) (files : kernel.files = before.state.kernel.files)
    (contexts : ∀ other, some address ≠ some other → kernel.contexts other = before.state.kernel.contexts other)
    (irqs : ∀ other, some address ≠ other → (kernel.irqs.filter fun entry => entry.2 == other) =
      before.state.kernel.irqs.filter fun entry => entry.2 == other) :
    Local file (some address) before ⟨{ before.state with kernel }, log⟩ := by
  constructor
  · exact running
  · exact running
  · exact fun other _ => congrFun files other
  · exact fun _ _ => rfl
  · exact contexts
  · exact irqs
  · rfl
  · rfl
  · exact fun other _ => congrFun owners other
  · rintro other _ different ⟨rfl⟩
    constructor
    · exact fun held => different (Option.some.inj (held.1.symm.trans owned))
    · exact fun held => different (Option.some.inj ((held.1.symm.trans (congrFun owners _)).trans owned))
  · exact fun _ => congrArg File.privateData (congrFun files file)

theorem storeNumber_step {given : Unit} {irq : Int} (safe : Safe before) (placed : Placed file old false before)
    (holding : Holding file address number false before)
    (acts : Pool.acts DriverLife.perform (.session file) (.kernel (.store (some address) .irqNumber irq)) before given
      after) : Safe after ∧ (∀ other, other ≠ .session file → Relies other before after) ∧
        Placed file old false after ∧ Holding file address irq false after := by
  obtain ⟨running, logged, ⟨absent, _⟩ | ⟨_, _, chance, kernel, performed, state⟩⟩ := acts_kernel acts
  · have live : (before.state.kernel.context (some address)).isSome = true := holding.owned.2
    exact absurd live (by simpa [present] using absent)
  have owners : owner after.log = owner before.log := by
    rw [logged]
    exact owner_quiet nofun
  obtain ⟨state', log'⟩ := after
  cases state
  obtain ⟨context, held, same⟩ := Option.map_eq_some_iff.mp performed
  injection same with _ stored
  have files : kernel.files = before.state.kernel.files := by rw [← stored]; rfl
  have irqs : kernel.irqs = before.state.kernel.irqs := by rw [← stored]; rfl
  have written : kernel.contexts address = some { context with irqNumber := irq } := by
    rw [← stored]
    exact Function.update_self ..
  have changed : ∀ other, some address ≠ some other → kernel.contexts other = before.state.kernel.contexts other := by
    intro other different
    rw [← stored]
    exact Function.update_of_ne (fun same => different (congrArg some same.symm)) ..
  have here := local_of_owned running owners holding.owned.1 files changed fun _ _ => by rw [irqs]
  have live : (kernel.context (some address)).isSome = true := congrArg Option.isSome written
  refine ⟨here.safe_closed safe placed.lent placed.lent (fun _ _ _ => live) (fun _ _ _ => live),
    fun other different => here.relies different, ⟨by rw [files]; exact placed.pointed, placed.lent⟩, ?_⟩
  constructor
  · exact ⟨(congrFun owners address).trans holding.owned.1, live⟩
  · exact here.only holding.only
  · exact congrArg (Option.map MyContext.irqNumber) written
  · rw [ContextOwnership.entries, irqs]
    exact holding.entries
  · exact holding.alone

theorem requestIrq_step {failed : Int} (safe : Safe before) (placed : Placed file old false before)
    (holding : Holding file address number false before)
    (acts : Pool.acts DriverLife.perform (.session file) (.kernel (.requestIrq number (some address))) before failed
      after) : Safe after ∧ (∀ other, other ≠ .session file → Relies other before after) ∧
        Placed file old false after ∧ Holding file address number (decide (failed = 0)) after := by
  obtain ⟨running, logged, ⟨absent, _⟩ | ⟨_, _, chance, kernel, performed, state⟩⟩ := acts_kernel acts
  · cases absent
  have owners : owner after.log = owner before.log := by
    rw [logged]
    exact owner_quiet nofun
  obtain ⟨state', log'⟩ := after
  cases state
  have owned := (congrFun owners address).trans holding.owned.1
  simp only [Kernel.perform] at performed
  split at performed
  · cases performed
    have elsewhere : ∀ other, some address ≠ other →
        (((number, some address) :: before.state.kernel.irqs).filter fun entry => entry.2 == other) =
          before.state.kernel.irqs.filter fun entry => entry.2 == other := by
      intro other different
      exact List.filter_cons_of_neg (by simpa using different)
    have here : Local file (some address) before ⟨{ before.state with
        kernel := { before.state.kernel with irqs := (number, some address) :: before.state.kernel.irqs } }, log'⟩ :=
      local_of_owned running owners holding.owned.1 rfl (fun _ _ => rfl) elsewhere
    have live : (before.state.kernel.context (some address)).isSome = true := holding.owned.2
    refine ⟨here.safe_closed safe placed.lent placed.lent (fun _ _ _ => live) (fun _ _ _ => live),
      fun other different => here.relies different, ⟨placed.pointed, placed.lent⟩, ?_⟩
    constructor
    · exact ⟨owned, live⟩
    · exact here.only holding.only
    · exact holding.numbered
    · have none : (before.state.kernel.irqs.filter fun entry => entry.2 == some address) = [] := holding.entries
      change (((number, some address) :: before.state.kernel.irqs).filter fun entry => entry.2 == some address) = _
      rw [List.filter_cons_of_pos (by simp), none]
      rfl
    · exact fun unregistered => absurd rfl (of_decide_eq_false unregistered)
  · cases performed
    have frame := Frame.refl before.state.kernel
    have kept : Safe ⟨before.state, log'⟩ := safe.of_frame running frame rfl owners
    have spared : ∀ other, Relies other before ⟨before.state, log'⟩ := relies_of_frame frame rfl owners
    exact ⟨kept, fun other _ => spared other, ⟨placed.pointed, placed.lent⟩, holding.of_same rfl rfl rfl owners⟩

/-- Once `free_irq` is through, no handler of the context runs or will run. -/
theorem freeIrq_step {given : Unit} (safe : Safe before) (placed : Placed file old false before)
    (holding : Holding file address number true before)
    (acts : Pool.acts DriverLife.perform (.session file) (.kernel (.freeIrq number (some address))) before given
      after) : Safe after ∧ (∀ other, other ≠ .session file → Relies other before after) ∧
        Placed file old false after ∧ Holding file address number false after := by
  obtain ⟨running, logged, ⟨absent, _⟩ | ⟨_, free, chance, kernel, performed, state⟩⟩ := acts_kernel acts
  · cases absent
  have owners : owner after.log = owner before.log := by
    rw [logged]
    exact owner_quiet nofun
  obtain ⟨state', log'⟩ := after
  cases state
  cases performed
  have erased : ∀ other, ((before.state.kernel.irqs.erase (number, some address)).filter fun entry =>
    entry.2 == other) =
      (before.state.kernel.irqs.filter fun entry => entry.2 == other).erase (number, some address) :=
    fun other => List.erase_filter.symm
  have elsewhere : ∀ other, some address ≠ other →
      ((before.state.kernel.irqs.erase (number, some address)).filter fun entry => entry.2 == other) =
        before.state.kernel.irqs.filter fun entry => entry.2 == other := by
    intro other different
    rw [erased, List.erase_of_not_mem]
    intro member
    exact different (eq_of_beq (List.mem_filter.mp member).2)
  have here : Local file (some address) before ⟨{ before.state with
      kernel := { before.state.kernel with irqs := before.state.kernel.irqs.erase (number, some address) } }, log'⟩ :=
    local_of_owned running owners holding.owned.1 rfl (fun _ _ => rfl) elsewhere
  have live : (before.state.kernel.context (some address)).isSome = true := holding.owned.2
  refine ⟨here.safe_closed safe placed.lent placed.lent (fun _ _ _ => live) (fun _ _ _ => live),
    fun other different => here.relies different, ⟨placed.pointed, placed.lent⟩, ?_⟩
  constructor
  · exact ⟨(congrFun owners address).trans holding.owned.1, live⟩
  · exact here.only holding.only
  · exact holding.numbered
  · have one : (before.state.kernel.irqs.filter fun entry => entry.2 == some address) = [(number, some address)] :=
      holding.entries
    change ((before.state.kernel.irqs.erase (number, some address)).filter fun entry => entry.2 == some address) = _
    rw [erased, one, List.erase_cons_head]
    rfl
  · intro _ entry member same
    have none := List.any_eq_false.mp free entry member
    exact none (beq_iff_eq.mpr same)

/-- What is freed is no longer referred to by any handler. -/
theorem kfree_step {given : Unit} (safe : Safe before) (placed : Placed file old false before)
    (holding : Holding file address number false before)
    (acts : Pool.acts DriverLife.perform (.session file) (.kernel (.kfree (some address))) before given after) :
    Safe after ∧ (∀ other, other ≠ .session file → Relies other before after) ∧ Placed file old false after ∧
      Bare file after := by
  obtain ⟨running, logged, ⟨absent, _⟩ | ⟨_, _, chance, kernel, performed, state⟩⟩ := acts_kernel acts
  · have live : (before.state.kernel.context (some address)).isSome = true := holding.owned.2
    exact absurd live (by simpa [present] using absent)
  have owners : owner after.log = owner before.log := by
    rw [logged]
    exact owner_quiet nofun
  obtain ⟨state', log'⟩ := after
  cases state
  simp only [Kernel.perform] at performed
  split at performed
  · cases performed
  injection performed with same
  injection same with _ freed
  have files : kernel.files = before.state.kernel.files := by rw [← freed]; rfl
  have irqs : kernel.irqs = before.state.kernel.irqs := by rw [← freed]; rfl
  have gone : kernel.contexts address = none := by
    rw [← freed]
    exact Function.update_self ..
  have changed : ∀ other, some address ≠ some other → kernel.contexts other = before.state.kernel.contexts other := by
    intro other different
    rw [← freed]
    exact Function.update_of_ne (fun same => different (congrArg some same.symm)) ..
  have here := local_of_owned running owners holding.owned.1 files changed fun _ _ => by rw [irqs]
  have unlisted : ∀ entry ∈ kernel.irqs, some address ≠ entry.2 := by
    intro entry member same
    have none : (before.state.kernel.irqs.filter fun entry => entry.2 == some address) = [] := holding.entries
    rw [irqs] at member
    exact List.filter_eq_nil_iff.mp none entry member (by simp [same])
  refine ⟨here.safe_closed safe placed.lent placed.lent
    (fun entry member same => absurd same (unlisted entry member)) ?_,
    fun other different => here.relies different, ⟨by rw [files]; exact placed.pointed, placed.lent⟩, ?_⟩
  · intro entry member same
    exact absurd same.symm (holding.alone rfl entry member)
  · intro other owned
    have same := here.only holding.only other owned
    have live := owned.2
    rw [same] at live
    exact absurd live (by simp [gone])

/-- A step that only hands the handle out or takes it back. -/
theorem local_lent {file : Nat} {lent : Bool}
    {log : List (Event LifeThread LifeOp LifeOp.Reply DriverLife.State)} (running : before.state.fault = none)
    (owners : owner log = owner before.log) : Local file none before
      ⟨{ before.state with lent := Function.update before.state.lent file lent }, log⟩ := by
  constructor
  · exact running
  · exact running
  · exact fun _ _ => rfl
  · exact fun other different => Function.update_of_ne different ..
  · exact fun _ _ => rfl
  · exact fun _ _ => rfl
  · rfl
  · rfl
  · exact fun address _ => congrFun owners address
  · nofun
  · exact fun _ => rfl

theorem lend_step {given : Unit} (safe : Safe before) (placed : Placed file (some address) false before)
    (holding : Holding file address number registered before) (initialised : Initialised address before)
    (acts : Pool.acts DriverLife.perform (.session file) (.lend file) before given after) :
    Safe after ∧ (∀ other, other ≠ .session file → Relies other before after) ∧
      Placed file (some address) true after ∧ Holding file address number registered after := by
  obtain ⟨chance, performed, logged⟩ := acts
  have owners : owner after.log = owner before.log := by
    rw [logged]
    exact owner_quiet nofun
  obtain ⟨state', log'⟩ := after
  simp only [DriverLife.perform] at performed
  split at performed
  · cases performed
  next running =>
    cases performed
    have here : Local file none before
        ⟨{ before.state with lent := Function.update before.state.lent file true }, log'⟩ :=
      local_lent (by simpa using running) owners
    have lent : Function.update before.state.lent file true file = true := Function.update_self ..
    refine ⟨here.safe safe ?_ (fun _ => lent) ?_ ?_, fun other different => here.relies different,
      ⟨placed.pointed, lent⟩, holding.of_same rfl rfl rfl owners⟩
    · exact fun _ => ⟨address, placed.pointed, (congrFun owners address).trans holding.owned.1, initialised⟩
    · intro entry member same
      rw [same]
      exact safe.registered entry member
    · intro entry member same
      rw [same]
      exact safe.underway entry member

theorem withdraw_step {given : Unit} (safe : Safe before) (placed : Placed file (some address) true before)
    (holding : Holding file address number registered before)
    (acts : Pool.acts DriverLife.perform (.session file) (.withdraw file) before given after) :
    Safe after ∧ (∀ other, other ≠ .session file → Relies other before after) ∧
      Placed file (some address) false after ∧ Holding file address number registered after := by
  obtain ⟨chance, performed, logged⟩ := acts
  have owners : owner after.log = owner before.log := by
    rw [logged]
    exact owner_quiet nofun
  obtain ⟨state', log'⟩ := after
  simp only [DriverLife.perform] at performed
  split at performed
  · cases performed
  next running =>
    simp only [serve] at performed
    split at performed
    next empty =>
      cases performed
      have here : Local file none before
          ⟨{ before.state with lent := Function.update before.state.lent file false }, log'⟩ :=
        local_lent (by simpa using running) owners
      have lent : Function.update before.state.lent file false file = false := Function.update_self ..
      refine ⟨here.safe safe ?_ (fun occupied => absurd empty occupied) ?_ ?_,
        fun other different => here.relies different, ⟨placed.pointed, lent⟩, holding.of_same rfl rfl rfl owners⟩
      · exact fun held => absurd (lent.symm.trans held) (by decide)
      · intro entry member same
        rw [same]
        exact safe.registered entry member
      · intro entry member same
        rw [same]
        exact safe.underway entry member
    next => cases performed

end Changes

end EthercatSlave.Proofs.ContextOwnership
