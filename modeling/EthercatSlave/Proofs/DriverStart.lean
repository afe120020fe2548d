import EthercatSlave.Proofs.Handlers
import EthercatSlave.Proofs.KernelCalls
import EthercatSlave.Proofs.RelyGuarantee

/-! An `open` against interrupts. The handler is registered before its semaphore
exists; interrupts that come later than `sema_init` are all counted. -/

namespace EthercatSlave.Proofs.DriverStart
open Program Driver Interrupts Handlers

variable {before after world later : World (KernelThread Unit) KernelOp KernelOp.Reply Kernel}
  {thread : KernelThread Unit} {op : KernelOp} {reply : op.Reply} {file : Nat} {md : Pointer}

def Ready (md : Pointer) (log : Log Unit) : Prop := log.any (initialises md) = true

/-- The semaphore counts what its handler raised, and nothing was raised before it was made. -/
def Counted (world : World (KernelThread Unit) KernelOp KernelOp.Reply Kernel) : Prop :=
  Undisturbed world.log → ∀ md, (Ready md world.log → world.state.semaphore md = some (ups md world.log)) ∧
    (¬ Ready md world.log → ups md world.log = 0)

def Grows (before after : World (KernelThread Unit) KernelOp KernelOp.Reply Kernel) : Prop := before.log <+: after.log

/-- Interrupts make no semaphore and leave the handles alone. -/
structure Spared (before after : World (KernelThread Unit) KernelOp KernelOp.Reply Kernel) : Prop where
  ready : ∀ md, Ready md after.log ↔ Ready md before.log
  files : after.state.files = before.state.files

def protocol : Protocol (KernelThread Unit) KernelOp KernelOp.Reply Kernel where
  invariant := Counted
  rely thread := match thread with
    | .task _ => Spared
    | .irq _ => Grows
  guarantee thread := match thread with
    | .task _ => Grows
    | .irq _ => fun before after => Spared before after ∧ Grows before after
  refl thread world := by
    cases thread with
    | task => exact ⟨fun _ => Iff.rfl, rfl⟩
    | irq => exact List.prefix_refl _
  trans thread {first second third} left right := by
    cases thread with
    | task => exact ⟨fun md => (right.ready md).trans (left.ready md), right.files.trans left.files⟩
    | irq => exact List.IsPrefix.trans left right
  compatible {thread other before after} different step := by
    cases thread <;> cases other
    · exact absurd rfl different
    · exact step
    · exact step.1
    · exact step.2

section Steps

theorem undisturbed_earlier {log : Log Unit} {earlier : Log Unit} (grows : earlier <+: log) (quiet : Undisturbed log) :
    Undisturbed earlier := by
  obtain ⟨rest, rfl⟩ := grows
  intro first event last md split entering
  apply quiet first event (last ++ rest) md
  · rw [split, List.append_assoc, List.cons_append]
  · exact entering

theorem acts_grows (acts : Pool.acts Kernel.perform thread op before reply after) : Grows before after := by
  obtain ⟨_, _, grows⟩ := acts
  exact ⟨_, grows.symm⟩

theorem acts_ups (acts : Pool.acts Kernel.perform thread op before reply after) (md : Pointer) :
    ups md after.log = ups md before.log + if raises md ⟨thread, op, reply, after.state⟩ then 1 else 0 := by
  obtain ⟨_, _, grows⟩ := acts
  rw [ups, ups, grows, List.countP_append, List.countP_singleton]

theorem acts_ready (acts : Pool.acts Kernel.perform thread op before reply after) (md : Pointer) :
    Ready md after.log ↔ Ready md before.log ∨ initialises md ⟨thread, op, reply, after.state⟩ = true := by
  obtain ⟨_, _, grows⟩ := acts
  rw [Ready, grows, List.any_append, Bool.or_eq_true, List.any_cons, List.any_nil, Bool.or_false]
  rfl

end Steps

section Opening

/-- The accesses of `open` in front of `sema_init`. -/
def Preparing : KernelOp → Prop
  | .up _ => False
  | .semaInit _ _ => False
  | _ => True

private theorem preparing_marks (preparing : Preparing op) (md : Pointer) :
    raises md ⟨thread, op, reply, after.state⟩ = false ∧ initialises md ⟨thread, op, reply, after.state⟩ = false := by
  cases op with
  | up => exact absurd preparing id
  | semaInit => exact absurd preparing id
  | _ => exact ⟨rfl, rfl⟩

/-- No semaphore is made yet and the handle refers to `md`. -/
structure Opening (file : Nat) (md : Pointer)
    (world : World (KernelThread Unit) KernelOp KernelOp.Reply Kernel) : Prop where
  unready : ∀ md, ¬ Ready md world.log
  linked : (world.state.files file).privateData = md

theorem Opening.stable (spared : Spared world later) (opening : Opening file md world) : Opening file md later := by
  refine ⟨fun other ready => opening.unready other ((spared.ready other).mp ready), ?_⟩
  rw [spared.files]
  exact opening.linked

theorem unready_step (acts : Pool.acts Kernel.perform thread op before reply after) (preparing : Preparing op)
    (unready : ∀ md, ¬ Ready md before.log) (counted : Counted before) :
    Counted after ∧ ∀ md, ¬ Ready md after.log := by
  have unready' : ∀ md, ¬ Ready md after.log := by
    intro md
    rw [acts_ready acts md, (preparing_marks preparing md).2]
    simp [unready md]
  refine ⟨fun quiet md => ⟨fun ready => absurd ready (unready' md), fun _ => ?_⟩, unready'⟩
  have none_before := (counted (undisturbed_earlier (acts_grows acts) quiet) md).2 (unready md)
  rw [acts_ups acts md, (preparing_marks preparing md).1, none_before]
  rfl

theorem preparing_ensures {α : Type} {next : op.Reply → Driver α}
    {post : α → World (KernelThread Unit) KernelOp KernelOp.Reply Kernel → Prop} (preparing : Preparing op)
    (link : ∀ file md, op ≠ .setPrivateData file md) (opening : Opening file md world)
    (rest : ∀ reply after, Counted after → Opening file md after →
      (protocol.rules Kernel.perform (.task ())).Ensures (next reply) post after) :
    (protocol.rules Kernel.perform (.task ())).Ensures (.request op next) post world := by
  intro between moves kept reply after acts
  have opening := opening.stable moves
  obtain ⟨counted, unready⟩ := unready_step acts preparing opening.unready kept
  refine ⟨counted, acts_grows acts, rest reply after counted ⟨unready, ?_⟩⟩
  obtain ⟨_, performed, _⟩ := acts
  rw [Kernel.files_kept link performed]
  exact opening.linked

/-- What a returned value is worth: a handle that was opened has its semaphore. -/
def Opened (file : Nat) (result : Int) (world : World (KernelThread Unit) KernelOp KernelOp.Reply Kernel) : Prop :=
  result = 0 → Ready (world.state.files file).privateData world.log

theorem Opened.stable {result : Int} (spared : Spared world later) (opened : Opened file result world) :
    Opened file result later := by
  intro zero
  rw [spared.files]
  exact (spared.ready _).mpr (opened zero)

theorem semaInit_step {task : Unit} {done : Unit}
    (acts : Pool.acts Kernel.perform (.task task) (.semaInit md 0) before done after)
    (unready : ∀ md, ¬ Ready md before.log) (counted : Counted before) : Counted after ∧ Ready md after.log := by
  have ready : ∀ other, Ready other after.log ↔ md = other := by
    intro other
    rw [acts_ready acts other, initialises, beq_iff_eq]
    simp [unready other]
  refine ⟨fun quiet other => ?_, (ready md).mpr rfl⟩
  have none_before := (counted (undisturbed_earlier (acts_grows acts) quiet) other).2 (unready other)
  have none_after : ups other after.log = 0 := by
    rw [acts_ups acts other, none_before]
    rfl
  refine ⟨fun now => ?_, fun _ => none_after⟩
  obtain rfl := (ready other).mp now
  rw [none_after]
  obtain ⟨_, performed, _⟩ := acts
  exact Kernel.semaInit_performed performed

theorem driverOpen_ensures (unready : ∀ md, ¬ Ready md world.log) :
    (protocol.rules Kernel.perform (.task ())).Ensures (driverOpen file) (Opened file) world := by
  simp only [driverOpen, rIntConfig, bind_eq, call_eq, pure_eq, request_bind, pure_bind]
  -- the context is allocated and the handle refers to it
  intro between moves kept md middle acts
  have unready : ∀ md, ¬ Ready md between.log := fun md ready => unready md ((moves.ready md).mp ready)
  obtain ⟨counted, unready⟩ := unready_step acts trivial unready kept
  refine ⟨counted, acts_grows acts, ?_⟩
  intro between moves kept _ after acts
  have unready : ∀ md, ¬ Ready md between.log := fun md ready => unready md ((moves.ready md).mp ready)
  obtain ⟨counted, unready⟩ := unready_step acts trivial unready kept
  refine ⟨counted, acts_grows acts, ?_⟩
  have opening : Opening file md after := by
    refine ⟨unready, ?_⟩
    obtain ⟨_, performed, _⟩ := acts
    exact Kernel.setPrivateData_performed performed
  -- what comes before `sema_init` only prepares it
  apply preparing_ensures (by trivial) (by nofun) opening; intro _ _ _ opening
  apply preparing_ensures (by trivial) (by nofun) opening; intro busy _ counted opening
  let prepared (_ : Unit) (world : World (KernelThread Unit) KernelOp KernelOp.Reply Kernel) : Prop :=
    Opening file md world
  have configured : ∀ world, Counted world → Opening file md world → (protocol.rules Kernel.perform (.task ())).Ensures
      (if busy = 0 then .request (.gpioToIrq gpioAnyGpio) fun irq => .request (.store md .irqNumber irq) fun _ =>
        if 0 ≤ irq then .request (.load md .irqNumber) fun _ => .pure () else .pure ()
      else .pure ()) prepared world := by
    intro world counted opening
    split
    · apply preparing_ensures (by trivial) (by nofun) opening; intro irq _ _ opening
      apply preparing_ensures (by trivial) (by nofun) opening; intro _ _ _ opening
      split
      · apply preparing_ensures (by trivial) (by nofun) opening
        exact fun _ _ _ opening _ moves _ => opening.stable moves
      · exact fun _ moves _ => opening.stable moves
    · exact fun _ moves _ => opening.stable moves
  apply Rules.Ensures.bind counted
  apply (configured _ counted opening).mono
  intro _ _ _ opening
  apply preparing_ensures (by trivial) (by nofun) opening; intro _ _ _ opening
  apply preparing_ensures (by trivial) (by nofun) opening; intro failed _ _ opening
  split
  · intro _ _ _ zero
    exact absurd zero (by decide)
  · apply preparing_ensures (by trivial) (by nofun) opening; intro _ _ _ opening
    apply preparing_ensures (by trivial) (by nofun) opening
    intro _ _ _ opening _ moves counted _ _ acts
    have opening := opening.stable moves
    obtain ⟨counted, ready⟩ := semaInit_step acts opening.unready counted
    refine ⟨counted, acts_grows acts, fun _ moves _ => Opened.stable moves fun _ => ?_⟩
    obtain ⟨_, performed, _⟩ := acts
    rw [Kernel.files_kept (by nofun) performed, opening.linked]
    exact ready

end Opening

section Interrupt

def Entered (md : Pointer) (log : Log Unit) : Prop := ∃ event ∈ log, entered event = some md

theorem Entered.grows {log earlier : Log Unit} (grows : earlier <+: log) (entered : Entered md earlier) :
    Entered md log := by
  obtain ⟨event, member, entering⟩ := entered
  exact ⟨event, grows.subset member, entering⟩

theorem ready_of_entered {log : Log Unit} (quiet : Undisturbed log) (entered : Entered md log) : Ready md log := by
  obtain ⟨event, member, entering⟩ := entered
  obtain ⟨earlier, rest, rfl⟩ := List.append_of_mem member
  rw [Ready, List.any_append, Bool.or_eq_true]
  exact .inl (quiet earlier event rest md rfl entering)

theorem acts_spared (unmade : ∀ md, initialises md ⟨thread, op, reply, after.state⟩ = false)
    (link : ∀ file md, op ≠ .setPrivateData file md) (acts : Pool.acts Kernel.perform thread op before reply after) :
    Spared before after := by
  refine ⟨fun md => ?_, ?_⟩
  · rw [acts_ready acts md, unmade md]
    simp
  · obtain ⟨_, performed, _⟩ := acts
    exact Kernel.files_kept link performed

theorem dispatch_step {data : Pointer} (acts : Pool.acts Kernel.perform thread .dispatch before data after)
    (counted : Counted before) : Counted after ∧ Entered data after.log := by
  have ready := acts_ready acts
  have raised := acts_ups acts
  obtain ⟨_, performed, grows⟩ := acts
  have same : after.state = before.state := by
    obtain ⟨_, _, same⟩ := Option.map_eq_some_iff.mp performed
    exact (Prod.mk.inj same).2.symm
  refine ⟨fun quiet md => ?_, ?_⟩
  · have counts := counted (undisturbed_earlier ⟨_, grows.symm⟩ quiet) md
    rw [ready, raised, same]
    simpa [initialises, raises] using counts
  · rw [Entered, grows]
    exact ⟨_, List.mem_append_right _ (List.mem_singleton_self _), rfl⟩

theorem up_step {done : Unit} (acts : Pool.acts Kernel.perform thread (.up md) before done after)
    (entered : Entered md before.log) (counted : Counted before) : Counted after := by
  intro quiet other
  have quiet := undisturbed_earlier (acts_grows acts) quiet
  have counts := counted quiet other
  have ready : Ready other after.log ↔ Ready other before.log := by
    rw [acts_ready acts other]
    simp [initialises]
  rw [ready, acts_ups acts other]
  obtain ⟨_, performed, _⟩ := acts
  obtain ⟨count, held, same⟩ := Kernel.up_performed performed
  by_cases own : md = other
  · subst other
    have made := ready_of_entered quiet entered
    refine ⟨fun _ => ?_, fun unready => absurd made unready⟩
    rw [same, Kernel.semaphore_setSemaphore held]
    have equal := Option.some.inj (held.symm.trans (counts.1 made))
    simp [raises, equal]
  · rw [same, Kernel.semaphore_setSemaphore_of_ne (fun equal => own equal.symm)]
    simpa [raises, own] using counts

theorem interrupt_ensures (number : Nat) :
    (protocol.rules Kernel.perform (.irq number)).Ensures interrupt (fun _ _ => True) world := by
  simp only [interrupt, rIrqHandler, bind_eq, call_eq, request_bind, pure_bind]
  intro _ _ counted data after acts
  obtain ⟨counted, entered⟩ := dispatch_step acts counted
  refine ⟨counted, ⟨acts_spared (fun _ => rfl) (by nofun) acts, acts_grows acts⟩, ?_⟩
  intro between moves counted _ _ acts
  have counted := up_step acts (entered.grows moves) counted
  exact ⟨counted, ⟨acts_spared (fun _ => rfl) (by nofun) acts, acts_grows acts⟩, fun _ _ _ => trivial⟩

/-- Where an interrupt may be: before its handler, in it, or done. -/
def Handling (log : Log Unit) (program : Driver Unit) : Prop :=
  program = interrupt ∨ (∃ md, program = rIrqHandler md ∧ Entered md log) ∨ program = .pure ()

theorem Handling.grows {program : Driver Unit} {log earlier : Log Unit} (grows : earlier <+: log)
    (handling : Handling earlier program) : Handling log program := by
  refine handling.imp_right (Or.imp_left ?_)
  intro ⟨md, same, entered⟩
  exact ⟨md, same, entered.grows grows⟩

theorem entered_of_raising {program : Driver Unit} {log : Log Unit} (handling : Handling log program)
    (raising : program = rIrqHandler md) : Entered md log := by
  rcases handling with waiting | ⟨other, same, entered⟩ | done
  · cases waiting.symm.trans raising
  · cases same.symm.trans raising
    exact entered
  · cases done.symm.trans raising

theorem handling_step {pool next : Pool (KernelThread Unit) KernelOp KernelOp.Reply Kernel Result} {chance : Chance}
    (handling : ∀ number, Handling pool.world.log (pool.threads (.irq number)))
    (stepped : pool.step Kernel.perform thread chance = some next) :
    ∀ number, Handling next.world.log (next.threads (.irq number)) := by
  obtain ⟨⟨event, rest, state⟩, advanced, same⟩ := Option.map_eq_some_iff.mp stepped
  cases same
  intro number
  have grown : pool.world.log <+: (pool.world.record thread event state).log := by
    cases event with
    | none => exact List.prefix_refl _
    | some event => exact List.prefix_append ..
  by_cases own : .irq number = thread
  · subst own
    simp only [Function.update_self]
    rcases handling number with waiting | ⟨md, raising, _⟩ | done
    · rw [waiting] at advanced
      obtain ⟨⟨data, following⟩, performed, same⟩ := Option.map_eq_some_iff.mp advanced
      cases same
      exact .inr (.inl ⟨data, rfl, _, List.mem_append_right _ (List.mem_singleton_self _), rfl⟩)
    · rw [raising] at advanced
      obtain ⟨_, _, same⟩ := Option.map_eq_some_iff.mp advanced
      cases same
      exact .inr (.inr rfl)
    · rw [done] at advanced
      cases advanced
  · simp only [Function.update_of_ne own]
    exact (handling number).grows grown

end Interrupt

def Promised (file : Nat) : (thread : KernelThread Unit) → Result thread →
    World (KernelThread Unit) KernelOp KernelOp.Reply Kernel → Prop
  | .task _, result => Opened file result
  | .irq _, _ => fun _ => True

theorem starts (file : Nat) (start : Kernel) : protocol.Holds Kernel.perform (Promised file) (opening file start) := by
  have counted : Counted (opening file start).world := fun _ _ => ⟨(nomatch ·), fun _ => rfl⟩
  refine ⟨counted, fun thread => ?_⟩
  cases thread with
  | task => exact driverOpen_ensures fun _ => (nomatch ·)
  | irq number => exact interrupt_ensures number

/-- When no interrupt arrives between `request_irq` and `sema_init`, every `up`
finds a semaphore and every interrupt is counted once. -/
theorem interrupts_sound (file : Nat) (start : Kernel) (schedule : List (KernelThread Unit × Chance))
    (final : Pool (KernelThread Unit) KernelOp KernelOp.Reply Kernel Result)
    (ran : (opening file start).run Kernel.perform schedule = some final) (quiet : Undisturbed final.world.log) :
    Sound file final := by
  have holds := Protocol.run_holds (starts file start) ran
  have handling : ∀ number, Handling final.world.log (final.threads (.irq number)) :=
    Pool.run_induction (fun _ _ _ _ handling stepped => handling_step handling stepped) (fun _ => .inl rfl) ran
  refine ⟨fun number md raising => ?_, fun returned => ?_⟩
  · have entered := entered_of_raising (handling number) raising
    rw [(holds.1 quiet md).1 (ready_of_entered quiet entered)]
    rfl
  · rw [← ups_eq_handled (fun _ => driverOpen_tasks) ran]
    exact (holds.1 quiet _).1 (holds.returned returned rfl)

/-- `Undisturbed`, event by event. -/
def undisturbed (log : Log Unit) : Bool :=
  (List.range log.length).all fun index => (log[index]?.bind entered).all fun md =>
    (log.take index).any (initialises md)

private theorem undisturbed_of_checked {log : Log Unit} (checked : undisturbed log = true) : Undisturbed log := by
  intro earlier event later md same entering
  subst same
  have inside : earlier.length ∈ List.range (earlier ++ event :: later).length := by
    rw [List.mem_range, List.length_append, List.length_cons]
    omega
  have here := List.all_eq_true.mp checked _ inside
  rwa [List.getElem?_append_right (Nat.le_refl _), Nat.sub_self, List.getElem?_cons_zero, Option.bind_some, entering,
    Option.all_some, List.take_left'] at here
  rfl

/-- An interrupt that arrives after `open` returned. -/
def late : List (KernelThread Unit × Chance) :=
  List.replicate 12 (.task (), { kzalloc := some 0 }) ++ List.replicate 2 (.irq 0, ({} : Chance))

theorem late_interrupt : ∃ final, (opening 0 {}).run Kernel.perform late = some final ∧
    final.threads (.task ()) = .pure (0 : Int) ∧ handled (some 0) final = 1 ∧
      final.world.state.semaphore (some 0) = some 1 ∧ Sound 0 final := by
  have ends : ((opening 0 {}).run Kernel.perform late).map (fun final => ((final.threads (.task ())).returned,
      handled (some 0) final, final.world.state.semaphore (some 0), undisturbed final.world.log)) =
        some (some (0 : Int), 1, some 1, true) := by decide +kernel
  obtain ⟨final, ran, same⟩ := Option.map_eq_some_iff.mp ends
  simp only [Prod.mk.injEq] at same
  obtain ⟨returned, once, counted, quiet⟩ := same
  exact ⟨final, ran, returned_iff.mp returned, once, counted,
    interrupts_sound 0 {} late final ran (undisturbed_of_checked quiet)⟩

/-- An interrupt that arrives right after the success of `request_irq`. -/
def early : List (KernelThread Unit × Chance) :=
  List.replicate 9 (.task (), { kzalloc := some 0 }) ++ [(.irq 0, ({} : Chance))]

/-- The handler is about to raise zeroed memory. -/
theorem early_interrupt : ∃ final, (opening 0 {}).run Kernel.perform early = some final ∧ ¬ Sound 0 final := by
  refine ⟨_, rfl, fun sound => ?_⟩
  have made := sound.handlers 0 (some 0) rfl
  exact absurd made (by decide)

end EthercatSlave.Proofs.DriverStart
