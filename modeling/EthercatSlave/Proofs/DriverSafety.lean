import EthercatSlave.Proofs.ContextOwnership

/-! Memory safety of the driver over whole lives of its handles, whatever calls
and interrupts do meanwhile. -/

namespace EthercatSlave.Proofs.DriverSafety
open Program Driver DriverLife ContextOwnership

variable {chance : Chance} {op : KernelOp} {md : Pointer} {thread other : LifeThread} {file address : Nat}
    {number : Int}
  {before after : LifeWorld}

section Programs

variable {α : Type} {next : op.Reply → Driver α} {post : α → LifeWorld → Prop} {world : LifeWorld}

theorem plain_step (plain : Plain op) (there : present before.state.kernel op = true) (safe : Safe before)
    (acts : (driverRules thread).acts op before reply after) :
    Safe after ∧ (∀ other, Relies other before after) ∧ Answers after.state.kernel op reply := by
  obtain ⟨given, acts, rfl⟩ := acts
  obtain ⟨running, logged, ⟨absent, _⟩ | ⟨_, _, chance, kernel, performed, state⟩⟩ := acts_kernel acts
  · exact absurd there (by simp [absent])
  have quiet : op ≠ .kzalloc := by
    rintro rfl
    exact plain
  have owners : owner after.log = owner before.log := by
    rw [logged]
    exact owner_quiet fun same => quiet (LifeOp.kernel.inj same)
  have effect := plain_performed plain performed
  rw [show kernel = after.state.kernel by rw [state]] at effect
  have whole : after.state = { before.state with kernel := after.state.kernel } := by rw [state]
  exact ⟨safe.of_frame running effect.1 whole owners, relies_of_frame effect.1 whole owners, effect.2⟩

theorem plain_call (plain : Plain op)
    (here : ∀ between, Relies thread world between → Safe between → present between.state.kernel op = true)
    (rest : ∀ reply after, Relies thread world after → Safe after → Answers after.state.kernel op reply →
      (driverRules thread).Ensures (next reply) post after) :
    (driverRules thread).Ensures (.request op next) post world := by
  intro between moves safe given after acts
  obtain ⟨kept, spared, answers⟩ := plain_step plain (here between moves safe) safe acts
  exact ⟨kept, fun other _ => spared other, rest given after (moves.trans (spared thread)) kept answers⟩

/-- Nothing is requested of a machine that stopped. -/
theorem stopped_ensures (stopped : world.state.fault.isSome = true) :
    (driverRules thread).Ensures (.request op next) post world := by
  rintro between moves _ _ after ⟨given, acts, rfl⟩
  obtain ⟨running, _⟩ := acts_kernel acts
  exact absurd (moves.1 stopped) (by simp [running])

theorem live_of_holding {registered : Bool} (holding : Holding file address number registered before) :
    (before.state.kernel.context (some address)).isSome = true := holding.owned.2

/-- `r_int_config` leaves the context with whatever number it was mapped to. -/
theorem rIntConfig_ensures {old : Pointer} (placed : Placed file old false world)
    (holding : Holding file address number false world) :
    (driverRules (.session file)).Ensures (rIntConfig (some address)) (fun _ after =>
      Placed file old false after ∧ ∃ number, Holding file address number false after) world := by
  simp only [rIntConfig, bind_eq, call_eq, request_bind, pure_bind]
  apply plain_call
  · trivial
  · exact fun _ _ _ => rfl
  intro (busy : Int) after moves _ _
  have placed := placed.stable moves
  have holding := holding.stable moves
  split
  next =>
    apply plain_call
    · trivial
    · exact fun _ _ _ => rfl
    intro (irq : Int) later moves _ _
    have placed := placed.stable moves
    have holding := holding.stable moves
    rintro between moves safe _ stored ⟨given, acts, rfl⟩
    obtain ⟨kept, spared, placed, holding⟩ :=
      storeNumber_step safe (placed.stable moves) (holding.stable moves) acts
    refine ⟨kept, spared, ?_⟩
    dsimp only
    split
    · apply plain_call
      · trivial
      · exact fun between moves _ => live_of_holding (holding.stable moves)
      intro _ after moves _ _
      have placed := placed.stable moves
      have holding := holding.stable moves
      exact fun last moves _ => ⟨placed.stable moves, irq, holding.stable moves⟩
    · exact fun last moves _ => ⟨placed.stable moves, irq, holding.stable moves⟩
  next => exact fun last moves _ => ⟨placed.stable moves, number, holding.stable moves⟩

/-- A handle that was opened, or one that keeps the context of the failed `open`. -/
def Opened (file : Nat) (result : Int) (world : LifeWorld) : Prop :=
  ∃ address number, Placed file (some address) false world ∧
    (result = 0 ∧ Holding file address number true world ∧ Initialised address world ∨
      result = -efault ∧ Holding file address number false world)

theorem driverOpen_ensures {old : Pointer} (placed : Placed file old false world)
    (bare : Bare file world) :
    (driverRules (.session file)).Ensures (driverOpen file) (Opened file) world := by
  simp only [driverOpen, bind_eq, call_eq, request_bind, pure_bind]
  rintro between moves safe _ after ⟨(md : Pointer), acts, rfl⟩
  obtain ⟨safe, spared, placed, given⟩ := kzalloc_step safe (bare.stable moves) (placed.stable moves) acts
  refine ⟨safe, spared, ?_⟩
  rintro between moves safe _ after ⟨(_ : Unit), acts, rfl⟩
  have placed := placed.stable moves
  obtain ⟨safe, spared, pointed, barely, kept⟩ := setPrivateData_step safe placed acts
  refine ⟨safe, spared, ?_⟩
  rcases given with ⟨rfl, bare⟩ | ⟨address, rfl, holding⟩
  · -- the null pointer is followed
    rintro between moves safe _ after ⟨given, acts, rfl⟩
    obtain ⟨_, logged, ⟨_, state⟩ | ⟨found, _⟩⟩ := acts_kernel acts
    · have excused : Excused between.state.kernel (.store none .devicename deviceName) := ⟨rfl, rfl⟩
      obtain ⟨safe, spared, stopped⟩ := faulted safe excused nofun state logged
      exact ⟨safe, fun other _ => spared other, stopped_ensures stopped⟩
    · cases found
  have holding := kept _ _ _ (holding.stable moves)
  apply plain_call
  · exact nofun
  · exact fun between moves _ => live_of_holding (holding.stable moves)
  intro _ after moves safe _
  have placed := pointed.stable moves
  have holding := holding.stable moves
  apply Rules.Ensures.bind safe
  apply (rIntConfig_ensures placed holding).mono
  rintro _ after safe ⟨placed, number, holding⟩
  apply plain_call
  · trivial
  · exact fun between moves _ => live_of_holding (holding.stable moves)
  intro (irq : Int) after moves safe answers
  have placed := placed.stable moves
  have holding := holding.stable moves
  obtain rfl : irq = number := Option.some.inj (Eq.trans (Eq.symm answers) holding.numbered)
  rintro between moves safe _ after ⟨(failed : Int), acts, rfl⟩
  obtain ⟨safe, spared, placed, holding⟩ := requestIrq_step safe (placed.stable moves) (holding.stable moves) acts
  refine ⟨safe, spared, ?_⟩
  dsimp only
  split
  next refused =>
    rw [decide_eq_false refused] at holding
    exact fun last moves _ => ⟨address, irq, placed.stable moves, .inr ⟨rfl, holding.stable moves⟩⟩
  next granted =>
    rw [decide_eq_true (not_not.mp granted)] at holding
    apply plain_call
    · trivial
    · exact fun _ _ _ => rfl
    intro mode after moves safe _
    have placed := placed.stable moves
    have holding := holding.stable moves
    apply plain_call
    · exact nofun
    · exact fun between moves _ => live_of_holding (holding.stable moves)
    intro _ after moves safe _
    have placed := placed.stable moves
    have holding := holding.stable moves
    apply plain_call
    · trivial
    · exact fun between moves _ => live_of_holding (holding.stable moves)
    intro _ after moves safe initialised
    have placed := placed.stable moves
    have holding := holding.stable moves
    exact fun last moves _ => ⟨address, irq, placed.stable moves,
      .inl ⟨rfl, holding.stable moves, Initialised.stable initialised holding.owned moves⟩⟩

theorem driverClose_ensures (placed : Placed file (some address) false world)
    (holding : Holding file address number true world) :
    (driverRules (.session file)).Ensures (driverClose file) (fun _ => Bare file) world := by
  simp only [driverClose, rIntRelease, bind_eq, call_eq, request_bind, pure_bind]
  apply plain_call
  · trivial
  · exact fun _ _ _ => rfl
  intro (md : Pointer) after moves safe answers
  have placed := placed.stable moves
  have holding := holding.stable moves
  obtain rfl : md = some address := Eq.trans (Eq.symm answers) placed.pointed
  apply plain_call
  · trivial
  · exact fun between moves _ => live_of_holding (holding.stable moves)
  intro (irq : Int) after moves safe answers
  have placed := placed.stable moves
  have holding := holding.stable moves
  obtain rfl : irq = number := Option.some.inj (Eq.trans (Eq.symm answers) holding.numbered)
  rintro between moves safe _ after ⟨(_ : Unit), acts, rfl⟩
  obtain ⟨safe, spared, placed, holding⟩ := freeIrq_step safe (placed.stable moves) (holding.stable moves) acts
  refine ⟨safe, spared, ?_⟩
  apply plain_call
  · trivial
  · exact fun _ _ _ => rfl
  intro _ after moves safe _
  have placed := placed.stable moves
  have holding := holding.stable moves
  apply plain_call
  · trivial
  · exact fun between moves _ => live_of_holding (holding.stable moves)
  intro _ after moves safe _
  have placed := placed.stable moves
  have holding := holding.stable moves
  apply plain_call
  · trivial
  · exact fun _ _ _ => rfl
  intro (held : Pointer) after moves safe answers
  have placed := placed.stable moves
  have holding := holding.stable moves
  obtain rfl : held = some address := Eq.trans (Eq.symm answers) placed.pointed
  rintro between moves safe _ after ⟨(_ : Unit), acts, rfl⟩
  obtain ⟨safe, spared, placed, bare⟩ := kfree_step safe (placed.stable moves) (holding.stable moves) acts
  refine ⟨safe, spared, ?_⟩
  rintro between moves safe _ after ⟨(_ : Unit), acts, rfl⟩
  obtain ⟨safe, spared, placed, barely, _⟩ := setPrivateData_step safe (placed.stable moves) acts
  have bare := barely (bare.stable moves)
  exact ⟨safe, spared, fun last moves _ => bare.stable moves⟩

end Programs

section Threads

variable {world : LifeWorld} {w : Nat}

theorem enter_step {number : Nat} {given : Unit} (safe : Safe before)
    (acts : Pool.acts DriverLife.perform (.caller file number) (.enter file number) before given after) :
    Safe after ∧ (∀ other, other ≠ .caller file number → Relies other before after) ∧
      number ∈ after.state.callers file := by
  obtain ⟨chance, performed, logged⟩ := acts
  have owners : owner after.log = owner before.log := by
    rw [logged]
    exact owner_quiet nofun
  obtain ⟨state', log'⟩ := after
  simp only [DriverLife.perform] at performed
  split at performed
  · cases performed
  next running =>
    have started : before.state.fault = none := by simpa using running
    simp only [serve] at performed
    split at performed
    next lent =>
      cases performed
      have more : ∀ other call, call ∈ before.state.callers other →
          call ∈ Function.update before.state.callers file (number :: before.state.callers file) other := by
        intro other call inside
        by_cases own : other = file
        · subst own
          rw [Function.update_self]
          exact List.mem_cons_of_mem number inside
        · rw [Function.update_of_ne own]
          exact inside
      refine ⟨safe.of_kernel started rfl rfl owners ?_ safe.underway, fun other different => ⟨?_, ?_⟩, ?_⟩
      · intro other call inside
        dsimp only at inside
        by_cases own : other = file
        · subst own
          exact lent
        · rw [Function.update_of_ne own] at inside
          exact safe.inside other call inside
      · exact id
      · cases other with
        | session other => exact session_spared rfl rfl owners fun _ _ alone => alone
        | caller other call => exact fun inside => ⟨more other call inside, rfl⟩
        | irq other => exact fun _ runs => runs
      · dsimp only
        rw [Function.update_self]
        exact List.mem_cons_self ..
    next => cases performed

theorem leave_step {number : Nat} {given : Unit} (safe : Safe before)
    (acts : Pool.acts DriverLife.perform (.caller file number) (.leave file number) before given after) :
    Safe after ∧ ∀ other, other ≠ .caller file number → Relies other before after := by
  obtain ⟨chance, performed, logged⟩ := acts
  have owners : owner after.log = owner before.log := by
    rw [logged]
    exact owner_quiet nofun
  obtain ⟨state', log'⟩ := after
  simp only [DriverLife.perform] at performed
  split at performed
  · cases performed
  next running =>
    have started : before.state.fault = none := by simpa using running
    cases performed
    refine ⟨safe.of_kernel started rfl rfl owners ?_ safe.underway, fun other different => ⟨id, ?_⟩⟩
    · intro other call inside
      dsimp only at inside
      by_cases own : other = file
      · subst own
        rw [Function.update_self] at inside
        exact safe.inside other call (List.mem_of_mem_erase inside)
      · rw [Function.update_of_ne own] at inside
        exact safe.inside other call inside
    · cases other with
      | session other => exact session_spared rfl rfl owners fun _ _ alone => alone
      | caller other call =>
        intro inside
        refine ⟨?_, rfl⟩
        dsimp only
        by_cases own : other = file
        · subst own
          have apart : call ≠ number := fun same => different (congrArg (LifeThread.caller other) same)
          rw [Function.update_self]
          exact (List.mem_erase_of_ne apart).mpr inside
        · rw [Function.update_of_ne own]
          exact inside
      | irq other => exact fun _ runs => runs

/-- A handler is only entered where it is registered. -/
theorem entered_step {number : Nat} {given : Pointer} (safe : Safe before)
    (acts : Pool.acts DriverLife.perform (.irq number) (.entered number) before given after) :
    Safe after ∧ (∀ other, other ≠ .irq number → Relies other before after) ∧
    (number, given) ∈ after.state.handlers := by
  obtain ⟨chance, performed, logged⟩ := acts
  have owners : owner after.log = owner before.log := by
    rw [logged]
    exact owner_quiet nofun
  obtain ⟨state', log'⟩ := after
  simp only [DriverLife.perform] at performed
  split at performed
  · cases performed
  next running =>
    have started : before.state.fault = none := by simpa using running
    obtain ⟨entry, listed, same⟩ := Option.map_eq_some_iff.mp performed
    cases same
    have member := List.mem_of_getElem? listed
    refine ⟨safe.of_kernel started rfl rfl owners safe.inside ?_, fun other different => ⟨id, ?_⟩,
      List.mem_cons_self ..⟩
    · intro handler runs
      rcases List.mem_cons.mp runs with rfl | runs
      · exact safe.registered entry member
      · exact safe.underway handler runs
    · cases other with
      | session other =>
        have alone : ∀ address, entries before (some address) = [] → Alone before (some address) →
            ∀ handler ∈ (number, entry.2) :: before.state.handlers, handler.2 ≠ some address := by
          intro address none alone handler runs same
          rcases List.mem_cons.mp runs with rfl | runs
          · exact List.filter_eq_nil_iff.mp none entry member (beq_iff_eq.mpr same)
          · exact alone handler runs same
        exact session_spared rfl rfl owners alone
      | caller other call => exact fun inside => ⟨inside, rfl⟩
      | irq other => exact fun _ runs => List.mem_cons_of_mem _ runs

theorem finished_step {number : Nat} {given : Unit} (safe : Safe before)
    (acts : Pool.acts DriverLife.perform (.irq number) (.finished number) before given after) :
    Safe after ∧ ∀ other, other ≠ .irq number → Relies other before after := by
  obtain ⟨chance, performed, logged⟩ := acts
  have owners : owner after.log = owner before.log := by
    rw [logged]
    exact owner_quiet nofun
  obtain ⟨state', log'⟩ := after
  simp only [DriverLife.perform] at performed
  split at performed
  · cases performed
  next running =>
    have started : before.state.fault = none := by simpa using running
    cases performed
    refine ⟨safe.of_kernel started rfl rfl owners safe.inside ?_, fun other different => ⟨id, ?_⟩⟩
    · exact fun handler runs => safe.underway handler ((List.mem_filter.mp runs).1)
    · cases other with
      | session other =>
        exact session_spared rfl rfl owners fun _ _ alone handler runs => alone handler ((List.mem_filter.mp runs).1)
      | caller other call => exact fun inside => ⟨inside, rfl⟩
      | irq other =>
        intro md runs
        have apart : other ≠ number := fun same => different (congrArg LifeThread.irq same)
        exact List.mem_filter.mpr ⟨runs, by simpa using apart⟩

/-- How a session ends: with nothing left, or with the context of its failed `open`. -/
def Finished (file : Nat) (result : Int) (world : LifeWorld) : Prop :=
  result = 0 ∧ Bare file world ∨ result = -efault ∧ ∃ address number, Placed file (some address) false world ∧
    Holding file address number false world

theorem session_ensures {old : Pointer} (safe : Safe world) (placed : Placed file old false world)
    (bare : Bare file world) :
    (lifeRules (.session file)).Ensures (session file) (Finished file) world := by
  apply Rules.Ensures.bind safe
  apply (Rules.Ensures.embed (driverOpen_ensures placed bare)).mono
  rintro result after safe ⟨address, number, placed, ⟨rfl, holding, initialised⟩ | ⟨rfl, holding⟩⟩
  · simp only [if_true, bind_eq, DriverLife.call, ask, request_bind, pure_bind, pure_eq]
    rintro between moves safe given after acts
    have initialised := initialised.stable holding.owned moves
    obtain ⟨safe, spared, placed, holding⟩ :=
      lend_step safe (placed.stable moves) (holding.stable moves) initialised acts
    refine ⟨safe, spared, ?_⟩
    rintro between moves safe given after acts
    obtain ⟨safe, spared, placed, holding⟩ := withdraw_step safe (placed.stable moves) (holding.stable moves) acts
    have closes := Rules.Ensures.embed (driverClose_ensures placed holding)
    exact ⟨safe, spared, Rules.Ensures.bind safe
      (closes.mono fun _ _ _ bare last moves _ => .inl ⟨rfl, bare.stable moves⟩)⟩
  · rw [if_neg (by decide)]
    exact fun last moves _ => .inr ⟨rfl, address, number, placed.stable moves, holding.stable moves⟩

/-- Calls about a context that take or return no ownership. -/
def Touching (md : Pointer) : KernelOp → Prop
  | .load data _ | .downInterruptible data | .downTimeout data _ => data = md
  | .usecsToJiffies _ | .ktimeGetMonoFastNs | .accessOk _ _ => True
  | _ => False

theorem checkParameter_touches {cmd direction : BitVec 32} {address : Nat} {parameterError : Bool} :
    (checkParameter cmd direction address parameterError).Uses (Touching md) := by
  unfold checkParameter
  split
  · exact ⟨trivial, fun _ => trivial⟩
  · trivial

theorem downTimeoutms_touches {arg : BitVec w} : (downTimeoutms w md arg).Uses (Touching md) := by
  have round : ∀ endtime last, (waitRound w md endtime last).Uses (Touching md) := by
    intro endtime last
    refine ⟨trivial, fun _ => ⟨rfl, fun err => ?_⟩⟩
    change Uses (Touching md) (if err = (0 : Int) then _ else _)
    split
    · trivial
    · exact ⟨trivial, fun _ => trivial⟩
  simp only [downTimeoutms, bind_eq, call_bind, pure_eq]
  refine ⟨trivial, fun _ => Uses.bind ?_ fun _ => trivial⟩
  unfold whileDo
  split
  · exact ⟨round _, fun _ => trivial⟩
  · trivial

theorem myApi_touches {cmd : BitVec 32} {arg : BitVec w} : (myApi w cmd md arg).Uses (Touching md) := by
  simp only [myApi, bind_eq, call_eq, pure_eq, request_bind, pure_bind]
  split
  · refine ⟨rfl, fun (wOpen : Int) => ?_⟩
    dsimp only
    split
    · trivial
    · exact ⟨rfl, fun _ => trivial⟩
  · split
    · refine ⟨rfl, fun (wOpen : Int) => ?_⟩
      dsimp only
      split
      · trivial
      · exact downTimeoutms_touches
    · trivial

/-- A call that is inside a handle, and what the handle refers to. -/
def Inside (file number : Nat) (md : Pointer) (world : LifeWorld) : Prop :=
  number ∈ world.state.callers file ∧ (world.state.kernel.files file).privateData = md

theorem Inside.stable {number : Nat} (inside : Inside file number md before)
    (moves : Relies (.caller file number) before after) : Inside file number md after := by
  have kept := moves.2 inside.1
  exact ⟨kept.1, kept.2.trans inside.2⟩

/-- Inside a handle its context is there, and its semaphore is one. -/
theorem Inside.initialised {number : Nat} (inside : Inside file number md world) (safe : Safe world) :
    (world.state.kernel.semaphore md).isSome = true := by
  obtain ⟨address, pointed, _, initialised⟩ := safe.lent file (safe.inside file number inside.1)
  rw [← inside.2, pointed]
  exact initialised

theorem touching_step {number : Nat} (touching : Touching md op) (safe : Safe before)
    (inside : Inside file number md before) (acts : (driverRules (.caller file number)).acts op before reply after) :
    Safe after ∧ (∀ other, other ≠ .caller file number → Relies other before after) ∧ Inside file number md after := by
  have initialised := inside.initialised safe
  have live : (before.state.kernel.context md).isSome = true := Option.isSome_of_isSome_bind initialised
  have allowed : Plain op ∧ present before.state.kernel op = true := by
    cases op with
    | load => cases touching; exact ⟨trivial, live⟩
    | downInterruptible => cases touching; exact ⟨trivial, initialised⟩
    | downTimeout => cases touching; exact ⟨trivial, initialised⟩
    | usecsToJiffies => exact ⟨trivial, rfl⟩
    | ktimeGetMonoFastNs => exact ⟨trivial, rfl⟩
    | accessOk => exact ⟨trivial, rfl⟩
    | _ => exact touching.elim
  obtain ⟨kept, spared, _⟩ := plain_step allowed.1 allowed.2 safe acts
  exact ⟨kept, fun other _ => spared other, inside.stable (spared _)⟩

theorem caller_ensures {number : Nat} {cmd : BitVec 32} {arg : BitVec w} :
    (lifeRules (.caller file number)).Ensures (caller w file number cmd arg) (fun _ _ => True) world := by
  unfold caller
  simp only [bind_eq, DriverLife.call, ask, request_bind, pure_bind, pure_eq]
  intro between moves safe given after acts
  obtain ⟨safe, spared, entered⟩ := enter_step safe acts
  have touches : ∀ md, ((checkParameter cmd iocRead arg.toNat false).bind fun failed =>
      (checkParameter cmd iocWrite arg.toNat failed).bind fun failed =>
        if failed then Program.pure (-efault) else myApi w cmd md arg).Uses (Touching md) := by
    intro md
    refine checkParameter_touches.bind fun _ => checkParameter_touches.bind fun failed => ?_
    split
    · trivial
    · exact myApi_touches
  have called : (driverRules (.caller file number)).Ensures (driverUnioctl w file cmd arg)
      (fun _ after => ∃ md, Inside file number md after) after := by
    simp only [driverUnioctl, bind_eq, call_bind, pure_eq]
    apply plain_call
    · trivial
    · exact fun _ _ _ => rfl
    intro (md : Pointer) after moves safe answers
    have inside : Inside file number md after := ⟨(moves.2 entered).1, answers⟩
    have stays : (driverRules (.caller file number)).Ensures _ (fun _ => Inside file number md) after :=
      Rules.Ensures.of_uses (fun moves _ inside => inside.stable moves)
        (fun touching safe inside acts => touching_step touching safe inside acts) (touches md) inside
    exact stays.mono fun _ _ _ inside => ⟨md, inside⟩
  refine ⟨safe, spared, Rules.Ensures.bind safe ((Rules.Ensures.embed called).mono ?_)⟩
  rintro result after _ _ between moves safe given left acts
  obtain ⟨safe, spared⟩ := leave_step safe acts
  exact ⟨safe, spared, fun _ _ _ => trivial⟩

/-- The handler's context is there; without a semaphore in it the machine stops. -/
theorem interrupt_ensures {number : Nat} :
    (lifeRules (.irq number)).Ensures (DriverLife.interrupt number) (fun _ _ => True) world := by
  unfold DriverLife.interrupt
  simp only [bind_eq, DriverLife.call, ask, request_bind, pure_bind]
  intro between moves safe (md : Pointer) after acts
  obtain ⟨safe, spared, runs⟩ := entered_step safe acts
  refine ⟨safe, spared, ?_⟩
  have raised : (driverRules (.irq number)).Ensures (rIrqHandler md) (fun _ _ => True) after := by
    rintro between moves safe given raised acts
    cases found : (between.state.kernel.semaphore md).isSome with
    | true =>
      have plain : Plain (.up md) := trivial
      obtain ⟨kept, spared, _⟩ := plain_step plain found safe acts
      exact ⟨kept, fun other _ => spared other, fun _ _ _ => trivial⟩
    | false =>
      obtain ⟨_, acts, rfl⟩ := acts
      obtain ⟨_, logged, ⟨_, state⟩ | ⟨there, _⟩⟩ := acts_kernel acts
      · have live := safe.underway (number, md) (moves.2 md runs)
        have excused : Excused between.state.kernel (.up md) := ⟨live, by simpa using found⟩
        obtain ⟨kept, spared, _⟩ := faulted safe excused nofun state logged
        exact ⟨kept, fun other _ => spared other, fun _ _ _ => trivial⟩
      · exact absurd (found.symm.trans there) (by decide)
  apply Rules.Ensures.bind safe
  apply (Rules.Ensures.embed raised).mono
  rintro _ later _ _ between moves safe given after acts
  obtain ⟨safe, spared⟩ := finished_step safe acts
  exact ⟨safe, spared, fun _ _ _ => trivial⟩

end Threads

section Runs

variable {w : Nat} {cmd : Nat → Nat → BitVec 32} {arg : Nat → Nat → BitVec w} {start : Kernel}

def Ends : (thread : LifeThread) → DriverLife.Result thread → LifeWorld → Prop
  | .session file, result, world => Finished file result world
  | .caller _ _, _, _ => True
  | .irq _, _, _ => True

theorem starts : protocol.Holds DriverLife.perform Ends (DriverLife.pool w cmd arg start) := by
  have safe : Safe (DriverLife.pool w cmd arg start).world := by
    constructor <;> nofun
  refine ⟨safe, fun thread => ?_⟩
  cases thread with
  | session file => exact session_ensures safe ⟨rfl, rfl⟩ fun address owned => absurd owned.1 (by nofun)
  | caller file number => exact caller_ensures
  | irq number => exact interrupt_ensures

/-- Over any number of handles, calls and interrupts: nothing is freed in use or
freed twice, and only two accesses can ever go wrong. What a session was given
is gone when it returned 0; a failed `open` keeps exactly its one context. -/
theorem driver_safe (w : Nat) (cmd : Nat → Nat → BitVec 32) (arg : Nat → Nat → BitVec w) (start : Kernel)
    (schedule : List (LifeThread × Chance))
    (reached : Pool LifeThread LifeOp LifeOp.Reply DriverLife.State DriverLife.Result)
    (ran : (DriverLife.pool w cmd arg start).run DriverLife.perform schedule = some reached) :
    (∀ op, reached.world.state.fault = some op → Excused reached.world.state.kernel op) ∧
      (∀ entry ∈ reached.world.state.kernel.irqs, (reached.world.state.kernel.context entry.2).isSome = true) ∧
      (∀ entry ∈ reached.world.state.handlers, (reached.world.state.kernel.context entry.2).isSome = true) ∧
      (∀ file number, number ∈ reached.world.state.callers file →
        (reached.world.state.kernel.semaphore (reached.world.state.kernel.files file).privateData).isSome = true) ∧
      ∀ file result, reached.threads (.session file) = .pure result →
        result = 0 ∧ (∀ address, ¬ Owns reached.world file address) ∨
        result = -efault ∧ ∃ address, (reached.world.state.kernel.files file).privateData = some address ∧
          (∀ other, Owns reached.world file other ↔ other = address) ∧
          ∀ entry ∈ reached.world.state.kernel.irqs, entry.2 ≠ some address := by
  have holds := Protocol.run_holds starts ran
  have safe : Safe reached.world := holds.1
  refine ⟨safe.excused, safe.registered, safe.underway, fun file number inside => ?_, fun file result returned => ?_⟩
  · have here : Inside file number _ reached.world := ⟨inside, rfl⟩
    exact here.initialised safe
  · have ended : Finished file result reached.world := holds.returned returned
    rcases ended with ⟨zero, bare⟩ | ⟨failed, address, number, placed, holding⟩
    · exact .inl ⟨zero, bare⟩
    · refine .inr ⟨failed, address, placed.pointed, fun other => ⟨holding.only other, ?_⟩, fun entry member same => ?_⟩
      · rintro rfl
        exact holding.owned
      · exact List.filter_eq_nil_iff.mp holding.entries entry member (beq_iff_eq.mpr same)

def turns (count : Nat) (thread : LifeThread) : List (LifeThread × Chance) :=
  List.replicate count (thread, { kzalloc := some 1 })

/-- A handle opened, waited on with an interrupt and released. -/
theorem driver_safe_released : ∃ reached,
    (DriverLife.pool 64 (fun _ _ => 41) (fun _ _ => 0) { files := fun _ => { fMode := 2 } }).run DriverLife.perform
        (turns 13 (.session 0) ++ turns 3 (.irq 0) ++ turns 5 (.caller 0 0) ++ turns 9 (.session 0)) = some reached ∧
      (reached.threads (.session 0)).returned = some 0 ∧ ∀ address, ¬ Owns reached.world 0 address := by
  have ends : ((DriverLife.pool 64 (fun _ _ => 41) (fun _ _ => 0) { files := fun _ => { fMode := 2 } }).run
      DriverLife.perform (turns 13 (.session 0) ++ turns 3 (.irq 0) ++ turns 5 (.caller 0 0) ++
        turns 9 (.session 0))).map (fun reached => (reached.threads (.session 0)).returned) = some (some 0) := by
    decide +kernel
  obtain ⟨reached, ran, returned⟩ := Option.map_eq_some_iff.mp ends
  have settled := (driver_safe 64 _ _ _ _ reached ran).2.2.2.2 0 0 (returned_iff.mp returned)
  rcases settled with ⟨_, bare⟩ | ⟨failed, _⟩
  · exact ⟨reached, ran, returned, bare⟩
  · exact absurd failed (by decide)

end Runs
end EthercatSlave.Proofs.DriverSafety
