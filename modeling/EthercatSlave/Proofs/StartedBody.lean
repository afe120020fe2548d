import EthercatSlave.Construction
import EthercatSlave.Proofs.Runs
import EthercatSlave.Proofs.RelyGuarantee

/-! The start mutex orders the constructors and the body when `Resume` is what unlocks
it. When the base constructor does, the body may call `Execute` through the virtual
table of the base class. -/

namespace EthercatSlave.Proofs.StartedBody
open Program Construction
open Threads (Party)

variable {μ : Type} {derived : Derived μ} {log : Log μ}

abbrev Scene (μ : Type) := World Party (ConstructionOp μ) ConstructionOp.Reply (NewThread μ)

abbrev Occurrence (μ : Type) := Event Party (ConstructionOp μ) ConstructionOp.Reply (NewThread μ)

variable {event : Occurrence μ} {before after world : Scene μ} {op : ConstructionOp μ} {reply : op.Reply}
  {member : ThreadMember μ}

section Order

def Stored (member : ThreadMember μ) (log : Log μ) : Prop := ∃ store ∈ log, sets store = some member

/-- The constructors set before the first `Resume`, and the body reads after it. -/
structure Fine (derived : Derived μ) (earlier : Log μ) (event : Occurrence μ) : Prop where
  sets : (sets event).isSome → ¬ Resumed earlier
  reads : (dispatched event).isSome ∨ (reads event).isSome → Resumed earlier
  dispatch : ∀ vptr, dispatched event = some vptr → vptr = derived.complete
  complete : event.op = .mutexUnlock true → ∀ member, derived.Sets member → Stored member earlier

theorem not_resumed_nil : ¬ Resumed ([] : Log μ) := by
  intro resumed
  obtain ⟨_, inside, _⟩ := resumed
  cases inside

theorem resumed_snoc : Resumed (log ++ [event]) ↔ Resumed log ∨ event.op = .mutexUnlock true := by
  simp only [Resumed, List.mem_append, List.mem_singleton, or_and_right, exists_or, exists_eq_left]

theorem stored_snoc : Stored member (log ++ [event]) ↔ Stored member log ∨ sets event = some member := by
  simp only [Stored, List.mem_append, List.mem_singleton, or_and_right, exists_or, exists_eq_left]

theorem overrider_complete : derived.overrider derived.complete = some derived.execute := by
  rw [Derived.overrider, Derived.complete, Nat.add_sub_cancel, List.take_length, Derived.levels, List.filterMap_append]
  exact List.getLast?_concat ..

/-- What holds of every event makes the body that of the complete object. -/
theorem started_of_fine (fine : Throughout (Fine derived) log) (crrunning : Bool) : Started derived crrunning log := by
  have at_split : ∀ earlier event later, log = earlier ++ event :: later → Fine derived earlier event := fine
  constructor
  · intro event member vptr found
    obtain ⟨earlier, later, split⟩ := List.append_of_mem member
    rw [(at_split earlier event later split).dispatch vptr found]
    exact overrider_complete
  · intro earlier event later split member read set
    have resumed : Resumed earlier := (at_split earlier event later split).reads (.inr (by rw [read]; rfl))
    constructor
    · obtain ⟨resume, inside, resumes⟩ := resumed
      obtain ⟨first, rest, cut⟩ := List.append_of_mem inside
      have whole : log = first ++ resume :: (rest ++ event :: later) := by
        rw [split, cut, List.append_assoc, List.cons_append]
      obtain ⟨store, stored, sets⟩ := (at_split first resume _ whole).complete resumes member set
      exact ⟨store, cut ▸ List.mem_append_left _ stored, sets⟩
    · intro store inside sets
      obtain ⟨between, rest, cut⟩ := List.append_of_mem inside
      have whole : log = (earlier ++ event :: between) ++ store :: rest := by
        rw [split, cut, List.append_assoc, List.cons_append]
      have late := (at_split _ store rest whole).sets (by rw [sets]; rfl)
      obtain ⟨resume, found, resumes⟩ := resumed
      exact late ⟨resume, List.mem_append_left _ found, resumes⟩
  · intro _ earlier event later split touched
    exact (at_split earlier event later split).reads touched

end Order

section Rely

/-- What the body leaves to the owner. -/
structure Spared (before after : Scene μ) : Prop where
  resumed : Resumed after.log → Resumed before.log
  stored : ∀ member, Stored member before.log → Stored member after.log
  vptr : after.state.vptr = before.state.vptr
  started : after.state.started = before.state.started
  locked : before.state.locked = true → after.state.locked = true

structure Advanced (before after : Scene μ) : Prop where
  resumed : Resumed before.log → Resumed after.log
  started : before.state.started = true → after.state.started = true

structure Sound (derived : Derived μ) (world : Scene μ) : Prop where
  fine : Throughout (Fine derived) world.log
  held : world.state.started = true → world.state.locked = true ∨ Resumed world.log
  vptr : Resumed world.log → world.state.vptr = derived.complete

def protocol (derived : Derived μ) :
    Protocol Party (ConstructionOp μ) ConstructionOp.Reply (NewThread μ) where
  invariant := Sound derived
  rely party := match party with
    | .owner => Spared
    | .body => Advanced
  guarantee party := match party with
    | .owner => Advanced
    | .body => Spared
  refl party world := by
    cases party with
    | owner => exact ⟨id, fun _ => id, rfl, rfl, id⟩
    | body => exact ⟨id, id⟩
  trans party {first second third} left right := by
    cases party with
    | owner =>
      exact ⟨left.resumed ∘ right.resumed, fun member => right.stored member ∘ left.stored member,
        right.vptr.trans left.vptr, right.started.trans left.started, right.locked ∘ left.locked⟩
    | body => exact ⟨right.resumed ∘ left.resumed, right.started ∘ left.started⟩
  compatible {party other before after} different step := by
    cases party <;> cases other
    · exact absurd rfl different
    · exact step
    · exact step
    · exact absurd rfl different

end Rely

section Owner

/-- How far the constructors are: the pthread is not created yet, the start mutex is
held, the virtual table, and the members that are set. -/
structure Stage (μ : Type) where
  early : Bool
  held : Bool
  vptr : Nat
  done : ThreadMember μ → Prop

namespace Stage

/-- The pthread is created once, and behind the locked mutex. -/
def Allows (stage : Stage μ) : ConstructionOp μ → Prop
  | .mutexInit => stage.early = true
  | .create => stage.early = true ∧ stage.held = true
  | .mutexUnlock _ => False
  | _ => True

def advance (stage : Stage μ) : ConstructionOp μ → Stage μ
  | .store member _ => { stage with done := fun other => other = member ∨ stage.done other }
  | .storeVptr level => { stage with vptr := level }
  | .mutexInit => { stage with held := false }
  | .mutexLock => { stage with held := true }
  | .create => { stage with early := false }
  | _ => stage

/-- A program without loops whose requests are allowed where they stand. -/
def Follows : {α : Type} → Stage μ → Constructing μ α → (α → Stage μ → Prop) → Prop
  | _, stage, .pure value, post => post value stage
  | _, stage, .request op next, post => stage.Allows op ∧ ∀ reply, Follows (stage.advance op) (next reply) post
  | _, _, .doWhile _ _ _ _, _ => False

variable {α β : Type} {stage : Stage μ} {program : Constructing μ α} {post weaker : α → Stage μ → Prop}

theorem Follows.mono (follows : Follows stage program post)
    (implies : ∀ value last, post value last → weaker value last) :
    Follows stage program weaker := by
  induction program generalizing stage with
  | pure value => exact implies value stage follows
  | request op next ih => exact ⟨follows.1, fun reply => ih reply (follows.2 reply) implies⟩
  | doWhile => exact follows.elim

theorem Follows.bind {next : α → Constructing μ β} {post : β → Stage μ → Prop}
    (follows : Follows stage program fun value last => Follows last (next value) post) :
    Follows stage (program.bind next) post := by
  induction program generalizing stage with
  | pure value => exact follows
  | request op rest ih => exact ⟨follows.1, fun reply => ih reply (follows.2 reply)⟩
  | doWhile => exact follows.elim

/-- The stage is where the object really is, and nothing was resumed. -/
structure Holds (stage : Stage μ) (world : Scene μ) : Prop where
  quiet : ¬ Resumed world.log
  early : stage.early = true → world.state.started = false
  held : stage.held = true → world.state.locked = true
  vptr : world.state.vptr = stage.vptr
  done : ∀ member, stage.done member → Stored member world.log

theorem Holds.stable (holds : stage.Holds before) (spared : Spared before after) : stage.Holds after :=
  ⟨fun resumed => holds.quiet (spared.resumed resumed), fun early => spared.started.trans (holds.early early),
    fun held => spared.locked (holds.held held), spared.vptr.trans holds.vptr,
    fun member done => spared.stored member (holds.done member done)⟩

end Stage

/-- All that the classes have in common is set. -/
def Based (stage : Stage μ) : Prop := ∀ member, (∀ own, member ≠ .own own) → stage.done member

theorem Based.advance {stage : Stage μ} (based : Based stage) : Based (stage.advance op) := by
  intro member common
  cases op with
  | store => exact .inr (based member common)
  | _ => exact based member common

theorem threadbase_follows (arguments : ThreadArguments) (stage : Stage μ) :
    stage.Follows (threadbase arguments) fun _ last => last.early = stage.early ∧ Based last := by
  simp only [threadbase, bind_eq, call_bind]
  repeat refine ⟨trivial, fun _ => ?_⟩
  refine ⟨rfl, fun member common => ?_⟩
  cases member with
  | own member => exact absurd rfl (common member)
  | _ => simp [Stage.advance]

/-- The end of both constructors, where they leave the unlock to `Resume`. -/
theorem affinity_follows {stage : Stage μ} {cpu : Int} (fits : Prop) [Decidable fits] (vptr : stage.vptr = 1)
    (based : Based stage) :
    stage.Follows (if fits then .request (.setAffinity cpu) fun _ => .pure () else .pure ())
      fun _ last => last.vptr = 1 ∧ Based last := by
  split
  · exact ⟨trivial, fun _ => ⟨vptr, based.advance⟩⟩
  · exact ⟨vptr, based⟩

theorem base_follows (kind : ThreadClass) (arguments : ThreadArguments) (later : arguments.crrunning = false) :
    Stage.Follows ⟨true, false, 0, fun _ => False⟩ (base kind arguments : Constructing μ Unit)
      fun _ last => last.vptr = 1 ∧ Based last := by
  cases kind with
  | thread =>
    simp only [base, thread, release, later, bind_eq, call_bind, pure_eq, Bool.false_eq_true, ↓reduceIte]
    refine Stage.Follows.bind ((threadbase_follows arguments _).mono fun _ stage given => ?_)
    obtain ⟨early, based⟩ := given
    repeat refine ⟨trivial, fun _ => ?_⟩
    split
    · refine ⟨trivial, fun _ => ⟨early, fun _ =>
        ⟨trivial, fun _ => ⟨trivial, fun nproc => ⟨⟨early, rfl⟩, fun _ => ?_⟩⟩⟩⟩⟩
      apply affinity_follows _ rfl
      repeat apply Based.advance
      exact based
    · refine ⟨rfl, ?_⟩
      repeat apply Based.advance
      exact based
  | rtthread =>
    simp only [base, rtthread, release, chooseCpu, later, bind_eq, call_bind, pure_eq, Bool.false_eq_true, ↓reduceIte]
    refine Stage.Follows.bind ((threadbase_follows arguments _).mono fun _ stage given => ?_)
    obtain ⟨early, based⟩ := given
    repeat refine ⟨trivial, fun _ => ?_⟩
    refine ⟨early, fun _ => ⟨trivial, fun _ => ⟨trivial, fun nproc => ⟨⟨early, rfl⟩, fun _ => ?_⟩⟩⟩⟩
    split
    · refine ⟨trivial, fun cpu => ⟨trivial, fun _ => affinity_follows _ rfl ?_⟩⟩
      repeat apply Based.advance
      exact based
    · apply affinity_follows _ rfl
      repeat apply Based.advance
      exact based

theorem setMembers_follows (sets : List (μ × Int)) (stage : Stage μ) :
    stage.Follows (setMembers sets) fun _ last => last.vptr = stage.vptr ∧
      (∀ member, stage.done member → last.done member) ∧ ∀ member ∈ sets.map Prod.fst, last.done (.own member) := by
  induction sets generalizing stage with
  | nil => exact ⟨rfl, fun _ => id, fun _ member => nomatch member⟩
  | cons set sets ih =>
    refine ⟨trivial, fun _ => (ih _).mono fun _ last given => ?_⟩
    obtain ⟨vptr, kept, done⟩ := given
    refine ⟨vptr, fun member before => kept member (.inr before), fun member inside => ?_⟩
    rcases List.mem_cons.mp inside with rfl | inside
    · exact kept _ (.inl rfl)
    · exact done member inside

theorem construct_follows (levels : List (Subclass μ)) (vptr : Nat) (stage : Stage μ) (next : stage.vptr + 1 = vptr) :
    stage.Follows (construct vptr levels) fun _ last => last.vptr + 1 = vptr + levels.length ∧
      (∀ member, stage.done member → last.done member) ∧
      ∀ level ∈ levels, ∀ member ∈ level.sets.map Prod.fst, last.done (.own member) := by
  induction levels generalizing vptr stage with
  | nil => exact ⟨next, fun _ => id, fun _ member => nomatch member⟩
  | cons level levels ih =>
    simp only [construct, bind_eq, call_bind]
    refine ⟨trivial, fun _ => Stage.Follows.bind ((setMembers_follows _ _).mono fun _ middle given => ?_)⟩
    obtain ⟨same, kept, own⟩ := given
    refine (ih (vptr + 1) middle (congrArg (· + 1) same)).mono fun _ last given => ?_
    obtain ⟨vptr, kept', done⟩ := given
    refine ⟨by rw [vptr, List.length_cons]; omega, fun member before => kept' _ (kept member before), ?_⟩
    intro other inside member set
    rcases List.mem_cons.mp inside with rfl | inside
    · exact kept' _ (own member set)
    · exact done other inside member set

/-- Once the object is complete, any number of calls of `Resume`. -/
structure Complete (derived : Derived μ) (world : Scene μ) : Prop where
  vptr : world.state.vptr = derived.complete
  stored : ∀ member, derived.Sets member → Stored member world.log

theorem Complete.stable (complete : Complete derived before) (spared : Spared before after) : Complete derived after :=
  ⟨spared.vptr.trans complete.vptr, fun member set => spared.stored member (complete.stored member set)⟩

theorem complete_of_stage {last : Stage μ} (vptr : last.vptr + 1 = 2 + derived.levels.length) (based : Based last)
    (own : ∀ level ∈ derived.levels, ∀ member ∈ level.sets.map Prod.fst, last.done (.own member))
    (holds : last.Holds world) : Complete derived world := by
  constructor
  · rw [holds.vptr, Derived.complete]
    omega
  · intro member set
    apply holds.done
    cases member with
    | own member =>
      obtain ⟨level, inside, member⟩ := set
      exact own level inside _ member
    | _ => exact based _ fun _ => nofun

variable [DecidableEq μ]

/-- What a request does to the virtual table, the start mutex and the pthread. -/
def effect (now : Circumstance) (object : NewThread μ) : ConstructionOp μ → Nat × Bool × Bool
  | .storeVptr level => (level, object.locked, object.started)
  | .mutexInit => (object.vptr, false, object.started)
  | .mutexLock => (object.vptr, true, object.started)
  | .mutexUnlock _ => (object.vptr, false, object.started)
  | .create => (object.vptr, object.locked, now.creates)
  | _ => (object.vptr, object.locked, object.started)

theorem performed_effect {now : Circumstance} {object following : NewThread μ}
    (performed : NewThread.perform now op object = some (reply, following)) :
    following.vptr = (effect now object op).1 ∧ following.locked = (effect now object op).2.1 ∧
      following.started = (effect now object op).2.2 := by
  cases op <;> simp only [NewThread.perform, Option.ite_none_right_eq_some, Option.some.injEq,
    Prod.mk.injEq] at performed
  case memset | mutexInit | mutexLock | mutexUnlock | begin =>
    obtain ⟨_, _, same⟩ := performed
    subst same
    exact ⟨rfl, rfl, rfl⟩
  all_goals
    obtain ⟨_, same⟩ := performed
    subst same
    exact ⟨rfl, rfl, rfl⟩

/-- What an allowed request of the owner does. -/
theorem owner_acts {stage : Stage μ} (sound : Sound derived before) (holds : stage.Holds before)
    (allowed : stage.Allows op) (acts : Pool.acts NewThread.perform .owner op before reply after) :
    Sound derived after ∧ Advanced before after ∧ (stage.advance op).Holds after := by
  obtain ⟨now, performed, grows⟩ := acts
  obtain ⟨vptr, locked, started⟩ := performed_effect performed
  have other : op ≠ .mutexUnlock true := by
    intro same
    subst same
    exact allowed
  have quiet : ¬ Resumed after.log := by
    rw [grows, resumed_snoc]
    exact not_or.mpr ⟨holds.quiet, other⟩
  have fine : Fine derived before.log ⟨.owner, op, reply, after.state⟩ := by
    refine ⟨fun _ => holds.quiet, fun touched => ?_, fun vptr found => (nomatch found), fun same => absurd same other⟩
    rcases touched with found | found <;> cases found
  have held : before.state.started = true → before.state.locked = true := fun started =>
    (sound.held started).resolve_right holds.quiet
  have stored : ∀ member, (stage.advance op).done member → Stored member after.log := by
    intro member done
    rw [grows, stored_snoc]
    cases op with
    | store =>
      rcases done with rfl | done
      · exact .inr rfl
      · exact .inl (holds.done member done)
    | _ => exact .inl (holds.done member done)
  have objects : (after.state.started = true → after.state.locked = true) ∧
      (before.state.started = true → after.state.started = true) ∧
      ((stage.advance op).early = true → after.state.started = false) ∧
      ((stage.advance op).held = true → after.state.locked = true) ∧ after.state.vptr = (stage.advance op).vptr := by
    rw [vptr, locked, started]
    cases op with
    | mutexUnlock => exact allowed.elim
    | storeVptr => exact ⟨held, id, holds.early, holds.held, rfl⟩
    | mutexInit =>
      have idle := ne_true_of_eq_false (holds.early allowed)
      exact ⟨fun running => absurd running idle, id, holds.early, fun unheld => absurd unheld Bool.false_ne_true,
        holds.vptr⟩
    | mutexLock => exact ⟨fun _ => rfl, id, holds.early, fun _ => rfl, holds.vptr⟩
    | create =>
      have idle := ne_true_of_eq_false (holds.early allowed.1)
      exact ⟨fun _ => holds.held allowed.2, fun running => absurd running idle,
        fun late => absurd late Bool.false_ne_true, holds.held, holds.vptr⟩
    | _ => exact ⟨held, id, holds.early, holds.held, holds.vptr⟩
  obtain ⟨locked, advanced, early, held, vptr⟩ := objects
  refine ⟨⟨?_, fun started => .inl (locked started), fun resumed => absurd resumed quiet⟩,
    ⟨fun resumed => absurd resumed holds.quiet, advanced⟩, ⟨quiet, early, held, vptr, stored⟩⟩
  rw [grows]
  exact Throughout.snoc_iff.mpr ⟨sound.fine, fine⟩

abbrev Ensures (derived : Derived μ) (party : Party) {α : Type} (program : Constructing μ α)
    (post : α → Scene μ → Prop) (world : Scene μ) : Prop :=
  ((protocol derived).rules NewThread.perform party).Ensures program post world

theorem follows_ensures {α : Type} {program : Constructing μ α} {post : α → Stage μ → Prop} {stage : Stage μ}
    (follows : stage.Follows program post) (holds : stage.Holds world) :
    Ensures derived .owner program (fun value after => ∃ last : Stage μ, post value last ∧ last.Holds after) world := by
  induction program generalizing stage world with
  | pure value => exact fun later spared _ => ⟨stage, follows, holds.stable spared⟩
  | request op next ih =>
    intro between spared sound reply after acts
    obtain ⟨kept, advanced, holds'⟩ := owner_acts sound (holds.stable spared) follows.1 acts
    exact ⟨kept, advanced, ih reply (follows.2 reply) holds'⟩
  | doWhile => exact follows.elim

/-- What the requests of `Resume` do. -/
theorem resume_acts (sound : Sound derived before) (complete : Complete derived before)
    (resuming : op = .loadBuf ∨ op = .mutexUnlock true)
    (acts : Pool.acts NewThread.perform .owner op before reply after) :
    Sound derived after ∧ Advanced before after ∧ Complete derived after := by
  obtain ⟨now, performed, grows⟩ := acts
  obtain ⟨vptr, locked, started⟩ := performed_effect performed
  have grown : Resumed before.log → Resumed after.log := by
    rw [grows, resumed_snoc]
    exact .inl
  have stored : ∀ member, derived.Sets member → Stored member after.log := by
    intro member set
    rw [grows, stored_snoc]
    exact .inl (complete.stored member set)
  have fine : Throughout (Fine derived) after.log := by
    rw [grows]
    refine Throughout.snoc_iff.mpr ⟨sound.fine, ?_, ?_, fun vptr found => (nomatch found), fun _ => complete.stored⟩
    · intro set
      rcases resuming with rfl | rfl <;> cases set
    · intro touched
      rcases touched with found | found <;> cases found
  have objects : after.state.vptr = before.state.vptr ∧ after.state.started = before.state.started ∧
      (after.state.locked = before.state.locked ∨ Resumed after.log) := by
    rcases resuming with rfl | rfl
    · exact ⟨vptr, started, .inl locked⟩
    · have resumed : Resumed after.log := by
        rw [grows, resumed_snoc]
        exact .inr rfl
      exact ⟨vptr, started, .inr resumed⟩
  obtain ⟨vptr, started, locked⟩ := objects
  refine ⟨⟨fine, fun running => ?_, fun _ => vptr.trans complete.vptr⟩, ⟨grown, fun running => started.trans running⟩,
    ⟨vptr.trans complete.vptr, stored⟩⟩
  rcases locked with locked | resumed
  · rw [locked]
    exact (sound.held (started.symm.trans running)).imp_right grown
  · exact .inr resumed

theorem resumes_ensures (sound : Sound derived world) (complete : Complete derived world) (resumes : Nat) :
    Ensures derived .owner (times resume resumes) (fun _ => Complete derived) world := by
  refine Rules.Ensures.times (Complete derived) (fun spared _ complete => complete.stable spared) ?_ resumes world sound
    complete
  intro world _ complete
  have uses : (resume : Constructing μ Unit).Uses fun op => op = .loadBuf ∨ op = .mutexUnlock true :=
    ⟨.inl rfl, fun _ => ⟨.inr rfl, fun _ => trivial⟩⟩
  exact Rules.Ensures.of_uses (fun spared _ complete => complete.stable spared)
    (fun resuming sound complete acts => resume_acts sound complete resuming acts) uses complete

theorem owner_ensures (kind : ThreadClass) (arguments : ThreadArguments) (derived : Derived μ) (resumes : Nat)
    (later : arguments.crrunning = false) (sound : Sound derived { state := {} }) :
    Ensures derived .owner (owner kind arguments derived resumes) (fun _ _ => True) { state := {} } := by
  have start : Stage.Holds ⟨true, false, 0, fun _ => False⟩ ({ state := {} } : Scene μ) :=
    ⟨not_resumed_nil, fun _ => rfl, nofun, rfl, fun _ => False.elim⟩
  simp only [owner, bind_eq]
  refine Rules.Ensures.bind sound ((follows_ensures (base_follows kind arguments later) start).mono ?_)
  intro _ middle sound built
  obtain ⟨stage, ⟨vptr, based⟩, holds⟩ := built
  refine Rules.Ensures.bind sound
    ((follows_ensures (construct_follows derived.levels 2 stage (congrArg (· + 1) vptr)) holds).mono ?_)
  intro _ after sound constructed
  obtain ⟨last, ⟨vptr, kept, own⟩, holds⟩ := constructed
  have complete := complete_of_stage vptr (fun member common => kept member (based member common)) own holds
  exact (resumes_ensures sound complete resumes).mono fun _ _ _ _ => trivial

end Owner

section Body

variable [DecidableEq μ]

/-- The requests of the body, and those with which it reads the object. -/
def ofBody : ConstructionOp μ → Prop
  | .begin | .loadBuf | .mutexLock | .store .. | .load _ | .loadVptr | .setscheduler _ | .setAffinity _ => True
  | _ => False

theorem body_acts (acts : Pool.acts NewThread.perform .body op before reply after) (sound : Sound derived before)
    (allowed : ofBody op) (resumed : (∃ member, op = .load member) ∨ op = .loadVptr → Resumed before.log) :
    Sound derived after ∧ Spared before after ∧ (Resumed before.log → Resumed after.log) := by
  obtain ⟨now, performed, grows⟩ := acts
  obtain ⟨vptr, locked, started⟩ := performed_effect performed
  have other : op ≠ .mutexUnlock true := by
    intro same
    subst same
    exact allowed
  have same : Resumed after.log ↔ Resumed before.log := by
    rw [grows, resumed_snoc]
    exact or_iff_left other
  have stored : ∀ member, Stored member before.log → Stored member after.log := by
    intro member stored
    rw [grows, stored_snoc]
    exact .inl stored
  have objects : after.state.vptr = before.state.vptr ∧ after.state.started = before.state.started ∧
      (before.state.locked = true → after.state.locked = true) := by
    rw [vptr, locked, started]
    cases op with
    | mutexLock => exact ⟨rfl, rfl, fun _ => rfl⟩
    | begin | loadBuf | store | load | loadVptr | setscheduler | setAffinity => exact ⟨rfl, rfl, id⟩
    | _ => exact allowed.elim
  obtain ⟨vptr, started, locked⟩ := objects
  have fine : Fine derived before.log ⟨.body, op, reply, after.state⟩ := by
    refine ⟨fun set => (nomatch set), fun touched => resumed ?_, fun found reads => ?_, fun unlocks =>
      absurd unlocks other⟩
    · cases op with
      | load member => exact .inl ⟨member, rfl⟩
      | loadVptr => exact .inr rfl
      | _ => rcases touched with found | found <;> cases found
    · cases op with
      | loadVptr =>
        have read : reply = before.state.vptr := (congrArg Prod.fst (Option.some.inj performed)).symm
        cases reads
        exact read.trans (sound.vptr (resumed (.inr rfl)))
      | _ => cases reads
  refine ⟨⟨?_, fun running => ?_, fun resumed => vptr.trans (sound.vptr (same.mp resumed))⟩,
    ⟨same.mp, stored, vptr, started, locked⟩, same.mpr⟩
  · rw [grows]
    exact Throughout.snoc_iff.mpr ⟨sound.fine, fine⟩
  · exact (sound.held (started.symm.trans running)).imp locked same.mpr

/-- What the body does once it has the start mutex. -/
def ofStarted : ConstructionOp μ → Prop
  | .store .. | .load _ | .loadVptr | .setscheduler _ | .setAffinity _ => True
  | _ => False

omit [DecidableEq μ] in
theorem prepare_uses : (prepare : Constructing μ Unit).Uses ofStarted := by
  have affine : (prepare.affine : Constructing μ Unit).Uses ofStarted := by
    simp only [prepare.affine, bind_eq, call_bind, pure_eq]
    refine ⟨trivial, fun rcpu => ?_⟩
    dsimp only
    split
    · exact ⟨trivial, fun _ => ⟨trivial, fun _ => trivial⟩⟩
    · trivial
  simp only [prepare, bind_eq, call_bind]
  refine ⟨trivial, fun isrt => ?_⟩
  dsimp only
  split
  · exact ⟨trivial, fun _ => ⟨trivial, fun _ => affine⟩⟩
  · exact affine

omit [DecidableEq μ] in
theorem execute_uses (derived : Derived μ) (ref : Int) : (execute derived ref).Uses ofStarted := by
  simp only [execute, bind_eq, call_bind, pure_eq]
  refine ⟨trivial, fun vptr => ?_⟩
  dsimp only
  split
  next execute _ =>
    refine (Uses.embed (execute ref)).mono fun op given => ?_
    obtain ⟨inner, rfl⟩ := given
    cases inner <;> trivial
  next => trivial

/-- Everything behind the start mutex. -/
theorem started_ensures {α : Type} {program : Constructing μ α} (uses : program.Uses ofStarted)
    (resumed : Resumed world.log) : Ensures derived .body program (fun _ _ => True) world := by
  have keeps : Ensures derived .body program (fun _ after => Resumed after.log) world := by
    refine Rules.Ensures.of_uses (fun (moved : Advanced _ _) _ => moved.resumed)
      (fun {op _ _ _} allowed sound resumed acts => ?_) uses resumed
    have within : ofBody op := by cases op <;> first | exact allowed.elim | trivial
    obtain ⟨kept, spared, grown⟩ := body_acts acts sound within fun _ => resumed
    exact ⟨kept, spared, grown resumed⟩
  exact keeps.mono fun _ _ _ _ => trivial

theorem begin_acts {reply : Unit} (acts : Pool.acts NewThread.perform .body .begin before reply after) :
    after.state.started = true := by
  obtain ⟨now, performed, _⟩ := acts
  obtain ⟨started, same⟩ := Option.ite_none_right_eq_some.mp performed
  have state : after.state = before.state := (congrArg Prod.snd (Option.some.inj same)).symm
  rwa [state]

/-- The start mutex of a pthread that runs is only free once it was resumed. -/
theorem lock_acts {reply : Unit} (acts : Pool.acts NewThread.perform .body .mutexLock before reply after)
    (sound : Sound derived before) (started : before.state.started = true) : Resumed before.log := by
  obtain ⟨now, performed, _⟩ := acts
  obtain ⟨free, _⟩ := Option.ite_none_right_eq_some.mp performed
  rcases sound.held started with locked | resumed
  · simp [locked] at free
  · exact resumed

theorem body_ensures (derived : Derived μ) :
    Ensures derived .body (startThread derived) (fun _ _ => True) { state := {} } := by
  have rest : (Program.request (.store .activ 1) fun _ => .request (.load .ref) fun ref =>
      (execThread derived ref).bind fun stat => .request (.store .activ 0) fun _ => .pure stat :
      Constructing μ Int).Uses ofStarted :=
    ⟨trivial, fun _ => ⟨trivial, fun ref =>
      .bind (.bind prepare_uses fun _ => execute_uses derived ref) fun _ => ⟨trivial, fun _ => trivial⟩⟩⟩
  simp only [startThread, bind_eq, call_bind, pure_eq]
  intro _ _ sound _ entered acts
  obtain ⟨kept, spared, _⟩ := body_acts acts sound trivial nofun
  have started := begin_acts acts
  refine ⟨kept, spared, ?_⟩
  intro second moved sound _ loaded acts
  obtain ⟨kept, spared, _⟩ := body_acts acts sound trivial nofun
  have started : loaded.state.started = true := spared.started.trans (moved.started started)
  refine ⟨kept, spared, ?_⟩
  intro third moved sound _ locked acts
  obtain ⟨kept, spared, grown⟩ := body_acts acts sound trivial nofun
  exact ⟨kept, spared, started_ensures rest (grown (lock_acts acts sound (moved.started started)))⟩

end Body

theorem sound_starts : Sound derived ({ state := {} } : Scene μ) :=
  ⟨.nil, nofun, fun resumed => absurd resumed not_resumed_nil⟩

variable [DecidableEq μ]

/-- In every run where the base constructor leaves the unlock to `Resume`. -/
theorem started_later {kind : ThreadClass} {arguments : ThreadArguments} {resumes : Nat}
    {schedule : List (Party × Circumstance)}
    {reached : Pool Party (ConstructionOp μ) ConstructionOp.Reply (NewThread μ) Result}
    (later : arguments.crrunning = false)
    (ran : (pool kind arguments derived resumes).run NewThread.perform schedule = some reached) :
    Started derived arguments.crrunning reached.world.log := by
  have starts : (protocol derived).Holds NewThread.perform (fun _ _ _ => True)
      (pool kind arguments derived resumes) := by
    refine ⟨sound_starts, fun party => ?_⟩
    cases party with
    | owner => exact owner_ensures kind arguments derived resumes later sound_starts
    | body => exact body_ensures derived
  exact started_of_fine (Protocol.run_holds starts ran).1.fine _

section Unlocking

/-- The object once the base constructor has unlocked the start mutex itself. -/
structure Unlocked (object : NewThread μ) : Prop where
  vptr : object.vptr = 1
  impBuf : object.impBuf = true
  locked : object.locked = false
  started : object.started = true

/-- The constructor leaves the start mutex so. -/
def Unlocks (now : Circumstance) (program : Constructing μ Unit) (object : NewThread μ) : Prop :=
  ∃ last, Eval (NewThread.perform now) program object () last ∧ Unlocked last

theorem Unlocks.request {now : Circumstance} {object following : NewThread μ}
    {next : op.Reply → Constructing μ Unit} (answered : NewThread.perform now op object = some (reply, following))
    (rest : Unlocks now (next reply) following) : Unlocks now (.request op next) object := by
  obtain ⟨last, ran, unlocked⟩ := rest
  exact ⟨last, .request answered ran, unlocked⟩

theorem Unlocks.bind {now : Circumstance} {object middle : NewThread μ} {program : Constructing μ Unit}
    {next : Unit → Constructing μ Unit} (first : Eval (NewThread.perform now) program object () middle)
    (rest : Unlocks now (next ()) middle) : Unlocks now (program.bind next) object := by
  obtain ⟨last, ran, unlocked⟩ := rest
  exact ⟨last, first.bind ran, unlocked⟩

theorem threadbase_eval (now : Circumstance) (arguments : ThreadArguments) : ∃ members : ThreadMember μ → Option Int,
    Eval (NewThread.perform now) (threadbase arguments) {} () { members } := by
  simp only [threadbase, bind_eq, call_bind]
  exact ⟨_, .request rfl (.request rfl (.request rfl (.request rfl (.request rfl (.request rfl (.request rfl
    (.request rfl (.request rfl .pure))))))))⟩

theorem base_unlocks (kind : ThreadClass) (arguments : ThreadArguments) (crrunning : arguments.crrunning = true) :
    Unlocks ⟨true, true, arguments.cpu⟩ (base kind arguments : Constructing μ Unit) {} := by
  obtain ⟨members, based⟩ := @threadbase_eval μ _ ⟨true, true, arguments.cpu⟩ arguments
  -- `sysconf` answers the argument, so no affinity is set
  cases kind with
  | thread =>
    have outside : ¬ (arguments.cpu < arguments.cpu ∧ arguments.cpu ≠ -1) := fun fits => Int.lt_irrefl _ fits.1
    simp only [base, thread, release, crrunning, bind_eq, call_bind, pure_eq, ↓reduceIte]
    apply Unlocks.bind based
    repeat apply Unlocks.request rfl
    dsimp only
    rw [if_neg outside]
    exact ⟨_, .request rfl .pure, rfl, rfl, rfl, rfl⟩
  | rtthread =>
    simp only [base, rtthread, chooseCpu, release, crrunning, bind_eq, call_bind, pure_eq, ↓reduceIte]
    apply Unlocks.bind based
    repeat apply Unlocks.request rfl
    dsimp only
    split
    next any =>
      rw [request_bind]
      repeat apply Unlocks.request rfl
      rw [pure_bind, if_neg (Int.lt_irrefl _)]
      exact ⟨_, .request rfl .pure, rfl, rfl, rfl, rfl⟩
    next =>
      rw [pure_bind, if_neg (Int.lt_irrefl _)]
      exact ⟨_, .request rfl .pure, rfl, rfl, rfl, rfl⟩

end Unlocking

section Dispatch

variable {now : Circumstance} {object : NewThread μ}

theorem prepare_eval : Eval (NewThread.perform now) prepare object () object := by
  have affine : Eval (NewThread.perform now) prepare.affine object () object := by
    simp only [prepare.affine, bind_eq, call_bind, pure_eq]
    apply Eval.request rfl
    split
    · exact .request rfl (.request rfl .pure)
    · exact .pure
  simp only [prepare, bind_eq, call_bind]
  apply Eval.request rfl
  split
  · exact .request rfl (.request rfl affine)
  · exact affine

/-- `__Start_thread` in front of the call of `Execute`. -/
def enter : Constructing μ Int := do
  call .begin
  let _ ← call .loadBuf
  call .mutexLock
  call (.store .activ 1)
  let ref ← call (.load .ref)
  prepare
  return ref

omit [DecidableEq μ] in
theorem startThread_enter (derived : Derived μ) :
    ∃ next : Int → Nat → Constructing μ Int, startThread derived = enter.bind fun ref =>
      .request .loadVptr (next ref) := by
  simp only [startThread, execThread, execute, enter, bind_eq, call_bind, pure_eq, request_bind,
    Program.bind_assoc, Program.pure_bind]
  exact ⟨_, rfl⟩

theorem enter_eval (unlocked : Unlocked object) :
    ∃ ref last, Eval (NewThread.perform now) enter object ref last ∧ last.vptr = 1 := by
  obtain ⟨members, vptr, impBuf, locked, started⟩ := object
  obtain ⟨rfl, rfl, rfl, rfl⟩ := unlocked
  simp only [enter, bind_eq, call_bind, pure_eq]
  exact ⟨_, _, .request rfl (.request rfl (.request rfl (.request rfl (.request rfl (prepare_eval.bind .pure))))), rfl⟩

theorem early_dispatch (kind : ThreadClass) (arguments : ThreadArguments) (derived : Derived μ) (resumes : Nat)
    (crrunning : arguments.crrunning = true) : ∃ schedule reached,
      (pool kind arguments derived resumes).run NewThread.perform schedule = some reached ∧
        ∃ event ∈ reached.world.log, dispatched event = some 1 := by
  let now : Circumstance := ⟨true, true, arguments.cpu⟩
  have unlocks : Unlocks now (base kind arguments : Constructing μ Unit) {} := base_unlocks kind arguments crrunning
  obtain ⟨object, constructed, unlocked⟩ := unlocks
  obtain ⟨next, whole⟩ := startThread_enter derived
  obtain ⟨ref, last, entered, vptr⟩ : ∃ ref last, Eval (NewThread.perform now) enter object ref last ∧ last.vptr = 1 :=
    enter_eval unlocked
  let start := pool kind arguments derived resumes
  let derive : Unit → Constructing μ Unit := fun _ => (construct 2 derived.levels).bind fun _ => times resume resumes
  obtain ⟨first, constructs, _⟩ := constructed.reaches derive
  have built : ∃ log, start.run NewThread.perform (List.replicate first (.owner, now)) =
      some ⟨Function.update start.threads .owner (derive ()), ⟨object, log⟩⟩ := constructs.together rfl rfl
  obtain ⟨log, ran⟩ := built
  let middle : Pool Party (ConstructionOp μ) ConstructionOp.Reply (NewThread μ) Result :=
    ⟨Function.update start.threads .owner (derive ()), ⟨object, log⟩⟩
  obtain ⟨second, enters, _⟩ := entered.reaches fun ref => .request .loadVptr (next ref)
  have dispatches : ∃ log, middle.run NewThread.perform (List.replicate second (.body, now)) =
      some ⟨Function.update middle.threads .body (.request .loadVptr (next ref)), ⟨last, log⟩⟩ :=
    enters.together whole rfl
  obtain ⟨log, ran'⟩ := dispatches
  refine ⟨List.replicate first (.owner, now) ++ (List.replicate second (.body, now) ++ [(.body, now)]), ?_⟩
  refine ⟨_, Pool.run_append ran (Pool.run_append ran' rfl), ⟨.body, .loadVptr, last.vptr, last⟩, ?_, ?_⟩
  · exact List.mem_append_right _ (List.mem_singleton_self _)
  · exact congrArg some vptr

end Dispatch

/-- For every derived class and every call of the constructor: all runs are in order if
and only if the unlock is left to `Resume`. -/
theorem started_iff (kind : ThreadClass) (arguments : ThreadArguments) (derived : Derived μ) (resumes : Nat) :
    (∀ schedule reached, (pool kind arguments derived resumes).run NewThread.perform schedule = some reached →
      Started derived arguments.crrunning reached.world.log) ↔ arguments.crrunning = false := by
  constructor
  · intro started
    cases crrunning : arguments.crrunning with
    | false => rfl
    | true =>
      obtain ⟨schedule, reached, ran, event, member, base⟩ := early_dispatch kind arguments derived resumes crrunning
      have executes := (started schedule reached ran).dispatch event member 1 base
      cases executes
  · intro later schedule reached ran
    exact started_later later ran

/-- A class like `rttestthread`: it sets one member and reads it in `Execute`. -/
def rttest : Derived Unit where
  between := []
  sets := [((), 1)]
  execute _ := .request (.load (.own ())) .pure

/-- With `crrunning` the body of such a class may find the virtual table of `rtthread`. -/
theorem base_executes : ¬ ∀ (μ : Type) [DecidableEq μ] (kind : ThreadClass) (arguments : ThreadArguments)
    (derived : Derived μ) (resumes : Nat) (schedule : List (Party × Circumstance))
    (reached : Pool Party (ConstructionOp μ) ConstructionOp.Reply (NewThread μ) Result),
    (pool kind arguments derived resumes).run NewThread.perform schedule = some reached →
      Started derived arguments.crrunning reached.world.log := by
  intro started
  obtain ⟨schedule, reached, ran, event, member, base⟩ := early_dispatch .rtthread ⟨88, 0, -1, true⟩ rttest 0 rfl
  have executes := (started Unit .rtthread ⟨88, 0, -1, true⟩ rttest 0 schedule reached ran).dispatch event member 1 base
  cases executes

end EthercatSlave.Proofs.StartedBody
