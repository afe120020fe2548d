import EthercatSlave.MutexLife
import EthercatSlave.Proofs.Endings
import EthercatSlave.Proofs.RelyGuarantee

/-! Exclusion by name: of all objects that share a sound semaphore at most one holds it,
and one that nobody holds is free, over whole lives of any number of objects. A wait that
a signal ends spoils the name: nobody looks at its error, and the unlock after it posts a
unit that no lock took. -/

namespace EthercatSlave.Proofs.MutexExclusion
open Program MutexLife

variable {ι N : Type} [DecidableEq ι] [DecidableEq N]
variable {client : ι} {op : MutexOp ι N} {reply : op.Reply} {world before after : MutexWorld ι N}
  {object other : ι × Nat} {start : N → Option NamedSemaphore} {name : N}

section Accesses

def accessed : MutexOp ι N → ι × Nat
  | .malloc object => object
  | .present object => object
  | .semOpen object _ => object
  | .clearSema object => object
  | .semWait object => object
  | .semPost object => object
  | .semClose object => object
  | .free object => object

/-- Accesses that neither lock nor unlock. -/
def Quiet : MutexOp ι N → Prop
  | .semWait _ | .semPost _ => False
  | _ => True

theorem sound_earlier (acts : Pool.acts Mutexes.perform client op before reply after)
    (sound : Sound start after.log name) : Sound start before.log name := by
  obtain ⟨_, _, logged⟩ := acts
  rw [logged] at sound
  exact ⟨sound.1, fun event member => sound.2 event (List.mem_append_left _ member)⟩

theorem holding_quiet (acts : Pool.acts Mutexes.perform client op before reply after) (quiet : Quiet op)
    (object : ι × Nat) : holding after.log object = holding before.log object := by
  obtain ⟨_, _, logged⟩ := acts
  rw [logged, holding, List.foldl_append, ← holding]
  cases op with
  | semWait => exact quiet.elim
  | semPost => exact quiet.elim
  | _ => rfl

theorem holding_wait {err : Int} (acts : Pool.acts Mutexes.perform client (.semWait object) before err after)
    (other : ι × Nat) :
    holding after.log other = (holding before.log other || err == 0 && object == other) := by
  obtain ⟨_, _, logged⟩ := acts
  rw [logged, holding, List.foldl_append, ← holding]
  rfl

theorem holding_post {given : Unit} (acts : Pool.acts Mutexes.perform client (.semPost object) before given after)
    (other : ι × Nat) : holding after.log other = (holding before.log other && object != other) := by
  obtain ⟨_, _, logged⟩ := acts
  rw [logged, holding, List.foldl_append, ← holding]
  rfl

theorem holding_frame (acts : Pool.acts Mutexes.perform client op before reply after)
    (different : other ≠ accessed op) :
    holding after.log other = holding before.log other := by
  cases op with
  | semWait object =>
    have apart : object ≠ other := fun same => different same.symm
    rw [holding_wait acts, beq_false_of_ne apart, Bool.and_false, Bool.or_false]
  | semPost object =>
    have apart : object ≠ other := fun same => different same.symm
    rw [holding_post acts, bne_iff_ne.mpr apart, Bool.and_true]
  | _ => exact holding_quiet acts trivial other

omit [DecidableEq ι] in
theorem onSema_eq {mutexes mutexes' : Mutexes ι N} {signal : Bool} {op : SemOp} {reply : op.Reply}
    (called : mutexes.onSema signal object op = some (reply, mutexes')) : ∃ name sema sema',
      (mutexes.objects object).sema = some name ∧ mutexes.semaphores name = some sema ∧
        NamedSemaphore.perform signal op sema = some (reply, sema') ∧
          mutexes' = { mutexes with semaphores := Function.update mutexes.semaphores name (some sema') } := by
  obtain ⟨name, opened, called⟩ := Option.bind_eq_some_iff.mp called
  obtain ⟨sema, present, called⟩ := Option.bind_eq_some_iff.mp called
  obtain ⟨⟨answer, sema'⟩, performed, same⟩ := Option.bind_eq_some_iff.mp called
  cases same
  exact ⟨name, sema, sema', opened, present, performed, rfl⟩

theorem objects_frame (acts : Pool.acts Mutexes.perform client op before reply after)
    (different : other ≠ accessed op) :
    after.state.objects other = before.state.objects other := by
  obtain ⟨supply, performed, _⟩ := acts
  have placed : ∀ (mutexes : Mutexes ι N) mutex {answer : op.Reply}, some (answer, mutexes.place (accessed op) mutex) =
      some (reply, after.state) → after.state.objects other = mutexes.objects other := by
    intro mutexes mutex answer performed
    injection performed with same
    injection same with _ state
    rw [← state]
    exact Function.update_of_ne different _ _
  cases op with
  | semOpen object name =>
    simp only [Mutexes.perform] at performed
    split at performed
    · have frame := placed _ _ performed
      exact frame
    · exact placed _ _ performed
  | semWait =>
    obtain ⟨name, sema, sema', _, _, _, same⟩ := onSema_eq performed
    rw [same]
  | semPost =>
    obtain ⟨name, sema, sema', _, _, _, same⟩ := onSema_eq performed
    rw [same]
  | present =>
    injection performed with same
    injection same with _ state
    rw [← state]
  | _ => exact placed _ _ performed

/-- What an access leaves of its object. -/
def shaped : (op : MutexOp ι N) → op.Reply → MutexObject N → MutexObject N
  | .malloc _, impBuf, _ => { impBuf }
  | .semOpen _ name, opened, mutex => { mutex with sema := if opened then some name else none }
  | .clearSema _, _, mutex => { mutex with sema := none }
  | .semClose _, _, mutex => { mutex with sema := none }
  | .free _, _, mutex => { mutex with impBuf := false }
  | _, _, mutex => mutex

theorem objects_accessed (acts : Pool.acts Mutexes.perform client op before reply after) :
    after.state.objects (accessed op) = shaped op reply (before.state.objects (accessed op)) := by
  obtain ⟨supply, performed, _⟩ := acts
  have placed : ∀ (mutexes : Mutexes ι N) mutex {answer : op.Reply}, some (answer, mutexes.place (accessed op) mutex) =
      some (reply, after.state) → answer = reply ∧ after.state.objects (accessed op) = mutex := by
    intro mutexes mutex answer performed
    injection performed with same
    injection same with answered state
    rw [← state]
    exact ⟨answered, Function.update_self _ _ _⟩
  cases op with
  | malloc =>
    obtain ⟨rfl, object⟩ := placed _ _ performed
    exact object
  | semOpen object name =>
    simp only [Mutexes.perform] at performed
    split at performed
    · obtain ⟨rfl, object⟩ := placed _ _ performed
      exact object
    · obtain ⟨rfl, object⟩ := placed _ _ performed
      exact object
  | semWait =>
    obtain ⟨name, sema, sema', _, _, _, same⟩ := onSema_eq performed
    rw [same]
    rfl
  | semPost =>
    obtain ⟨name, sema, sema', _, _, _, same⟩ := onSema_eq performed
    rw [same]
    rfl
  | present =>
    injection performed with same
    injection same with _ state
    rw [← state]
    rfl
  | _ => exact (placed _ _ performed).2

end Accesses

section Protocols

/-- The semaphores that objects have open are there; a sound one that is free is held by
no object, and one that is not by exactly one. -/
structure Orderly (start : N → Option NamedSemaphore) (world : MutexWorld ι N) : Prop where
  shared : ∀ object name, (world.state.objects object).sema = some name → (world.state.semaphores name).isSome = true
  single : ∀ name sema, Sound start world.log name → world.state.semaphores name = some sema →
    (sema.value = 1 ∧ ∀ object, ¬ Holder world name object) ∨
      (sema.value = 0 ∧ ∃ holder, ∀ object, Holder world name object ↔ object = holder)

/-- Nobody else touches the objects of a client, and a name that is spoilt stays so. -/
structure Relies (start : N → Option NamedSemaphore) (client : ι) (before after : MutexWorld ι N) : Prop where
  object : ∀ number, after.state.objects (client, number) = before.state.objects (client, number)
  held : ∀ number, holding after.log (client, number) = holding before.log (client, number)
  sound : ∀ name, Sound start after.log name → Sound start before.log name

variable (ι) in
def protocol (start : N → Option NamedSemaphore) : Protocol ι (MutexOp ι N) MutexOp.Reply (Mutexes ι N) where
  invariant := Orderly start
  rely := Relies start
  guarantee client before after := ∀ other, other ≠ client → Relies start other before after
  refl _ _ := ⟨fun _ => rfl, fun _ => rfl, fun _ => id⟩
  trans _ _ _ _ one two := ⟨fun number => (two.object number).trans (one.object number),
    fun number => (two.held number).trans (one.held number), fun name sound => one.sound name (two.sound name sound)⟩
  compatible different guarantees := guarantees _ different

abbrev rules (start : N → Option NamedSemaphore) (client : ι) :
    Rules (MutexOp ι N) MutexOp.Reply (MutexWorld ι N) :=
  (protocol ι start).rules Mutexes.perform client

theorem spares_others (acts : Pool.acts Mutexes.perform client op before reply after)
    (mine : (accessed op).1 = client) : ∀ other, other ≠ client → Relies start other before after := by
  intro other different
  have apart : ∀ number, (other, number) ≠ accessed op := by
    intro number same
    rw [← mine, ← same] at different
    exact different rfl
  exact ⟨fun number => objects_frame acts (apart number), fun number => holding_frame acts (apart number),
    fun _ => sound_earlier acts⟩

end Protocols

section Steps

/-- An access after which the same objects hold the same semaphores. -/
theorem Orderly.reshape (orderly : Orderly start before)
    (acts : Pool.acts Mutexes.perform client op before reply after)
    (shared : ∀ object name, (after.state.objects object).sema = some name →
      (after.state.semaphores name).isSome = true)
    (held : ∀ name object, Holder after name object ↔ Holder before name object)
    (semaphores : ∀ name sema, after.state.semaphores name = some sema → before.state.semaphores name = some sema ∨
      sema.value = 1 ∧ before.state.semaphores name = none) : Orderly start after := by
  refine ⟨shared, fun name sema sound present => ?_⟩
  simp only [held]
  rcases semaphores name sema present with old | ⟨one, fresh⟩
  · exact orderly.single name sema (sound_earlier acts sound) old
  · refine .inl ⟨one, fun object holder => ?_⟩
    have there := orderly.shared object name holder.1
    rw [fresh] at there
    cases there

/-- What an object that does not hold opens or closes changes no holder. -/
theorem holder_quiet (acts : Pool.acts Mutexes.perform client op before reply after) (quiet : Quiet op)
    (free : holding before.log (accessed op) = false) (name : N) (object : ι × Nat) :
    Holder after name object ↔ Holder before name object := by
  by_cases same : object = accessed op
  · have idle : holding before.log object = false := by rw [same]; exact free
    simp [Holder, holding_quiet acts quiet, idle]
  · rw [Holder, Holder, objects_frame acts same, holding_quiet acts quiet]

theorem semOpen_step {opened : Bool} (orderly : Orderly start before) (free : holding before.log object = false)
    (acts : Pool.acts Mutexes.perform client (.semOpen object name) before opened after) : Orderly start after := by
  have there : (after.state.objects object).sema = if opened then some name else none := by
    have object := objects_accessed acts
    exact congrArg MutexObject.sema object
  have semaphores : after.state.semaphores = if opened then Function.update before.state.semaphores name
      (some ((before.state.semaphores name).getD {})) else before.state.semaphores := by
    obtain ⟨supply, performed, _⟩ := acts
    simp only [Mutexes.perform] at performed
    split at performed
    all_goals
      injection performed with same
      injection same with answered state
      rw [← state, ← answered]
      rfl
  apply orderly.reshape acts
  · intro other name' held
    have before_there : (before.state.objects other).sema = some name' →
        (after.state.semaphores name').isSome = true := by
      intro held
      have present := orderly.shared other name' held
      rw [semaphores]
      split
      · rw [Function.update_apply]
        split
        · rfl
        · exact present
      · exact present
    by_cases same : other = object
    · rw [same, there] at held
      split at held
      next succeeded =>
        cases held
        rw [semaphores, if_pos succeeded, Function.update_self]
        rfl
      next => cases held
    · exact before_there (by rw [← objects_frame acts same]; exact held)
  · exact holder_quiet acts trivial free
  · intro name' sema present
    rw [semaphores] at present
    split at present
    · rw [Function.update_apply] at present
      split at present
      next same =>
        subst same
        cases old : before.state.semaphores name' with
        | some sema' =>
          rw [old] at present
          exact .inl present
        | none =>
          rw [old] at present
          cases present
          exact .inr ⟨rfl, rfl⟩
      next => exact .inl present
    · exact .inl present

theorem quiet_step (orderly : Orderly start before) (acts : Pool.acts Mutexes.perform client op before reply after)
    (quiet : Quiet op) (free : holding before.log (accessed op) = false) : Orderly start after := by
  have untouched : after.state.semaphores = before.state.semaphores →
      (∀ name, (shaped op reply (before.state.objects (accessed op))).sema = some name →
        (before.state.objects (accessed op)).sema = some name) → Orderly start after := by
    intro semaphores less
    apply orderly.reshape acts
    · intro object name opened
      rw [semaphores]
      apply orderly.shared object name
      by_cases same : object = accessed op
      · rw [same, objects_accessed acts] at opened
        rw [same]
        exact less name opened
      · rw [← objects_frame acts same]
        exact opened
    · exact holder_quiet acts quiet free
    · intro name sema present
      rw [semaphores] at present
      exact .inl present
  have ⟨supply, performed, _⟩ := acts
  cases op with
  | semWait => exact quiet.elim
  | semPost => exact quiet.elim
  | semOpen => exact semOpen_step orderly free acts
  | _ =>
    injection performed with same
    injection same with _ state
    apply untouched
    · exact (congrArg Mutexes.semaphores state).symm
    · intro name opened
      first | exact opened | cases opened

theorem Orderly.replace {sema' : NamedSemaphore} (orderly : Orderly start before)
    (acts : Pool.acts Mutexes.perform client op before reply after)
    (opened : (before.state.objects (accessed op)).sema = some name)
    (objects : after.state.objects = before.state.objects)
    (semaphores : after.state.semaphores = Function.update before.state.semaphores name (some sema'))
    (here : Sound start after.log name → (sema'.value = 1 ∧ ∀ object, ¬ Holder after name object) ∨
      (sema'.value = 0 ∧ ∃ holder, ∀ object, Holder after name object ↔ object = holder)) : Orderly start after := by
  constructor
  · intro other name' there
    rw [objects] at there
    rw [semaphores, Function.update_apply]
    split
    · rfl
    · exact orderly.shared other name' there
  · intro name' sema sound present
    rw [semaphores, Function.update_apply] at present
    split at present
    next same =>
      subst same
      cases present
      exact here sound
    next apart =>
      have elsewhere : ∀ other, Holder after name' other ↔ Holder before name' other := by
        intro other
        rw [Holder, Holder, objects]
        by_cases same : other = accessed op
        · have closed : (before.state.objects other).sema ≠ some name' := by
            rw [same, opened]
            exact fun same => apart (Option.some.inj same).symm
          exact iff_of_false (fun holder => closed holder.1) fun holder => closed holder.1
        · rw [holding_frame acts same]
      simp only [elsewhere]
      exact orderly.single name' sema (sound_earlier acts sound) present

/-- A wait that a signal ended leaves a name that is not sound. -/
theorem spoils {err : Int} (acts : Pool.acts Mutexes.perform client (.semWait object) before err after)
    (opened : (after.state.objects object).sema = some name) (failed : err ≠ 0) : ¬ Sound start after.log name := by
  intro sound
  obtain ⟨_, _, logged⟩ := acts
  have last := sound.2 ⟨client, .semWait object, err, after.state⟩ (by simp [logged])
  simp [interrupted, opened, failed] at last

/-- The object that locks finds the semaphore free and holds it then. -/
theorem semWait_step {err : Int} (orderly : Orderly start before)
    (acts : Pool.acts Mutexes.perform client (.semWait object) before err after) : Orderly start after := by
  have ⟨supply, performed, _⟩ := acts
  obtain ⟨name, sema, sema', opened, present, waited, state⟩ := onSema_eq performed
  have objects : after.state.objects = before.state.objects := by rw [state]
  apply orderly.replace acts opened objects (by rw [state])
  intro sound
  have success : err = 0 := by
    by_contra failed
    exact spoils acts (by rw [objects]; exact opened) failed sound
  subst success
  obtain ⟨positive, rfl⟩ := NamedSemaphore.wait_eq waited
  obtain ⟨one, free⟩ : sema.value = 1 ∧ ∀ object, ¬ Holder before name object := by
    rcases orderly.single name sema (sound_earlier acts sound) present with free | ⟨zero, _⟩
    · exact free
    · omega
  refine .inr ⟨by simp [one], object, fun other => ?_⟩
  rw [Holder, objects, holding_wait acts]
  constructor
  · rintro ⟨there, held⟩
    by_contra apart
    rw [beq_false_of_ne fun same => apart same.symm, Bool.and_false, Bool.or_false] at held
    exact free other ⟨there, held⟩
  · rintro rfl
    exact ⟨opened, by simp⟩

/-- The object that unlocks was the one that held. -/
theorem semPost_step {given : Unit} (orderly : Orderly start before)
    (held : ∀ name, (before.state.objects object).sema = some name → Sound start before.log name →
      holding before.log object = true)
    (acts : Pool.acts Mutexes.perform client (.semPost object) before given after) : Orderly start after := by
  have ⟨supply, performed, _⟩ := acts
  obtain ⟨name, sema, sema', opened, present, posted, state⟩ := onSema_eq performed
  have objects : after.state.objects = before.state.objects := by rw [state]
  apply orderly.replace acts opened objects (by rw [state])
  intro sound
  have held := held name opened (sound_earlier acts sound)
  obtain ⟨zero, holder, only⟩ : sema.value = 0 ∧ ∃ holder, ∀ object, Holder before name object ↔ object = holder := by
    rcases orderly.single name sema (sound_earlier acts sound) present with ⟨_, free⟩ | taken
    · exact absurd ⟨opened, held⟩ (free object)
    · exact taken
  have mine : object = holder := (only object).mp ⟨opened, held⟩
  have one : sema'.value = 1 := by
    cases posted
    simp [zero, NamedSemaphore.valueMax]
  refine .inl ⟨one, fun other => ?_⟩
  rintro ⟨there, still⟩
  rw [objects] at there
  rw [holding_post acts, Bool.and_eq_true, bne_iff_ne] at still
  have again : other = holder := (only other).mp ⟨there, still.1⟩
  exact still.2 (mine.trans again.symm)

end Steps

section Clients

/-- How far the life of an object has come. A locked one holds its semaphore, if that is sound. -/
structure Stands (start : N → Option NamedSemaphore) (stage : Stage) (object : ι × Nat) (world : MutexWorld ι N) :
    Prop where
  locked : holding world.log object = true → stage = .locked
  held : stage = .locked → ∀ name, (world.state.objects object).sema = some name → Sound start world.log name →
    holding world.log object = true
  bare : (world.state.objects object).impBuf = false → (world.state.objects object).sema = none
  absent : stage = .absent → (world.state.objects object).impBuf = false

def Standing (start : N → Option NamedSemaphore) (stages : Nat → Stage) (client : ι) (world : MutexWorld ι N) : Prop :=
  ∀ number, Stands start (stages number) (client, number) world

theorem Stands.carry {stage : Stage} (stands : Stands start stage object before)
    (objects : after.state.objects object = before.state.objects object)
    (holds : holding after.log object = holding before.log object)
    (sound : ∀ name, Sound start after.log name → Sound start before.log name) : Stands start stage object after := by
  refine ⟨by rw [holds]; exact stands.locked, fun locked name opened steady => ?_, by rw [objects]; exact stands.bare,
    by rw [objects]; exact stands.absent⟩
  rw [objects] at opened
  rw [holds]
  exact stands.held locked name opened (sound name steady)

theorem Standing.stable {stages : Nat → Stage} (standing : Standing start stages client before)
    (moves : Relies start client before after) : Standing start stages client after :=
  fun number => (standing number).carry (moves.object number) (moves.held number) moves.sound

theorem Stands.beside {stage : Stage} {number another : Nat} (stands : Stands start stage (client, another) before)
    (acts : Pool.acts Mutexes.perform client op before reply after) (mine : accessed op = (client, number))
    (apart : another ≠ number) : Stands start stage (client, another) after := by
  have frame : (client, another) ≠ accessed op := by
    rw [mine]
    exact fun same => apart (Prod.mk.inj same).2
  exact stands.carry (objects_frame acts frame) (holding_frame acts frame) fun _ => sound_earlier acts

/-- An access of one object leaves the client's others as they are. -/
theorem Standing.step {stages : Nat → Stage} {number : Nat} {stage : Stage}
    (standing : Standing start stages client before) (acts : Pool.acts Mutexes.perform client op before reply after)
    (mine : accessed op = (client, number)) (stands : Stands start stage (client, number) after) :
    Standing start (Function.update stages number stage) client after := by
  intro other
  rw [Function.update_apply]
  split
  next same =>
    rw [same]
    exact stands
  next apart => exact (standing other).beside acts mine apart

structure Working (start : N → Option NamedSemaphore) (stages : Nat → Stage) (client : ι) (number : Nat)
    (mutex : MutexObject N) (world : MutexWorld ι N) : Prop where
  others : ∀ other, other ≠ number → Stands start (stages other) (client, other) world
  object : world.state.objects (client, number) = mutex
  free : holding world.log (client, number) = false

theorem Standing.working {stages : Nat → Stage} {number : Nat} (standing : Standing start stages client world)
    (unlocked : stages number ≠ .locked) :
    Working start stages client number (world.state.objects (client, number)) world :=
  ⟨fun other _ => standing other, rfl, Bool.eq_false_iff.mpr fun held => unlocked ((standing number).locked held)⟩

theorem Working.standing {stages : Nat → Stage} {number : Nat} {mutex : MutexObject N} {stage : Stage}
    (working : Working start stages client number mutex world) (unlocked : stage ≠ .locked)
    (bare : mutex.impBuf = false → mutex.sema = none) (absent : stage = .absent → mutex.impBuf = false) :
    Standing start (Function.update stages number stage) client world := by
  intro other
  rw [Function.update_apply]
  split
  next same =>
    rw [same]
    have object := working.object
    refine ⟨fun held => ?_, fun locked => absurd locked unlocked, by rw [object]; exact bare,
      by rw [object]; exact absent⟩
    rw [working.free] at held
    cases held
  next apart => exact working.others other apart

theorem Working.stable {stages : Nat → Stage} {number : Nat} {mutex : MutexObject N}
    (working : Working start stages client number mutex before) (moves : Relies start client before after) :
    Working start stages client number mutex after :=
  ⟨fun other apart => (working.others other apart).carry (moves.object other) (moves.held other) moves.sound,
    (moves.object number).trans working.object, (moves.held number).trans working.free⟩

theorem Working.step {stages : Nat → Stage} {number : Nat} {mutex : MutexObject N}
    (working : Working start stages client number mutex before) (orderly : Orderly start before)
    (acts : Pool.acts Mutexes.perform client op before reply after) (quiet : Quiet op)
    (mine : accessed op = (client, number)) :
    Orderly start after ∧ (∀ other, other ≠ client → Relies start other before after) ∧
      Working start stages client number (shaped op reply mutex) after := by
  have free : holding before.log (accessed op) = false := by rw [mine]; exact working.free
  refine ⟨quiet_step orderly acts quiet free, spares_others acts (by rw [mine]), ?_, ?_, ?_⟩
  · exact fun other apart => (working.others other apart).beside acts mine apart
  · rw [← mine, objects_accessed acts, mine, working.object]
  · rw [holding_quiet acts quiet]
    exact working.free

theorem construct_ensures {stages : Nat → Stage} {number : Nat} (name : N) (standing : Standing start stages client world)
    (absent : stages number = .absent) :
    (rules start client).Ensures (MutexLife.construct (client, number) name)
      (fun _ => Standing start (Function.update stages number .unlocked) client) world := by
  intro between moves orderly (impBuf : Bool) after acts
  have idle : stages number ≠ .locked := by
    rw [absent]
    decide
  have working := (standing.stable moves).working idle
  obtain ⟨orderly, spared, working⟩ := working.step orderly acts trivial rfl
  refine ⟨orderly, spared, ?_⟩
  cases impBuf with
  | false =>
    intro later moves _
    exact (working.stable moves).standing (by decide) (fun _ => rfl) nofun
  | true =>
    intro between moves orderly (opened : Bool) after acts
    obtain ⟨orderly, spared, working⟩ := (working.stable moves).step orderly acts trivial rfl
    refine ⟨orderly, spared, ?_⟩
    cases opened with
    | true =>
      intro later moves _
      exact (working.stable moves).standing (by decide) nofun nofun
    | false =>
      intro between moves orderly _ after acts
      obtain ⟨orderly, spared, working⟩ := (working.stable moves).step orderly acts trivial rfl
      refine ⟨orderly, spared, ?_⟩
      intro later moves _
      exact (working.stable moves).standing (by decide) nofun nofun

theorem destroy_ensures {stages : Nat → Stage} {number : Nat} (standing : Standing start stages client world)
    (unlocked : stages number = .unlocked) :
    (rules start client).Ensures (MutexLife.destroy (client, number) : Mutex ι N Unit)
      (fun _ => Standing start (Function.update stages number .absent) client) world := by
  intro between moves orderly (impBuf : Bool) after acts
  have standing := standing.stable moves
  have idle : stages number ≠ .locked := by
    rw [unlocked]
    decide
  have working := standing.working idle
  have present : (between.state.objects (client, number)).impBuf = impBuf := by
    obtain ⟨_, performed, _⟩ := acts
    injection performed with same
    exact (Prod.mk.inj same).1
  obtain ⟨orderly, spared, working⟩ := working.step orderly acts trivial rfl
  refine ⟨orderly, spared, ?_⟩
  cases impBuf with
  | false =>
    intro later moves _
    exact (working.stable moves).standing (by decide) (standing number).bare fun _ => present
  | true =>
    intro between moves orderly _ after acts
    obtain ⟨orderly, spared, working⟩ := (working.stable moves).step orderly acts trivial rfl
    refine ⟨orderly, spared, ?_⟩
    intro between moves orderly _ after acts
    obtain ⟨orderly, spared, working⟩ := (working.stable moves).step orderly acts trivial rfl
    refine ⟨orderly, spared, ?_⟩
    intro later moves _
    exact (working.stable moves).standing (by decide) (fun _ => rfl) fun _ => rfl

theorem lock_ensures {stages : Nat → Stage} {number : Nat} (standing : Standing start stages client world) :
    (rules start client).Ensures (MutexLife.lock (client, number) : Mutex ι N Unit)
      (fun _ => Standing start (Function.update stages number .locked) client) world := by
  intro between moves orderly (err : Int) after acts
  have standing := standing.stable moves
  have object : after.state.objects (client, number) = between.state.objects (client, number) := objects_accessed acts
  refine ⟨semWait_step orderly acts, spares_others acts rfl, ?_⟩
  have stands : Stands start .locked (client, number) after := by
    refine ⟨fun _ => rfl, fun _ name opened sound => ?_, by rw [object]; exact (standing number).bare, nofun⟩
    -- the wait took a unit, or a signal ended it
    by_cases success : err = 0
    · rw [holding_wait acts]
      simp [success]
    · exact absurd sound (spoils acts opened success)
  intro later moves _
  exact (standing.step acts rfl stands).stable moves

theorem unlock_ensures {stages : Nat → Stage} {number : Nat} (standing : Standing start stages client world)
    (locked : stages number = .locked) :
    (rules start client).Ensures (MutexLife.unlock (client, number) : Mutex ι N Unit)
      (fun _ => Standing start (Function.update stages number .unlocked) client) world := by
  intro between moves orderly (given : Unit) after acts
  have standing := standing.stable moves
  have object : after.state.objects (client, number) = between.state.objects (client, number) := objects_accessed acts
  refine ⟨semPost_step orderly ((standing number).held locked) acts, spares_others acts rfl, ?_⟩
  have stands : Stands start .unlocked (client, number) after := by
    refine ⟨fun held => ?_, nofun, by rw [object]; exact (standing number).bare, nofun⟩
    rw [holding_post acts] at held
    simp at held
  intro later moves _
  exact (standing.step acts rfl stands).stable moves

/-- Whatever has to be there for a client's calls is there, and nothing after them. -/
theorem perform_ensures (calls : List (LifeCall N)) {stages : Nat → Stage} (disciplined : Disciplined stages calls)
    (orderly : Orderly start world) (standing : Standing start stages client world) :
    (rules start client).Ensures (MutexLife.perform client calls) (fun _ => Standing start (fun _ => .absent) client) world := by
  induction calls generalizing stages world with
  | nil =>
    have all : stages = fun _ => .absent := funext disciplined
    rw [← all]
    exact fun later moves _ => standing.stable moves
  | cons call calls ih =>
    apply Rules.Ensures.bind orderly
    cases call with
    | construct number name =>
      exact (construct_ensures name standing disciplined.1).mono fun _ _ orderly => ih disciplined.2 orderly
    | lock number => exact (lock_ensures standing).mono fun _ _ orderly => ih disciplined.2 orderly
    | unlock number => exact (unlock_ensures standing disciplined.1).mono fun _ _ orderly => ih disciplined.2 orderly
    | destroy number => exact (destroy_ensures standing disciplined.1).mono fun _ _ orderly => ih disciplined.2 orderly

end Clients

section Results

theorem starts (semaphores : N → Option NamedSemaphore) (clients : ι → Client N) :
    (protocol ι semaphores).Holds Mutexes.perform (fun client _ => Standing semaphores (fun _ => .absent) client)
      (pool semaphores clients) := by
  have orderly : Orderly semaphores (pool semaphores clients).world :=
    ⟨nofun, fun name sema sound present => .inl ⟨sound.1 sema present, fun _ holder => nomatch holder.1⟩⟩
  refine ⟨orderly, fun client => ?_⟩
  exact perform_ensures _ (clients client).disciplined orderly fun _ => ⟨nofun, nofun, fun _ => rfl, fun _ => rfl⟩

/-- What has no result waits for a semaphore that an object holds, or follows a null pointer. -/
theorem stuck_waits (orderly : Orderly start world) (supply : Supply)
    (stuck : Mutexes.perform supply op world.state = none) : Waits start world op := by
  cases op with
  | semOpen object name =>
    simp only [Mutexes.perform] at stuck
    split at stuck <;> cases stuck
  | semWait object =>
    intro name opened
    obtain ⟨sema, present⟩ := Option.isSome_iff_exists.mp (orderly.shared object name opened)
    have zero : sema.value = 0 := by
      by_contra some_left
      have positive : 0 < sema.value := by omega
      cases signal : supply.signal with
      | true => simp [Mutexes.perform, Mutexes.onSema, opened, present, NamedSemaphore.perform, signal] at stuck
      | false => simp [Mutexes.perform, Mutexes.onSema, opened, present, NamedSemaphore.perform, signal, positive] at stuck
    refine ⟨⟨sema, present, zero⟩, fun sound => ?_⟩
    rcases orderly.single name sema sound present with ⟨one, _⟩ | ⟨_, holder, only⟩
    · omega
    · exact ⟨holder, (only holder).mpr rfl⟩
  | semPost object =>
    by_contra opened
    obtain ⟨name, opened⟩ := Option.ne_none_iff_exists'.mp opened
    obtain ⟨sema, present⟩ := Option.isSome_iff_exists.mp (orderly.shared object name opened)
    simp [Mutexes.perform, Mutexes.onSema, opened, present, NamedSemaphore.perform] at stuck
  | _ => cases stuck

/-- At most one object holds the sound semaphore of a name, which is free exactly when
none does; a client only waits for a semaphore without a unit, or on an object whose own
was never opened; and a client that is through has nothing left. -/
theorem mutex_exclusive (semaphores : N → Option NamedSemaphore) (clients : ι → Client N)
    (schedule : List (ι × Supply)) (reached : Pool ι (MutexOp ι N) MutexOp.Reply (Mutexes ι N) fun _ => Unit)
    (ran : (pool semaphores clients).run Mutexes.perform schedule = some reached) :
    (∀ name, Sound semaphores reached.world.log name →
      (∀ one other, Holder reached.world name one → Holder reached.world name other → one = other) ∧
        ∀ sema, reached.world.state.semaphores name = some sema →
          sema.value ≤ 1 ∧ (sema.value = 1 ↔ ∀ object, ¬ Holder reached.world name object)) ∧
      (∀ client supply, reached.step Mutexes.perform client supply = none →
        (reached.threads client).returned.isSome = true ∨
          ∃ op, (reached.threads client).awaiting = some op ∧ Waits semaphores reached.world op) ∧
      ∀ client, reached.threads client = .pure () → ∀ number,
        reached.world.state.objects (client, number) = {} ∧ ∀ name, ¬ Holder reached.world name (client, number) := by
  have holds := Protocol.run_holds (starts semaphores clients) ran
  have orderly : Orderly semaphores reached.world := holds.1
  refine ⟨fun name sound => ⟨?_, ?_⟩, ?_, ?_⟩
  · intro one other first second
    obtain ⟨sema, present⟩ := Option.isSome_iff_exists.mp (orderly.shared one name first.1)
    rcases orderly.single name sema sound present with ⟨_, free⟩ | ⟨_, holder, only⟩
    · exact absurd first (free one)
    · exact ((only one).mp first).trans ((only other).mp second).symm
  · intro sema present
    rcases orderly.single name sema sound present with ⟨one, free⟩ | ⟨zero, holder, only⟩
    · exact ⟨by omega, iff_of_true one free⟩
    · exact ⟨by omega, iff_of_false (by omega) fun free => free holder ((only holder).mpr rfl)⟩
  · intro client supply stuck
    rcases advance_none (Option.map_eq_none_iff.mp stuck) with returned | ⟨op, awaits, fails⟩
    · exact .inl returned
    · exact .inr ⟨op, awaits, stuck_waits orderly supply fails⟩
  · intro client returned number
    have standing : Standing semaphores (fun _ => .absent) client reached.world := holds.returned returned
    obtain ⟨locked, _, bare, absent⟩ := standing number
    have impBuf := absent rfl
    constructor
    · rw [MutexObject.mk.injEq]
      exact ⟨impBuf, bare impBuf⟩
    · intro name holder
      exact Stage.noConfusion (locked holder.2)

/-- Comes and goes under a name. -/
def visitor (name : Bool) : Client Bool where
  calls := [.construct 0 name, .lock 0, .unlock 0, .destroy 0]
  disciplined := by
    refine ⟨rfl, by decide, rfl, rfl, fun number => ?_⟩
    by_cases zero : number = 0 <;> simp [zero]

def visitors (client : Fin 3) : Client Bool := visitor (client = 2)

/-- The semaphore of the name `true` is there from before. -/
def leftBehind (name : Bool) : Option NamedSemaphore := if name then some {} else none

def turns (count : Nat) (client : Fin 3) : List (Fin 3 × Supply) := List.replicate count (client, ({} : Supply))

/-- A signal ends the only wait for that one. Of the two other clients one holds and one waits. -/
def visits : List (Fin 3 × Supply) :=
  turns 2 2 ++ [(2, { signal := true })] ++ turns 4 2 ++ turns 3 0 ++ turns 2 1

theorem mutex_exclusive_waiting : ∃ reached, (pool leftBehind visitors).run Mutexes.perform visits = some reached ∧
    (∀ other, Holder reached.world false other ↔ (0, 0) = other) ∧ Waits leftBehind reached.world (.semWait (1, 0)) ∧
      (reached.world.state.semaphores true).map NamedSemaphore.value = some 2 ∧
        ∀ number, reached.world.state.objects (2, number) = {} := by
  have ends : ((pool leftBehind visitors).run Mutexes.perform visits).map (fun reached => decide
        ((reached.world.log.all fun event => !interrupted false event) = true ∧
          (reached.world.state.objects (0, 0)).sema = some false ∧ holding reached.world.log (0, 0) = true ∧
          (reached.step Mutexes.perform 1 {}).isNone = true ∧ (reached.threads 1).awaiting = some (.semWait (1, 0)) ∧
          (reached.threads 2).returned.isSome = true ∧
          (reached.world.state.semaphores true).map NamedSemaphore.value = some 2)) = some true := by
    decide +kernel
  obtain ⟨reached, ran, there⟩ := Option.map_eq_some_iff.mp ends
  obtain ⟨quiet, opened, held, stands, awaits, returned, two⟩ := of_decide_eq_true there
  have sound : Sound leftBehind reached.world.log false :=
    ⟨nofun, fun event member => by simpa using List.all_eq_true.mp quiet event member⟩
  obtain ⟨exclusive, waits, through⟩ := mutex_exclusive leftBehind visitors visits reached ran
  refine ⟨reached, ran, fun other => ⟨(exclusive false sound).1 (0, 0) other ⟨opened, held⟩, ?_⟩, ?_, two, ?_⟩
  · rintro rfl
    exact ⟨opened, held⟩
  · rcases waits 1 {} (Option.isNone_iff_eq_none.mp stands) with done | ⟨op, awaiting, waiting⟩
    · obtain ⟨_, done⟩ := Option.isSome_iff_exists.mp done
      rw [Program.returned_iff.mp done] at awaits
      cases awaits
    · cases awaits.symm.trans awaiting
      exact waiting
  · obtain ⟨_, returned⟩ := Option.isSome_iff_exists.mp returned
    exact fun number => (through 2 (Program.returned_iff.mp returned) number).1

end Results
end EthercatSlave.Proofs.MutexExclusion
