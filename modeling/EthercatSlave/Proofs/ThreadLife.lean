import EthercatSlave.Threads
import EthercatSlave.Proofs.Endings
import EthercatSlave.Proofs.RelyGuarantee

/-! Terminating a thread once. The body moves between any two steps of its owner
but touches neither the object's handle nor the pthread. -/

namespace EthercatSlave.Proofs.ThreadLife
open Program Threads

abbrev Scene := World Party PthreadOp PthreadOp.Reply ThreadObject

variable {before after world later : Scene} {op : PthreadOp} {reply : op.Reply} {thread : Nat} {kind : ThreadClass}

/-- What the body leaves alone. -/
structure Spared (before after : Scene) : Prop where
  impBuf : after.state.impBuf = before.state.impBuf
  mThread : after.state.mThread = before.state.mThread
  touches : touches after.log = touches before.log

/-- Nothing was applied to the pthread after its join. -/
def Orderly (thread : Nat) (world : Scene) : Prop :=
  ∀ earlier joined later, touches world.log = earlier ++ .join joined :: later → joined = thread ∧ later = []

def protocol (thread : Nat) : Protocol Party PthreadOp PthreadOp.Reply ThreadObject where
  invariant := Orderly thread
  rely party := match party with
    | .owner => Spared
    | .body => fun _ _ => True
  guarantee party := match party with
    | .owner => fun _ _ => True
    | .body => Spared
  refl party world := by
    cases party with
    | owner => exact ⟨rfl, rfl, rfl⟩
    | body => trivial
  trans party {first second third} left right := by
    cases party with
    | owner =>
      exact ⟨right.impBuf.trans left.impBuf, right.mThread.trans left.mThread, right.touches.trans left.touches⟩
    | body => trivial
  compatible {party other before after} different step := by
    cases party <;> cases other
    · exact absurd rfl different
    · trivial
    · exact step
    · exact absurd rfl different

theorem acts_touches {party : Party} (acts : Pool.acts ThreadObject.perform party op before reply after) :
    touches after.log = touches before.log ++ if touching op then [op] else [] := by
  obtain ⟨_, _, grows⟩ := acts
  rw [touches, touches, grows, List.map_append, List.filter_append, List.map_singleton, List.filter_cons,
    List.filter_nil]

section Body

/-- The requests of `__Start_thread`. -/
def ofBody : PthreadOp → Prop
  | .mutexLock | .begin | .execute | .exit => True
  | _ => False

theorem startThread_uses : startThread.Uses ofBody :=
  ⟨trivial, fun _ => ⟨trivial, fun _ => ⟨fun _ => ⟨trivial, fun _ => trivial⟩, fun _ => ⟨trivial, fun _ => trivial⟩⟩⟩⟩

theorem body_spares (uses : ofBody op) (acts : Pool.acts ThreadObject.perform .body op before reply after) :
    Spared before after := by
  have touched := acts_touches acts
  obtain ⟨choice, performed, _⟩ := acts
  cases op with
  | mutexLock | begin | execute | exit =>
    simp only [ThreadObject.perform, Option.ite_none_left_eq_some, Option.some.injEq, Prod.mk.injEq] at performed
    obtain ⟨_, _, state⟩ := performed
    refine ⟨?_, ?_, touched.trans (List.append_nil _)⟩
    · rw [← state]
    · rw [← state]
  | _ => exact absurd uses id

theorem body_ensures (world : Scene) :
    ((protocol thread).rules ThreadObject.perform .body).Ensures startThread (fun _ _ => True) world := by
  refine Rules.Ensures.of_uses (fun _ _ _ => trivial) ?_ startThread_uses trivial
  intro op before reply after uses orderly _ acts
  have spared := body_spares uses acts
  refine ⟨fun earlier joined later same => ?_, spared, trivial⟩
  rw [spared.touches] at same
  exact orderly earlier joined later same

end Body

section Owner

variable {α : Type} {impBuf : Bool} {mThread : Nat} {touched : List PthreadOp} {post : α → Scene → Prop}

abbrev Ensures (thread : Nat) (program : Life α) (post : α → Scene → Prop) (world : Scene) : Prop :=
  ((protocol thread).rules ThreadObject.perform .owner).Ensures program post world

/-- What the owner knows between its steps. -/
structure At (impBuf : Bool) (mThread : Nat) (touched : List PthreadOp) (world : Scene) : Prop where
  impBuf : world.state.impBuf = impBuf
  mThread : world.state.mThread = mThread
  touched : touches world.log = touched

theorem At.stable (known : At impBuf mThread touched before) (spared : Spared before after) :
    At impBuf mThread touched after :=
  ⟨spared.impBuf.trans known.impBuf, spared.mThread.trans known.mThread, spared.touches.trans known.touched⟩

def Quiet (touched : List PthreadOp) : Prop := ∀ joined, PthreadOp.join joined ∉ touched

/-- The pthread was joined, once and at last. -/
def Ended (thread : Nat) (touched : List PthreadOp) : Prop :=
  ∃ earlier, touched = earlier ++ [.join thread] ∧ Quiet earlier

theorem Quiet.orderly (quiet : Quiet (touches world.log)) : Orderly thread world := by
  intro earlier joined later same
  apply absurd _ (quiet joined)
  rw [same]
  exact List.mem_append_right _ (List.mem_cons_self ..)

theorem Ended.orderly (ended : Ended thread (touches world.log)) : Orderly thread world := by
  obtain ⟨before, shape, quiet⟩ := ended
  intro earlier joined later same
  rw [shape] at same
  obtain ⟨rest, rfl, tail⟩ | ⟨rest, whole, tail⟩ := List.append_eq_append_iff.mp same
  · cases rest with
    | nil =>
      simp only [List.nil_append, List.cons.injEq, PthreadOp.join.injEq] at tail
      exact ⟨tail.1.symm, tail.2.symm⟩
    | cons _ rest => simp at tail
  · cases rest with
    | nil =>
      simp only [List.nil_append, List.cons.injEq, PthreadOp.join.injEq] at tail
      exact ⟨tail.1, tail.2⟩
    | cons first rest =>
      obtain ⟨rfl, _⟩ := List.cons.inj tail
      exact absurd (by simp [whole]) (quiet joined)

theorem owner_pure {value : α} (known : At impBuf mThread touched world)
    (holds : ∀ later, At impBuf mThread touched later → post value later) : Ensures thread (.pure value) post world :=
  fun later spared _ => holds later (known.stable spared)

theorem Quiet.append (quiet : Quiet touched) (other : ∀ joined, op ≠ .join joined) : Quiet (touched ++ [op]) := by
  intro joined member
  obtain earlier | last := List.mem_append.mp member
  · exact quiet joined earlier
  · exact other joined (List.mem_singleton.mp last).symm

/-- The pthread was not joined yet, or joined at last. -/
def Fine (thread : Nat) (touched : List PthreadOp) : Prop := Quiet touched ∨ Ended thread touched

theorem Fine.orderly (fine : Fine thread (touches world.log)) : Orderly thread world :=
  fine.elim Quiet.orderly Ended.orderly

/-- One step of the owner, from what it knows to what it knows then. -/
theorem owner_request {next : op.Reply → Life α} (answers : op.Reply → Prop) (impBuf' : Bool) (mThread' : Nat)
    (known : At impBuf mThread touched world) (fine : Fine thread (touched ++ if touching op then [op] else []))
    (step : ∀ choice reply state following, state.impBuf = impBuf → state.mThread = mThread →
      ThreadObject.perform choice op state = some (reply, following) →
        answers reply ∧ following.impBuf = impBuf' ∧ following.mThread = mThread')
    (rest : ∀ reply after, answers reply → At impBuf' mThread' (touched ++ if touching op then [op] else []) after →
      Ensures thread (next reply) post after) :
    Ensures thread (.request op next) post world := by
  intro between spared _ reply after acts
  have known := known.stable spared
  have grown := acts_touches acts
  obtain ⟨choice, performed, _⟩ := acts
  rw [known.touched] at grown
  obtain ⟨answered, impBuf, mThread⟩ := step choice reply _ _ known.impBuf known.mThread performed
  exact ⟨Fine.orderly (by rwa [grown]), trivial, rest reply after answered ⟨impBuf, mThread, grown⟩⟩

theorem present_ensures {next : Bool → Life α} (known : At impBuf mThread touched world) (fine : Fine thread touched)
    (rest : ∀ after, At impBuf mThread touched after → Ensures thread (next impBuf) post after) :
    Ensures thread (.request .present next) post world := by
  refine owner_request (· = impBuf) impBuf mThread known ?_ ?_ ?_
  · simpa [touching] using fine
  · intro _ reply state following same same' performed
    cases performed
    exact ⟨same, same, same'⟩
  · intro reply after same known
    subst same
    exact rest after (by simpa [touching] using known)

theorem loadThread_ensures {next : Nat → Life α} (known : At true mThread touched world) (fine : Fine thread touched)
    (rest : ∀ after, At true mThread touched after → Ensures thread (next mThread) post after) :
    Ensures thread (.request .loadThread next) post world := by
  refine owner_request (· = mThread) true mThread known ?_ ?_ ?_
  · simpa [touching] using fine
  · intro _ reply state following same same' performed
    simp only [ThreadObject.perform, same, if_true, same'] at performed
    cases performed
    exact ⟨rfl, same, same'⟩
  · intro reply after same known
    subst same
    exact rest after (by simpa [touching] using known)

/-- A step that is of no concern to the pthread. -/
theorem quiet_ensures {next : op.Reply → Life α} (other : op = .clearActiv ∨ op = .mutexUnlock)
    (known : At impBuf mThread touched world) (fine : Fine thread touched)
    (rest : ∀ reply after, At impBuf mThread touched after → Ensures thread (next reply) post after) :
    Ensures thread (.request op next) post world := by
  have untouched : touching op = false := by
    obtain rfl | rfl := other <;> rfl
  refine owner_request (fun _ => True) impBuf mThread known ?_ ?_ ?_
  · simpa [untouched] using fine
  · intro _ reply state following same same' performed
    obtain rfl | rfl := other
    all_goals
      cases performed
      exact ⟨trivial, same, same'⟩
  · intro reply after _ known
    exact rest reply after (by simpa [untouched] using known)

/-- A step that touches the pthread before its join. -/
theorem touch_ensures {next : op.Reply → Life α} (touches : touching op = true) (other : ∀ joined, op ≠ .join joined)
    (known : At impBuf mThread touched world) (quiet : Quiet touched)
    (rest : ∀ reply after, At impBuf mThread (touched ++ [op]) after → Ensures thread (next reply) post after) :
    Ensures thread (.request op next) post world := by
  refine owner_request (fun _ => True) impBuf mThread known ?_ ?_ ?_
  · simpa [touches] using .inl (quiet.append other)
  · intro _ reply state following same same' performed
    cases op with
    | mutexDestroy | cancel =>
      cases performed
      exact ⟨trivial, same, same'⟩
    | join joined => exact absurd rfl (other joined)
    | _ => cases touches
  · intro reply after _ known
    exact rest reply after (by simpa [touches] using known)

theorem join_ensures {next : Unit → Life α} (known : At impBuf mThread touched world) (quiet : Quiet touched)
    (rest : ∀ after, At impBuf mThread (touched ++ [.join thread]) after → Ensures thread (next ()) post after) :
    Ensures thread (.request (.join thread) next) post world := by
  refine owner_request (fun _ => True) impBuf mThread known ?_ ?_ ?_
  · exact .inr ⟨touched, rfl, quiet⟩
  · intro _ reply state following same same' performed
    simp only [ThreadObject.perform, Option.ite_none_right_eq_some] at performed
    obtain ⟨_, performed⟩ := performed
    cases performed
    exact ⟨trivial, same, same'⟩
  · exact fun _ after _ known => rest after known

theorem assign_ensures {next : op.Reply → Life α} (impBuf' : Bool) (mThread' : Nat)
    (writes : op = .clearThread ∧ impBuf' = impBuf ∧ mThread' = 0 ∨
      op = .freeBuf ∧ impBuf' = false ∧ mThread' = mThread)
    (known : At impBuf mThread touched world) (fine : Fine thread touched)
    (rest : ∀ reply after, At impBuf' mThread' touched after → Ensures thread (next reply) post after) :
    Ensures thread (.request op next) post world := by
  have untouched : touching op = false := by
    obtain ⟨rfl, _⟩ | ⟨rfl, _⟩ := writes <;> rfl
  refine owner_request (fun _ => True) impBuf' mThread' known ?_ ?_ ?_
  · simpa [untouched] using fine
  · intro _ reply state following same same' performed
    obtain ⟨rfl, rfl, rfl⟩ | ⟨rfl, rfl, rfl⟩ := writes
    · simp only [ThreadObject.perform, Option.ite_none_right_eq_some] at performed
      obtain ⟨_, performed⟩ := performed
      cases performed
      exact ⟨trivial, same, rfl⟩
    · cases performed
      exact ⟨trivial, rfl, same'⟩
  · intro reply after _ known
    exact rest reply after (by simpa [untouched] using known)

/-- The first `Terminate` joins the pthread. Only `thread` forgets it then. -/
theorem terminate_joins (positive : thread ≠ 0) (known : At true thread touched world) (quiet : Quiet touched) :
    Ensures thread (terminate kind) (fun term after => term = true ∧ ∃ mThread ended,
      At true mThread ended after ∧ Ended thread ended ∧ (kind = .thread → mThread = 0)) world := by
  simp only [terminate, bind_eq, call_bind]
  refine present_ensures known (.inl quiet) fun _ known => ?_
  rw [if_pos rfl]
  refine loadThread_ensures known (.inl quiet) fun _ known => ?_
  rw [if_pos positive]
  refine touch_ensures rfl (fun _ => PthreadOp.noConfusion) known quiet fun _ _ known => ?_
  have quiet := quiet.append (fun _ => PthreadOp.noConfusion : ∀ joined, PthreadOp.mutexDestroy ≠ .join joined)
  refine loadThread_ensures known (.inl quiet) fun _ known => ?_
  refine touch_ensures rfl (fun _ => PthreadOp.noConfusion) known quiet fun _ _ known => ?_
  have quiet := quiet.append (fun _ => PthreadOp.noConfusion : ∀ joined, PthreadOp.cancel thread ≠ .join joined)
  refine loadThread_ensures known (.inl quiet) fun _ known => ?_
  refine join_ensures known quiet fun _ known => ?_
  have ended : Ended thread (touched ++ [.mutexDestroy] ++ [.cancel thread] ++ [.join thread]) := ⟨_, rfl, quiet⟩
  cases kind with
  | thread =>
    refine assign_ensures true 0 (.inl ⟨rfl, rfl, rfl⟩) known (.inr ended) fun _ _ known => ?_
    refine quiet_ensures (.inl rfl) known (.inr ended) fun _ _ known => ?_
    exact owner_pure known fun _ known => ⟨rfl, 0, _, known, ended, fun _ => rfl⟩
  | rtthread =>
    refine quiet_ensures (.inl rfl) known (.inr ended) fun _ _ known => ?_
    exact owner_pure known fun _ known => ⟨rfl, thread, _, known, ended, fun same => nomatch same⟩

/-- A `Terminate` that finds no pthread. -/
theorem terminate_idle (known : At true 0 touched world) (fine : Fine thread touched) :
    Ensures thread (terminate kind) (fun term after => term = false ∧ At true 0 touched after) world := by
  simp only [terminate, bind_eq, call_bind]
  refine present_ensures known fine fun _ known => ?_
  rw [if_pos rfl]
  refine loadThread_ensures known fine fun _ known => ?_
  exact owner_pure known fun _ known => ⟨rfl, known⟩

theorem At.kept (known : At impBuf mThread touched world) (fine : Fine thread touched) : Orderly thread world :=
  Fine.orderly (by rwa [known.touched])

/-- `free` and what follows it in the destructor. -/
theorem release_ensures (known : At true mThread touched world) (ended : Ended thread touched) :
    Ensures thread (.request .freeBuf fun _ => call .clearActiv)
      (fun _ after => Ended thread (touches after.log)) world := by
  refine assign_ensures false mThread (.inr ⟨rfl, rfl, rfl⟩) known (.inr ended) fun _ _ known => ?_
  refine quiet_ensures (.inl rfl) known (.inr ended) fun _ _ known => ?_
  exact owner_pure known fun _ known => by rwa [known.touched]

theorem destroy_ensures (known : At true mThread touched world) (fine : Fine thread touched)
    (terminates : ∀ world, At true mThread touched world → Ensures thread (terminate kind) (fun _ after =>
      ∃ mThread ended, At true mThread ended after ∧ Ended thread ended) world) :
    Ensures thread (destroy kind) (fun _ after => Ended thread (touches after.log)) world := by
  simp only [destroy, bind_eq, call_bind]
  refine present_ensures known fine fun _ known => ?_
  rw [if_pos rfl]
  refine Rules.Ensures.bind (known.kept fine) ((terminates _ known).mono fun _ after _ ⟨_, _, known, ended⟩ => ?_)
  exact release_ensures known ended

theorem destroy_joins (positive : thread ≠ 0) (known : At true thread touched world) (quiet : Quiet touched) :
    Ensures thread (destroy kind) (fun _ after => Ended thread (touches after.log)) world := by
  refine destroy_ensures known (.inl quiet) fun _ known => (terminate_joins positive known quiet).mono ?_
  exact fun _ after _ ⟨_, mThread, ended, known, last, _⟩ => ⟨mThread, ended, known, last⟩

theorem destroy_idle (known : At true 0 touched world) (ended : Ended thread touched) :
    Ensures thread (destroy kind) (fun _ after => Ended thread (touches after.log)) world := by
  refine destroy_ensures known (.inr ended) fun _ known => (terminate_idle known (.inr ended)).mono ?_
  exact fun _ after _ ⟨_, known⟩ => ⟨0, touched, known, ended⟩

theorem life_resume (calls : List (Call kind)) :
    life (.resume :: calls) = .request .mutexUnlock fun _ => life calls := by
  simp only [life, Call.perform, resume, bind_eq, call_bind, request_bind, pure_eq, pure_bind, Option.toList_none,
    List.nil_append]
  exact congrArg _ (funext fun _ => bind_pure _)

theorem life_suspend (calls : List (Call .rtthread)) : life (.suspend :: calls) =
    .request .loadThread fun thread => .request (.cancel thread) fun _ => life calls := by
  simp only [life, Call.perform, suspend, bind_eq, call_bind, request_bind, pure_eq]
  refine congrArg _ (funext fun _ => ?_)
  exact congrArg _ (funext fun _ => bind_pure _)

theorem life_terminate (calls : List (Call kind)) : life (.terminate :: calls) =
    (terminate kind).bind fun term => (life calls).bind fun terms => .pure (term :: terms) := by
  simp only [life, Call.perform, bind_eq, bind_assoc, pure_eq, pure_bind, Option.toList_some, List.singleton_append]

theorem life_nil_ensures (kept : Orderly thread world)
    (destroys : Ensures thread (destroy kind) (fun _ after => Ended thread (touches after.log)) world) :
    Ensures thread (life ([] : List (Call kind)))
      (fun terms after => terms = [] ∧ Ended thread (touches after.log)) world := by
  refine Rules.Ensures.bind kept (destroys.mono fun _ after _ last => ?_)
  exact fun later spared _ => ⟨rfl, spared.touches ▸ last⟩

/-- Once `thread` has forgotten its pthread, nothing is applied to it. -/
theorem life_over (calls : List (Call .thread)) (known : At true 0 touched world) (ended : Ended thread touched) :
    Ensures thread (life calls) (fun terms after => (∀ term ∈ terms, term = false) ∧
      Ended thread (touches after.log)) world := by
  induction calls generalizing world with
  | nil =>
    refine (life_nil_ensures (known.kept (.inr ended)) (destroy_idle known ended)).mono ?_
    intro _ _ _ given
    obtain ⟨rfl, last⟩ := given
    exact ⟨fun _ => (nomatch ·), last⟩
  | cons call calls ih =>
    cases call with
    | resume =>
      rw [life_resume]
      exact quiet_ensures (.inr rfl) known (.inr ended) fun _ _ known => ih known
    | terminate =>
      rw [life_terminate]
      refine Rules.Ensures.bind (known.kept (.inr ended)) ((terminate_idle known (.inr ended)).mono ?_)
      intro _ after kept given
      obtain ⟨rfl, known⟩ := given
      refine Rules.Ensures.bind kept ((ih known).mono fun terms after _ ⟨all, last⟩ => ?_)
      exact fun later spared _ => ⟨List.forall_mem_cons.mpr ⟨rfl, all⟩, spared.touches ▸ last⟩

/-- The first of these results is true and the others are false. -/
def First (terms : List Bool) : Prop := ∀ index term, terms[index]? = some term → term = decide (index = 0)

theorem First.cons {terms : List Bool} (all : ∀ term ∈ terms, term = false) : First (true :: terms) := by
  intro index term found
  cases index with
  | zero => exact (Option.some.inj found).symm
  | succ index => exact all term (List.mem_of_getElem? found)

/-- A life in which the pthread is joined once: either class forgets it, or only the
destructor terminates it. -/
theorem life_once (calls : List (Call kind)) (allowed : kind = .thread ∨ ∀ call ∈ calls, call.terminates = false)
    (positive : thread ≠ 0) (known : At true thread touched world) (quiet : Quiet touched) :
    Ensures thread (life calls) (fun terms after => First terms ∧ Ended thread (touches after.log)) world := by
  induction calls generalizing world touched with
  | nil =>
    refine (life_nil_ensures (known.kept (.inl quiet)) (destroy_joins positive known quiet)).mono ?_
    intro _ _ _ given
    obtain ⟨rfl, last⟩ := given
    exact ⟨fun _ _ => (nomatch ·), last⟩
  | cons call calls ih =>
    have later : kind = .thread ∨ ∀ call ∈ calls, call.terminates = false :=
      allowed.imp_right fun none call member => none call (List.mem_cons_of_mem _ member)
    cases call with
    | resume =>
      rw [life_resume]
      exact quiet_ensures (.inr rfl) known (.inl quiet) fun _ _ known => ih later known quiet
    | suspend =>
      rw [life_suspend]
      refine loadThread_ensures known (.inl quiet) fun _ known => ?_
      exact touch_ensures rfl (fun _ => PthreadOp.noConfusion) known quiet fun _ _ known =>
        ih later known (quiet.append fun _ => PthreadOp.noConfusion)
    | terminate =>
      have forgets : kind = .thread := allowed.resolve_right fun none => nomatch none .terminate (List.mem_cons_self ..)
      subst forgets
      rw [life_terminate]
      refine Rules.Ensures.bind (known.kept (.inl quiet)) ((terminate_joins positive known quiet).mono ?_)
      intro _ after kept given
      obtain ⟨rfl, mThread, ended, known, last, forgotten⟩ := given
      rw [forgotten rfl] at known
      refine Rules.Ensures.bind kept ((life_over calls known last).mono fun terms after _ ⟨all, last⟩ => ?_)
      exact fun later spared _ => ⟨First.cons all, spared.touches ▸ last⟩

end Owner

section Progress

variable {α β : Type} {impBuf cancelled : Bool} {post : Bool → Bool → Prop}

/-- What the owner may ask for at once: the handle while the buffer is there, and the
join of a pthread it has cancelled. -/
def Grants (impBuf cancelled : Bool) : PthreadOp → Prop
  | .loadThread | .clearThread => impBuf = true
  | .join _ => cancelled = true
  | .mutexLock | .begin | .execute | .exit => False
  | _ => True

def keeps (op : PthreadOp) (impBuf : Bool) : Bool :=
  match op with
  | .freeBuf => false
  | _ => impBuf

def cancels (op : PthreadOp) (cancelled : Bool) : Bool :=
  match op with
  | .cancel _ => true
  | _ => cancelled

/-- Every request is granted, whatever those before it were answered. -/
def Granted : {α : Type} → Life α → (Bool → Bool → Prop) → Bool → Bool → Prop
  | _, .pure _, post, impBuf, cancelled => post impBuf cancelled
  | _, .request op next, post, impBuf, cancelled =>
      Grants impBuf cancelled op ∧ ∀ reply, Granted (next reply) post (keeps op impBuf) (cancels op cancelled)
  | _, .doWhile .., _, _, _ => False

theorem Granted.bind {program : Life α} {next : α → Life β}
    (granted : Granted program (fun impBuf cancelled => ∀ value, Granted (next value) post impBuf cancelled)
      impBuf cancelled) : Granted (program.bind next) post impBuf cancelled := by
  induction program generalizing impBuf cancelled with
  | pure value => exact granted value
  | request op tail ih => exact ⟨granted.1, fun reply => ih reply (granted.2 reply)⟩
  | doWhile => exact granted.elim

theorem Granted.mono {program : Life α} {weaker : Bool → Bool → Prop} (granted : Granted program post impBuf cancelled)
    (implies : ∀ impBuf cancelled, post impBuf cancelled → weaker impBuf cancelled) :
    Granted program weaker impBuf cancelled := by
  induction program generalizing impBuf cancelled with
  | pure value => exact implies _ _ granted
  | request op tail ih => exact ⟨granted.1, fun reply => ih reply (granted.2 reply)⟩
  | doWhile => exact granted.elim

theorem terminate_granted (kind : ThreadClass) (cancelled : Bool) :
    Granted (terminate kind) (fun impBuf _ => impBuf = true) true cancelled := by
  have forgets : Granted (forget kind) (fun impBuf cancelled => ∀ _ : Unit,
      Granted (Program.request .clearActiv fun _ => .pure true) (fun impBuf _ => impBuf = true) impBuf cancelled)
        true true := by
    cases kind with
    | thread => exact ⟨rfl, fun _ _ => ⟨trivial, fun _ => rfl⟩⟩
    | rtthread => exact fun _ => ⟨trivial, fun _ => rfl⟩
  refine ⟨trivial, fun (present : Bool) => ?_⟩
  cases present with
  | false => rfl
  | true =>
    refine ⟨rfl, fun (thread : Nat) => ?_⟩
    change Granted (if thread ≠ 0 then _ else _) _ _ _
    split
    · exact ⟨trivial, fun _ => ⟨rfl, fun _ => ⟨trivial, fun _ => ⟨rfl, fun _ => ⟨rfl, fun _ => forgets.bind⟩⟩⟩⟩⟩
    · rfl

theorem destroy_granted (kind : ThreadClass) (cancelled : Bool) :
    Granted (destroy kind) (fun _ _ => True) true cancelled := by
  refine ⟨trivial, fun (present : Bool) => ?_⟩
  cases present with
  | false => exact ⟨trivial, fun _ => trivial⟩
  | true =>
    change Granted ((terminate kind).bind fun _ => .request .freeBuf fun _ => .request .clearActiv .pure) _ _ _
    apply Granted.bind
    exact (terminate_granted kind cancelled).mono fun _ _ _ _ => ⟨trivial, fun _ => ⟨trivial, fun _ => trivial⟩⟩

theorem life_granted (calls : List (Call kind)) (cancelled : Bool) :
    Granted (life calls) (fun _ _ => True) true cancelled := by
  induction calls generalizing cancelled with
  | nil =>
    apply Granted.bind
    exact (destroy_granted kind cancelled).mono fun _ _ _ _ => trivial
  | cons call calls ih =>
    cases call with
    | resume =>
      rw [life_resume]
      exact ⟨trivial, fun _ => ih cancelled⟩
    | suspend =>
      rw [life_suspend]
      exact ⟨rfl, fun _ => ⟨trivial, fun _ => ih true⟩⟩
    | terminate =>
      rw [life_terminate]
      apply Granted.bind
      refine (terminate_granted kind cancelled).mono fun _ _ present term => ?_
      rw [present]
      exact Granted.bind ((ih _).mono fun _ _ _ _ => trivial)

/-- The owner's requests are granted in the state it finds, which its body leaves to it. -/
def Proceeds (pool : Pool Party PthreadOp PthreadOp.Reply ThreadObject Party.Result) : Prop :=
  Granted (pool.threads .owner) (fun _ _ => True) pool.world.state.impBuf pool.world.state.cancelled ∧
    (pool.threads .body).Uses ofBody

theorem performed_buf {more : Bool} {object object' : ThreadObject}
    (performed : ThreadObject.perform more op object = some (reply, object')) :
    object'.impBuf = keeps op object.impBuf ∧ object'.cancelled = cancels op object.cancelled := by
  cases op <;> grind [ThreadObject.perform, keeps, cancels]

theorem step_proceeds {pool next : Pool Party PthreadOp PthreadOp.Reply ThreadObject Party.Result} {party : Party}
    {more : Bool} (proceeds : Proceeds pool) (stepped : pool.step ThreadObject.perform party more = some next) :
    Proceeds next := by
  obtain ⟨granted, uses⟩ := proceeds
  obtain ⟨event, rest, state, advanced, rfl⟩ := Pool.step_eq stepped
  cases party with
  | owner =>
    refine ⟨?_, uses⟩
    simp only [Function.update_self]
    cases program : pool.threads .owner with
    | pure value =>
      rw [program] at advanced
      cases advanced
    | doWhile body again value next =>
      rw [program] at granted
      exact granted.elim
    | request op tail =>
      rw [program] at granted advanced
      obtain ⟨⟨reply, object⟩, performed, same⟩ := Option.map_eq_some_iff.mp advanced
      cases same
      obtain ⟨impBuf, cancelled⟩ := performed_buf performed
      change Granted (tail reply) _ state.impBuf state.cancelled
      rw [impBuf, cancelled]
      exact granted.2 reply
  | body =>
    obtain ⟨permitted, uses⟩ := uses.advance advanced
    refine ⟨?_, uses⟩
    rcases Program.advance_performed advanced with ⟨rfl, rfl⟩ | ⟨op, reply, rfl, performed⟩
    · exact granted
    · have own := permitted op reply rfl
      obtain ⟨impBuf, cancelled⟩ := performed_buf performed
      change Granted (pool.threads .owner) _ state.impBuf state.cancelled
      rw [impBuf, cancelled]
      cases op with
      | mutexLock | begin | execute | exit => exact granted
      | _ => exact own.elim

theorem proceeds_steps {pool : Pool Party PthreadOp PthreadOp.Reply ThreadObject Party.Result}
    (proceeds : Proceeds pool) (running : (pool.threads .owner).returned = none) (more : Bool) :
    (pool.step ThreadObject.perform .owner more).isSome = true := by
  obtain ⟨granted, _⟩ := proceeds
  by_contra stuck
  rcases advance_none (Option.map_eq_none_iff.mp (Option.not_isSome_iff_eq_none.mp stuck)) with done | waiting
  · rw [running] at done
    cases done
  · obtain ⟨op, awaits, refused⟩ := waiting
    cases program : pool.threads .owner with
    | pure value =>
      rw [program] at awaits
      cases awaits
    | doWhile body again value next =>
      rw [program] at granted
      exact granted.elim
    | request op' tail =>
      rw [program] at granted awaits
      cases awaits
      have grants := granted.1
      cases op <;> grind [Grants, ThreadObject.perform]

end Progress

/-- In every run of the owner beside the body, up to any point of it, if the class is
`thread` or nobody calls `Terminate` before the destructor. -/
theorem terminated_once (calls : List (Call kind)) (thread : Nat) (crrunning : Bool)
    (allowed : kind = .thread ∨ ∀ call ∈ calls, call.terminates = false) (positive : thread ≠ 0)
    (schedule : List (Party × Bool)) (final : Pool Party PthreadOp PthreadOp.Reply ThreadObject Party.Result)
    (ran : (pool calls thread crrunning).run ThreadObject.perform schedule = some final) : Once thread final := by
  let post (party : Party) : party.Result → Scene → Prop := match party with
    | .owner => fun terms after => First terms ∧ Ended thread (touches after.log)
    | .body => fun _ _ => True
  have nothing : Quiet [] := fun _ => (nomatch ·)
  have starts : (protocol thread).Holds ThreadObject.perform post (pool calls thread crrunning) := by
    refine ⟨Quiet.orderly nothing, fun party => ?_⟩
    cases party with
    | owner => exact life_once calls allowed positive ⟨rfl, rfl, rfl⟩ nothing
    | body => exact body_ensures _
  have holds := Protocol.run_holds starts ran
  have proceeds : Proceeds final :=
    Pool.run_induction (fun _ _ _ _ => step_proceeds) ⟨life_granted calls false, startThread_uses⟩ ran
  refine ⟨holds.1, proceeds_steps proceeds, fun terms done => ?_, fun terms done => ?_⟩
  · obtain ⟨_, earlier, same, _⟩ := holds.returned done
    rw [same]
    exact List.mem_append_right _ (List.mem_singleton_self _)
  · exact (holds.returned done).1

/-- Resumed, and terminated while the body executes. -/
def resumed : List (Party × Bool) :=
  (.owner, true) :: List.replicate 3 (.body, true) ++ List.replicate 14 (.owner, true)

theorem terminated_once_thread : ∃ final, (pool [.resume, (.terminate : Call .thread)] 7 false).run ThreadObject.perform
    resumed = some final ∧ Once 7 final := by
  have ends : ((pool [.resume, (.terminate : Call .thread)] 7 false).run ThreadObject.perform resumed).isSome =
      true := by
    decide +kernel
  obtain ⟨final, ran⟩ := Option.isSome_iff_exists.mp ends
  exact ⟨final, ran, terminated_once _ 7 false (.inl rfl) (by decide) _ final ran⟩

/-- The destructor of an `rtthread` that was terminated joins its pthread again. -/
theorem joined_twice : ¬ ∀ (kind : ThreadClass) (calls : List (Call kind)) (thread : Nat) (crrunning : Bool)
    (schedule : List (Party × Bool)) (final : Pool Party PthreadOp PthreadOp.Reply ThreadObject Party.Result),
    thread ≠ 0 → (pool calls thread crrunning).run ThreadObject.perform schedule = some final → Once thread final := by
  intro once
  have seen : ((pool [(.terminate : Call .rtthread)] 7 true).run ThreadObject.perform
      (List.replicate 18 (.owner, true))).map (fun final => touches final.world.log) =
        some [.mutexDestroy, .cancel 7, .join 7, .mutexDestroy, .cancel 7, .join 7] := by decide +kernel
  obtain ⟨final, ran, touched⟩ := Option.map_eq_some_iff.mp seen
  have last := (once .rtthread _ 7 true _ final (by decide) ran).last [.mutexDestroy, .cancel 7] 7 _ touched
  exact List.cons_ne_nil _ _ last.2

end EthercatSlave.Proofs.ThreadLife
