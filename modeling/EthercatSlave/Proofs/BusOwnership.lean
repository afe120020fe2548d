import EthercatSlave.Proofs.RelyGuarantee
import EthercatSlave.SlaveTest

/-! Who is on the SPI bus. Until `main` resumes the thread it runs alone, since the
thread waits for its start mutex; afterwards it only works on the buffers. -/

namespace EthercatSlave.Proofs.BusOwnership
open Program SlaveTest
open Threads (Party)

variable {K δ α : Type} {device : Device δ}

abbrev SlaveWorld (K δ : Type) := World Party (SlaveOp K) SlaveOp.Reply (Process K δ)

variable {thread : Party} {op : SlaveOp K} {reply : op.Reply} {world before after : SlaveWorld K δ}

section Protocols

def devhndl (world : SlaveWorld K δ) : Int := world.state.station.board.devhndl

def handles (world : SlaveWorld K δ) : List Int := world.state.station.board.handles

structure Orderly (world : SlaveWorld K δ) : Prop where
  exclusive : Exclusive world.log
  waiting : ¬ Resumed world.log → world.state.thread.locked = true
  opened : Resumed world.log → Open world.state (devhndl world)

/-- No handle was opened, closed or exchanged. -/
def Kept (before after : SlaveWorld K δ) : Prop := devhndl after = devhndl before ∧ handles after = handles before

/-- The thread leaves everything as it is until it was resumed, and `main` leaves the
handles as they are from there on. -/
def Relies : Party → SlaveWorld K δ → SlaveWorld K δ → Prop
  | .owner, before, after => (¬ Resumed before.log → after = before) ∧ (Resumed before.log → Resumed after.log)
  | .body, before, after => Resumed before.log → Resumed after.log ∧ Kept before after

theorem Relies.trans {first second third : SlaveWorld K δ} (one : Relies thread first second)
    (two : Relies thread second third) : Relies thread first third := by
  cases thread with
  | owner =>
    constructor
    · intro waiting
      have same := one.1 waiting
      subst same
      exact two.1 waiting
    · exact fun resumed => two.2 (one.2 resumed)
  | body =>
    intro resumed
    obtain ⟨resumed, devhndl, handles⟩ := one resumed
    obtain ⟨resumed, devhndl', handles'⟩ := two resumed
    exact ⟨resumed, devhndl'.trans devhndl, handles'.trans handles⟩

theorem relies_refl (thread : Party) (world : SlaveWorld K δ) : Relies thread world world := by
  cases thread with
  | owner => exact ⟨fun _ => rfl, id⟩
  | body => exact fun resumed => ⟨resumed, rfl, rfl⟩

variable (K δ) in
def protocol : Protocol Party (SlaveOp K) SlaveOp.Reply (Process K δ) where
  invariant := Orderly
  rely := Relies
  guarantee thread before after := ∀ other, other ≠ thread → Relies other before after
  refl := relies_refl
  trans _ _ _ _ := Relies.trans
  compatible different guarantees := guarantees _ different

abbrev rules [Measure K] (device : Device δ) (thread : Party) : Rules (SlaveOp K) SlaveOp.Reply (SlaveWorld K δ) :=
  (protocol K δ).rules (Process.perform device) thread

theorem resumed_snoc {log : Log K δ} {event : Event Party (SlaveOp K) SlaveOp.Reply (Process K δ)} :
    Resumed (log ++ [event]) ↔ Resumed log ∨ event.op = .pthread .mutexUnlock := by
  simp only [Resumed, List.mem_append, List.mem_singleton, or_and_right, exists_or, exists_eq_left]

end Protocols

variable [Measure K]

section Steps

/-- A step of `main` before it resumes the thread. -/
theorem waiting_step (orderly : Orderly before) (waiting : ¬ Resumed before.log)
    (acts : Pool.acts (Process.perform device) .owner op before reply after)
    (quiet : op ≠ .pthread .mutexUnlock) (locked : after.state.thread.locked = true) :
    Orderly after ∧ (∀ other, other ≠ .owner → Relies other before after) ∧ ¬ Resumed after.log := by
  obtain ⟨outcome, performed, logged⟩ := acts
  have still : ¬ Resumed after.log := by
    rw [logged, resumed_snoc]
    exact fun resumed => resumed.elim waiting quiet
  refine ⟨⟨?_, fun _ => locked, fun resumed => absurd resumed still⟩, ?_, still⟩
  · rw [logged]
    exact Throughout.snoc_iff.mpr ⟨orderly.exclusive, fun _ => waiting, by nofun⟩
  · intro other different
    cases other with
    | owner => exact absurd rfl different
    | body => exact fun resumed => absurd resumed waiting

/-- A step of either thread once it was resumed. -/
theorem resumed_step (orderly : Orderly before) (resumed : Resumed before.log)
    (acts : Pool.acts (Process.perform device) thread op before reply after)
    (off : mainDrives op = false) (kept : Kept before after)
    (waits : ∀ handle cmd arg, op = .body (.shield (.ioctl handle cmd arg)) → handle = devhndl before) :
    Orderly after ∧ (∀ other, other ≠ thread → Relies other before after) ∧ Resumed after.log := by
  obtain ⟨outcome, performed, logged⟩ := acts
  have still : Resumed after.log := by
    rw [logged, resumed_snoc]
    exact .inl resumed
  have opened : Open after.state (devhndl after) := by
    obtain ⟨positive, there⟩ := orderly.opened resumed
    have there : devhndl before ∈ handles before := there
    rw [← kept.2] at there
    exact ⟨by rw [kept.1]; exact positive, by rw [kept.1]; exact there⟩
  refine ⟨⟨?_, fun waiting => absurd still waiting, fun _ => opened⟩, ?_, still⟩
  · rw [logged]
    refine Throughout.snoc_iff.mpr ⟨orderly.exclusive, fun drives => ?_, fun _ => ⟨resumed, opened, ?_⟩⟩
    · rw [off] at drives
      cases drives
    · intro handle cmd arg calls
      rw [waits handle cmd arg calls, ← kept.1]
      exact opened
  · intro other _
    cases other with
    | owner => exact ⟨fun waiting => absurd resumed waiting, fun _ => still⟩
    | body => exact fun _ => ⟨still, kept⟩

/-- Requests that leave the handles in their places. -/
def Steady : LoopOp K → Prop
  | .shield (.storeDevhndl _) | .shield .openDevice | .shield (.closeDevice _) => False
  | _ => True

theorem access_handles {outcome : Outcome} {op : LoopOp K} {reply : op.Reply} {station station' : Station K δ}
    (steady : Steady op) (accessed : station.access device outcome op = some (reply, station')) :
    station'.board.devhndl = station.board.devhndl ∧ station'.board.handles = station.board.handles := by
  cases op with
  | shield op =>
    obtain ⟨⟨answer, board⟩, performed, same⟩ := Option.map_eq_some_iff.mp accessed
    cases same
    cases op with
    | storeDevhndl => exact steady.elim
    | openDevice => exact steady.elim
    | closeDevice => exact steady.elim
    | base =>
      obtain ⟨⟨answer, machine⟩, _, same⟩ := Option.map_eq_some_iff.mp performed
      cases same
      exact ⟨rfl, rfl⟩
    | _ =>
      cases performed
      exact ⟨rfl, rfl⟩
  | _ =>
    cases accessed
    exact ⟨rfl, rfl⟩

end Steps

section Starting

variable {start : List Int} {created : ThreadObject}

/-- `main` before it resumes the thread, the thread object as it was created. -/
structure Early (created : ThreadObject) (start : List Int) (world : SlaveWorld K δ) : Prop where
  waiting : ¬ Resumed world.log
  created : world.state.thread = created
  closed : devhndl world = -1
  handles : handles world = start

/-- What `init` leaves: a handle, or as many as before. -/
structure Initialised (created : ThreadObject) (start : List Int) (status : Int) (world : SlaveWorld K δ) : Prop where
  waiting : ¬ Resumed world.log
  created : world.state.thread = created
  opened : status = 0 → Open world.state (devhndl world)
  closed : status ≠ 0 → devhndl world = -1 ∧ handles world = start

abbrev shieldRules (device : Device δ) : Rules ShieldOp ShieldOp.Reply (SlaveWorld K δ) :=
  (rules device .owner).via (fun op => SlaveOp.owner (.shield op)) fun _ reply => reply

/-- Requests that open and close nothing. -/
def Quiet : ShieldOp → Prop
  | .openDevice | .closeDevice _ | .storeDevhndl _ => False
  | _ => True

omit [Measure K] in
theorem Early.stable (early : Early created start before) (moves : Relies .owner before after) :
    Early created start after := by
  rw [moves.1 early.waiting]
  exact early

theorem shield_acts {op : ShieldOp} {reply : op.Reply} (acts : (shieldRules device).acts op before reply after) :
    Pool.acts (Process.perform device) .owner (.owner (.shield op)) before reply after ∧
      ∃ outcome board, before.state.station.board.perform device outcome op = some (reply, board) ∧
        after.state = { before.state with station := { before.state.station with board } } := by
  obtain ⟨given, acts, rfl⟩ := acts
  refine ⟨acts, ?_⟩
  obtain ⟨outcome, performed, _⟩ := acts
  obtain ⟨⟨answer, station⟩, accessed, same⟩ := Option.map_eq_some_iff.mp performed
  injection same with answered stated
  subst answered
  obtain ⟨⟨answer, board⟩, done, same⟩ := Option.map_eq_some_iff.mp accessed
  injection same with answered placed
  subst answered
  exact ⟨outcome, board, done, by rw [← stated, ← placed]⟩

theorem quiet_step {op : ShieldOp} {reply : op.Reply} (quiet : Quiet op) (locked : created.locked = true)
    (orderly : Orderly before) (early : Early created start before)
    (acts : (shieldRules device).acts op before reply after) :
    Orderly after ∧ (∀ other, other ≠ .owner → Relies other before after) ∧ Early created start after := by
  obtain ⟨acts, outcome, board, performed, state⟩ := shield_acts acts
  have thread : after.state.thread = created := by
    rw [state]
    exact early.created
  obtain ⟨kept, spared, waiting⟩ := waiting_step orderly early.waiting acts nofun (by rw [thread]; exact locked)
  have same : board.devhndl = before.state.station.board.devhndl ∧
      board.handles = before.state.station.board.handles := by
    cases op with
    | base =>
      obtain ⟨⟨answer, machine⟩, _, same⟩ := Option.map_eq_some_iff.mp performed
      cases same
      exact ⟨rfl, rfl⟩
    | openDevice => exact quiet.elim
    | closeDevice => exact quiet.elim
    | storeDevhndl => exact quiet.elim
    | _ =>
      cases performed
      exact ⟨rfl, rfl⟩
  have placed : after.state.station.board = board := by rw [state]
  refine ⟨kept, spared, waiting, thread, ?_, ?_⟩
  · rw [devhndl, placed]
    exact same.1.trans early.closed
  · rw [handles, placed]
    exact same.2.trans early.handles

theorem quiet_ensures {program : Shield α} (quiet : program.Uses Quiet) (locked : created.locked = true)
    (early : Early created start world) :
    (shieldRules device).Ensures program (fun _ => Early created start) world :=
  Rules.Ensures.of_uses (fun moves _ early => early.stable moves)
    (fun quiet orderly early acts => quiet_step quiet locked orderly early acts) quiet early

theorem base_quiet (program : Rpi α) : (Shield.base program).Uses Quiet :=
  (Uses.embed program).mono fun op inner => by
    obtain ⟨inner, rfl⟩ := inner
    trivial

theorem spiInit_quiet : Shield.spiInit.Uses Quiet := by
  simp only [Shield.spiInit, bind_eq, Shield.call_bind, pure_eq]
  refine ⟨trivial, fun (initialized : Int) => ?_⟩
  dsimp only
  split
  · trivial
  · refine ⟨trivial, fun (begun : Int) => ?_⟩
    dsimp only
    split <;> trivial

theorem isResetneeded_quiet : Shield.isResetneeded.Uses Quiet := by
  simp only [Shield.isResetneeded, bind_eq]
  apply (base_quiet _).bind
  intro tempLong
  split
  · trivial
  · exact (base_quiet _).bind fun _ => trivial

theorem doResetshield_quiet : Shield.doResetshield.Uses Quiet := by
  simp only [Shield.doResetshield, bind_eq, Shield.call_bind]
  exact (base_quiet _).bind fun _ => ⟨trivial, fun _ => (base_quiet _).bind fun _ => ⟨trivial, fun _ =>
    (base_quiet _).bind fun _ => trivial⟩⟩

/-- What is there while the answer of `open` is kept. -/
structure Opening (created : ThreadObject) (start : List Int) (handle : Int) (world : SlaveWorld K δ) : Prop where
  waiting : ¬ Resumed world.log
  created : world.state.thread = created
  handles : handle = -1 → handles world = start
  opened : handle ≠ -1 → handle ∈ Proofs.BusOwnership.handles world

omit [Measure K] in
theorem Opening.stable {handle : Int} (opening : Opening created start handle before)
    (moves : Relies .owner before after) : Opening created start handle after := by
  rw [moves.1 opening.waiting]
  exact opening

theorem openDevice_step {handle : Int} (locked : created.locked = true) (orderly : Orderly before)
    (early : Early created start before) (acts : (shieldRules device).acts .openDevice before handle after) :
    Orderly after ∧ (∀ other, other ≠ .owner → Relies other before after) ∧ Opening created start handle after := by
  obtain ⟨acts, outcome, board, performed, state⟩ := shield_acts acts
  have thread : after.state.thread = created := by
    rw [state]
    exact early.created
  obtain ⟨kept, spared, waiting⟩ := waiting_step orderly early.waiting acts nofun (by rw [thread]; exact locked)
  have placed : handles after = board.handles := by rw [handles, state]
  have given : (handle = -1 → board.handles = start) ∧ (handle ≠ -1 → handle ∈ board.handles) := by
    simp only [Board.perform] at performed
    split at performed
    · cases performed
      exact ⟨fun _ => early.handles, fun opened => absurd rfl opened⟩
    · split at performed
      · cases performed
      · cases performed
        exact ⟨fun failed => absurd failed (by omega), fun _ => List.mem_cons_self ..⟩
  rw [← placed] at given
  exact ⟨kept, spared, waiting, thread, given.1, given.2⟩

theorem storeDevhndl_step {handle : Int} {given : Unit} (locked : created.locked = true) (orderly : Orderly before)
    (opening : Opening created start handle before)
    (acts : (shieldRules device).acts (.storeDevhndl handle) before given after) :
    Orderly after ∧ (∀ other, other ≠ .owner → Relies other before after) ∧
      Opening created start handle after ∧ devhndl after = handle := by
  obtain ⟨acts, outcome, board, performed, state⟩ := shield_acts acts
  have thread : after.state.thread = created := by
    rw [state]
    exact opening.created
  obtain ⟨kept, spared, waiting⟩ := waiting_step orderly opening.waiting acts nofun (by rw [thread]; exact locked)
  cases performed
  have same : handles after = handles before := by rw [handles, handles, state]
  refine ⟨kept, spared, ⟨waiting, thread, ?_, ?_⟩, ?_⟩
  · rw [same]
    exact opening.handles
  · rw [same]
    exact opening.opened
  · rw [devhndl, state]

theorem loadDevhndl_step {handle devhndl' : Int} (locked : created.locked = true) (orderly : Orderly before)
    (opening : Opening created start handle before) (stored : devhndl before = handle)
    (acts : (shieldRules device).acts .loadDevhndl before devhndl' after) :
    Orderly after ∧ (∀ other, other ≠ .owner → Relies other before after) ∧
      Opening created start handle after ∧ devhndl after = handle ∧ devhndl' = handle := by
  obtain ⟨acts, outcome, board, performed, state⟩ := shield_acts acts
  have thread : after.state.thread = created := by
    rw [state]
    exact opening.created
  obtain ⟨kept, spared, waiting⟩ := waiting_step orderly opening.waiting acts nofun (by rw [thread]; exact locked)
  cases performed
  have same : handles after = handles before := by rw [handles, handles, state]
  refine ⟨kept, spared, ⟨waiting, thread, ?_, ?_⟩, ?_, stored⟩
  · rw [same]
    exact opening.handles
  · rw [same]
    exact opening.opened
  · rw [devhndl, state]
    exact stored

theorem doInitirq_ensures (locked : created.locked = true) (orderly : Orderly world)
    (early : Early created start world) :
    (shieldRules device).Ensures Shield.doInitirq (Initialised created start) world := by
  simp only [Shield.doInitirq, bind_eq, Shield.call_bind, pure_eq]
  have quietly : ∀ {α : Type} {program : Rpi α} {world : SlaveWorld K δ}, Early created start world →
      (shieldRules device).Ensures (Shield.base program) (fun _ => Early created start) world :=
    fun early => quiet_ensures (base_quiet _) locked early
  apply Rules.Ensures.bind orderly
  apply (quietly early).mono
  intro _ after orderly early
  apply Rules.Ensures.bind orderly
  apply (quietly early).mono
  intro _ after orderly early
  apply Rules.Ensures.bind orderly
  apply (quietly early).mono
  intro _ _ _ early between moves orderly (handle : Int) after acts
  obtain ⟨orderly, spared, opening⟩ := openDevice_step locked orderly (early.stable moves) acts
  refine ⟨orderly, spared, ?_⟩
  intro between moves orderly (given : Unit) after acts
  obtain ⟨orderly, spared, opening, stored⟩ := storeDevhndl_step locked orderly (opening.stable moves) acts
  refine ⟨orderly, spared, ?_⟩
  intro between moves orderly (devhndl' : Int) after acts
  have same := moves.1 opening.waiting
  rw [same] at acts orderly
  obtain ⟨orderly, spared, opening, stored, loaded⟩ := loadDevhndl_step locked orderly opening stored acts
  rw [same]
  refine ⟨orderly, spared, ?_⟩
  dsimp only
  subst loaded
  split
  next failed =>
    intro later moves _
    rw [moves.1 opening.waiting]
    exact ⟨opening.waiting, opening.created, fun zero => absurd zero (by decide), fun _ =>
      ⟨stored.trans failed, opening.handles failed⟩⟩
  next open_ =>
    intro later moves _
    rw [moves.1 opening.waiting]
    exact ⟨opening.waiting, opening.created, fun _ => by rw [stored]; exact ⟨open_, opening.opened open_⟩,
      fun failed => absurd rfl failed⟩

theorem init_ensures (locked : created.locked = true) (orderly : Orderly world) (early : Early created start world) :
    (shieldRules device).Ensures Shield.init (Initialised created start) world := by
  have refused : ∀ {status : Int} {world : SlaveWorld K δ}, status ≠ 0 → Early created start world →
      (shieldRules device).Ensures (.pure status) (Initialised created start) world := by
    intro status world failed early later moves _
    have early := early.stable moves
    exact ⟨early.waiting, early.created, fun zero => absurd zero failed, fun _ => ⟨early.closed, early.handles⟩⟩
  simp only [Shield.init, bind_eq, pure_eq]
  apply Rules.Ensures.bind orderly
  apply (quiet_ensures spiInit_quiet locked early).mono
  intro err after orderly early
  split
  next failed => exact refused failed early
  apply Rules.Ensures.bind orderly
  apply (quiet_ensures isResetneeded_quiet locked early).mono
  intro needed after orderly early
  have rest : ∀ {err : Int} {world : SlaveWorld K δ}, Orderly world → Early created start world →
      (shieldRules device).Ensures (if err ≠ 0 then .pure err else Shield.doInitirq)
        (Initialised created start) world := by
    intro err world orderly early
    split
    next failed => exact refused failed early
    next => exact doInitirq_ensures locked orderly early
  split
  · apply Rules.Ensures.bind orderly
    apply (quiet_ensures doResetshield_quiet locked early).mono
    exact fun _ _ orderly early => rest orderly early
  · exact rest orderly early

end Starting

section Ending

variable {start : List Int} {object : ThreadObject}

abbrev pthreadRules (device : Device δ) : Rules PthreadOp PthreadOp.Reply (SlaveWorld K δ) :=
  (rules device .owner).via SlaveOp.pthread fun _ reply => reply

theorem pthread_step {op : PthreadOp} {reply : op.Reply} (quiet : op ≠ .mutexUnlock) (locked : object.locked = true)
    (orderly : Orderly before) (early : Early object start before)
    (acts : (pthreadRules device).acts op before reply after) : ∃ object',
      object.perform true op = some (reply, object') ∧ object'.locked = true ∧ Orderly after ∧
        (∀ other, other ≠ .owner → Relies other before after) ∧ Early object' start after := by
  obtain ⟨given, acts, rfl⟩ := acts
  have ⟨outcome, performed, _⟩ := acts
  obtain ⟨⟨answer, object'⟩, done, same⟩ := Option.map_eq_some_iff.mp performed
  injection same with answered stated
  subst answered
  rw [early.created] at done
  have still : object'.locked = true := by
    cases op with
    | mutexUnlock => exact absurd rfl quiet
    | _ => grind [ThreadObject.perform]
  have thread : after.state.thread = object' := by rw [← stated]
  have station : after.state.station = before.state.station := by rw [← stated]
  obtain ⟨orderly, spared, waiting⟩ := waiting_step orderly early.waiting acts
    (fun same => quiet (SlaveOp.pthread.inj same)) (by rw [thread]; exact still)
  refine ⟨object', done, still, orderly, spared, waiting, thread, ?_, ?_⟩
  · rw [devhndl, station]
    exact early.closed
  · rw [handles, station]
    exact early.handles

/-- While the thread waits, what `main` does with its object is a run of its own. -/
theorem early_ensures {program : Life α} (straight : program.Straight (· ≠ .mutexUnlock))
    (locked : object.locked = true)
    (early : Early object start world) :
    (pthreadRules device).Ensures program (fun value after => ∃ object',
      Eval (ThreadObject.perform true) program object value object' ∧ Early object' start after ∧
        object'.locked = true) world := by
  induction program generalizing world object with
  | pure value => exact fun later moves _ => ⟨object, .pure, early.stable moves, locked⟩
  | request op next ih =>
    intro between moves orderly reply after acts
    obtain ⟨object', performed, locked, orderly, spared, early⟩ :=
      pthread_step straight.1 locked orderly (early.stable moves) acts
    refine ⟨orderly, spared, (ih reply (straight.2 reply) locked early).mono ?_⟩
    rintro value last _ ⟨object'', ran, early, locked⟩
    exact ⟨object'', .request performed ran, early, locked⟩
  | doWhile => exact straight.elim

theorem destroy_straight : (Threads.destroy .rtthread).Straight (· ≠ .mutexUnlock) := by
  have terminates : (Threads.terminate .rtthread).Straight (· ≠ .mutexUnlock) := by
    refine ⟨nofun, fun (present : Bool) => ?_⟩
    cases present with
    | false => trivial
    | true =>
      refine ⟨nofun, fun (thread : Nat) => ?_⟩
      change Straight _ (if thread ≠ 0 then _ else _)
      split
      · exact ⟨nofun, fun _ => ⟨nofun, fun _ => ⟨nofun, fun _ => ⟨nofun, fun _ => ⟨nofun, fun _ => ⟨nofun,
          fun _ => trivial⟩⟩⟩⟩⟩⟩
      · trivial
  refine ⟨nofun, fun (present : Bool) => ?_⟩
  cases present with
  | false => exact ⟨nofun, fun _ => trivial⟩
  | true => exact terminates.bind fun _ => ⟨nofun, fun _ => ⟨nofun, fun _ => trivial⟩⟩

/-- `~rtthread` cancels a thread that was never resumed and waits for its end. -/
theorem destroy_eval {thread : Nat} (positive : thread ≠ 0) : ∃ object,
    Eval (ThreadObject.perform true) (Threads.destroy .rtthread) (.created thread false) () object ∧
      object.cancelled = true ∧ object.joined = true := by
  let object : ThreadObject := { ThreadObject.created thread false with cancelled := true, joined := true }
  have terminated : Eval (ThreadObject.perform true) (Threads.terminate .rtthread)
      (.created thread false) true object := by
    have present : ThreadObject.perform true .present (.created thread false) =
        some (true, .created thread false) := rfl
    have loaded : ThreadObject.perform true .loadThread (.created thread false) =
        some (thread, .created thread false) := rfl
    simp only [Threads.terminate, Threads.forget, bind_eq, Threads.call_bind, pure_eq]
    apply Eval.request present
    rw [if_pos rfl]
    apply Eval.request loaded
    rw [if_pos positive]
    exact .request rfl (.request rfl (.request rfl (.request rfl (.request rfl (.request rfl .pure)))))
  refine ⟨{ object with impBuf := false }, .request rfl (terminated.bind (.request rfl (.request rfl .pure))), rfl, rfl⟩

theorem destroy_ensures {thread : Nat} (positive : thread ≠ 0) (early : Early (.created thread false) start world) :
    (pthreadRules device).Ensures (Threads.destroy .rtthread) (fun _ after => ∃ object,
      (object.cancelled = true ∧ object.joined = true) ∧ object.locked = true ∧ Early object start after) world := by
  obtain ⟨object, ran, ended⟩ := destroy_eval positive
  apply (early_ensures destroy_straight rfl early).mono
  rintro _ after _ ⟨object', ran', early, locked⟩
  obtain ⟨_, rfl⟩ := ran.deterministic ran'
  exact ⟨object, ended, locked, early⟩

end Ending

section Resumption

/-- What either thread does once `main` has resumed the other, its wait for an interrupt
apart: `main` is off the bus. -/
def Late : SlaveOp K → Prop
  | .owner op => drives op = false ∧ Steady op
  | .body op => Steady op ∧ ∀ handle cmd arg, op ≠ .shield (.ioctl handle cmd arg)
  | _ => True

theorem onStation_kept {op : LoopOp K} {reply : op.Reply} {outcome : Outcome} {process : Process K δ}
    (steady : Steady op)
    (performed : before.state.onStation (before.state.station.access device outcome op) = some (reply, process)) :
    process.station.board.devhndl = devhndl before ∧ process.station.board.handles = handles before := by
  obtain ⟨⟨answer, station⟩, accessed, same⟩ := Option.map_eq_some_iff.mp performed
  cases same
  exact access_handles steady accessed

theorem body_kept {op : LoopOp K} {reply : op.Reply} (steady : Steady op)
    (acts : Pool.acts (Process.perform device) thread (.body op) before reply after) : Kept before after := by
  obtain ⟨outcome, performed, _⟩ := acts
  simp only [Process.perform] at performed
  split at performed
  · cases performed
  · exact onStation_kept steady performed

theorem late_kept (late : Late op) (acts : Pool.acts (Process.perform device) thread op before reply after) :
    Kept before after := by
  have ⟨outcome, performed, _⟩ := acts
  cases op with
  | owner op => exact onStation_kept late.2 performed
  | body op => exact body_kept late.1 acts
  | pthread op =>
    obtain ⟨⟨answer, object⟩, _, same⟩ := Option.map_eq_some_iff.mp performed
    injection same with _ stated
    rw [Kept, devhndl, handles, ← stated]
    exact ⟨rfl, rfl⟩
  | _ =>
    injection performed with same
    injection same with _ stated
    rw [Kept, devhndl, handles, ← stated]
    exact ⟨rfl, rfl⟩

theorem late_step (late : Late op) (orderly : Orderly before) (resumed : Resumed before.log)
    (acts : Pool.acts (Process.perform device) thread op before reply after) :
    Orderly after ∧ (∀ other, other ≠ thread → Relies other before after) ∧ Resumed after.log := by
  have off : mainDrives op = false := by
    cases op with
    | owner op => exact late.1
    | _ => rfl
  apply resumed_step orderly resumed acts off (late_kept late acts)
  rintro handle cmd arg rfl
  exact absurd rfl (late.2 handle cmd arg)

omit [Measure K] in
theorem Relies.resumed (moves : Relies thread before after) (resumed : Resumed before.log) : Resumed after.log := by
  cases thread with
  | owner => exact moves.2 resumed
  | body => exact (moves resumed).1

theorem late_ensures {program : Slave K α} (uses : program.Uses Late) (resumed : Resumed world.log) :
    (rules device thread).Ensures program (fun _ after => Resumed after.log) world :=
  Rules.Ensures.of_uses (fun moves _ resumed => Relies.resumed moves resumed)
    (fun late orderly resumed acts => late_step late orderly resumed acts) uses resumed

end Resumption

section Body

abbrev loopRules (device : Device δ) : Rules (LoopOp K) LoopOp.Reply (SlaveWorld K δ) :=
  (rules device .body).via SlaveOp.body fun _ reply => reply

abbrev waitRules (device : Device δ) : Rules ShieldOp ShieldOp.Reply (SlaveWorld K δ) :=
  (loopRules device).via LoopOp.shield fun _ reply => reply

/-- The thread waits on the handle that it has found, which nobody closes. -/
theorem waitforirqOrTimeout_ensures (timeoutms : BitVec 32) (resumed : Resumed world.log) :
    (waitRules device).Ensures (Shield.waitforirqOrTimeout timeoutms) (fun _ (after : SlaveWorld K δ) => Resumed after.log)
      world := by
  have loads : ∀ {before after : SlaveWorld K δ} {handle : Int}, Orderly before → Resumed before.log →
      (waitRules device).acts .loadDevhndl before handle after →
        (Orderly after ∧ (∀ other, other ≠ .body → Relies other before after) ∧ Resumed after.log) ∧
          handle = devhndl after := by
    rintro before after handle orderly resumed ⟨_, ⟨given, acts, rfl⟩, rfl⟩
    have late : Late (.body (.shield .loadDevhndl) : SlaveOp K) := ⟨trivial, nofun⟩
    refine ⟨late_step late orderly resumed acts, ?_⟩
    rw [(late_kept late acts).1]
    obtain ⟨outcome, performed, _⟩ := acts
    simp only [Process.perform] at performed
    split at performed
    · cases performed
    · obtain ⟨⟨answer, station⟩, accessed, same⟩ := Option.map_eq_some_iff.mp performed
      injection same with answered _
      subst answered
      cases accessed
      rfl
  intro between moves orderly (found : Int) after acts
  obtain ⟨⟨orderly, spared, resumed⟩, _⟩ := loads orderly (moves resumed).1 acts
  refine ⟨orderly, spared, ?_⟩
  change Rules.Ensures _ (if found ≠ -1 then _ else _) _ _
  split
  · intro between moves orderly (handle : Int) after acts
    obtain ⟨⟨orderly, spared, resumed⟩, loaded⟩ := loads orderly (moves resumed).1 acts
    refine ⟨orderly, spared, ?_⟩
    intro between moves orderly (err : Int) after acts
    obtain ⟨_, ⟨given, acts, rfl⟩, rfl⟩ := acts
    obtain ⟨resumed, same, _⟩ := moves resumed
    have steady : Steady (.shield (.ioctl handle Shield.irqmodDownTimeout (timeoutms.setWidth 64)) : LoopOp K) := trivial
    obtain ⟨orderly, spared, resumed⟩ := resumed_step orderly resumed acts rfl (body_kept steady acts) <| by
      rintro handle' cmd arg calls
      cases calls
      exact loaded.trans same.symm
    exact ⟨orderly, spared, fun later moves _ => (moves resumed).1⟩
  · exact fun later moves _ => (moves resumed).1

/-- What the thread does beside its wait. -/
def Beside (op : LoopOp K) : Prop := Late (.body op)

theorem recordTimes_late (startRun : BitVec 64) : (RealTimeLoop.recordTimes startRun : Loop K Unit).Uses Beside := by
  have timing : ∀ timer, Beside (.load timer : LoopOp K) := fun _ => ⟨trivial, nofun⟩
  have measuring : ∀ tool value, Beside (.calc tool value : LoopOp K) := fun _ _ => ⟨trivial, nofun⟩
  refine ⟨timing _, fun (count : BitVec 64) => ?_⟩
  change Uses _ (if 1 < count then _ else _)
  split
  · exact ⟨timing _, fun _ => ⟨timing _, fun _ => ⟨measuring _ _, fun _ => ⟨measuring _ _, fun _ => trivial⟩⟩⟩⟩
  · trivial

omit [Measure K] in
theorem cycle_late : (RealTimeLoop.shield (Shield.base Rpi.mainTask) : Loop K Byte).Uses Beside := by
  apply Uses.through
  apply (Uses.embed _).mono
  intro op inner
  obtain ⟨inner, rfl⟩ := inner
  exact ⟨trivial, nofun⟩

theorem iteration_ensures (orderly : Orderly world) (resumed : Resumed world.log) :
    (loopRules device).Ensures (RealTimeLoop.iteration : Loop K Unit) (fun _ after => Resumed after.log) world := by
  simp only [RealTimeLoop.iteration, bind_eq, RealTimeLoop.call_bind]
  apply Rules.Ensures.bind orderly
  apply (waitforirqOrTimeout_ensures 100 resumed).embed.mono
  intro _ after _ resumed
  have rest : ∀ {program : Loop K Unit}, program.Uses Beside →
      (loopRules device).Ensures program (fun _ last => Resumed last.log) after := by
    refine fun uses => Rules.Ensures.of_uses (fun moves _ resumed => (moves resumed).1) ?_ uses resumed
    rintro op before reply after beside orderly resumed ⟨given, acts, rfl⟩
    exact late_step beside orderly resumed acts
  apply rest
  refine ⟨⟨trivial, nofun⟩, fun startRun => ⟨⟨trivial, nofun⟩, fun _ => cycle_late.bind fun _ => ?_⟩⟩
  refine ⟨⟨trivial, nofun⟩, fun _ => ⟨⟨trivial, nofun⟩, fun _ => ⟨⟨trivial, nofun⟩, fun _ => ?_⟩⟩⟩
  exact (recordTimes_late startRun).bind fun _ => ⟨⟨trivial, nofun⟩, fun _ => ⟨⟨trivial, nofun⟩, fun _ =>
    ⟨⟨trivial, nofun⟩, fun _ => trivial⟩⟩⟩

theorem executeFromthread_ensures (orderly : Orderly world) (resumed : Resumed world.log) :
    (loopRules device).Ensures (RealTimeLoop.executeFromthread : Loop K Unit) (fun _ after => Resumed after.log)
      world := by
  apply Rules.Ensures.loop (fun _ after => Resumed after.log) orderly resumed
  intro _ start orderly resumed
  apply (iteration_ensures orderly resumed).mono
  intro last after _ resumed
  exact Rules.Exits.intro (fun _ => resumed) fun stops => by cases stops

/-- The thread gets past its start mutex only once it was resumed. -/
theorem startThread_ensures : (rules device .body).Ensures (startThread : Slave K Unit) (fun _ _ => True) world := by
  intro between moves orderly given after acts
  have ⟨outcome, performed, _⟩ := acts
  have resumed : Resumed between.log := by
    by_contra waiting
    have locked := orderly.waiting waiting
    simp [Process.perform, ThreadObject.perform, locked] at performed
  have late : Late (.pthread .mutexLock : SlaveOp K) := trivial
  obtain ⟨orderly, spared, resumed⟩ := late_step late orderly resumed acts
  refine ⟨orderly, spared, ?_⟩
  intro between moves orderly given after acts
  obtain ⟨orderly, spared, resumed⟩ :=
    late_step (show Late (.pthread .begin : SlaveOp K) from trivial) orderly (moves resumed).1 acts
  refine ⟨orderly, spared, ?_⟩
  change (rules device .body).Ensures (Program.bind (RealTimeLoop.executeFromthread.embed .body fun _ reply => reply)
    fun _ => mytestthread (Threads.call .exit)) _ _
  apply Rules.Ensures.bind orderly
  apply (executeFromthread_ensures orderly resumed).embed.mono
  intro _ after _ resumed
  have exits : (mytestthread (Threads.call .exit) : Slave K Unit).Uses Late := ⟨trivial, fun _ => trivial⟩
  exact (late_ensures exits resumed).mono fun _ _ _ _ => trivial

end Body

section Main

variable {start : List Int} {created : ThreadObject}

/-- An access of the buffers. -/
def Buffers : RpiOp → Prop
  | .load _ | .store _ _ => True
  | _ => False

theorem receiveInput_buffers : Rpi.receiveInput.Uses Buffers := by
  have words : (forUp Rpi.copyWord 4 0 0).Uses Buffers := Uses.forUp _ _ _ fun _ _ => ⟨trivial, fun _ => trivial⟩
  exact ⟨fun _ => ⟨trivial, fun _ => words.bind fun _ => ⟨trivial, fun _ => trivial⟩⟩, fun _ => trivial⟩

theorem sendOutput_buffers (frame : ProcBuffer) : (Rpi.sendOutput frame).Uses Buffers := by
  have words : (forUp (Rpi.queueWord frame) 4 0 ()).Uses Buffers :=
    Uses.forUp _ _ _ fun _ _ => ⟨trivial, fun _ => ⟨trivial, fun _ => trivial⟩⟩
  refine words.bind fun _ => ⟨trivial, fun _ => ⟨trivial, fun _ => ⟨trivial, fun _ => ⟨trivial, fun _ =>
    ⟨trivial, fun (index : BitVec 32) => ?_⟩⟩⟩⟩⟩
  change (if qinSize ≤ index.toNat then Rpi.store .curqidx 0 else .pure ()).Uses Buffers
  split
  · exact ⟨trivial, fun _ => trivial⟩
  · trivial

omit [Measure K] in
theorem ethb_late {program : Rpi α} (uses : program.Uses Buffers) :
    (ethb (Shield.base program) : Slave K α).Uses Late := by
  apply Uses.through
  apply Uses.through
  apply Uses.through
  apply uses.mono
  intro op buffers
  cases op with
  | load => exact ⟨rfl, trivial⟩
  | store => exact ⟨rfl, trivial⟩
  | _ => exact buffers.elim

omit [Measure K] in
theorem mainRound_late (counter : BitVec 64) : (mainRound counter : Slave K (BitVec 64)).Uses Late := by
  have clock : (owner (RealTimeLoop.call .getns) : Slave K (BitVec 64)).Uses Late :=
    ⟨⟨rfl, trivial⟩, fun _ => trivial⟩
  simp only [mainRound, bind_eq]
  exact clock.bind fun _ => (ethb_late receiveInput_buffers).bind fun _ =>
    (ethb_late (sendOutput_buffers _)).bind fun _ => ⟨trivial, fun _ => ⟨trivial, fun _ => trivial⟩⟩

/-- What `main` and the destructors leave when the start has failed. -/
structure Refused (start : List Int) (status : Int) (world : SlaveWorld K δ) : Prop where
  failed : status ≠ 0
  waiting : ¬ Resumed world.log
  cancelled : world.state.thread.cancelled = true
  joined : world.state.thread.joined = true
  handles : handles world = start

/-- The main loop is never left. -/
theorem running_ensures {post : Int → SlaveWorld K δ → Prop} {next : BitVec 64 → Slave K Int} (orderly : Orderly world)
    (resumed : Resumed world.log) :
    (rules device .owner).Ensures (.doWhile mainRound (fun _ => true) 0 next) post world := by
  apply Rules.Ensures.loop (fun _ after => Resumed after.log) orderly resumed
  intro counter start _ resumed
  apply (late_ensures (mainRound_late counter) resumed).mono
  intro last after _ resumed
  exact Rules.Exits.intro (fun _ => resumed) fun stops => by cases stops

theorem resume_step {status : Int} {given : Unit} (orderly : Orderly before)
    (initialised : Initialised created start status before) (succeeded : status = 0)
    (acts : Pool.acts (Process.perform device) .owner (.pthread .mutexUnlock) before given after) :
    Orderly after ∧ (∀ other, other ≠ .owner → Relies other before after) ∧ Resumed after.log := by
  have kept : Kept before after := late_kept (show Late (.pthread .mutexUnlock : SlaveOp K) from trivial) acts
  obtain ⟨outcome, performed, logged⟩ := acts
  have resumed : Resumed after.log := by
    rw [logged, resumed_snoc]
    exact .inr rfl
  have opened : Open after.state (devhndl after) := by
    obtain ⟨positive, there⟩ := initialised.opened succeeded
    have there : devhndl before ∈ handles before := there
    rw [← kept.2] at there
    exact ⟨by rw [kept.1]; exact positive, by rw [kept.1]; exact there⟩
  refine ⟨⟨?_, fun waiting => absurd resumed waiting, fun _ => opened⟩, ?_, resumed⟩
  · rw [logged]
    exact Throughout.snoc_iff.mpr ⟨orderly.exclusive, nofun, nofun⟩
  · intro other different
    cases other with
    | owner => exact absurd rfl different
    | body => exact fun resumed => absurd resumed initialised.waiting

theorem system_step {op : SlaveOp K} {reply : op.Reply} (idle : op = .spiEnd ∨ op = .bcm2835Close)
    (locked : created.locked = true) (orderly : Orderly before) (early : Early created start before)
    (acts : Pool.acts (Process.perform device) .owner op before reply after) :
    Orderly after ∧ (∀ other, other ≠ .owner → Relies other before after) ∧ Early created start after := by
  have same : after.state = before.state := by
    obtain ⟨outcome, performed, _⟩ := acts
    obtain rfl | rfl := idle <;> exact ((Prod.mk.inj (Option.some.inj performed)).2).symm
  have thread : after.state.thread.locked = true := by
    rw [same, early.created]
    exact locked
  have quiet : op ≠ .pthread .mutexUnlock := by
    obtain rfl | rfl := idle <;> exact nofun
  obtain ⟨orderly, spared, waiting⟩ := waiting_step orderly early.waiting acts quiet thread
  refine ⟨orderly, spared, waiting, ?_, ?_, ?_⟩
  · rw [same]
    exact early.created
  · rw [devhndl, same]
    exact early.closed
  · rw [handles, same]
    exact early.handles

/-- The destructors after a start that failed. -/
theorem destructors_ensures {thread : Nat} {status : Int} (positive : thread ≠ 0) (failed : status ≠ 0)
    (orderly : Orderly world) (early : Early (.created thread false) start world) :
    (rules device .owner).Ensures
      ((mytestthread (Threads.destroy .rtthread)).bind fun _ => (ethb Shield.destroy).bind fun _ => .pure status)
      (Refused start) world := by
  apply Rules.Ensures.bind orderly
  apply Rules.Ensures.mono (destroy_ensures positive early).embed
  rintro _ between orderly ⟨object, ⟨cancelled, joined⟩, locked, early⟩
  intro between' moves orderly (handle : Int) after acts
  have early := early.stable moves
  have loads : (shieldRules device).acts .loadDevhndl between' handle after := ⟨handle, acts, rfl⟩
  have unopened : handle = -1 := by
    obtain ⟨_, outcome, board, performed, _⟩ := shield_acts loads
    cases performed
    exact early.closed
  obtain ⟨orderly, spared, early⟩ := quiet_step (show Quiet .loadDevhndl from trivial) locked orderly early loads
  refine ⟨orderly, spared, ?_⟩
  subst unopened
  intro later moves _
  have early := early.stable moves
  exact ⟨failed, early.waiting, by rw [early.created]; exact cancelled, by rw [early.created]; exact joined,
    early.handles⟩

theorem process_ensures {thread : Nat} (positive : thread ≠ 0) (orderly : Orderly world)
    (early : Early (.created thread false) start world) :
    (rules device .owner).Ensures (process : Slave K Int) (Refused start) world := by
  have starts : (rules device .owner).Ensures (ethb Shield.init : Slave K Int)
      (Initialised (.created thread false) start) world := by
    rw [ethb, owner, RealTimeLoop.shield, embed_embed]
    exact Rules.Ensures.embed (init_ensures rfl orderly early)
  simp only [process, main, bind_eq, bind_assoc]
  apply Rules.Ensures.bind orderly
  apply starts.mono
  intro status after orderly initialised
  split
  next failed =>
    have early : Early (.created thread false) start after :=
      ⟨initialised.waiting, initialised.created, (initialised.closed failed).1, (initialised.closed failed).2⟩
    intro between moves orderly _ after acts
    obtain ⟨orderly, spared, early⟩ := system_step (.inl rfl) rfl orderly (early.stable moves) acts
    refine ⟨orderly, spared, ?_⟩
    intro between moves orderly _ after acts
    obtain ⟨orderly, spared, early⟩ := system_step (.inr rfl) rfl orderly (early.stable moves) acts
    exact ⟨orderly, spared, destructors_ensures positive failed orderly early⟩
  next succeeded =>
    intro between moves orderly _ after acts
    rw [moves.1 initialised.waiting] at acts orderly ⊢
    obtain ⟨orderly, spared, resumed⟩ := resume_step orderly initialised (not_not.mp succeeded) acts
    exact ⟨orderly, spared, running_ensures orderly resumed⟩

end Main

section Results

/-- What each thread has at its return. -/
def Left (start : List Int) : (thread : Party) → SlaveTest.Result thread → SlaveWorld K δ → Prop
  | .owner => Refused start
  | .body => fun _ _ => True

theorem starts (device : Device δ) (station : Station K δ) {thread : Nat} (positive : thread ≠ 0) :
    (protocol K δ).Holds (Process.perform device) (Left station.board.handles) (pool station thread) := by
  have waiting : ¬ Resumed (pool station thread).world.log := by
    rintro ⟨event, earlier, _⟩
    cases earlier
  have orderly : Orderly (pool station thread).world :=
    ⟨Throughout.nil, fun _ => rfl, fun resumed => absurd resumed waiting⟩
  refine ⟨orderly, fun party => ?_⟩
  cases party with
  | owner => exact process_ensures positive orderly ⟨waiting, rfl, rfl, rfl⟩
  | body => exact startThread_ensures

/-- However the two threads are scheduled, only one of them is ever on the bus: `main`
before it resumes the other, which then waits on an open handle. `main` returns only
when the start has failed; the thread was cancelled and joined then without a step of
its own, and the handles are what they were. -/
theorem bus_exclusive (device : Device δ) (station : Station K δ) (thread : Nat) (positive : thread ≠ 0)
    (schedule : List (Party × Outcome)) {reached : Pool Party (SlaveOp K) SlaveOp.Reply (Process K δ) SlaveTest.Result}
    (ran : (pool station thread).run (Process.perform device) schedule = some reached) :
    Exclusive reached.world.log ∧ ∀ status : Int, reached.threads .owner = .pure status →
      status ≠ 0 ∧ (∀ event ∈ reached.world.log, event.thread = .owner) ∧
        (reached.world.state.thread.cancelled = true ∧ reached.world.state.thread.joined = true) ∧
          reached.world.state.station.board.handles = station.board.handles := by
  have holds := Protocol.run_holds (starts device station positive) ran
  constructor
  · exact holds.1.exclusive
  · intro status returned
    have refused : Refused station.board.handles status reached.world := holds.returned returned
    refine ⟨refused.failed, fun event logged => ?_, ⟨refused.cancelled, refused.joined⟩, refused.handles⟩
    by_contra other
    have body : event.thread = .body := by
      cases same : event.thread with
      | owner => exact absurd same other
      | body => rfl
    obtain ⟨earlier, later, split⟩ := List.append_of_mem logged
    obtain ⟨⟨resuming, before, unlocks⟩, _⟩ := (holds.1.exclusive earlier event later split).2 body
    exact refused.waiting ⟨resuming, by rw [split]; exact List.mem_append_left _ before, unlocks⟩

/-- A chip that answers with these bytes, and with zeros when there are no more. -/
def scripted : Device (List Byte) := ⟨fun _ script => script, fun _ script => (script.headD 0, script.tail)⟩

/-- HW_CFG shows the chip ready, BYTE_TEST the test pattern. -/
def script : List Byte := [0, 0, 0, 0, 0, 0, 0x08, 0, 0, 0, 0x21, 0x43, 0x65, 0x87]

def bench : Station Float (List Byte) where
  board := { machine := { object := {}, device := script } }
  timers := fun _ => 0
  tools := fun _ => .zero
  clock := fun _ => 0

def bodyDrives (event : Event Party (SlaveOp Float) SlaveOp.Reply (Process Float (List Byte))) : Bool :=
  match event.op with
  | .body op => drives op
  | _ => false

def turns : List (Party × Outcome) :=
  List.replicate 80 (.owner, ({ opened := some 3 } : Outcome)) ++ List.replicate 16 (.body, ({} : Outcome))

/-- The device cannot be opened. -/
def refusedTurns : List (Party × Outcome) := List.replicate 86 (.owner, ({} : Outcome))

/-- Both threads get to the bus, one after the other; or `main` returns. -/
theorem bus_exclusive_handed_over :
    (∃ reached, (pool bench 1).run (Process.perform scripted) turns = some reached ∧
      (reached.world.log.countP fun event => mainDrives event.op) = 63 ∧ reached.world.log.countP bodyDrives = 8 ∧
        Exclusive reached.world.log) ∧
    ∃ reached, (pool bench 1).run (Process.perform scripted) refusedTurns = some reached ∧
      reached.threads .owner = .pure (-27) ∧ (∀ event ∈ reached.world.log, event.thread = .owner) ∧
        (reached.world.state.thread.cancelled = true ∧ reached.world.state.thread.joined = true) ∧
          reached.world.state.station.board.handles = [] := by
  constructor
  · have ends : ((pool bench 1).run (Process.perform scripted) turns).map (fun reached =>
        (reached.world.log.countP fun event => mainDrives event.op, reached.world.log.countP bodyDrives)) =
          some (63, 8) := by decide +kernel
    obtain ⟨reached, ran, counts⟩ := Option.map_eq_some_iff.mp ends
    injection counts with main body
    exact ⟨reached, ran, main, body, (bus_exclusive scripted bench 1 (by decide) _ ran).1⟩
  · have ends : ((pool bench 1).run (Process.perform scripted) refusedTurns).map (fun reached =>
        (reached.threads .owner).returned) = some (some (-27 : Int)) := by decide +kernel
    obtain ⟨reached, ran, returned⟩ := Option.map_eq_some_iff.mp ends
    have returned : reached.threads .owner = .pure (-27) := returned_iff.mp returned
    obtain ⟨_, left⟩ := (bus_exclusive scripted bench 1 (by decide) _ ran).2 (-27) returned
    exact ⟨reached, ran, returned, left⟩

end Results
end EthercatSlave.Proofs.BusOwnership
