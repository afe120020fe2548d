import EthercatSlave.Proofs.Budgets
import EthercatSlave.Proofs.FreshObject
import EthercatSlave.Proofs.Snapshots

/-! `receive_input` repeats a round only because the counter moved during it, so
the rounds it repeats are paid for by fetches. -/

namespace EthercatSlave.Proofs.Retries
open Program Rpi Sharing SequenceLock Accesses EthercatSlave.InputImage EthercatSlave.Snapshots
open EthercatSlave.Proofs.InputImage (marks_append acts_marks unmarked_reflects acts_steps)
open PriorMemory (AppCall)

variable {δ : Type} {device : Device δ} {start : RpiBase} {op : RpiOp} {reply : op.Reply} {limit spent moved : Nat}
  {before after world later : World Thread RpiOp RpiOp.Reply (Machine δ)}

/-- Past `limit` accesses, each further round is one that a move of the counter caused. -/
def Bounded (limit : Nat) (world : World Thread RpiOp RpiOp.Reply (Machine δ)) : Prop :=
  accesses world.log ≤ limit + 6 * bumps (marks world.log)

def protocol (δ : Type) (start : RpiBase) (limit : Nat) : Protocol Thread RpiOp RpiOp.Reply (Machine δ) :=
  (InputImage.protocol δ start).along (Bounded limit)

/-- What the application has spent, of which the first `moved` moves of the counter pay for some. -/
def Spent (spent moved : Nat) (world : World Thread RpiOp RpiOp.Reply (Machine δ)) : Prop :=
  accesses world.log ≤ spent + 6 * moved ∧ moved ≤ bumps (marks world.log)

theorem acts_accesses {thread : Thread} (acts : Pool.acts (handle device) thread op before reply after) :
    accesses after.log = accesses before.log + if thread = .app then 1 else 0 := by
  obtain ⟨_, _, grows⟩ := acts
  rw [grows, accesses, List.countP_append, List.countP_singleton]
  cases thread <;> rfl

theorem acts_bumps {thread : Thread} (acts : Pool.acts (handle device) thread op before reply after) :
    bumps (marks before.log) ≤ bumps (marks after.log) := by
  rw [acts_marks acts, bumps_append]
  exact Nat.le_add_right _ _

theorem Spent.stable (moves : InputImage.Interferes .app world later) (holds : Spent spent moved world) :
    Spent spent moved later := by
  obtain ⟨more, grows, others⟩ := moves
  have none : accesses more = 0 := by
    refine List.countP_eq_zero.mpr fun event member => ?_
    rw [decide_eq_true_eq]
    exact (others event member).1
  have same : accesses later.log = accesses world.log := by
    rw [grows, accesses, List.countP_append, ← accesses, ← accesses, none, Nat.add_zero]
  refine ⟨same ▸ holds.1, Nat.le_trans holds.2 ?_⟩
  rw [grows, marks_append, bumps_append]
  exact Nat.le_add_right _ _

theorem bounded_step (acts : Pool.acts (handle device) .rt op before reply after) (bounded : Bounded limit before) :
    Bounded limit after := by
  have same := acts_accesses acts
  have more := acts_bumps acts
  rw [if_neg (by decide)] at same
  unfold Bounded at bounded ⊢
  omega

/-- One access of the application that neither counts nor publishes. -/
theorem spent_step (acts : Pool.acts (handle device) .app op before reply after) (unmarked : mark op = none)
    (kept : (protocol δ start limit).invariant before) (within : spent < limit) (holds : Spent spent moved before) :
    (protocol δ start limit).invariant after ∧ (protocol δ start limit).guarantee .app before after ∧
      Spent (spent + 1) moved after := by
  have more := acts_bumps acts
  have same := acts_accesses acts
  rw [if_pos rfl] at same
  obtain ⟨few, past⟩ := holds
  refine ⟨⟨unmarked_reflects unmarked acts kept.1, ?_⟩, acts_steps acts fun _ => unmarked, ?_, Nat.le_trans past more⟩
  · unfold Bounded
    omega
  · omega

/-- Programs without loops spend what their requests count for. -/
theorem straight_spends {α : Type} {program : Rpi α} {budget : Nat} (straight : program.Straight fun op => mark op = none)
    (within : program.Within (fun _ => true) budget) (enough : spent + budget ≤ limit)
    (holds : Spent spent moved world) :
    ((protocol δ start limit).rules (handle device) .app).Ensures program (fun _ => Spent (spent + budget) moved)
      world := by
  induction program generalizing spent budget world with
  | pure value =>
    intro later moves _
    obtain ⟨few, past⟩ := holds.stable moves
    exact ⟨by omega, past⟩
  | request op next ih =>
    intro between moves kept reply after acts
    obtain ⟨rest, counts, each⟩ := within
    rw [if_pos rfl] at counts
    obtain ⟨kept', guarantees, holds'⟩ := spent_step acts straight.1 kept (by omega) (holds.stable moves)
    refine ⟨kept', guarantees, ?_⟩
    have ensured := ih reply (straight.2 reply) (each reply) (by omega) holds'
    rwa [show spent + 1 + rest = spent + budget by omega] at ensured
  | doWhile => exact straight.elim

/-- What the application has spent, with every move of the counter so far paid in. -/
def Affords (spent : Nat) (world : World Thread RpiOp RpiOp.Reply (Machine δ)) : Prop :=
  accesses world.log ≤ spent + 6 * bumps (marks world.log)

theorem Affords.stable (moves : InputImage.Interferes .app world later) (holds : Affords spent world) :
    Affords spent later := by
  have spends : Spent spent (bumps (marks world.log)) world := ⟨holds, Nat.le_refl _⟩
  obtain ⟨few, past⟩ := spends.stable moves
  unfold Affords
  omega

theorem Spent.affords (holds : Spent spent moved world) : Affords spent world := by
  obtain ⟨few, past⟩ := holds
  unfold Affords
  omega

private theorem copy_within : (forUp copyWord 4 0 0).Within (fun _ => true) 4 :=
  have each : ∀ index image, (copyWord index image).Within (fun _ => true) 1 :=
    fun _ _ => ⟨0, rfl, fun _ => trivial⟩
  Within.forUp 4 0 0 each

private theorem copy_straight : (forUp copyWord 4 0 0).Straight fun op => mark op = none :=
  Straight.forUp 4 0 0 fun _ _ => ⟨rfl, fun _ => trivial⟩

/-- A round is repeated only if the counter moved, which pays for it. -/
theorem attempt_affords (enough : spent + 6 ≤ limit) (holds : Affords spent world) :
    ((protocol δ start limit).rules (handle device) .app).Ensures attempt
      (Rules.Exits Prod.snd (fun _ => Affords spent) fun last =>
        ((protocol δ start limit).rules (handle device) .app).Ensures (.pure last.1) (fun _ => Affords (spent + 6)))
      world := by
  rw [attempt, bind_eq, load_bind]
  intro between moves kept (counter : BitVec 32) middle acts
  have opening : Spent spent (bumps (marks between.log)) between := ⟨holds.stable moves, Nat.le_refl _⟩
  obtain ⟨begun, guarantees, spends⟩ := spent_step acts rfl kept (by omega) opening
  refine ⟨begun, guarantees, ?_⟩
  obtain ⟨_, performed, _⟩ := acts
  have counted : between.state.object.atomiccounter = counter := Option.some.inj (loaded performed).1
  refine .bind begun ((straight_spends copy_straight copy_within (by omega) spends).mono ?_)
  intro image _ _ copied between' moves' kept' (counter' : BitVec 32) after acts'
  obtain ⟨ended, guarantees', spends'⟩ := spent_step acts' rfl kept' (by omega) (copied.stable moves')
  refine ⟨ended, guarantees', ?_⟩
  have past := (copied.stable moves').2
  have more := acts_bumps acts'
  obtain ⟨_, performed', _⟩ := acts'
  have counted' : between'.state.object.atomiccounter = counter' := Option.some.inj (loaded performed').1
  intro later moves'' _
  refine Rules.Exits.intro (fun again => ?_) fun _ => ?_
  · have changed : counter ≠ counter' := of_decide_eq_false (Eq.mp (Bool.not_eq_true' _) again)
    have differs : bumps (marks between.log) ≠ bumps (marks between'.log) := by
      intro same
      apply changed
      rw [← counted, ← counted', kept.1.1.counter, kept'.1.1.counter, same]
    have paid : Affords spent after := by
      have few := spends'.1
      unfold Affords
      omega
    exact paid.stable moves''
  · intro last stays _
    exact (spends'.affords.stable moves'').stable stays

theorem receiveInput_affords (kept : (protocol δ start limit).invariant world) (enough : spent + 6 ≤ limit)
    (holds : Affords spent world) : ((protocol δ start limit).rules (handle device) .app).Ensures receiveInput
      (fun _ => Affords (spent + 6)) world :=
  Rules.Ensures.loop (fun _ => Affords spent) kept holds fun _ _ _ holds => attempt_affords enough holds

private theorem sendOutput_within (frame : ProcBuffer) : (sendOutput frame).Within (fun _ => true) 14 := by
  have each : ∀ word none, (queueWord frame word none).Within (fun _ => true) 2 :=
    fun _ _ => ⟨1, rfl, fun _ => ⟨0, rfl, fun _ => trivial⟩⟩
  have last : ∀ index : BitVec 32, (if qinSize ≤ index.toNat then store .curqidx 0 else .pure () : Rpi Unit).Within
      (fun _ => true) 1 := by
    intro index
    split
    · exact ⟨0, rfl, fun _ => trivial⟩
    · trivial
  have whole : (sendOutput frame).Within (fun _ => true) (2 * 4 + 6) :=
    Within.bind (Within.forUp 4 0 () each) fun _ => ⟨5, rfl, fun _ => ⟨4, rfl, fun _ => ⟨3, rfl, fun _ =>
      ⟨2, rfl, fun _ => ⟨1, rfl, last⟩⟩⟩⟩⟩
  exact whole

private theorem sendOutput_straight (frame : ProcBuffer) : (sendOutput frame).Straight fun op => mark op = none := by
  have words : (forUp (queueWord frame) 4 0 ()).Straight fun op => mark op = none :=
    Straight.forUp 4 0 () fun _ _ => ⟨rfl, fun _ => ⟨rfl, fun _ => trivial⟩⟩
  have last : ∀ index : BitVec 32, (if qinSize ≤ index.toNat then store .curqidx 0 else .pure () : Rpi Unit).Straight
      fun op => mark op = none := by
    intro index
    split
    · exact ⟨rfl, fun _ => trivial⟩
    · trivial
  exact words.bind fun _ => ⟨rfl, fun _ => ⟨rfl, fun _ => ⟨rfl, fun _ => ⟨rfl, fun _ => ⟨rfl, last⟩⟩⟩⟩⟩

theorem performAll_affords (calls : List AppCall) (kept : (protocol δ start limit).invariant world)
    (enough : spent + cost calls ≤ limit) (holds : Affords spent world) :
    ((protocol δ start limit).rules (handle device) .app).Ensures (PriorMemory.performAll calls)
      (fun _ => Affords (spent + cost calls)) world := by
  induction calls generalizing spent world with
  | nil => exact fun later moves _ => holds.stable moves
  | cons call calls ih =>
    cases call with
    | send frame =>
      rw [cost] at enough
      have opening : Spent spent (bumps (marks world.log)) world := ⟨holds, Nat.le_refl _⟩
      have within : spent + 14 ≤ limit := by omega
      refine .bind kept ((straight_spends (sendOutput_straight frame) (sendOutput_within frame) within
        opening).mono fun _ after kept spends => ?_)
      have rest := ih kept (by omega) spends.affords
      rwa [Nat.add_assoc] at rest
    | receive =>
      rw [cost] at enough
      refine .bind kept (.bind kept ((receiveInput_affords kept (by omega) holds).mono fun _ after kept affords later moves kept' => ?_))
      have rest := ih kept' (by omega) (affords.stable moves)
      rwa [Nat.add_assoc] at rest

def bumping (op : RpiOp) : Bool := decide (mark op = some .bump)

private theorem unmarked_within {α : Type} {program : Rpi α} (unmarked : program.Uses fun op => mark op = none) :
    program.Within bumping 0 :=
  Within.of_uses (unmarked.mono fun op none => by simp [bumping, none])

/-- A cycle moves the counter at most twice. -/
theorem cycle_within : PriorMemory.cycle.Within bumping 2 := by
  have counts : (increment .atomiccounter).Within bumping 1 := ⟨1, rfl, fun _ => ⟨0, rfl, fun _ => trivial⟩⟩
  have publish : (forUp publishWord 4 0 ()).Within bumping 0 :=
    Within.of_uses (Uses.forUp 4 0 () fun _ _ => ⟨rfl, fun _ => ⟨rfl, fun _ => trivial⟩⟩)
  have fetches : spiReadProcRamFifo.Within bumping (1 + (0 + (0 + (0 + 1)))) := by
    rw [InputImage.spiReadProcRamFifo_eq]
    exact counts.bind fun _ => (unmarked_within InputImage.fetch_unmarked).bind fun _ => publish.bind fun _ =>
      (unmarked_within (.ask rfl)).bind fun _ => counts
  have sends : ∀ status : Byte, (spiWriteProcRamFifo.bind fun _ => .pure status).Within bumping 0 := fun _ =>
    unmarked_within (Snapshots.spiWriteProcRamFifo_unmarked.bind fun _ => trivial)
  have reads : ∀ address, (readRegWait address 1).Within bumping 0 := fun address =>
    unmarked_within (Snapshots.readRegWait_unmarked address 1)
  have whole : mainTask.Within bumping (0 + (0 + 2)) := by
    simp only [mainTask, bind_eq]
    refine (reads _).bind fun _ => (reads _).bind fun _ => (?_ : Program.Within bumping _ 2)
    split
    next => exact ((unmarked_within Snapshots.clear_unmarked).bind fun _ => sends _).mono (Nat.zero_le 2)
    next => exact (fetches.bind fun _ => sends _).mono (Nat.le_refl 2)
  have ends : PriorMemory.cycle.Within bumping (2 + 0) := whole.bind fun _ => trivial
  exact ends

theorem starts (start : Machine δ) (calls : List AppCall) (cycles : Nat)
    {pool : Pool Thread RpiOp RpiOp.Reply (Machine δ) PriorMemory.Result} (fresh : pool.world = { state := start })
    (app : pool.threads .app = PriorMemory.performAll calls)
    (rt : pool.threads .rt = times PriorMemory.cycle cycles) :
    (protocol δ start.object (cost calls)).Holds (handle device) (fun _ _ _ => True) pool := by
  have kept : (protocol δ start.object (cost calls)).invariant pool.world := by
    rw [fresh]
    exact ⟨⟨⟨(BitVec.add_zero _).symm, fun _ _ => rfl⟩, .inl (idle_nil 4)⟩, Nat.zero_le _⟩
  refine ⟨kept, fun thread => ?_⟩
  cases thread with
  | app =>
    have none : Affords 0 pool.world := by
      rw [fresh]
      exact Nat.zero_le _
    rw [app]
    exact (performAll_affords calls kept (Nat.zero_add _).le none).mono fun _ _ _ _ => trivial
  | rt =>
    have idle : Idle 4 (marks pool.world.log) := by
      rw [fresh]
      exact idle_nil 4
    rw [rt]
    exact Protocol.ensures_along (fun acts _ _ _ bounded => bounded_step acts bounded)
      (Snapshots.cycles_ordered cycles kept.1 idle)

theorem performAll_unmarked (calls : List AppCall) : (PriorMemory.performAll calls).Uses fun op => mark op = none := by
  have each : ∀ index image, (copyWord index image).Uses fun op => mark op = none :=
    fun _ _ => ⟨rfl, fun _ => trivial⟩
  have round : attempt.Uses fun op => mark op = none :=
    ⟨rfl, fun _ => (Uses.forUp 4 0 0 each).bind fun _ => ⟨rfl, fun _ => trivial⟩⟩
  have receive : AppCall.receive.perform.Uses fun op => mark op = none := ⟨fun _ => round, fun _ => trivial⟩
  induction calls with
  | nil => trivial
  | cons call calls ih =>
    cases call with
    | send frame => exact (sendOutput_straight frame).uses.bind fun _ => ih
    | receive => exact receive.bind fun _ => ih

theorem bumps_made (log : Log δ) : bumps (marks log) = Pool.made bumping .app log + Pool.made bumping .rt log := by
  induction log using List.reverseRecOn with
  | nil => rfl
  | append_singleton log event ih =>
    rw [marks_append, bumps_append, Pool.made_snoc, Pool.made_snoc, ih]
    obtain ⟨thread, op, reply, state⟩ := event
    have one : bumps (marks [(⟨thread, op, reply, state⟩ : Event Thread RpiOp RpiOp.Reply (Machine δ))]) =
        if bumping op = true then 1 else 0 := by
      unfold bumping
      cases noted : mark op with
      | none => simp [marks, noted, bumps]
      | some entry => cases entry <;> simp [marks, noted, bumps, Mark.isWord]
    rw [one]
    cases thread <;> simp <;> omega

/-- Neither thread ever waits for the other, and the application is through after
a number of accesses that depends on the cycles only, however it is scheduled. -/
theorem retries_paid (device : Device δ) (memory : RpiBase) (state : δ) (stack : Nat → BitVec 32)
    (calls : List AppCall) (cycles : Nat) (schedule : List (Thread × Unit))
    (reached : Pool Thread RpiOp RpiOp.Reply (Machine (Recorded δ)) PriorMemory.Result)
    (zeroed : PriorMemory.Zeroed memory)
    (ran : (PriorMemory.pool memory state stack calls cycles).run (handle device.recorded) schedule = some reached) :
    accesses reached.world.log ≤ cost calls + 6 * bumps (marks reached.world.log) ∧
      bumps (marks reached.world.log) ≤ 2 * cycles ∧
      ∀ thread, (reached.threads thread).returned = none →
        (reached.step (handle device.recorded) thread ()).isSome = true := by
  refine ⟨?_, ?_, ?_⟩
  · exact (Protocol.run_holds (starts _ calls cycles rfl rfl rfl) ran).1.2
  · have app : Pool.made bumping .app reached.world.log ≤ 0 :=
      Pool.run_within (unmarked_within (performAll_unmarked calls)) ran
    have rt : Pool.made bumping .rt reached.world.log ≤ 0 + 2 * cycles :=
      Pool.run_within (Within.times cycle_within cycles) ran
    rw [bumps_made]
    omega
  · intro thread running
    have covers : PriorMemory.Zeroed memory → PriorMemory.Zeroed memory := id
    obtain ⟨_, _, holds⟩ := Tandem.run_holds (FreshObject.pool_holds covers) ran (.inl zeroed)
    exact holds.running running

/-- A chip in operation, and a round that a fetch makes the application repeat. -/
theorem retries_paid_once : ∃ reached,
    (PriorMemory.pool {} Snapshots.facing.device (fun _ => 0) [.send 3, .receive] 1).run (handle lan9252.recorded)
        (List.replicate 17 (.app, ()) ++ List.replicate 56 (.rt, ()) ++ List.replicate 4 (.app, ())) = some reached ∧
      accesses reached.world.log = 21 ∧ accesses reached.world.log ≤ 20 + 6 * bumps (marks reached.world.log) := by
  have ends : ((PriorMemory.pool {} Snapshots.facing.device (fun _ => 0) [.send 3, .receive] 1).run
      (handle lan9252.recorded) (List.replicate 17 (.app, ()) ++ List.replicate 56 (.rt, ()) ++
        List.replicate 4 (.app, ()))).map (fun reached => accesses reached.world.log) = some 21 := by decide +kernel
  obtain ⟨reached, ran, count⟩ := Option.map_eq_some_iff.mp ends
  exact ⟨reached, ran, count,
    (retries_paid lan9252 {} _ _ [.send 3, .receive] 1 _ reached ⟨rfl, by decide⟩ ran).1⟩

end EthercatSlave.Proofs.Retries
