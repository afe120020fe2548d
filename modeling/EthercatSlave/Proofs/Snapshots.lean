import EthercatSlave.History
import EthercatSlave.Proofs.Composition
import EthercatSlave.Proofs.InputImage
import EthercatSlave.Snapshots

/-! Copies of the output image call after call. The fetches publish whole and in
order what the chip sent; outside their word stores the newest image is in memory. -/

namespace EthercatSlave.Proofs.Snapshots
open Program Rpi Sharing SequenceLock Accesses EthercatSlave.InputImage EthercatSlave.Snapshots
open EthercatSlave.Proofs.InputImage (marks_append unmarked_kept acts_marks unmarked_reflects acts_steps)

variable {δ : Type} {device : Device δ} {start : RpiBase} {op : RpiOp} {reply : op.Reply}
  {before after world later : World Thread RpiOp RpiOp.Reply (Machine δ)}

section Cycle

variable {W : Type} {rules : Rules RpiOp RpiOp.Reply W} {world : W}

theorem readRegWait_unmarked (address : BitVec 16) (len : Byte) :
    (readRegWait address len).Uses fun op => mark op = none := by
  have poll : (loop (readReg ecatCsrCmd 4) csrBusy).Uses fun op => mark op = none :=
    ⟨fun _ => InputImage.readReg_unmarked _ _, fun _ => trivial⟩
  exact ⟨rfl, fun _ => (InputImage.writeReg_unmarked _ _).bind fun _ => poll.bind fun _ =>
    InputImage.readReg_unmarked _ _⟩

theorem clear_unmarked : (forUp clearWord 4 0 ()).Uses fun op => mark op = none :=
  Uses.forUp _ _ _ fun _ _ => ⟨rfl, fun _ => trivial⟩

theorem spiWriteProcRamFifo_unmarked : spiWriteProcRamFifo.Uses fun op => mark op = none := by
  have take : ∀ index, (forUp (takeWord index) 4 0 ()).Uses fun op => mark op = none :=
    fun index => Uses.forUp _ _ _ fun _ _ => ⟨rfl, fun _ => ⟨rfl, fun _ => trivial⟩⟩
  have send : ∀ index, (sendByte index ()).Uses fun op => mark op = none :=
    fun index => ⟨rfl, fun _ => ⟨rfl, fun _ => trivial⟩⟩
  have poll : (loop (readReg ecatPramWrCmd 4) writeNotReady).Uses fun op => mark op = none :=
    ⟨fun _ => InputImage.readReg_unmarked _ _, fun _ => trivial⟩
  refine ⟨rfl, fun index => (take index).bind fun _ => (InputImage.writeReg_unmarked _ _).bind fun _ =>
    (InputImage.writeReg_unmarked _ _).bind fun _ => poll.bind fun _ => ?_⟩
  refine ⟨rfl, fun _ => ⟨rfl, fun _ => ⟨rfl, fun _ => ⟨rfl, fun _ => ?_⟩⟩⟩⟩
  exact (Uses.forUp _ _ _ fun index _ => send index).bind fun _ => (send 31).bind fun _ => ⟨rfl, fun _ => trivial⟩

/-- What fetches keep, and programs that neither publish nor count, cycles keep. -/
theorem cycle_ensures (fact : W → Prop) (quiet : ∀ {α : Type} {program : Rpi α} {world : W},
      program.Uses (fun op => mark op = none) → fact world → rules.Ensures program (fun _ => fact) world)
    (fetches : ∀ {world : W}, rules.invariant world → fact world →
      rules.Ensures spiReadProcRamFifo (fun _ => fact) world)
    (kept : rules.invariant world) (holds : fact world) :
    rules.Ensures PriorMemory.cycle (fun _ => fact) world := by
  simp only [PriorMemory.cycle, mainTask, bind_eq]
  have send : ∀ (status : Byte) after, rules.invariant after → fact after →
      rules.Ensures (spiWriteProcRamFifo.bind fun _ => .pure status)
        (fun _ after => rules.Ensures (.pure ()) (fun _ => fact) after) after := by
    intro status after _ holds
    have ends : (spiWriteProcRamFifo.bind fun _ => .pure status).Uses fun op => mark op = none :=
      spiWriteProcRamFifo_unmarked.bind fun _ => trivial
    have last : (Program.pure () : Rpi Unit).Uses fun op => mark op = none := trivial
    exact (quiet ends holds).mono fun _ _ _ holds => quiet last holds
  refine .bind kept (.bind kept ((quiet (readRegWait_unmarked _ _) holds).mono fun _ _ kept holds => ?_))
  refine .bind kept ((quiet (readRegWait_unmarked _ _) holds).mono fun _ _ kept holds => ?_)
  split
  next => exact .bind kept ((quiet clear_unmarked holds).mono fun _ _ kept holds => send _ _ kept holds)
  next => exact .bind kept ((fetches kept holds).mono fun _ _ kept holds => send _ _ kept holds)

end Cycle

section Observing

theorem acts_observe {thread : Thread} (acts : Pool.acts (handle device) thread op before reply after) :
    observe after.log = (observe before.log).note ⟨thread, op, reply, after.state⟩ := by
  obtain ⟨_, _, grows⟩ := acts
  rw [grows, observe, List.foldl_append]
  rfl

theorem count_kept (observed : Observed) (counter : BitVec 32) :
    (observed.count counter).published = observed.published ∧ (observed.count counter).window = observed.window := by
  unfold Observed.count
  repeat' split
  all_goals exact ⟨rfl, rfl⟩

/-- An access that puts nothing on the bus. -/
def Offline : RpiOp → Prop
  | .select _ | .transfer _ => False
  | _ => True

/-- Only the real-time thread is on the bus. -/
theorem note_window (observed : Observed) {thread : Thread} {state : Machine δ} (offline : thread = .rt → Offline op) :
    (observed.note ⟨thread, op, reply, state⟩).window = observed.window := by
  unfold Observed.note
  split
  next same => cases same; exact (offline rfl).elim
  next same => cases same; exact (offline rfl).elim
  next => rfl
  next => exact (count_kept ..).2
  next => rfl

theorem app_window (observed : Observed) {state : Machine δ} :
    (observed.note ⟨.app, op, reply, state⟩).window = observed.window :=
  note_window observed fun impossible => (nomatch impossible)

theorem note_published (observed : Observed) {thread : Thread} {state : Machine δ}
    (other : thread = .rt → ∀ value, op ≠ .store (.bufferOutEthToSlaveBuffer 3) value) :
    (observed.note ⟨thread, op, reply, state⟩).published = observed.published := by
  unfold Observed.note
  split
  next => rfl
  next => rfl
  next same =>
    cases same
    exact absurd rfl (other rfl _)
  next => exact (count_kept ..).1
  next => rfl

end Observing

section Publishing

/-- An image is published as the chip sent it. -/
def Published (earlier : Log δ) (event : Event Thread RpiOp RpiOp.Reply (Machine δ)) : Prop :=
  event.thread = .rt → ∀ value, event.op = .store (.bufferOutEthToSlaveBuffer 3) value →
    fetched (observe earlier).window = some event.state.object.bufferOutEthToSlaveBuffer

/-- What the other thread must leave alone while an image is fetched and published. -/
structure Spared (before after : World Thread RpiOp RpiOp.Reply (Machine δ)) : Prop where
  published : after.state.object.bufferOutEthToSlaveBuffer = before.state.object.bufferOutEthToSlaveBuffer
  received : after.state.object.bufferOut = before.state.object.bufferOut
  window : (observe after.log).window = (observe before.log).window

/-- Only the real-time thread moved. -/
def Elsewhere (before after : World Thread RpiOp RpiOp.Reply (Machine δ)) : Prop :=
  ∃ more, after.log = before.log ++ more ∧ ∀ event ∈ more, event.thread = .rt

def publishing (δ : Type) : Protocol Thread RpiOp RpiOp.Reply (Machine δ) where
  invariant world := Throughout Published world.log
  rely
    | .app => Elsewhere
    | .rt => Spared
  guarantee
    | .app => Spared
    | .rt => Elsewhere
  refl thread world := by
    cases thread with
    | app => exact ⟨[], (List.append_nil _).symm, fun _ none => absurd none List.not_mem_nil⟩
    | rt => exact ⟨rfl, rfl, rfl⟩
  trans thread {first second third} left right := by
    cases thread with
    | app =>
      obtain ⟨more, grows, others⟩ := left
      obtain ⟨more', grows', others'⟩ := right
      refine ⟨more ++ more', by rw [grows', grows, List.append_assoc], fun event member => ?_⟩
      exact (List.mem_append.mp member).elim (others event) (others' event)
    | rt =>
      exact ⟨right.published.trans left.published, right.received.trans left.received, right.window.trans left.window⟩
  compatible {thread other before after} different step := by
    cases thread <;> cases other
    · exact absurd rfl different
    · exact step
    · exact step
    · exact absurd rfl different

/-- A step that publishes no last word keeps what was published faithful. -/
theorem faithful_step {thread : Thread} (acts : Pool.acts (handle device) thread op before reply after)
    (faithful : Throughout Published before.log)
    (last : Published before.log ⟨thread, op, reply, after.state⟩) : Throughout Published after.log := by
  obtain ⟨_, _, grows⟩ := acts
  rw [grows]
  exact Throughout.snoc_iff.mpr ⟨faithful, last⟩

theorem acts_elsewhere (acts : Pool.acts (handle device) .rt op before reply after) : Elsewhere before after := by
  obtain ⟨_, _, grows⟩ := acts
  refine ⟨_, grows, fun event member => ?_⟩
  cases List.mem_singleton.mp member
  rfl

theorem unmarked_publishes {α : Type} {program : Rpi α} (unmarked : program.Uses fun op => mark op = none) :
    ((publishing δ).rules (handle device) .rt).Ensures program (fun _ _ => True) world := by
  refine Rules.Ensures.of_uses (fun _ _ _ => trivial) ?_ unmarked trivial
  intro op before reply after unmarked faithful _ acts
  refine ⟨faithful_step acts faithful fun _ value stores => ?_, acts_elsewhere acts, trivial⟩
  cases stores
  cases unmarked

/-- Since chip select fell the FIFO was addressed and so many bytes came from it. -/
def Received (count : Nat) (world : World Thread RpiOp RpiOp.Reply (Machine δ)) : Prop :=
  ∃ (command : List (Byte × Byte)) (answers : List Byte), command.map Prod.fst = [0x03, 0x00, 0x00] ∧
    (observe world.log).window = command ++ answers.map (dummyByte, ·) ∧ answers.length = count ∧
      ∀ index < count, answers[index]? = some (byte world.state.object.bufferOut index)

theorem Received.stable {count : Nat} (spared : Spared world later) (received : Received count world) :
    Received count later := by
  unfold Received
  rw [spared.received, spared.window]
  exact received

theorem Received.whole (received : Received 32 world) :
    fetched (observe world.log).window = some world.state.object.bufferOut := by
  obtain ⟨command, answers, addressed, window, length, bytes⟩ := received
  have three : command.length = 3 := by simpa using congrArg List.length addressed
  have taken : (command ++ answers.map (dummyByte, ·)).take 3 = command := by rw [← three, List.take_left]
  have left : ((command ++ answers.map (dummyByte, ·)).drop 3).map Prod.snd = answers := by
    rw [← three, List.drop_left, List.map_map]
    exact List.map_id _
  rw [window, fetched, taken, left, if_pos ⟨addressed, by simp [three, length]⟩]
  refine congrArg some (eq_of_parts 8 32 (by decide) fun index inside => ?_)
  rw [part_setParts _ _ _ _ (by omega), if_pos (Nat.zero_le _), Nat.sub_zero, bytes index inside]
  rfl

/-- A byte of a window of the real-time thread. -/
theorem transfer_publishes {α : Type} {data : Byte} {next : Byte → Rpi α} {window : List (Byte × Byte)}
    {post : α → World Thread RpiOp RpiOp.Reply (Machine δ) → Prop} (known : (observe world.log).window = window)
    (rest : ∀ answer after, (publishing δ).invariant after →
      (observe after.log).window = window ++ [(data, answer)] →
      ((publishing δ).rules (handle device) .rt).Ensures (next answer) post after) :
    ((publishing δ).rules (handle device) .rt).Ensures (.request (.transfer data) next) post world := by
  intro between moves faithful answer after acts
  have faithful := faithful_step acts faithful fun _ _ stores => (nomatch stores)
  refine ⟨faithful, acts_elsewhere acts, rest answer after faithful ?_⟩
  rw [acts_observe acts, ← known, ← moves.window]
  rfl

theorem receiveByte_publishes {index : Nat} (inside : index < 32) (received : Received index world) :
    ((publishing δ).rules (handle device) .rt).Ensures (receiveByte index ()) (fun _ => Received (index + 1))
      world := by
  rw [receiveByte, bind_eq, spiRead_bind]
  intro between moves faithful (answer : Byte) middle acts
  refine ⟨faithful_step acts faithful fun _ _ stores => (nomatch stores), acts_elsewhere acts, ?_⟩
  obtain ⟨command, answers, addressed, window, length, bytes⟩ := received.stable moves
  have window : (observe middle.log).window = command ++ (answers ++ [answer]).map (dummyByte, ·) := by
    rw [acts_observe acts, List.map_append, ← List.append_assoc, ← window]
    rfl
  obtain ⟨_, performed, _⟩ := acts
  obtain ⟨_, same⟩ := Prod.mk.inj (Option.some.inj performed)
  have unchanged : middle.state.object = between.state.object := by rw [← same]
  intro between' moves' faithful' _ after acts'
  refine ⟨faithful_step acts' faithful' fun _ _ stores => (nomatch stores), acts_elsewhere acts', ?_⟩
  have stays : (observe after.log).window = (observe middle.log).window := by
    rw [acts_observe acts', ← moves'.window]
    exact note_window _ fun _ => trivial
  obtain ⟨_, performed', _⟩ := acts'
  obtain ⟨object, writes, stored⟩ := written performed'
  simp only [RpiBase.write, inside, if_true] at writes
  cases writes
  have received' : Received (index + 1) after := by
    refine ⟨command, answers ++ [answer], addressed, stays.trans window, by simp [length], fun other within => ?_⟩
    rw [stored]
    change _ = some (part 8 (setPart between'.state.object.bufferOut index answer) other)
    rw [moves'.received, unchanged]
    by_cases last : other = index
    · rw [last, ← length, List.getElem?_concat_length, length, part_setPart_self _ _ _ (by omega)]
    · rw [part_setPart_of_ne _ _ last, List.getElem?_append_left (by omega), bytes other (by omega)]
  exact fun _ moves'' _ => received'.stable moves''

theorem fetch_publishes (faithful : (publishing δ).invariant world) :
    ((publishing δ).rules (handle device) .rt).Ensures InputImage.fetch (fun _ => Received 32) world := by
  have polls : (loop (readReg ecatPramRdCmd 4) readNotReady).Uses fun op => mark op = none :=
    ⟨fun _ => InputImage.readReg_unmarked _ _, fun _ => trivial⟩
  simp only [InputImage.fetch, bind_eq]
  refine .bind faithful ((unmarked_publishes (InputImage.writeReg_unmarked _ _)).mono fun _ _ faithful _ => ?_)
  refine .bind faithful ((unmarked_publishes (InputImage.writeReg_unmarked _ _)).mono fun _ _ faithful _ => ?_)
  refine .bind faithful ((unmarked_publishes polls).mono fun _ _ _ _ => ?_)
  simp only [select_bind, spiWrite_bind]
  intro between _ faithful _ after acts
  have falls : (observe after.log).window = [] := by
    rw [acts_observe acts]
    rfl
  refine ⟨faithful_step acts faithful (by intro _ _ stores; cases stores), acts_elsewhere acts, ?_⟩
  refine transfer_publishes falls fun _ _ _ window => transfer_publishes window fun _ _ _ window => ?_
  refine transfer_publishes window fun _ addressed faithful window => ?_
  exact .forUp (fun index _ => Received index) (fun moves _ received => received.stable moves) 32 0 () addressed
    (fun index _ _ _ inside _ received => receiveByte_publishes (by omega) received) faithful
    ⟨_, [], rfl, window.trans (List.append_nil _).symm, rfl, fun _ none => absurd none (Nat.not_lt_zero _)⟩

/-- The image is received, and its first words are published. -/
structure Same (count : Nat) (world : World Thread RpiOp RpiOp.Reply (Machine δ)) : Prop where
  received : fetched (observe world.log).window = some world.state.object.bufferOut
  words : ∀ word < count, ul world.state.object.bufferOutEthToSlaveBuffer word = ul world.state.object.bufferOut word

theorem Same.stable {count : Nat} (spared : Spared world later) (same : Same count world) : Same count later := by
  refine ⟨?_, fun word inside => ?_⟩
  · rw [spared.window, spared.received]
    exact same.received
  · rw [spared.published, spared.received]
    exact same.words word inside

theorem publishWord_publishes {word : Nat} (inside : word < 4) (same : Same word world) :
    ((publishing δ).rules (handle device) .rt).Ensures (publishWord word ()) (fun _ => Same (word + 1)) world := by
  rw [publishWord, bind_eq, load_bind]
  intro between moves faithful (value : BitVec 64) middle acts
  have same := same.stable moves
  have still : (observe middle.log).window = (observe between.log).window := by
    rw [acts_observe acts]
    exact note_window _ fun _ => trivial
  refine ⟨faithful_step acts faithful fun _ _ stores => (nomatch stores), acts_elsewhere acts, ?_⟩
  obtain ⟨_, performed, _⟩ := acts
  obtain ⟨reads, loaded⟩ := loaded performed
  have held : ul between.state.object.bufferOut word = value := by
    simp only [RpiBase.read, inside, if_true] at reads
    exact Option.some.inj reads
  intro between' moves' faithful' _ after acts'
  have stays : (observe after.log).window = (observe between'.log).window := by
    rw [acts_observe acts']
    exact note_window _ fun _ => trivial
  obtain ⟨_, performed', _⟩ := id acts'
  obtain ⟨object, writes, stored⟩ := written performed'
  simp only [RpiBase.write, inside, if_true] at writes
  cases writes
  have fetched' : fetched (observe between'.log).window = some after.state.object.bufferOut := by
    rw [moves'.window, still, stored]
    change _ = some between'.state.object.bufferOut
    rw [moves'.received, loaded]
    exact same.received
  have same' : Same (word + 1) after := by
    refine ⟨stays ▸ fetched', fun other within => ?_⟩
    rw [stored]
    change part 64 (setPart _ word value) other = ul between'.state.object.bufferOut other
    rw [moves'.received, loaded]
    by_cases last : other = word
    · rw [last, held]
      exact part_setPart_self _ _ _ (by omega)
    · rw [part_setPart_of_ne _ _ last, moves'.published, loaded]
      exact same.words other (by omega)
  refine ⟨faithful_step acts' faithful' fun _ value' stores => ?_, acts_elsewhere acts',
    fun _ moves'' _ => same'.stable moves''⟩
  have last : word = 3 := by
    injection stores with cell _
    injection cell
  subst last
  rw [fetched']
  exact congrArg some (eq_of_parts 64 4 (by decide) same'.words).symm

theorem spiReadProcRamFifo_publishes (faithful : (publishing δ).invariant world) :
    ((publishing δ).rules (handle device) .rt).Ensures spiReadProcRamFifo (fun _ _ => True) world := by
  have counts : ∀ world : World Thread RpiOp RpiOp.Reply (Machine δ),
      ((publishing δ).rules (handle device) .rt).Ensures (increment .atomiccounter) (fun _ _ => True) world := by
    intro world between moves faithful value middle acts
    refine ⟨faithful_step acts faithful fun _ _ stores => (nomatch stores), acts_elsewhere acts, ?_⟩
    intro between' moves' faithful' _ after acts'
    exact ⟨faithful_step acts' faithful' fun _ _ stores => (nomatch stores), acts_elsewhere acts',
      fun _ _ _ => trivial⟩
  rw [InputImage.spiReadProcRamFifo_eq]
  refine .bind faithful ((counts world).mono fun _ _ faithful _ => ?_)
  refine .bind faithful ((fetch_publishes faithful).mono fun _ fetched faithful received => ?_)
  refine .bind faithful (Rules.Ensures.mono (.forUp (fun word _ => Same word) (fun moves _ same => same.stable moves)
    4 0 () fetched (fun word _ _ _ inside _ same => publishWord_publishes (by omega) same) faithful
    ⟨received.whole, fun _ none => absurd none (Nat.not_lt_zero _)⟩) ?_)
  intro _ published faithful _
  refine .bind faithful ((unmarked_publishes (.ask rfl)).mono fun _ released faithful _ => ?_)
  exact counts released

end Publishing

section Newest

/-- Outside the word stores of a fetch, memory holds the newest image. -/
def Current (start : RpiBase) (world : World Thread RpiOp RpiOp.Reply (Machine δ)) : Prop :=
  ¬ (0 < pending (marks world.log) ∧ pending (marks world.log) < 4) →
    (versions start world.log)[(observe world.log).published.length]? =
      some (some world.state.object.bufferOutEthToSlaveBuffer)

def protocol (δ : Type) (start : RpiBase) : Protocol Thread RpiOp RpiOp.Reply (Machine δ) :=
  ((InputImage.protocol δ start).both (publishing δ)).along (Current start)

/-- A step that neither counts nor publishes leaves the newest image in place. -/
theorem unmarked_current {thread : Thread} (acts : Pool.acts (handle device) thread op before reply after)
    (unmarked : mark op = none) (current : Current start before) : Current start after := by
  have same : marks after.log = marks before.log := by
    rw [acts_marks acts, unmarked]
    exact List.append_nil _
  have published : (observe after.log).published = (observe before.log).published := by
    rw [acts_observe acts]
    refine note_published _ fun _ value stores => ?_
    subst stores
    cases unmarked
  obtain ⟨_, performed, _⟩ := acts
  unfold Current versions
  rw [same, published, (unmarked_kept unmarked performed).2]
  exact current

theorem current_step (acts : Pool.acts (handle device) .rt op before reply after)
    (ordered : Ordered 4 (marks after.log)) (faithful : Throughout Published after.log) (current : Current start before) :
    Current start after := by
  cases noted : mark op with
  | none => exact unmarked_current acts noted current
  | some entry =>
    have grows : marks after.log = marks before.log ++ [entry] := by
      rw [acts_marks acts, noted]
      rfl
    rw [grows] at ordered
    have observed := acts_observe acts
    cases op with
    | store cell value =>
      cases cell with
      | atomiccounter =>
        cases noted
        have published : (observe after.log).published = (observe before.log).published := by
          rw [observed]
          exact note_published _ fun _ _ stores => (nomatch stores)
        obtain ⟨_, performed, _⟩ := acts
        obtain ⟨object, writes, same⟩ := written performed
        cases writes
        intro _
        unfold versions
        rw [published, same]
        refine current fun between => ?_
        rcases ordered.bumped with none | all <;> omega
      | bufferOutEthToSlaveBuffer word =>
        cases noted
        obtain ⟨inside, pending⟩ := ordered.stored
        intro settled
        rw [grows, pending] at settled
        have last : word = 3 := by omega
        subst last
        obtain ⟨_, _, added⟩ := acts
        have sent : fetched (observe before.log).window = some after.state.object.bufferOutEthToSlaveBuffer := by
          rw [added] at faithful
          exact (Throughout.snoc_iff.mp faithful).2 rfl value rfl
        have published : (observe after.log).published =
            (observe before.log).published ++ [some after.state.object.bufferOutEthToSlaveBuffer] := by
          rw [observed, ← sent]
          rfl
        unfold versions
        rw [published]
        simp
      | _ => cases noted
    | _ => cases noted

/-- Cycles keep the history in order. -/
theorem cycles_ordered (cycles : Nat) (kept : (InputImage.protocol δ start).invariant world)
    (idle : Idle 4 (marks world.log)) :
    ((InputImage.protocol δ start).rules (handle device) .rt).Ensures (times PriorMemory.cycle cycles)
      (fun _ _ => True) world := by
  let idles (world : World Thread RpiOp RpiOp.Reply (Machine δ)) : Prop := Idle 4 (marks world.log)
  have stable : ∀ {world later}, InputImage.Interferes .rt world later →
      (InputImage.protocol δ start).invariant later → idles world → idles later := by
    intro world later moves _ holds
    rwa [show idles later = Idle 4 (marks later.log) from rfl, InputImage.rely_marks moves]
  have quiet : ∀ {α : Type} {program : Rpi α} {world : World Thread RpiOp RpiOp.Reply (Machine δ)},
      program.Uses (fun op => mark op = none) → idles world →
      ((InputImage.protocol δ start).rules (handle device) .rt).Ensures program (fun _ => idles) world :=
    fun unmarked idle => InputImage.unmarked_ensures unmarked idle
  have fetches : ∀ {world : World Thread RpiOp RpiOp.Reply (Machine δ)},
      (InputImage.protocol δ start).invariant world → idles world →
      ((InputImage.protocol δ start).rules (handle device) .rt).Ensures spiReadProcRamFifo (fun _ => idles) world :=
    fun kept idle => InputImage.spiReadProcRamFifo_ensures kept idle
  exact (Rules.Ensures.times idles stable (fun _ kept idle => cycle_ensures idles quiet fetches kept idle) cycles _ kept
    idle).mono fun _ _ _ _ => trivial

theorem cycles_publish (cycles : Nat) (faithful : Throughout Published world.log) :
    ((publishing δ).rules (handle device) .rt).Ensures (times PriorMemory.cycle cycles) (fun _ _ => True) world := by
  have each : ∀ world, Throughout Published world.log → True →
      ((publishing δ).rules (handle device) .rt).Ensures PriorMemory.cycle (fun _ _ => True) world :=
    fun world faithful _ => cycle_ensures (fun _ => True) (fun unmarked _ => unmarked_publishes unmarked)
      (fun faithful _ => spiReadProcRamFifo_publishes faithful) faithful trivial
  exact Rules.Ensures.times (fun _ => True) (fun _ _ _ => trivial) each cycles world faithful trivial

theorem cycles_keep (cycles : Nat) (kept : (protocol δ start).invariant world) (idle : Idle 4 (marks world.log)) :
    ((protocol δ start).rules (handle device) .rt).Ensures (times PriorMemory.cycle cycles) (fun _ _ => True)
      world := by
  have ordered : ((InputImage.protocol δ start).rules (handle device) .rt).Ensures (times PriorMemory.cycle cycles)
      (fun _ _ => True) world := cycles_ordered cycles kept.1.1 idle
  have together := Protocol.ensures_both ordered (cycles_publish cycles kept.1.2)
  have current : ∀ {op before reply after}, Pool.acts (handle device) .rt op before reply after →
      ((InputImage.protocol δ start).both (publishing δ)).invariant before →
      ((InputImage.protocol δ start).both (publishing δ)).invariant after →
      ((InputImage.protocol δ start).both (publishing δ)).guarantee .rt before after →
      Current start before → Current start after :=
    fun acts _ kept _ current => current_step acts kept.1.2 kept.2 current
  exact (Protocol.ensures_along current together).mono fun _ _ _ _ => trivial

end Newest

section Rounds

/-- Without a read of the counter no round begins or ends. -/
theorem observe_quiet (log : Log δ) {more : Log δ} (quiet : more.filterMap counterRead = []) : ∃ window published,
    observe (log ++ more) =
      { observe log with window := window, published := (observe log).published ++ published } := by
  induction more using List.reverseRecOn with
  | nil => exact ⟨(observe log).window, [], by simp⟩
  | append_singleton more event ih =>
    rw [List.filterMap_append, List.append_eq_nil_iff] at quiet
    obtain ⟨window, published, same⟩ := ih quiet.1
    have noted : observe (log ++ (more ++ [event])) = (observe (log ++ more)).note event := by
      rw [observe, ← List.append_assoc, List.foldl_append]
      rfl
    rw [noted, same]
    unfold Observed.note
    split
    next => exact ⟨[], published, rfl⟩
    next => exact ⟨_, published, rfl⟩
    next => exact ⟨window, published ++ [fetched window], by simp⟩
    next => exact absurd quiet.2 (by simp [counterRead])
    next => exact ⟨window, published, rfl⟩

/-- A round notes the number of images at its start, if the counter stood still. -/
theorem observe_round {earlier during : Log δ} {counter counter' : BitVec 32} {state state' : Machine δ}
    (closed : (observe earlier).opened = none) (quiet : during.filterMap counterRead = []) : ∃ window published,
    observe (earlier ++ ⟨.app, .load .atomiccounter, counter, state⟩ ::
        (during ++ [⟨.app, .load .atomiccounter, counter', state'⟩])) =
      { window
        published := (observe earlier).published ++ published
        opened := none
        snapshots := if counter = counter' then
            (observe earlier).snapshots ++ [(observe earlier).published.length]
          else (observe earlier).snapshots } := by
  obtain ⟨window, published, going⟩ :=
    observe_quiet (earlier ++ [⟨.app, .load .atomiccounter, counter, state⟩]) quiet
  refine ⟨window, published, ?_⟩
  have begun : observe (earlier ++ [⟨.app, .load .atomiccounter, counter, state⟩]) =
      (observe earlier).count counter := by
    rw [observe, List.foldl_append]
    rfl
  have ended : observe (earlier ++ ⟨.app, .load .atomiccounter, counter, state⟩ ::
      (during ++ [⟨.app, .load .atomiccounter, counter', state'⟩])) =
      (observe (earlier ++ [⟨.app, .load .atomiccounter, counter, state⟩] ++ during)).count counter' := by
    rw [← List.singleton_append, ← List.append_assoc, ← List.append_assoc, observe, List.foldl_append]
    rfl
  rw [ended, going, begun]
  simp only [Observed.count, closed]
  split <;> rfl

theorem elsewhere_quiet {more : Log δ} (others : ∀ event ∈ more, event.thread = .rt) :
    more.filterMap counterRead = [] := by
  refine List.filterMap_eq_nil_iff.mpr fun event member => ?_
  unfold counterRead
  split
  · exact absurd (others _ member) (by simp)
  · rfl

end Rounds

section Application

/-- What the application does to the shared data: nothing an image depends on. -/
def Passive : RpiOp → Prop
  | .store .atomiccounter _ => False
  | .store (.bufferOutEthToSlaveBuffer _) _ => False
  | .store (.bufferOut _) _ => False
  | .store (.bufferOutByte _) _ => False
  | _ => True

theorem passive_unmarked (passive : Passive op) : mark op = none := by
  cases op with
  | store cell value => cases cell <;> first | rfl | exact passive.elim
  | _ => rfl

theorem passive_spared {machine following : Machine δ} (passive : Passive op)
    (performed : device.perform op machine = some (reply, following)) :
    following.object.bufferOut = machine.object.bufferOut := by
  cases op with
  | select level => cases performed; rfl
  | transfer data => cases performed; rfl
  | indeterminate => cases performed; rfl
  | load cell => rw [(loaded performed).2]
  | store cell value =>
    obtain ⟨object, writes, rfl⟩ := written performed
    cases cell with
    | atomiccounter => exact passive.elim
    | bufferOutEthToSlaveBuffer word => exact passive.elim
    | bufferOut word => exact passive.elim
    | bufferOutByte index => exact passive.elim
    | _ =>
      simp only [RpiBase.write] at writes
      repeat' split at writes
      all_goals cases writes <;> rfl

theorem passive_step (acts : Pool.acts (handle device) .app op before reply after) (passive : Passive op)
    (kept : (protocol δ start).invariant before) :
    (protocol δ start).invariant after ∧ (protocol δ start).guarantee .app before after := by
  have unmarked := passive_unmarked passive
  have faithful := faithful_step acts kept.1.2 fun impossible => (nomatch impossible)
  refine ⟨⟨⟨unmarked_reflects unmarked acts kept.1.1, faithful⟩, unmarked_current acts unmarked kept.2⟩,
    acts_steps acts fun _ => unmarked, ?_⟩
  have window := acts_observe acts
  obtain ⟨_, performed, _⟩ := acts
  refine ⟨(unmarked_kept unmarked performed).2, passive_spared passive performed, ?_⟩
  rw [window, app_window]

/-- The images delivered so far are the versions noted so far. -/
structure Seen (start : RpiBase) (delivered : List ProcBuffer) (world : World Thread RpiOp RpiOp.Reply (Machine δ)) :
    Prop where
  closed : (observe world.log).opened = none
  images : Clear world.log → delivered.map some =
    (observe world.log).snapshots.map fun version => (versions start world.log)[version]?.join

theorem clear_left {first second : Log δ} (clear : Clear (first ++ second)) : Clear first := by
  intro before during accepted
  obtain ⟨opens, closes, later, counter, same, facts⟩ := accepted
  refine clear before during ⟨opens, closes, later ++ second, counter, ?_, facts⟩
  rw [same]
  simp only [List.append_assoc, List.cons_append]

/-- Images that were published stay the versions they are. -/
theorem versions_kept {first : Log δ} {published : List (Option ProcBuffer)} {second : Log δ}
    {delivered : List ProcBuffer} {numbers : List Nat}
    (grows : (observe second).published = (observe first).published ++ published)
    (same : delivered.map some = numbers.map fun version => (versions start first)[version]?.join) :
    delivered.map some = numbers.map fun version => (versions start second)[version]?.join := by
  rw [same]
  refine List.map_congr_left fun version member => ?_
  have present : (versions start first)[version]?.join ∈ delivered.map some := by
    rw [same]
    exact List.mem_map.mpr ⟨version, member, rfl⟩
  obtain ⟨image, _, holds⟩ := List.mem_map.mp present
  have inside := (List.getElem?_eq_some_iff.mp (Option.join_eq_some_iff.mp holds.symm)).1
  rw [show versions start second = versions start first ++ published by
    unfold versions
    rw [grows, List.cons_append], List.getElem?_append_left inside]

theorem Seen.stable {delivered : List ProcBuffer} (moves : Elsewhere world later) (seen : Seen start delivered world) :
    Seen start delivered later := by
  obtain ⟨more, grows, others⟩ := moves
  obtain ⟨_, published, same⟩ := observe_quiet world.log (elsewhere_quiet others)
  refine ⟨?_, fun clear => ?_⟩
  · rw [grows, same]
    exact seen.closed
  · rw [grows] at clear ⊢
    have growth : (observe (world.log ++ more)).published = (observe world.log).published ++ published := by rw [same]
    rw [versions_kept growth (seen.images (clear_left clear)), same]

/-- The words of an accepted copy are those of the image its round began with. -/
theorem copied_newest {earlier during : Log δ} {counter : BitVec 32} {image : ProcBuffer}
    (copied : InputImage.Copied start earlier during counter 4 image)
    (ordered : Ordered 4 (marks earlier ++ marks during))
    (counted : counter = start.atomiccounter + BitVec.ofNat 32 (bumps (marks earlier ++ marks during)))
    (few : bumps (marks during) < 2 ^ 32)
    (apart : ¬ (pending (marks earlier) < 4 ∧ 0 < pending (marks earlier ++ marks during))) :
    ¬ (0 < pending (marks earlier) ∧ pending (marks earlier) < 4) ∧ ∀ index < 4,
      ul image index = content (ul start.bufferOutEthToSlaveBuffer) (marks earlier) index := by
  have same := copied.counted.symm.trans counted
  rw [bumps_append] at same
  have still := InputImage.bumps_still _ _ _ few same
  have nothing : marks during = [] := unmoved copied.ordered ordered still apart
  rw [nothing, List.append_nil] at apart
  refine ⟨fun between => apart between.symm, fun index inside => ?_⟩
  obtain ⟨seen, rest, split, holds⟩ := copied.words index inside
  rw [split, marks_append] at nothing
  rw [holds, (List.append_eq_nil_iff.mp nothing).1, List.append_nil]

theorem app_current (acts : Pool.acts (handle device) .app op before reply after)
    (_ : ((InputImage.protocol δ start).both (publishing δ)).invariant before)
    (_ : ((InputImage.protocol δ start).both (publishing δ)).invariant after)
    (guarantees : ((InputImage.protocol δ start).both (publishing δ)).guarantee .app before after)
    (current : Current start before) : Current start after := by
  obtain ⟨event, grows, own, quiet⟩ := guarantees.1
  obtain ⟨_, _, added⟩ := id acts
  have same := List.append_cancel_left (grows.symm.trans added)
  cases same
  exact unmarked_current acts (quiet rfl) current

theorem copyWord_publishes {word : Nat} {image : ProcBuffer} :
    ((publishing δ).rules (handle device) .app).Ensures (copyWord word image) (fun _ _ => True) world := by
  rw [copyWord, bind_eq, load_bind]
  intro between moves faithful value after acts
  refine ⟨faithful_step acts faithful fun impossible => (nomatch impossible), ?_, fun _ _ _ => trivial⟩
  have window := acts_observe acts
  obtain ⟨_, performed, _⟩ := acts
  have same := (loaded performed).2
  refine ⟨by rw [same], by rw [same], ?_⟩
  rw [window, app_window]

theorem copy_ensures {earlier : Log δ} {first : Event Thread RpiOp RpiOp.Reply (Machine δ)} {counter : BitVec 32}
    (silent : mark first.op = none) (kept : (protocol δ start).invariant world)
    (copying : InputImage.Copying start earlier first counter 0 0 world) :
    ((protocol δ start).rules (handle device) .app).Ensures (forUp copyWord 4 0 0)
      (InputImage.Copying start earlier first counter 4) world := by
  refine Rules.Ensures.forUp (InputImage.Copying start earlier first counter) ?_ 4 0 0 world ?_ kept copying
  · exact fun moves _ copying => copying.stable moves.1
  · intro count image world _ inside _ copying
    exact (Protocol.ensures_along app_current (Protocol.ensures_both
      (InputImage.copyWord_ensures (by omega) silent copying) copyWord_publishes)).mono fun _ _ _ copies => copies.1

/-- An accepted copy is the newest image of the moment its round began. -/
theorem accepted_seen {delivered : List ProcBuffer} {counter : BitVec 32} {image : ProcBuffer} {state : Machine δ}
    {first : Event Thread RpiOp RpiOp.Reply (Machine δ)} (seen : Seen start delivered before)
    (current : Current start before) (reflects : InputImage.Reflects start before.state.object (marks before.log))
    (opens : first = ⟨.app, .load .atomiccounter, counter, state⟩)
    (copying : InputImage.Copying start before.log first counter 4 image world)
    (kept : (protocol δ start).invariant world) (same : world.state.object.atomiccounter = counter)
    (acts : Pool.acts (handle device) .app (.load .atomiccounter) world counter after) :
    Seen start (delivered ++ [image]) after := by
  obtain ⟨during, log, copied⟩ := copying
  subst opens
  obtain ⟨_, _, grows⟩ := acts
  have grows : after.log = before.log ++ ⟨.app, .load .atomiccounter, counter, state⟩ ::
      (during ++ [⟨.app, .load .atomiccounter, counter, after.state⟩]) := by
    rw [grows, log, List.append_assoc, List.cons_append]
  obtain ⟨_, published, observed⟩ := observe_round seen.closed copied.alone
  rw [if_pos rfl, ← grows] at observed
  have history : marks world.log = marks before.log ++ marks during := by
    rw [log, marks_append]
    rfl
  refine ⟨by rw [observed], fun clear => ?_⟩
  have accepted : Accepted after.log before.log during :=
    ⟨_, _, [], counter, grows, rfl, copied.alone, by rw [copied.reads]; rfl, rfl⟩
  obtain ⟨few, apart⟩ := clear before.log during accepted
  have counted : counter = start.atomiccounter + BitVec.ofNat 32 (bumps (marks before.log ++ marks during)) := by
    rw [← history, ← same]
    exact kept.1.1.1.counter
  obtain ⟨settled, words⟩ := copied_newest copied (history ▸ kept.1.1.2) counted few apart
  have newest : image = before.state.object.bufferOutEthToSlaveBuffer :=
    eq_of_parts 64 4 (by decide) fun index inside => (words index inside).trans (reflects.words index inside).symm
  have earlier : Clear before.log := clear_left (grows ▸ clear)
  have growth : (observe after.log).published = (observe before.log).published ++ published := by rw [observed]
  have delivers : (delivered ++ [image]).map some = ((observe before.log).snapshots ++
      [(observe before.log).published.length]).map fun version => (versions start before.log)[version]?.join := by
    rw [List.map_append, List.map_append, seen.images earlier, newest]
    exact congrArg _ (congrArg (fun entry => [Option.join entry]) (current settled).symm)
  rw [versions_kept growth delivers, observed]

/-- A round that is not accepted leaves what was seen. -/
theorem refused_seen {delivered : List ProcBuffer} {counter counter' : BitVec 32} {state : Machine δ}
    {during : Log δ} (seen : Seen start delivered before) (moved : counter ≠ counter')
    (quiet : during.filterMap counterRead = [])
    (grows : after.log = before.log ++ ⟨.app, .load .atomiccounter, counter, state⟩ ::
      (during ++ [⟨.app, .load .atomiccounter, counter', after.state⟩])) : Seen start delivered after := by
  obtain ⟨_, published, observed⟩ := observe_round seen.closed quiet
  rw [if_neg moved, ← grows] at observed
  refine ⟨by rw [observed], fun clear => ?_⟩
  have growth : (observe after.log).published = (observe before.log).published ++ published := by rw [observed]
  rw [versions_kept growth (seen.images (clear_left (grows ▸ clear))), observed]

theorem attempt_seen {delivered : List ProcBuffer} (seen : Seen start delivered world) :
    ((protocol δ start).rules (handle device) .app).Ensures attempt
      (Rules.Exits Prod.snd (fun _ => Seen start delivered) fun last =>
        ((protocol δ start).rules (handle device) .app).Ensures (.pure last.1)
          (fun image => Seen start (delivered ++ [image]))) world := by
  rw [attempt, bind_eq, load_bind]
  intro between moves kept (counter : BitVec 32) middle acts
  have seen := seen.stable moves.2
  obtain ⟨begun, guarantees⟩ := passive_step acts trivial kept
  refine ⟨begun, guarantees, ?_⟩
  obtain ⟨_, performed, grows⟩ := acts
  have counted : between.state.object.atomiccounter = counter := Option.some.inj (loaded performed).1
  have starts : InputImage.Copying start between.log ⟨.app, .load .atomiccounter, counter, middle.state⟩ counter 0 0
      middle :=
    ⟨[], grows, kept.1.1.2, counted.symm.trans kept.1.1.1.counter, rfl, rfl,
      fun _ none => absurd none (Nat.not_lt_zero _)⟩
  refine .bind begun ((copy_ensures rfl begun starts).mono ?_)
  intro image _ _ copying between' moves' copied (counter' : BitVec 32) after acts'
  obtain ⟨ended, guarantees'⟩ := passive_step acts' trivial copied
  refine ⟨ended, guarantees', ?_⟩
  have copying := copying.stable moves'.1
  obtain ⟨_, performed', grows'⟩ := id acts'
  have counted' : between'.state.object.atomiccounter = counter' := Option.some.inj (loaded performed').1
  intro later moves'' _
  refine Rules.Exits.intro (fun again => ?_) fun still => ?_
  · have moved : counter ≠ counter' := of_decide_eq_false (Eq.mp (Bool.not_eq_true' _) again)
    obtain ⟨during, log, finished⟩ := copying
    have round : after.log = between.log ++ ⟨.app, .load .atomiccounter, counter, middle.state⟩ ::
        (during ++ [⟨.app, .load .atomiccounter, counter', after.state⟩]) := by
      rw [grows', log, List.append_assoc, List.cons_append]
    exact (refused_seen seen moved finished.alone round).stable moves''.2
  · have same : counter = counter' := of_decide_eq_true (Eq.mp (Bool.not_eq_false' _) still)
    subst same
    have delivered := accepted_seen seen kept.2 kept.1.1.1 rfl copying copied counted' acts'
    intro last stays _
    exact (delivered.stable moves''.2).stable stays.2

theorem receiveInput_seen {delivered : List ProcBuffer} (kept : (protocol δ start).invariant world)
    (seen : Seen start delivered world) : ((protocol δ start).rules (handle device) .app).Ensures receiveInput
      (fun image => Seen start (delivered ++ [image])) world :=
  Rules.Ensures.loop (fun _ => Seen start delivered) kept seen fun _ _ _ seen => attempt_seen seen

/-- The accesses of `send_output`: it neither reads the counter nor stores anything an image depends on. -/
def Sends : RpiOp → Prop
  | .load .atomiccounter => False
  | op => Passive op

theorem sendOutput_sends (frame : ProcBuffer) : (sendOutput frame).Uses Sends := by
  have words : (forUp (queueWord frame) 4 0 ()).Uses Sends :=
    Uses.forUp _ _ _ fun _ _ => ⟨trivial, fun _ => ⟨trivial, fun _ => trivial⟩⟩
  refine words.bind fun _ => ⟨trivial, fun _ => ⟨trivial, fun _ => ⟨trivial, fun _ => ⟨trivial, fun _ =>
    ⟨trivial, fun (index : BitVec 32) => ?_⟩⟩⟩⟩⟩
  change (if qinSize ≤ index.toNat then store .curqidx 0 else .pure ()).Uses Sends
  split
  · exact ⟨trivial, fun _ => trivial⟩
  · trivial

theorem sendOutput_seen (frame : ProcBuffer) {delivered : List ProcBuffer} (seen : Seen start delivered world) :
    ((protocol δ start).rules (handle device) .app).Ensures (sendOutput frame) (fun _ => Seen start delivered)
      world := by
  refine Rules.Ensures.of_uses (fun moves _ seen => seen.stable moves.2) ?_ (sendOutput_sends frame) seen
  intro op before reply after sends kept seen acts
  have passive : Passive op := by
    cases op with
    | load cell => trivial
    | _ => exact sends
  obtain ⟨kept', guarantees⟩ := passive_step acts passive kept
  refine ⟨kept', guarantees, ?_⟩
  obtain ⟨_, _, grows⟩ := acts
  have quiet : [(⟨.app, op, reply, after.state⟩ : Event Thread RpiOp RpiOp.Reply (Machine δ))].filterMap
      counterRead = [] := by
    cases op with
    | load cell => cases cell <;> first | rfl | exact sends.elim
    | _ => rfl
  obtain ⟨_, published, same⟩ := observe_quiet before.log quiet
  rw [← grows] at same
  have growth : (observe after.log).published = (observe before.log).published ++ published := by rw [same]
  refine ⟨by rw [same]; exact seen.closed, fun clear => ?_⟩
  rw [versions_kept growth (seen.images (clear_left (grows ▸ clear))), same]

theorem performAll_seen (calls : List PriorMemory.AppCall) {delivered : List ProcBuffer}
    (kept : (protocol δ start).invariant world) (seen : Seen start delivered world) :
    ((protocol δ start).rules (handle device) .app).Ensures (performAll calls)
      (fun images => Seen start (delivered ++ images)) world := by
  induction calls generalizing delivered world with
  | nil =>
    intro later moves _
    rw [List.append_nil]
    exact seen.stable moves.2
  | cons call calls ih =>
    cases call with
    | send frame =>
      exact .bind kept ((sendOutput_seen frame seen).mono fun _ _ kept seen => ih kept seen)
    | receive =>
      refine .bind kept ((receiveInput_seen kept seen).mono fun image _ kept seen => ?_)
      refine .bind kept ((ih kept seen).mono fun images _ _ seen later moves _ => ?_)
      rw [List.append_assoc] at seen
      exact seen.stable moves.2

end Application
def Promised (start : RpiBase) :
    (thread : Thread) → Snapshots.Result thread → World Thread RpiOp RpiOp.Reply (Machine δ) → Prop
  | .app, images => Seen start images
  | .rt, _ => fun _ => True

theorem starts (start : Machine δ) (calls : List PriorMemory.AppCall) (cycles : Nat) :
    (protocol δ start.object).Holds (handle device) (Promised start.object) (pool start calls cycles) := by
  have reflects : InputImage.Reflects start.object start.object (marks ([] : Log δ)) :=
    ⟨(BitVec.add_zero _).symm, fun _ _ => rfl⟩
  have kept : (protocol δ start.object).invariant (pool start calls cycles).world :=
    ⟨⟨⟨reflects, .inl (idle_nil 4)⟩, Throughout.nil⟩, fun _ => rfl⟩
  have nothing : Seen start.object [] (pool start calls cycles).world := ⟨rfl, fun _ => rfl⟩
  refine ⟨kept, fun thread => ?_⟩
  cases thread with
  | app =>
    exact performAll_seen calls kept nothing
  | rt => exact cycles_keep cycles kept (idle_nil 4)

/-- Call after call, `receive_input` delivers the newest image of the moment its
accepted round began, as the chip sent it. -/
theorem newest_in_order (device : Device δ) (start : Machine δ) (calls : List PriorMemory.AppCall) (cycles : Nat)
    (schedule : List (Thread × Unit)) (final : Pool Thread RpiOp RpiOp.Reply (Machine δ) Snapshots.Result)
    (images : List ProcBuffer) (ran : (pool start calls cycles).run (handle device) schedule = some final)
    (returned : final.threads .app = .pure images) (clear : Clear final.world.log) :
    images.map some = (observe final.world.log).snapshots.map
      fun version => (versions start.object final.world.log)[version]?.join :=
  ((Protocol.run_holds (starts start calls cycles) ran).returned returned).images clear

/-- Copies that all come after the fetches overlap none of them. -/
theorem clear_after {first second : Log δ} (uncounted : first.filterMap counterRead = [])
    (unmarked : marks second = []) (settled : pending (marks first) = 0) : Clear (first ++ second) := by
  intro earlier during accepted
  obtain ⟨opens, closes, later, counter, same, reads, _⟩ := accepted
  obtain ⟨rest, rfl, tail⟩ : ∃ rest, earlier = first ++ rest ∧ second = rest ++ opens :: (during ++ closes :: later) := by
    rcases List.append_eq_append_iff.mp same with ⟨rest, split, tail⟩ | ⟨rest, split, tail⟩
    · exact ⟨rest, split, tail⟩
    · cases rest with
      | nil => exact ⟨[], by rw [List.append_nil] at split ⊢; exact split.symm, tail.symm⟩
      | cons event rest =>
        injection tail with here
        subst here
        rw [split, List.filterMap_append] at uncounted
        exact absurd (List.append_eq_nil_iff.mp uncounted).2 (by simp [reads])
  rw [tail, marks_append, ← List.singleton_append, marks_append, marks_append] at unmarked
  simp only [List.append_eq_nil_iff] at unmarked
  rw [marks_append, unmarked.1, unmarked.2.2.1, List.append_nil, List.append_nil, settled]
  exact ⟨by decide, fun overlaps => absurd overlaps.2 (Nat.lt_irrefl 0)⟩

/-- A chip in operation whose output image is 0, 1, 2 up to 31. -/
def operating (address : BitVec 16) : Byte :=
  if address = 0x0130 then 0x08 else if address = 0x0440 then 0x01 else address.setWidth 8

def facing : Machine Lan9252 := ⟨RpiBase.construct {}, ⟨.released, .prompt operating⟩, fun _ => 0⟩

def counted : ProcBuffer := 0x1F1E1D1C1B1A191817161514131211100F0E0D0C0B0A09080706050403020100

/-- Two calls after a fetch. -/
theorem newest_fetched : ∃ final, (pool facing [.receive, .receive] 1).run (handle lan9252)
      (List.replicate 163 (.rt, ()) ++ List.replicate 12 (.app, ())) = some final ∧
    final.threads .app = .pure [counted, counted] ∧
    [counted, counted].map some = (observe final.world.log).snapshots.map
      fun version => (versions facing.object final.world.log)[version]?.join := by
  have ends : ((pool facing [.receive, .receive] 1).run (handle lan9252)
      (List.replicate 163 (.rt, ()) ++ List.replicate 12 (.app, ()))).map (fun final =>
        ((final.threads .app).returned, (final.world.log.take 163).filterMap counterRead,
          (marks (final.world.log.drop 163)).length, pending (marks (final.world.log.take 163)))) =
      some (some [counted, counted], [], 0, 0) := by decide +kernel
  obtain ⟨final, ran, facts⟩ := Option.map_eq_some_iff.mp ends
  obtain ⟨returned, facts⟩ := Prod.mk.inj facts
  obtain ⟨uncounted, facts⟩ := Prod.mk.inj facts
  obtain ⟨unmarked, settled⟩ := Prod.mk.inj facts
  have clear := clear_after uncounted (List.eq_nil_of_length_eq_zero unmarked) settled
  rw [List.take_append_drop] at clear
  have ended := Program.returned_iff.mp returned
  exact ⟨final, ran, ended, newest_in_order lan9252 facing [.receive, .receive] 1 _ final _ ran ended clear⟩

end EthercatSlave.Proofs.Snapshots
