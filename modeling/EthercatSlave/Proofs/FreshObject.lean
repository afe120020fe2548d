import EthercatSlave.History
import EthercatSlave.Lan9252
import EthercatSlave.PriorMemory
import EthercatSlave.Proofs.Accesses
import EthercatSlave.Proofs.Endings
import EthercatSlave.Proofs.Lockstep

/-! An object on arbitrary memory beside one on zeroed memory, under one schedule.
What the constructor left unset is read in two places only: the image of
`receive_input`, which is never sent, and the slot of the current index. -/

namespace EthercatSlave.Proofs.FreshObject
open Program Rpi Sharing PriorMemory Accesses Couple

variable {δ α β : Type} {device : Device δ} {good : Prop}

abbrev Worlds (δ : Type) :=
  World Thread RpiOp RpiOp.Reply (Machine (Recorded δ)) × World Thread RpiOp RpiOp.Reply (Machine (Recorded δ))

abbrev object (worlds : Worlds δ) : RpiBase := worlds.1.state.object
abbrev copy (worlds : Worlds δ) : RpiBase := worlds.2.state.object

/-- The slot holds the same frame in both objects. -/
def Settled (index : BitVec 32) (worlds : Worlds δ) : Prop :=
  ∃ inside : index.toNat < qinSize, (object worlds).fromSlaveBufferIn ⟨index.toNat, inside⟩ =
    (copy worlds).fromSlaveBufferIn ⟨index.toNat, inside⟩

/-- What the two worlds have in common. The current slot counts once it was handed
over, and from the start where the memory was `good`. -/
structure Alike (good : Prop) (worlds : Worlds δ) : Prop where
  device : worlds.1.state.device = worlds.2.state.device
  stack : worlds.1.state.stack = worlds.2.state.stack
  counter : (object worlds).atomiccounter = (copy worlds).atomiccounter
  curqidx : (object worlds).curqidx = (copy worlds).curqidx
  curqoutidx : good ∨ Handed worlds.1.log → (object worlds).curqoutidx = (copy worlds).curqoutidx ∧
    Settled (object worlds).curqoutidx worlds

/-- No word of the ring or of `BufferIn` that is the same in both objects becomes different. -/
structure Settles (before before' after after' : RpiBase) : Prop where
  slots : ∀ slot word, ul (before.fromSlaveBufferIn slot) word = ul (before'.fromSlaveBufferIn slot) word →
    ul (after.fromSlaveBufferIn slot) word = ul (after'.fromSlaveBufferIn slot) word
  bufferIn : ∀ word, ul before.bufferIn word = ul before'.bufferIn word →
    ul after.bufferIn word = ul after'.bufferIn word

/-- Only the application moves `m_curqidx`. -/
def Moves (thread : Thread) (before after : Worlds δ) : Prop :=
  Settles (object before) (copy before) (object after) (copy after) ∧
    (thread = .app → (object after).curqidx = (object before).curqidx)

def tandem (good : Prop) : Tandem Thread RpiOp RpiOp.Reply (Machine (Recorded δ)) where
  invariant := Alike good
  rely := Moves
  guarantee thread before after := Settles (object before) (copy before) (object after) (copy after) ∧
    (thread = .rt → (object after).curqidx = (object before).curqidx)
  refl _ _ := ⟨⟨fun _ _ => id, fun _ => id⟩, fun _ => rfl⟩
  trans _ _ _ _ first second := ⟨⟨fun slot word same => second.1.slots slot word (first.1.slots slot word same),
    fun word same => second.1.bufferIn word (first.1.bufferIn word same)⟩,
    fun app => (second.2 app).trans (first.2 app)⟩
  compatible := by
    intro thread other before after different given
    obtain ⟨settles, kept⟩ := given
    refine ⟨settles, ?_⟩
    intro same
    subst same
    cases thread with
    | app => exact absurd rfl different
    | rt => exact kept rfl
  permitted log := good ∨ HandedFirst log
  closed := by
    intro log more given
    rcases given with zeroed | first
    · exact .inl zeroed
    · exact .inr (Throughout.left first)

abbrev pair (device : Device δ) (good : Prop) (thread : Thread) : Couple RpiOp RpiOp.Reply (Worlds δ) :=
  (tandem good).couple (handle device.recorded) thread

section Steps

variable {thread : Thread} {worlds : Worlds δ} {post : α → α → Worlds δ → Prop}

theorem ul_ext {first second : ProcBuffer} (same : ∀ word < 4, ul first word = ul second word) : first = second :=
  eq_of_parts 64 4 (by decide) same

theorem Settled.stable {index : BitVec 32} {before after : Worlds δ}
    (settles : Settles (object before) (copy before) (object after) (copy after)) (settled : Settled index before) :
    Settled index after := by
  obtain ⟨inside, same⟩ := settled
  exact ⟨inside, ul_ext fun word _ => settles.slots _ word (congrArg (ul · word) same)⟩

/-- Nothing but a store of `m_curqoutidx` hands a frame over. -/
theorem handed_append {log : Log (Recorded δ)} {event : Event Thread RpiOp RpiOp.Reply (Machine (Recorded δ))}
    (other : ∀ value, event.op ≠ .store .curqoutidx value) : Handed (log ++ [event]) ↔ Handed log := by
  constructor
  · intro given
    obtain ⟨found, member, value, stores⟩ := given
    rcases List.mem_append.mp member with earlier | last
    · exact ⟨found, earlier, value, stores⟩
    · cases List.mem_singleton.mp last
      exact absurd stores (other value)
  · intro given
    obtain ⟨found, member, stores⟩ := given
    exact ⟨found, List.mem_append_left _ member, stores⟩

variable (good thread) in
/-- What each copy does is decided. -/
theorem acted {op op' : RpiOp} {reply : op.Reply} {reply' : op'.Reply} {before : Worlds δ}
    {machine machine' : Machine (Recorded δ)}
    (performed : device.recorded.perform op before.1.state = some (reply, machine))
    (performed' : device.recorded.perform op' before.2.state = some (reply', machine')) :
    (pair device good thread).enabled op op' before ∧
      ∀ answer answer' after, (pair device good thread).acts op op' before answer answer' after →
        answer = reply ∧ answer' = reply' ∧ after.1.state = machine ∧ after.2.state = machine' ∧
          after.1.log = before.1.log ++ [⟨thread, op, reply, machine⟩] ∧ (good ∨ HandedFirst after.1.log) := by
  refine ⟨fun _ => ⟨by rw [handle, performed]; rfl, by rw [handle, performed']; rfl⟩, ?_⟩
  intro answer answer' after given
  obtain ⟨_, ⟨acts, log⟩, ⟨acts', _⟩, permitted⟩ := given
  obtain ⟨rfl, left⟩ := Prod.mk.inj (Option.some.inj (performed.symm.trans acts))
  obtain ⟨rfl, left'⟩ := Prod.mk.inj (Option.some.inj (performed'.symm.trans acts'))
  exact ⟨rfl, rfl, left.symm, left'.symm, by rw [log, left], permitted⟩

/-- A request of both copies, from what it does to the two machines. -/
theorem step_tracks {op op' : RpiOp} {next : op.Reply → Rpi α} {next' : op'.Reply → Rpi α}
    (effect : ∀ between, (pair device good thread).rely worlds between → Alike good between →
      ∃ reply reply' machine machine', device.recorded.perform op between.1.state = some (reply, machine) ∧
        device.recorded.perform op' between.2.state = some (reply', machine') ∧ ∀ after : Worlds δ,
          after.1.state = machine → after.2.state = machine' →
          after.1.log = between.1.log ++ [⟨thread, op, reply, machine⟩] →
          (good ∨ HandedFirst after.1.log) → Alike good after ∧ (pair device good thread).guarantee between after ∧
            (pair device good thread).Tracks (next reply) (next' reply') post after) :
    (pair device good thread).Tracks (.request op next) (.request op' next') post worlds := by
  refine ⟨op', next', rfl, fun between moves alike => ?_⟩
  obtain ⟨reply, reply', machine, machine', performed, performed', each⟩ := effect between moves alike
  obtain ⟨enabled, acts⟩ := acted good thread performed performed'
  refine ⟨enabled, fun answer answer' after moved => ?_⟩
  obtain ⟨rfl, rfl, left, left', log, permitted⟩ := acts answer answer' after moved
  exact each after left left' log permitted

/-- What a step leaves of the two machines when it hands nothing over. -/
structure Agree (before before' after after' : Machine (Recorded δ)) : Prop where
  device : after.device = after'.device
  stack : after.stack = after'.stack
  settles : Settles before.object before'.object after.object after'.object
  counter : after.object.atomiccounter = after'.object.atomiccounter
  curqidx : after.object.curqidx = after'.object.curqidx
  curqoutidx : after.object.curqoutidx = before.object.curqoutidx ∧ after'.object.curqoutidx = before'.object.curqoutidx

theorem Agree.alike {before after : Worlds δ} {event : Event Thread RpiOp RpiOp.Reply (Machine (Recorded δ))}
    (agree : Agree before.1.state before.2.state after.1.state after.2.state) (alike : Alike good before)
    (log : after.1.log = before.1.log ++ [event])
    (other : ∀ value, event.op ≠ .store .curqoutidx value) : Alike good after := by
  refine ⟨agree.device, agree.stack, agree.counter, agree.curqidx, fun current => ?_⟩
  rw [log, handed_append other] at current
  obtain ⟨same, settled⟩ := alike.curqoutidx current
  rw [object, copy, agree.curqoutidx.1, agree.curqoutidx.2]
  obtain ⟨inside, slot⟩ := settled
  exact ⟨same, inside, ul_ext fun word _ => agree.settles.slots _ word (congrArg (ul · word) slot)⟩

/-- A step that hands nothing over. -/
theorem agree_tracks {op op' : RpiOp} {next : op.Reply → Rpi α} {next' : op'.Reply → Rpi α}
    (other : ∀ value, op ≠ .store .curqoutidx value)
    (effect : ∀ between, Moves thread worlds between → Alike good between → ∃ reply reply' machine machine',
      device.recorded.perform op between.1.state = some (reply, machine) ∧
      device.recorded.perform op' between.2.state = some (reply', machine') ∧
      Agree between.1.state between.2.state machine machine' ∧
      (thread = .rt → machine.object.curqidx = (object between).curqidx) ∧ ∀ after : Worlds δ,
        after.1.state = machine → after.2.state = machine' →
          Settles (object between) (copy between) (object after) (copy after) → Alike good after →
          (pair device good thread).Tracks (next reply) (next' reply') post after) :
    (pair device good thread).Tracks (.request op next) (.request op' next') post worlds := by
  apply step_tracks
  intro between moves alike
  obtain ⟨reply, reply', machine, machine', performed, performed', agree, kept, later⟩ := effect between moves alike
  refine ⟨reply, reply', machine, machine', performed, performed', ?_⟩
  intro after same same' log _
  subst same
  subst same'
  have alike' := agree.alike alike log other
  exact ⟨alike', ⟨agree.settles, kept⟩, later after rfl rfl agree.settles alike'⟩

/-- A step that also leaves `m_curqidx` and what `worlds` is known to have. -/
theorem still_tracks {op op' : RpiOp} {next : op.Reply → Rpi α} {next' : op'.Reply → Rpi α}
    {related : op.Reply → op'.Reply → Prop} (other : ∀ value, op ≠ .store .curqoutidx value)
    (effect : ∀ between, Moves thread worlds between → Alike good between → ∃ reply reply' machine machine',
      device.recorded.perform op between.1.state = some (reply, machine) ∧
      device.recorded.perform op' between.2.state = some (reply', machine') ∧
      Agree between.1.state between.2.state machine machine' ∧
      machine.object.curqidx = (object between).curqidx ∧ related reply reply')
    (later : ∀ reply reply', related reply reply' →
      (pair device good thread).Tracks (next reply) (next' reply') post worlds) :
    (pair device good thread).Tracks (.request op next) (.request op' next') post worlds := by
  refine agree_tracks other fun between moves alike => ?_
  obtain ⟨reply, reply', machine, machine', performed, performed', agree, kept, same⟩ := effect between moves alike
  refine ⟨reply, reply', machine, machine', performed, performed', agree, fun _ => kept, ?_⟩
  intro after same same' _ _
  subst same
  subst same'
  exact (later reply reply' same).stable ((pair device good thread).trans moves ⟨agree.settles, fun _ => kept⟩)

/-- Requests that touch the same in both objects, and nothing that was left unset. -/
def Plain : RpiOp → Prop
  | .select _ | .transfer _ | .indeterminate | .load .atomiccounter | .store .atomiccounter _ => True
  | .store (.bufferOut word) _ => word < 4
  | .store (.bufferOutByte index) _ => index < 32
  | _ => False

variable (device) in
theorem plain_effect {op : RpiOp} (plain : Plain op) {before : Worlds δ} (alike : Alike good before) :
    ∃ reply machine machine', device.recorded.perform op before.1.state = some (reply, machine) ∧
      device.recorded.perform op before.2.state = some (reply, machine') ∧
      Agree before.1.state before.2.state machine machine' ∧
      machine.object.curqidx = (object before).curqidx := by
  obtain ⟨⟨⟨first, state, stack⟩, _⟩, ⟨⟨second, state', stack'⟩, _⟩⟩ := before
  obtain ⟨rfl, rfl, counter, curqidx⟩ : state = state' ∧ stack = stack' ∧ first.atomiccounter = second.atomiccounter ∧
    first.curqidx = second.curqidx := ⟨alike.device, alike.stack, alike.counter, alike.curqidx⟩
  have settles : Settles first second first second := ⟨fun _ _ => id, fun _ => id⟩
  cases op with
  | select | transfer | indeterminate => exact ⟨_, _, _, rfl, rfl, ⟨rfl, rfl, settles, counter, curqidx, rfl, rfl⟩, rfl⟩
  | load cell =>
    cases cell with
    | atomiccounter =>
      have reads : second.read .atomiccounter = some first.atomiccounter := congrArg some counter.symm
      refine ⟨first.atomiccounter, _, ⟨second, state, stack⟩, rfl, ?_,
        ⟨rfl, rfl, settles, counter, curqidx, rfl, rfl⟩, rfl⟩
      simp only [Device.perform, reads]
      rfl
    | _ => exact plain.elim
  | store cell value =>
    cases cell with
    | atomiccounter =>
      exact ⟨(), _, _, rfl, rfl, ⟨rfl, rfl, ⟨settles.slots, settles.bufferIn⟩, rfl, curqidx, rfl, rfl⟩, rfl⟩
    | bufferOut | bufferOutByte =>
      have inside : _ < _ := plain
      simp only [Device.perform, RpiBase.write, if_pos inside, Option.map_some]
      exact ⟨(), _, _, rfl, rfl, ⟨rfl, rfl, ⟨settles.slots, settles.bufferIn⟩, counter, curqidx, rfl, rfl⟩, rfl⟩
    | _ => exact plain.elim

/-- A part of a program that makes such requests only may be skipped. -/
theorem plain_then {program : Rpi β} {next next' : β → Rpi α} (uses : program.Uses Plain) (alike : Alike good worlds)
    (later : ∀ value, (pair device good thread).Tracks (next value) (next' value) post worlds) :
    (pair device good thread).Tracks (program.bind next) (program.bind next') post worlds := by
  let since := Moves thread worlds
  have keeps : ∀ {op before}, Plain op → Alike good before → since before →
    (pair device good thread).enabled op op before ∧
      ∀ answer answer' after, (pair device good thread).acts op op before answer answer' after →
        answer = answer' ∧ Alike good after ∧ (pair device good thread).guarantee before after ∧ since after := by
    intro op before plain kept since
    obtain ⟨reply, machine, machine', performed, performed', agree, curqidx⟩ := plain_effect device plain kept
    obtain ⟨enabled, acts⟩ := acted good thread performed performed'
    refine ⟨enabled, fun answer answer' after moved => ?_⟩
    obtain ⟨rfl, rfl, rfl, rfl, log, _⟩ := acts answer answer' after moved
    have other : ∀ value, op ≠ .store .curqoutidx value := by
      intro value same
      subst same
      exact plain
    exact ⟨rfl, agree.alike kept log other, ⟨agree.settles, fun _ => curqidx⟩,
      (pair device good thread).trans since ⟨agree.settles, fun _ => curqidx⟩⟩
  have tracked : (pair device good thread).Tracks program program
      (fun value value' after => value = value' ∧ since after) worlds :=
    Tracks.of_uses (fun moves _ before => (pair device good thread).trans before moves) keeps uses
      ((pair device good thread).refl worlds)
  apply Tracks.bind alike
  refine tracked.mono ?_
  intro value _ after _ given
  obtain ⟨rfl, moved⟩ := given
  exact (later value).stable moved

/-- Loads of both copies, whose results are `related`. -/
theorem load_tracks {cell : Cell} {next next' : BitVec cell.width → Rpi α}
    (related : BitVec cell.width → BitVec cell.width → Prop)
    (reads : ∀ between, Moves thread worlds between → Alike good between → ∃ held held',
      (object between).read cell = some held ∧ (copy between).read cell = some held' ∧ related held held')
    (later : ∀ held held', related held held' →
      (pair device good thread).Tracks (next held) (next' held') post worlds) :
    (pair device good thread).Tracks (.request (.load cell) next) (.request (.load cell) next') post worlds := by
  refine still_tracks (fun _ => (nomatch ·)) (fun between moves alike => ?_) later
  obtain ⟨held, held', first, second, same⟩ := reads between moves alike
  refine ⟨held, held', between.1.state, between.2.state, ?_, ?_, ?_, rfl, same⟩
  · simp only [Device.perform, first, Option.map_some]
  · simp only [Device.perform, second, Option.map_some]
  · exact ⟨alike.device, alike.stack, ⟨fun _ _ => id, fun _ => id⟩, alike.counter, alike.curqidx, rfl, rfl⟩

/-- Nothing that is sent depends on the published image. -/
theorem publishWord_tracks {word : Nat} (inside : word < 4) :
    (pair device good thread).Tracks (Rpi.publishWord word ()) (Rpi.publishWord word ())
      (fun _ _ _ => True) worlds := by
  simp only [Rpi.publishWord, bind_eq, Rpi.load_bind]
  have reads : ∀ object : RpiBase, object.read (.bufferOut word) = some (ul object.bufferOut word) :=
    fun _ => if_pos inside
  refine load_tracks (fun _ _ => True) (fun between _ _ => ⟨_, _, reads _, reads _, trivial⟩) fun value value' _ => ?_
  refine agree_tracks (fun _ => (nomatch ·)) fun between _ alike => ?_
  simp only [Device.perform, RpiBase.write, if_pos inside]
  refine ⟨_, _, _, _, rfl, rfl, ?_, fun _ => rfl, fun _ _ _ _ _ => ⟨(), rfl, fun _ _ _ => trivial⟩⟩
  exact ⟨alike.device, alike.stack, ⟨fun _ _ => id, fun _ => id⟩, alike.counter, alike.curqidx, rfl, rfl⟩

theorem copyWord_tracks {word : Nat} (inside : word < 4) (image image' : ProcBuffer) :
    (pair device good thread).Tracks (Rpi.copyWord word image) (Rpi.copyWord word image')
      (fun _ _ after => Moves thread worlds after) worlds := by
  simp only [Rpi.copyWord, bind_eq, Rpi.load_bind, pure_eq]
  have reads : ∀ object : RpiBase, object.read (.bufferOutEthToSlaveBuffer word) =
      some (ul object.bufferOutEthToSlaveBuffer word) :=
    fun _ => if_pos inside
  exact load_tracks (fun _ _ => True) (fun between _ _ => ⟨_, _, reads _, reads _, trivial⟩) fun _ _ _ =>
    ⟨_, rfl, fun _ moves _ => moves⟩

/-- Setting the same word of two buffers to the same value. -/
theorem same_setPart {first second : ProcBuffer} (value : BitVec 64) {word other : Nat} (inside : word < 4)
    (same : other ≠ word → ul first other = ul second other) : ul (setPart first word value) other =
      ul (setPart second word value) other := by
  by_cases here : other = word
  · subst here
    rw [ul, ul, part_setPart_self _ _ _ (by omega), part_setPart_self _ _ _ (by omega)]
  · rw [ul, ul, part_setPart_of_ne _ _ here, part_setPart_of_ne _ _ here]
    exact same here

/-- These words of `BufferIn` are the same in both objects. -/
def Taken (count : Nat) (worlds : Worlds δ) : Prop := ∀ word < count,
    ul (object worlds).bufferIn word = ul (copy worlds).bufferIn word

theorem Taken.stable {count : Nat} {before after : Worlds δ}
    (settles : Settles (object before) (copy before) (object after) (copy after)) (taken : Taken count before) :
    Taken count after := fun word low => settles.bufferIn word (taken word low)

theorem takeWord_tracks {index : BitVec 32} {word : Nat} (inside : word < 4) (settled : Settled index worlds)
    (taken : Taken word worlds) :
    (pair device good .rt).Tracks (Rpi.takeWord index word ()) (Rpi.takeWord index word ())
      (fun _ _ after => Settled index after ∧ Taken (word + 1) after) worlds := by
  simp only [Rpi.takeWord, bind_eq, Rpi.load_bind]
  refine load_tracks Eq (fun between moves _ => ?_) ?_
  · obtain ⟨within, same⟩ := settled.stable moves.1
    have reads : ∀ object : RpiBase, object.read (.fromSlaveBufferIn index word) =
        some (ul (object.fromSlaveBufferIn ⟨index.toNat, within⟩) word) := by
      intro object
      simp only [RpiBase.read, dif_pos within, if_pos inside]
      rfl
    exact ⟨_, _, reads _, reads _, congrArg (ul · word) same⟩
  · intro value _ same
    subst same
    refine agree_tracks (fun _ => (nomatch ·)) fun between moves alike => ?_
    simp only [Device.perform, RpiBase.write, if_pos inside]
    have settles : Settles (object between) (copy between)
        { object between with bufferIn := setPart (object between).bufferIn word value }
        { copy between with bufferIn := setPart (copy between).bufferIn word value } :=
      ⟨fun _ _ => id, fun other same => same_setPart value inside fun _ => same⟩
    refine ⟨_, _, _, _, rfl, rfl, ?_, fun _ => rfl, ?_⟩
    · exact ⟨alike.device, alike.stack, settles, alike.counter, alike.curqidx, rfl, rfl⟩
    · intro after left left' settles _
      have bufferIn : (object after).bufferIn = setPart (object between).bufferIn word value :=
        congrArg (·.object.bufferIn) left
      have bufferIn' : (copy after).bufferIn = setPart (copy between).bufferIn word value :=
        congrArg (·.object.bufferIn) left'
      refine ⟨(), rfl, fun later moves' _ => ⟨?_, Taken.stable moves'.1 fun other low => ?_⟩⟩
      · exact ((settled.stable moves.1).stable settles).stable moves'.1
      · rw [bufferIn, bufferIn']
        exact same_setPart value inside fun different => taken.stable moves.1 other (by omega)

theorem sendByte_tracks {index : Nat} (inside : index < 32) (alike : Alike good worlds) (taken : Taken 4 worlds) :
    (pair device good .rt).Tracks (Rpi.sendByte index ()) (Rpi.sendByte index ())
      (fun _ _ after => Taken 4 after) worlds := by
  simp only [Rpi.sendByte, bind_eq, Rpi.load_bind]
  refine load_tracks Eq (fun between moves _ => ?_) ?_
  · have same := ul_ext (taken.stable moves.1)
    have reads : ∀ object : RpiBase, object.read (.bufferInByte index) = some (byte object.bufferIn index) :=
      fun _ => if_pos inside
    exact ⟨_, _, reads _, reads _, congrArg (byte · index) same⟩
  · intro value _ same
    subst same
    have sent : (Rpi.spiWrite value).Uses Plain := ⟨trivial, fun _ => trivial⟩
    rw [← bind_pure (Rpi.spiWrite value)]
    exact plain_then sent alike fun _ => ⟨_, rfl, fun later moves _ => taken.stable moves.1⟩

/-- The call fills the slot of `m_curqidx`, whose index stays inside the ring. -/
def Filled (count : Nat) (worlds : Worlds δ) : Prop :=
  ∃ inside : (object worlds).curqidx.toNat < qinSize, ∀ word < count,
    ul ((object worlds).fromSlaveBufferIn ⟨_, inside⟩) word = ul ((copy worlds).fromSlaveBufferIn ⟨_, inside⟩) word

theorem Filled.stable {count : Nat} {before after : Worlds δ} (moves : Moves .app before after)
    (filled : Filled count before) :
    Filled count after := by
  obtain ⟨inside, same⟩ := filled
  have kept := moves.2 rfl
  refine ⟨by rwa [kept], fun word low => moves.1.slots _ word ?_⟩
  simp only [kept]
  exact same word low

/-- The ring with one word of a slot replaced. -/
def queued (object : RpiBase) (slot : Fin qinSize) (word : Nat) (value : BitVec 64) : RpiBase :=
  { object with fromSlaveBufferIn :=
    Function.update object.fromSlaveBufferIn slot (setPart (object.fromSlaveBufferIn slot) word value) }

theorem queued_same {first second : RpiBase} {slot : Fin qinSize} {word : Nat} {value : BitVec 64} (inside : word < 4)
    {slot' : Fin qinSize} {other : Nat} (same : (slot' = slot ∧ other = word) ∨
      ul (first.fromSlaveBufferIn slot') other = ul (second.fromSlaveBufferIn slot') other) :
    ul ((queued first slot word value).fromSlaveBufferIn slot') other =
      ul ((queued second slot word value).fromSlaveBufferIn slot') other := by
  by_cases here : slot' = slot
  · subst here
    simp only [queued, Function.update_self]
    refine same_setPart value inside fun different => ?_
    exact same.resolve_left fun both => different both.2
  · simp only [queued, Function.update_of_ne here]
    exact same.resolve_left fun both => here both.1

/-- Only this thread moves the index, so what it loads is what it left there. -/
theorem loadIndex_tracks {next next' : BitVec 32 → Rpi α}
    (later : (pair device good .app).Tracks (next (object worlds).curqidx)
      (next' (object worlds).curqidx) post worlds) :
    (pair device good .app).Tracks (.request (.load .curqidx) next) (.request (.load .curqidx) next') post worlds := by
  refine load_tracks (fun held held' => held = held' ∧ held = (object worlds).curqidx)
    (fun between moves alike => ?_) ?_
  · exact ⟨_, _, rfl, rfl, alike.curqidx, moves.2 rfl⟩
  · intro index _ given
    obtain ⟨rfl, rfl⟩ := given
    exact later

theorem storeIndex_tracks {index : BitVec 32} {next next' : Unit → Rpi α}
    (later : ∀ after : Worlds δ, Alike good after → (object after).curqidx = index →
      (pair device good .app).Tracks (next ()) (next' ()) post after) :
    (pair device good .app).Tracks (.request (.store .curqidx index) next)
      (.request (.store .curqidx index) next') post worlds := by
  refine agree_tracks (fun _ => (nomatch ·)) fun between _ alike => ⟨(), (), _, _, rfl, rfl, ?_, (nomatch ·), ?_⟩
  · exact ⟨alike.device, alike.stack, ⟨fun _ _ => id, fun _ => id⟩, alike.counter, rfl, rfl, rfl⟩
  · exact fun after left _ _ alike' => later after alike' (congrArg (·.object.curqidx) left)

theorem queueWord_tracks {frame : ProcBuffer} {word : Nat} (inside : word < 4) (filled : Filled word worlds) :
    (pair device good .app).Tracks (Rpi.queueWord frame word ()) (Rpi.queueWord frame word ())
      (fun _ _ after => Filled (word + 1) after) worlds := by
  simp only [Rpi.queueWord, bind_eq, Rpi.load_bind]
  refine loadIndex_tracks (agree_tracks (fun _ => (nomatch ·)) fun between moves alike => ?_)
  obtain ⟨within, same⟩ := filled.stable moves
  rw [← moves.2 rfl]
  let slot : Fin qinSize := ⟨(object between).curqidx.toNat, within⟩
  have writes : ∀ object' : RpiBase, object'.write (.fromSlaveBufferIn (object between).curqidx word) (ul frame word) =
      some (queued object' slot word (ul frame word)) := by
    intro object'
    simp only [RpiBase.write, dif_pos within, if_pos inside]
    rfl
  refine ⟨(), (), { between.1.state with object := queued (object between) slot word (ul frame word) },
    { between.2.state with object := queued (copy between) slot word (ul frame word) }, ?_, ?_, ?_, (nomatch ·), ?_⟩
  · simp only [Device.perform, writes, Option.map_some]
  · simp only [Device.perform, writes, Option.map_some]
  · exact ⟨alike.device, alike.stack, ⟨fun _ _ same => queued_same inside (.inr same), fun _ => id⟩,
      alike.counter, alike.curqidx, rfl, rfl⟩
  · intro after left left' _ _
    have stores : object after = queued (object between) slot word (ul frame word) := congrArg (·.object) left
    have stores' : copy after = queued (copy between) slot word (ul frame word) := congrArg (·.object) left'
    refine ⟨(), rfl, fun later moves' _ => Filled.stable moves' ⟨by rwa [stores], fun other low => ?_⟩⟩
    simp only [stores, stores']
    apply queued_same inside
    by_cases last : other = word
    · exact .inl ⟨rfl, last⟩
    · exact .inr (same other (by omega))

theorem Filled.settled {worlds : Worlds δ} (filled : Filled 4 worlds) : Settled (object worlds).curqidx worlds := by
  obtain ⟨inside, same⟩ := filled
  exact ⟨inside, ul_ext same⟩

/-- The current slot is replaced by one that was filled. -/
theorem handOver_tracks {index : BitVec 32} {next next' : Unit → Rpi α} (settled : Settled index worlds)
    (later : (pair device good .app).Tracks (next ()) (next' ()) post worlds) :
    (pair device good .app).Tracks (.request (.store .curqoutidx index) next)
      (.request (.store .curqoutidx index) next') post worlds := by
  apply step_tracks
  intro between moves alike
  refine ⟨(), (), _, _, rfl, rfl, fun after left left' log _ => ?_⟩
  have settles : Settles (object between) (copy between) (object after) (copy after) := by
    rw [object, copy, object, copy, left, left']
    exact ⟨fun _ _ => id, fun _ => id⟩
  have kept : (object after).curqidx = (object between).curqidx := congrArg (·.object.curqidx) left
  have index' : (object after).curqoutidx = index := congrArg (·.object.curqoutidx) left
  have index'' : (copy after).curqoutidx = index := congrArg (·.object.curqoutidx) left'
  refine ⟨?_, ⟨settles, (nomatch ·)⟩, later.stable ((pair device good .app).trans moves ⟨settles, fun _ => kept⟩)⟩
  refine ⟨?_, ?_, ?_, ?_, fun _ => ⟨index'.trans index''.symm, ?_⟩⟩
  · rw [left, left']
    exact alike.device
  · rw [left, left']
    exact alike.stack
  · rw [object, copy, left, left']
    exact alike.counter
  · rw [object, copy, left, left']
    exact alike.curqidx
  · rw [index']
    exact (settled.stable moves.1).stable settles

theorem sendOutput_tracks (frame : ProcBuffer) (alike : Alike good worlds) (ready : Filled 0 worlds) :
    (pair device good .app).Tracks (Rpi.sendOutput frame) (Rpi.sendOutput frame)
      (fun _ _ after => Filled 0 after) worlds := by
  have filled : (pair device good .app).Tracks (forUp (Rpi.queueWord frame) 4 0 ()) (forUp (Rpi.queueWord frame) 4 0 ())
      (fun _ _ after => Filled 4 after) worlds :=
    Tracks.forUp (fun count _ _ worlds => Filled count worlds) (fun moves _ => Filled.stable moves) 4 0 () () worlds
      (fun _ _ _ _ low _ => queueWord_tracks (by omega)) alike ready
  simp only [Rpi.sendOutput, Rpi.increment, bind_eq, Rpi.load_bind, Rpi.store_bind, request_bind]
  refine Tracks.bind alike (filled.mono fun _ _ after alike filled => ?_)
  refine loadIndex_tracks (handOver_tracks filled.settled
    (loadIndex_tracks (storeIndex_tracks fun last alike stored => ?_)))
  refine loadIndex_tracks ?_
  split
  · refine storeIndex_tracks fun reached _ zero => ⟨(), rfl, fun later moves _ => Filled.stable moves ?_⟩
    exact ⟨by rw [zero]; decide, fun _ => (nomatch ·)⟩
  next inside =>
    exact ⟨(), rfl, fun later moves _ => Filled.stable moves ⟨Nat.lt_of_not_le inside, fun _ => (nomatch ·)⟩⟩

theorem attempt_tracks (alike : Alike good worlds) : (pair device good thread).Tracks Rpi.attempt Rpi.attempt
    (fun image image' after => image.2 = image'.2 ∧ Moves thread worlds after) worlds := by
  let since := Moves thread worlds
  have counted : (Rpi.load .atomiccounter).Uses Plain := ⟨trivial, fun _ => trivial⟩
  have copied : (pair device good thread).Tracks (forUp Rpi.copyWord 4 0 0) (forUp Rpi.copyWord 4 0 0)
      (fun _ _ => since) worlds := by
    refine Tracks.forUp (fun _ _ _ => since)
      (fun moves _ before => (pair device good thread).trans before moves) 4 0 0 0 worlds ?_ alike
      ((pair device good thread).refl worlds)
    intro word image image' start low _ before
    refine (copyWord_tracks (by omega) image image').mono fun _ _ after _ moves => ?_
    exact (pair device good thread).trans before moves
  simp only [Rpi.attempt, bind_eq]
  refine plain_then counted alike fun first => Tracks.bind alike (copied.mono fun image image' after alike before => ?_)
  refine plain_then counted alike fun last => ⟨_, rfl, fun later moves _ => ⟨rfl, ?_⟩⟩
  exact (pair device good thread).trans before moves

theorem receiveInput_tracks (alike : Alike good worlds) (ready : Filled 0 worlds) :
    (pair device good .app).Tracks Rpi.receiveInput Rpi.receiveInput (fun _ _ after => Filled 0 after) worlds := by
  simp only [Rpi.receiveInput, bind_eq, loop_bind, pure_eq]
  refine Tracks.loop (fun _ _ => Filled 0) alike ready fun _ _ start alike ready => ?_
  refine (attempt_tracks alike).mono fun image image' after _ ⟨same, moves⟩ => ⟨same, ?_⟩
  have ready' := ready.stable moves
  split
  · exact ready'
  · exact ⟨_, rfl, fun later moves' _ => ready'.stable moves'⟩

theorem writeReg_plain (address : BitVec 16) (data : BitVec 32) : (Rpi.writeReg address data).Uses Plain := by
  repeat refine ⟨trivial, fun _ => ?_⟩
  trivial

theorem readReg_plain (address : BitVec 16) (len : Byte) : (Rpi.readReg address len).Uses Plain := by
  have received : ∀ result, (forUp Rpi.readByte len.toNat 0 result).Uses Plain :=
    fun result => Uses.forUp _ _ _ fun _ _ => ⟨trivial, fun _ => trivial⟩
  simp only [Rpi.readReg, bind_eq, Rpi.indeterminate_bind, Rpi.select_bind, Rpi.spiWrite_bind]
  iterate 5 refine ⟨trivial, fun _ => ?_⟩
  exact Uses.bind (received _) fun _ => ⟨trivial, fun _ => trivial⟩

theorem poll_plain (address : BitVec 16) (again : BitVec 32 → Bool) : (loop (Rpi.readReg address 4) again).Uses Plain :=
  ⟨fun _ => readReg_plain address 4, fun _ => trivial⟩

theorem readRegWait_plain (address : BitVec 16) (len : Byte) : (Rpi.readRegWait address len).Uses Plain := by
  simp only [Rpi.readRegWait, bind_eq, Rpi.indeterminate_bind]
  exact ⟨trivial, fun _ => Uses.bind (writeReg_plain _ _) fun _ => Uses.bind (poll_plain _ _) fun _ =>
    readReg_plain _ _⟩

theorem select_plain (level : Level) : (Rpi.select level).Uses Plain := ⟨trivial, fun _ => trivial⟩
theorem spiWrite_plain (data : Byte) : (Rpi.spiWrite data).Uses Plain := ⟨trivial, fun _ => trivial⟩
theorem increment_plain : (Rpi.increment .atomiccounter).Uses Plain := ⟨trivial, fun _ => ⟨trivial, fun _ => trivial⟩⟩

theorem spiReadProcRamFifo_tracks (alike : Alike good worlds) :
    (pair device good thread).Tracks Rpi.spiReadProcRamFifo Rpi.spiReadProcRamFifo (fun _ _ _ => True) worlds := by
  have received : (forUp Rpi.receiveByte 32 0 ()).Uses Plain :=
    Uses.forUp_below 32 0 () fun _ _ low => ⟨trivial, fun _ => ⟨(Nat.zero_add 32 ▸ low : _ < 32), fun _ => trivial⟩⟩
  have published : (pair device good thread).Tracks (forUp Rpi.publishWord 4 0 ())
      (forUp Rpi.publishWord 4 0 ()) (fun _ _ _ => True) worlds :=
    Tracks.forUp (fun _ _ _ _ => True) (fun _ _ => id) 4 0 () () worlds
      (fun _ _ _ _ low _ _ => publishWord_tracks (by omega)) alike trivial
  simp only [Rpi.spiReadProcRamFifo, bind_eq]
  refine plain_then increment_plain alike fun _ => plain_then (writeReg_plain _ _) alike fun _ => ?_
  refine plain_then (writeReg_plain _ _) alike fun _ => plain_then (poll_plain _ _) alike fun _ => ?_
  refine plain_then (select_plain _) alike fun _ => plain_then (spiWrite_plain _) alike fun _ => ?_
  refine plain_then (spiWrite_plain _) alike fun _ => plain_then (spiWrite_plain _) alike fun _ =>
    plain_then received alike fun _ => ?_
  refine Tracks.bind alike (published.mono fun _ _ after alike _ => plain_then (select_plain _) alike fun _ => ?_)
  rw [← bind_pure (Rpi.increment _)]
  exact plain_then increment_plain alike fun _ => ⟨(), rfl, fun _ _ _ => trivial⟩

/-- Reads the index only after it was stored, so finds the slot that holds the same. -/
theorem current_tracks {next next' : BitVec 32 → Rpi α}
    (later : ∀ index (after : Worlds δ), Alike good after → Settled index after →
      (pair device good .rt).Tracks (next index) (next' index) post after) :
    (pair device good .rt).Tracks (.request (.load .curqoutidx) next)
      (.request (.load .curqoutidx) next') post worlds := by
  apply step_tracks
  intro between _ alike
  refine ⟨_, _, _, _, rfl, rfl, fun after left left' log permitted => ?_⟩
  have agree : Agree between.1.state between.2.state after.1.state after.2.state := by
    rw [left, left']
    exact ⟨alike.device, alike.stack, ⟨fun _ _ => id, fun _ => id⟩, alike.counter, alike.curqidx, rfl, rfl⟩
  have alike' := agree.alike alike log fun _ => (nomatch ·)
  have before : good ∨ Handed between.1.log := permitted.imp_right fun first => first _ _ [] log rfl
  obtain ⟨same, settled⟩ := alike.curqoutidx before
  refine ⟨alike', ⟨agree.settles, fun _ => congrArg (·.object.curqidx) left⟩, ?_⟩
  rw [same]
  exact later _ after alike' ((same ▸ settled).stable agree.settles)

theorem spiWriteProcRamFifo_tracks :
    (pair device good .rt).Tracks Rpi.spiWriteProcRamFifo Rpi.spiWriteProcRamFifo (fun _ _ _ => True) worlds := by
  simp only [Rpi.spiWriteProcRamFifo, bind_eq, Rpi.load_bind]
  refine current_tracks fun index start alike settled => Tracks.bind alike ?_
  have taken : (pair device good .rt).Tracks (forUp (Rpi.takeWord index) 4 0 ()) (forUp (Rpi.takeWord index) 4 0 ())
      (fun _ _ after => Settled index after ∧ Taken 4 after) start :=
    Tracks.forUp (fun count _ _ worlds => Settled index worlds ∧ Taken count worlds)
      (fun (moves : Moves .rt _ _) _ both => ⟨both.1.stable moves.1, both.2.stable moves.1⟩) 4 0 () () start
      (fun _ _ _ _ low _ both => takeWord_tracks (by omega) both.1 both.2) alike ⟨settled, fun _ => (nomatch ·)⟩
  refine taken.mono fun _ _ copied alike both => ?_
  have sent : (pair device good .rt).Tracks (forUp Rpi.sendByte 31 0 ()) (forUp Rpi.sendByte 31 0 ())
      (fun _ _ after => Taken 4 after) copied :=
    Tracks.forUp (fun _ _ _ => Taken 4) (fun (moves : Moves .rt _ _) _ taken => taken.stable moves.1) 31 0 () () copied
      (fun _ _ _ _ low alike taken => sendByte_tracks (by omega) alike taken) alike both.2
  refine plain_then (writeReg_plain _ _) alike fun _ => plain_then (writeReg_plain _ _) alike fun _ => ?_
  refine plain_then (poll_plain _ _) alike fun _ => plain_then (select_plain _) alike fun _ => ?_
  refine plain_then (spiWrite_plain _) alike fun _ => plain_then (spiWrite_plain _) alike fun _ => ?_
  refine plain_then (spiWrite_plain _) alike fun _ => Tracks.bind alike (sent.mono fun _ _ after alike taken => ?_)
  refine Tracks.bind alike ((sendByte_tracks (by decide) alike taken).mono fun _ _ last alike _ => ?_)
  rw [← bind_pure (Rpi.select _)]
  exact plain_then (select_plain _) alike fun _ => ⟨(), rfl, fun _ _ _ => trivial⟩

theorem mainTask_tracks (alike : Alike good worlds) :
    (pair device good .rt).Tracks Rpi.mainTask Rpi.mainTask (fun _ _ _ => True) worlds := by
  have cleared : (forUp Rpi.clearWord 4 0 ()).Uses Plain :=
    Uses.forUp_below 4 0 () fun _ _ low => ⟨(Nat.zero_add 4 ▸ low : _ < 4), fun _ => trivial⟩
  simp only [Rpi.mainTask, bind_eq, pure_eq]
  refine plain_then (readRegWait_plain _ _) alike fun watchdog =>
    plain_then (readRegWait_plain _ _) alike fun state => ?_
  have written : ∀ (status : Byte) (start : Worlds δ), Alike good start → (pair device good .rt).Tracks
      (Rpi.spiWriteProcRamFifo.bind fun _ => .pure status) (Rpi.spiWriteProcRamFifo.bind fun _ => .pure status)
        (fun _ _ _ => True) start :=
    fun status start alike => Tracks.bind alike
      (spiWriteProcRamFifo_tracks.mono fun _ _ _ _ _ => ⟨status, rfl, fun _ _ _ => trivial⟩)
  split
  · exact plain_then cleared alike fun _ => written _ _ alike
  · exact Tracks.bind alike ((spiReadProcRamFifo_tracks alike).mono fun _ _ after alike _ => written _ after alike)

end Steps

section Runs

variable {memory : RpiBase} {state : δ} {stack : Nat → BitVec 32} {calls : List AppCall} {cycles : Nat}
  {schedule : List (Thread × Unit)} {reached : Pool Thread RpiOp RpiOp.Reply (Machine (Recorded δ)) Result}

theorem performAll_tracks {worlds : Worlds δ} (alike : Alike good worlds) (ready : Filled 0 worlds) :
    (pair device good .app).Tracks (performAll calls) (performAll calls) (fun _ _ _ => True) worlds := by
  induction calls generalizing worlds with
  | nil => exact ⟨(), rfl, fun _ _ _ => trivial⟩
  | cons call calls ih =>
    have called : (pair device good .app).Tracks call.perform call.perform
        (fun _ _ after => Filled 0 after) worlds := by
      cases call with
      | send frame => exact sendOutput_tracks frame alike ready
      | receive =>
        refine Tracks.bind alike ((receiveInput_tracks alike ready).mono fun _ _ after _ ready => ?_)
        exact ⟨(), rfl, fun later moves _ => ready.stable moves⟩
    exact Tracks.bind alike (called.mono fun _ _ after alike ready => ih alike ready)

theorem cycles_tracks {worlds : Worlds δ} (alike : Alike good worlds) :
    (pair device good .rt).Tracks (times cycle cycles) (times cycle cycles) (fun _ _ _ => True) worlds := by
  refine Tracks.times (fun _ => True) (fun _ _ => id) (fun world alike _ => ?_) cycles worlds alike trivial
  exact Tracks.bind alike ((mainTask_tracks alike).mono fun _ _ _ _ _ => ⟨(), rfl, fun _ _ _ => trivial⟩)

/-- An object on arbitrary memory and one on zeroed memory, side by side. -/
theorem pool_holds (starts : good → Zeroed memory) : (tandem good).Holds (handle device.recorded) (fun _ _ _ _ => True)
    (pool memory state stack calls cycles) (pool {} state stack calls cycles) := by
  have alike : Alike good (⟨⟨memory.construct, ⟨state, []⟩, stack⟩, []⟩,
      ⟨⟨RpiBase.construct {}, ⟨state, []⟩, stack⟩, []⟩) := by
    refine ⟨rfl, rfl, rfl, rfl, ?_⟩
    intro given
    rcases given with zeroed | ⟨_, none, _⟩
    · obtain ⟨index, slot⟩ := starts zeroed
      have current : memory.construct.curqoutidx = 0 := index
      refine ⟨current, ?_⟩
      rw [object, current]
      exact ⟨by decide, slot⟩
    · cases none
  refine ⟨alike, fun thread => ?_⟩
  cases thread with
  | app =>
    have inside : memory.construct.curqidx.toNat < qinSize := show (0 : BitVec 32).toNat < qinSize by decide
    exact performAll_tracks alike ⟨inside, fun _ => (nomatch ·)⟩
  | rt => exact cycles_tracks alike

/-- An access that is made is inside its array. -/
theorem perform_inRange {op : RpiOp} {reply : op.Reply} {before after : Machine (Recorded δ)}
    (performed : device.recorded.perform op before = some (reply, after)) : InRange op := by
  cases op with
  | load cell =>
    cases cell with
    | fromSlaveBufferIn index word =>
      obtain ⟨reads, _⟩ := Accesses.loaded performed
      by_contra crosses
      have outside : ¬ index.toNat < qinSize := crosses
      rw [RpiBase.read, dif_neg outside] at reads
      cases reads
    | _ => trivial
  | store cell value =>
    cases cell with
    | fromSlaveBufferIn index word =>
      obtain ⟨_, writes, _⟩ := Accesses.written performed
      by_contra crosses
      have outside : ¬ index.toNat < qinSize := crosses
      rw [RpiBase.write, dif_neg outside] at writes
      cases writes
    | _ => trivial
  | _ => trivial

theorem run_inRange {pool reached : Pool Thread RpiOp RpiOp.Reply (Machine (Recorded δ)) Result}
    (ran : pool.run (handle device.recorded) schedule = some reached) (starts : pool.world.log = []) :
    ∀ event ∈ reached.world.log, InRange event.op := by
  have preserved : ∀ (pool : Pool Thread RpiOp RpiOp.Reply (Machine (Recorded δ)) Result) thread choice next,
      (∀ event ∈ pool.world.log, InRange event.op) → pool.step (handle device.recorded) thread choice = some next →
      ∀ event ∈ next.world.log, InRange event.op := by
    intro pool thread choice next inside stepped
    obtain ⟨event, rest, state, advanced, rfl⟩ := Pool.step_eq stepped
    rcases Program.advance_performed advanced with ⟨rfl, _⟩ | ⟨op, reply, rfl, performed⟩
    · exact inside
    · intro event member
      rcases List.mem_append.mp member with earlier | last
      · exact inside event earlier
      · cases List.mem_singleton.mp last
        exact perform_inRange performed
  refine Pool.run_induction preserved ?_ ran
  rw [starts]
  exact fun _ => (nomatch ·)

/-- The prior memory does not show in a run whose object was zeroed or handed a
frame over before it looked for one. -/
theorem unseen_of_handed
    (ran : (pool memory state stack calls cycles).run (handle device.recorded) schedule = some reached)
    (covered : Zeroed memory ∨ HandedFirst reached.world.log) :
    Unseen device state stack calls cycles schedule reached := by
  have starts : Zeroed memory → Zeroed memory := id
  obtain ⟨other, ran', holds'⟩ := Tandem.run_holds (pool_holds starts) ran covered
  refine ⟨run_inRange ran rfl, fun thread running => holds'.running running, other, ran', ?_⟩
  rw [show reached.world.state.device = other.world.state.device from holds'.1.device]

/-- Garbage everywhere but in the index and the slot it selects. -/
def leftover : RpiBase :=
  { bufferOut := 5, bufferIn := 7, curqidx := 9, atomiccounter := 3,
    fromSlaveBufferIn := fun slot => BitVec.ofNat 256 slot }

/-- A chip that is not operational. -/
def halted : Lan9252 := ⟨.released, .prompt fun _ => 0x55⟩

/-- A step of a call, then a cycle that sends the zero frame it finds, then the rest of the call. -/
def early : List (Thread × Unit) := (.app, ()) :: List.replicate 164 (.rt, ()) ++ List.replicate 12 (.app, ())

theorem leftover_unseen : ∃ reached,
    (pool leftover halted (fun _ => 0) [.send 3] 1).run (handle lan9252.recorded) early = some reached ∧
    ((reached.threads .rt).returned = some () ∧ (reached.threads .app).returned = some ()) ∧
    Lan9252.content reached.world.state.device.device.chip.memory 0x1200 33 = List.replicate 32 0x00 ++ [0x55] ∧
      Unseen lan9252 halted (fun _ => 0) [.send 3] 1 early reached := by
  have ends : ((pool leftover halted (fun _ => 0) [.send 3] 1).run (handle lan9252.recorded) early).map
      (fun reached => ((reached.threads .rt).returned, (reached.threads .app).returned,
        Lan9252.content reached.world.state.device.device.chip.memory 0x1200 33)) =
      some (some (), some (), List.replicate 32 0x00 ++ [0x55]) := by decide +kernel
  obtain ⟨reached, ran, seen⟩ := Option.map_eq_some_iff.mp ends
  simp only [Prod.mk.injEq] at seen
  obtain ⟨cycled, called, sent⟩ := seen
  have zeroed : Zeroed leftover := ⟨rfl, by decide⟩
  exact ⟨reached, ran, ⟨cycled, called⟩, sent, unseen_of_handed ran (.inl zeroed)⟩

/-- A bus that answers nothing but zeros. -/
def silent : Device Unit := ⟨fun _ state => state, fun _ state => (0, state)⟩

/-- An index outside the ring, in memory that was not cleared. -/
def stray : RpiBase := { curqoutidx := 10 }

/-- A cycle before the first call looks for slot 10. -/
theorem stray_seen : ¬ ∀ (memory : RpiBase) (schedule : List (Thread × Unit))
    (reached : Pool Thread RpiOp RpiOp.Reply (Machine (Recorded Unit)) Result),
    (pool memory () (fun _ => 0) [] 1).run (handle silent.recorded) schedule = some reached →
      Unseen silent () (fun _ => 0) [] 1 schedule reached := by
  intro always
  have stuck : ((pool stray () (fun _ => 0) [] 1).run (handle silent.recorded)
      (List.replicate 59 (.rt, ()))).map (fun reached =>
        ((reached.threads .rt).returned.isNone, (reached.step (handle silent.recorded) .rt ()).isSome)) =
      some (true, false) := by
    decide +kernel
  obtain ⟨reached, ran, stuck⟩ := Option.map_eq_some_iff.mp stuck
  obtain ⟨running, refused⟩ := Prod.mk.inj stuck
  have steps := (always stray _ reached ran).next .rt (Option.isNone_iff_eq_none.mp running)
  rw [refused] at steps
  cases steps

end Runs
end EthercatSlave.Proofs.FreshObject
