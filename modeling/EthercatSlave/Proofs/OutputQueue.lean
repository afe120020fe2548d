import EthercatSlave.History
import EthercatSlave.Proofs.Accesses
import EthercatSlave.Proofs.RelyGuarantee
import EthercatSlave.Sharing
import EthercatSlave.Lan9252

/-! The hand-over of frames through the ring. A slot keeps the frame it was
handed with until the call that reuses it begins, so a copy that ends before
that call has only words of one frame. -/

namespace EthercatSlave.Proofs.OutputQueue
open Program Rpi Sharing Accesses EthercatSlave.OutputQueue

variable {δ : Type} {device : Device δ} {frames : List ProcBuffer}
  {before after world later : World Thread RpiOp RpiOp.Reply (Machine δ)}

def slot (call : Nat) : Fin qinSize := ⟨(call - 1) % qinSize, Nat.mod_lt _ (by decide)⟩

structure Ring (frames : List ProcBuffer) (observed : Observed) (object : RpiBase) : Prop where
  handed : object.curqoutidx.toNat = slot observed.handed
  held : ∀ call ≤ observed.handed, observed.begun < reuse call →
    object.fromSlaveBufferIn (slot call) = frame frames call

/-- What the application sees of the other thread's steps: nothing of its own data changes. -/
structure Spared (before after : World Thread RpiOp RpiOp.Reply (Machine δ)) : Prop where
  begun : (observe after.log).begun = (observe before.log).begun
  handed : (observe after.log).handed = (observe before.log).handed
  slots : after.state.object.fromSlaveBufferIn = before.state.object.fromSlaveBufferIn
  curqidx : after.state.object.curqidx = before.state.object.curqidx
  curqoutidx : after.state.object.curqoutidx = before.state.object.curqoutidx

/-- What the real-time thread sees: more calls may have begun. -/
structure Advanced (before after : World Thread RpiOp RpiOp.Reply (Machine δ)) : Prop where
  begun : (observe before.log).begun ≤ (observe after.log).begun
  current : (observe after.log).current = (observe before.log).current
  begunAtCopy : (observe after.log).begunAtCopy = (observe before.log).begunAtCopy
  wire : (observe after.log).wire = (observe before.log).wire
  tally : (observe after.log).tally = (observe before.log).tally
  bufferIn : after.state.object.bufferIn = before.state.object.bufferIn

def Sees : Thread → World Thread RpiOp RpiOp.Reply (Machine δ) → World Thread RpiOp RpiOp.Reply (Machine δ) → Prop
  | .app => Spared
  | .rt => Advanced

structure Kept (frames : List ProcBuffer) (world : World Thread RpiOp RpiOp.Reply (Machine δ)) : Prop where
  ring : Ring frames (observe world.log) world.state.object
  ordered : (observe world.log).current ≤ (observe world.log).handed
  hands : HandsOver reuse frames world.log

def protocol (δ : Type) (frames : List ProcBuffer) : Protocol Thread RpiOp RpiOp.Reply (Machine δ) where
  invariant := Kept frames
  rely := Sees
  guarantee thread := match thread with
    | .app => Advanced
    | .rt => Spared
  refl thread world := by
    cases thread with
    | app => exact ⟨rfl, rfl, rfl, rfl, rfl⟩
    | rt => exact ⟨Nat.le_refl _, rfl, rfl, rfl, rfl, rfl⟩
  trans thread {first second third} left right := by
    cases thread with
    | app =>
      exact ⟨right.begun.trans left.begun, right.handed.trans left.handed, right.slots.trans left.slots,
        right.curqidx.trans left.curqidx, right.curqoutidx.trans left.curqoutidx⟩
    | rt =>
      exact ⟨Nat.le_trans left.begun right.begun, right.current.trans left.current,
        right.begunAtCopy.trans left.begunAtCopy, right.wire.trans left.wire, right.tally.trans left.tally,
        right.bufferIn.trans left.bufferIn⟩
  compatible {thread other before after} different step := by
    cases thread <;> cases other
    · exact absurd rfl different
    · exact step
    · exact step
    · exact absurd rfl different

section Steps

variable {thread : Thread} {op : RpiOp} {reply : op.Reply}

theorem acts_observe (acts : Pool.acts (handle device) thread op before reply after) :
    observe after.log = (observe before.log).note thread op := by
  obtain ⟨_, _, grows⟩ := acts
  rw [grows, observe, List.foldl_append]
  rfl

theorem note_ordered (observed : Observed) (ordered : observed.current ≤ observed.handed) :
    (observed.note thread op).current ≤ (observed.note thread op).handed := by
  unfold Observed.note
  split
  next => exact ordered
  next => exact Nat.le_succ_of_le ordered
  next => exact Nat.le_refl _
  next => exact ordered
  next => exact ordered
  next => exact ordered
  next => split <;> exact ordered
  next => exact ordered

theorem acts_hands (acts : Pool.acts (handle device) thread op before reply after)
    (verdict : Verdict reuse frames (observe before.log) ⟨thread, op, reply, after.state⟩)
    (hands : HandsOver reuse frames before.log) : HandsOver reuse frames after.log := by
  obtain ⟨_, _, grows⟩ := acts
  rw [grows]
  exact Throughout.snoc_iff.mpr ⟨hands, verdict⟩

end Steps

theorem Ring.spared (spared : Spared before after) (ring : Ring frames (observe before.log) before.state.object) :
    Ring frames (observe after.log) after.state.object := by
  constructor
  · rw [spared.curqoutidx, spared.handed]
    exact ring.handed
  · rw [spared.handed, spared.begun, spared.slots]
    exact ring.held

section RealTime

def Sending : RpiOp → Prop
  | .store (.bufferIn _) _ => True
  | .store _ _ => False
  | _ => True

variable {op : RpiOp} {reply : op.Reply}

private theorem sending_kept {machine following : Machine δ} (allowed : Sending op)
    (performed : device.perform op machine = some (reply, following)) :
    following.object.fromSlaveBufferIn = machine.object.fromSlaveBufferIn ∧
      following.object.curqidx = machine.object.curqidx ∧ following.object.curqoutidx = machine.object.curqoutidx := by
  cases op with
  | select level => cases performed; exact ⟨rfl, rfl, rfl⟩
  | transfer data => cases performed; exact ⟨rfl, rfl, rfl⟩
  | indeterminate => cases performed; exact ⟨rfl, rfl, rfl⟩
  | load cell =>
    rw [(loaded performed).2]
    exact ⟨rfl, rfl, rfl⟩
  | store cell value =>
    obtain ⟨object, writes, rfl⟩ := written performed
    cases cell with
    | bufferIn word =>
      simp only [RpiBase.write] at writes
      split at writes
      next => cases writes; exact ⟨rfl, rfl, rfl⟩
      next => cases writes
    | _ => exact absurd allowed id

theorem sending_spared (acts : Pool.acts (handle device) .rt op before reply after) (allowed : Sending op) :
    Spared before after := by
  have observed := acts_observe acts
  obtain ⟨_, performed, _⟩ := acts
  have counted : ((observe before.log).note .rt op).begun = (observe before.log).begun ∧
      ((observe before.log).note .rt op).handed = (observe before.log).handed := by
    unfold Observed.note
    repeat' split
    all_goals first | exact ⟨rfl, rfl⟩ | trivial
  obtain ⟨slots, curqidx, curqoutidx⟩ := sending_kept allowed performed
  rw [← observed] at counted
  exact ⟨counted.1, counted.2, slots, curqidx, curqoutidx⟩

/-- A step of a transmission only has its own verdict to answer for. -/
theorem sending_step (acts : Pool.acts (handle device) .rt op before reply after) (allowed : Sending op)
    (kept : Kept frames before)
    (verdict : Verdict reuse frames (observe before.log) ⟨.rt, op, reply, after.state⟩) :
    Kept frames after ∧ Spared before after := by
  have spared := sending_spared acts allowed
  refine ⟨⟨kept.ring.spared spared, ?_, acts_hands acts verdict kept.hands⟩, spared⟩
  rw [acts_observe acts]
  exact note_ordered _ kept.ordered

/-- The complete copy is the current frame, had its slot not been reused by then. -/
def Copied (frames : List ProcBuffer) (world : World Thread RpiOp RpiOp.Reply (Machine δ)) : Prop :=
  (observe world.log).begunAtCopy < reuse (observe world.log).current →
    world.state.object.bufferIn = frame frames (observe world.log).current

theorem Copied.stable (advanced : Advanced world later) (copied : Copied frames world) : Copied frames later := by
  intro low
  rw [advanced.begunAtCopy, advanced.current] at low
  rw [advanced.bufferIn, advanced.current]
  exact copied low

/-- Transmission `number` has taken the first `count` words. -/
structure Taking (frames : List ProcBuffer) (number : Nat) (index : BitVec 32) (count : Nat)
    (world : World Thread RpiOp RpiOp.Reply (Machine δ)) : Prop where
  tally : (observe world.log).tally = ⟨number + 1, if count = 4 then number + 1 else number, number⟩
  index : index.toNat = slot (observe world.log).current
  words : (observe world.log).begun < reuse (observe world.log).current → ∀ word < count,
    ul world.state.object.bufferIn word = ul (frame frames (observe world.log).current) word
  whole : count = 4 → Copied frames world

theorem Taking.stable {number : Nat} {index : BitVec 32} {count : Nat} (advanced : Advanced world later)
    (taking : Taking frames number index count world) : Taking frames number index count later := by
  refine ⟨advanced.tally.trans taking.tally, ?_, fun low word inside => ?_, fun full => (taking.whole full).stable advanced⟩
  · rw [advanced.current]
    exact taking.index
  · rw [advanced.current] at low
    rw [advanced.bufferIn, advanced.current]
    exact taking.words (Nat.lt_of_le_of_lt advanced.begun low) word inside

private theorem note_take (observed : Observed) (value : BitVec 64) : ∀ word : Nat,
    (observed.note .rt (.store (.bufferIn word) value)).begun = observed.begun ∧
      (observed.note .rt (.store (.bufferIn word) value)).current = observed.current ∧
      (observed.note .rt (.store (.bufferIn word) value)).tally =
        { observed.tally with copied := if word = 3 then observed.tally.copied + 1 else observed.tally.copied }
  | 0 | 1 | 2 | 3 | _ + 4 => ⟨rfl, rfl, rfl⟩

private theorem verdict_take {limit : Nat → Nat} {observed : Observed} {value : BitVec 64} {reply : Unit}
    {after : Machine δ} : ∀ word : Nat, word ≠ 3 →
      Verdict limit frames observed ⟨.rt, .store (.bufferIn word) value, reply, after⟩
  | 0, _ | 1, _ | 2, _ | _ + 4, _ => trivial
  | 3, other => absurd rfl other

def Fetched (frames : List ProcBuffer) (word : Nat) (value : BitVec 64)
    (world : World Thread RpiOp RpiOp.Reply (Machine δ)) : Prop :=
  (observe world.log).begun < reuse (observe world.log).current →
    value = ul (frame frames (observe world.log).current) word

theorem Fetched.stable {word : Nat} {value : BitVec 64} (advanced : Advanced world later)
    (fetched : Fetched frames word value world) : Fetched frames word value later := by
  intro low
  rw [advanced.current] at low ⊢
  exact fetched (Nat.lt_of_le_of_lt advanced.begun low)

theorem Taking.store {number : Nat} {index : BitVec 32} {word : Nat} {value : BitVec 64} {reply : Unit}
    (inside : word < 4)
    (acts : Pool.acts (handle device) .rt (.store (.bufferIn word) value) before reply after)
    (kept : Kept frames before) (taking : Taking frames number index word before)
    (fetched : Fetched frames word value before) :
    Kept frames after ∧ Spared before after ∧ Taking frames number index (word + 1) after := by
  have observed := acts_observe acts
  obtain ⟨begun, current, tally⟩ := note_take (observe before.log) value word
  rw [← observed] at begun current tally
  have under : (observe before.log).tally = ⟨number + 1, number, number⟩ := by
    rw [taking.tally, if_neg (by omega)]
  have copy : after.state.object.bufferIn = setPart before.state.object.bufferIn word value := by
    obtain ⟨_, performed, _⟩ := acts
    obtain ⟨object, writes, same⟩ := written performed
    simp only [RpiBase.write, inside, if_true] at writes
    cases writes
    exact congrArg (fun machine => machine.object.bufferIn) same
  have words : (observe before.log).begun < reuse (observe before.log).current → ∀ other < word + 1,
      ul after.state.object.bufferIn other = ul (frame frames (observe before.log).current) other := by
    intro low other within
    rw [copy]
    by_cases last : other = word
    · rw [last, ← fetched low]
      exact part_setPart_self _ _ _ (by omega)
    · rw [← taking.words low other (by omega)]
      exact part_setPart_of_ne _ _ last
  have whole : word = 3 → (observe before.log).begun < reuse (observe before.log).current →
      after.state.object.bufferIn = frame frames (observe before.log).current := by
    intro last low
    apply eq_of_parts 64 4 (by decide)
    intro other within
    exact words low other (by omega)
  have verdict : Verdict reuse frames (observe before.log)
      ⟨.rt, .store (.bufferIn word) value, reply, after.state⟩ := by
    by_cases last : word = 3
    · subst last
      exact ⟨by rw [under], whole rfl⟩
    · exact verdict_take word last
  obtain ⟨kept', spared⟩ := sending_step acts trivial kept verdict
  refine ⟨kept', spared, ?_, by rw [current]; exact taking.index, by rw [begun, current]; exact words, fun full => ?_⟩
  · rw [tally, under]
    simp only [Nat.reduceEqDiff]
  have last : word = 3 := Nat.succ.inj full
  subst last
  unfold Copied
  rw [current, observed]
  exact whole rfl

theorem takeWord_ensures {number : Nat} {index : BitVec 32} {word : Nat} (inside : word < 4)
    (taking : Taking frames number index word world) :
    ((protocol δ frames).rules (handle device) .rt).Ensures (takeWord index word ())
      (fun _ => Taking frames number index (word + 1)) world := by
  rw [takeWord, bind_eq, load_bind]
  intro between moves kept (value : BitVec 64) middle acts
  obtain ⟨kept', spared⟩ := sending_step acts trivial kept trivial
  refine ⟨kept', spared, ?_⟩
  have taking := taking.stable moves
  have observed : observe middle.log = observe between.log := acts_observe acts
  obtain ⟨_, performed, _⟩ := acts
  obtain ⟨reads, same⟩ := loaded performed
  have fetched : Fetched frames word value between := by
    intro low
    rw [← kept.ring.held _ kept.ordered low]
    simp only [RpiBase.read, taking.index, (slot (observe between.log).current).isLt, dif_pos, inside, if_true] at reads
    exact (Option.some.inj reads).symm
  have unmoved : Advanced between middle := by
    constructor <;> simp only [observed, same, Nat.le_refl]
  intro between' moves' kept'' _ after acts'
  have advanced := (protocol δ frames).trans .rt unmoved moves'
  obtain ⟨stored, spared', taken⟩ := Taking.store inside acts' kept'' (taking.stable advanced) (fetched.stable advanced)
  exact ⟨stored, spared', fun _ moves'' _ => taken.stable moves''⟩

/-- The copy of transmission `number` is complete and not sent yet; these bytes
have gone out since chip select. -/
structure Wire (frames : List ProcBuffer) (number : Nat) (image : ProcBuffer) (sent : List Byte)
    (world : World Thread RpiOp RpiOp.Reply (Machine δ)) : Prop where
  tally : (observe world.log).tally = ⟨number + 1, number + 1, number⟩
  copied : Copied frames world
  image : world.state.object.bufferIn = image
  sent : (observe world.log).wire = sent

theorem Wire.stable {number : Nat} {image : ProcBuffer} {sent : List Byte} (advanced : Advanced world later)
    (wire : Wire frames number image sent world) : Wire frames number image sent later :=
  ⟨advanced.tally.trans wire.tally, wire.copied.stable advanced, advanced.bufferIn.trans wire.image, advanced.wire.trans wire.sent⟩

/-- The bytes since chip select after an access of the bus. -/
def driven (sent : List Byte) : RpiOp → Option (List Byte)
  | .select .low => some []
  | .select .high => some sent
  | .transfer data => some (sent ++ [data])
  | .indeterminate => some sent
  | _ => none

private theorem driven_object {machine following : Machine δ} {sent sent' : List Byte}
    (drives : driven sent op = some sent') (performed : device.perform op machine = some (reply, following)) :
    following.object = machine.object := by
  cases op with
  | load cell => cases drives
  | store cell value => cases drives
  | _ => cases performed; rfl

/-- The end of a transaction on the write FIFO is counted; nothing else on the bus is. -/
def Uncounted (sent : List Byte) : RpiOp → Prop
  | .select .high => ¬ header <+: sent
  | _ => True

private theorem driven_note {observed : Observed} {sent sent' : List Byte} (drives : driven sent op = some sent')
    (wire : observed.wire = sent) (uncounted : Uncounted sent op) : (observed.note .rt op).wire = sent' ∧
      (observed.note .rt op).current = observed.current ∧
      (observed.note .rt op).begunAtCopy = observed.begunAtCopy ∧ (observed.note .rt op).tally = observed.tally := by
  cases op with
  | select level =>
    cases level with
    | low =>
      cases drives
      exact ⟨rfl, rfl, rfl, rfl⟩
    | high =>
      cases drives
      have same : observed.note .rt (.select .high) = observed := if_neg (by rw [wire]; exact uncounted)
      rw [same]
      exact ⟨wire, rfl, rfl, rfl⟩
  | transfer data =>
    cases drives
    exact ⟨congrArg (· ++ [data]) wire, rfl, rfl, rfl⟩
  | indeterminate =>
    cases drives
    exact ⟨wire, rfl, rfl, rfl⟩
  | load cell => cases drives
  | store cell value => cases drives

/-- An access of the bus leaves the copy alone and extends what has gone out. -/
theorem driven_wire {number : Nat} {image : ProcBuffer} {sent sent' : List Byte} (drives : driven sent op = some sent')
    (uncounted : Uncounted sent op)
    (acts : Pool.acts (handle device) .rt op before reply after) (wire : Wire frames number image sent before) :
    Wire frames number image sent' after := by
  obtain ⟨out, current, copy, tally⟩ := driven_note drives wire.sent uncounted
  have observed := acts_observe acts
  obtain ⟨_, performed, _⟩ := acts
  rw [← observed] at out current copy tally
  have object := driven_object drives performed
  refine ⟨tally.trans wire.tally, fun low => ?_, by rw [object, wire.image], out⟩
  rw [copy, current] at low
  rw [object, current]
  exact wire.copied low

theorem bus_ensures {α : Type} {next : op.Reply → Rpi α}
    {post : α → World Thread RpiOp RpiOp.Reply (Machine δ) → Prop} {number : Nat} {image : ProcBuffer}
    {sent sent' : List Byte} (drives : driven sent op = some sent') (uncounted : Uncounted sent op)
    (verdict : ∀ (between : World Thread RpiOp RpiOp.Reply (Machine δ)) (reply : op.Reply) (after : Machine δ),
      Wire frames number image sent between → Verdict reuse frames (observe between.log) ⟨.rt, op, reply, after⟩)
    (wire : Wire frames number image sent world)
    (rest : ∀ reply after, Kept frames after → Wire frames number image sent' after →
      ((protocol δ frames).rules (handle device) .rt).Ensures (next reply) post after) :
    ((protocol δ frames).rules (handle device) .rt).Ensures (.request op next) post world := by
  intro between moves kept reply after acts
  have wire := wire.stable moves
  have allowed : Sending op := by
    cases op with
    | store cell value => cases drives
    | _ => trivial
  obtain ⟨kept', spared⟩ := sending_step acts allowed kept (verdict between reply after.state wire)
  exact ⟨kept', spared, rest reply after kept' (driven_wire drives uncounted acts wire)⟩

section Bus

variable {α : Type} {post : α → World Thread RpiOp RpiOp.Reply (Machine δ) → Prop} {number : Nat}
  {image : ProcBuffer} {sent : List Byte}

theorem transfer_ensures {data : Byte} {next : Byte → Rpi α} (wire : Wire frames number image sent world)
    (rest : ∀ reply after, Kept frames after → Wire frames number image (sent ++ [data]) after →
      ((protocol δ frames).rules (handle device) .rt).Ensures (next reply) post after) :
    ((protocol δ frames).rules (handle device) .rt).Ensures (.request (.transfer data) next) post world :=
  bus_ensures rfl trivial (fun _ _ _ _ => trivial) wire rest

theorem low_ensures {next : Unit → Rpi α} (wire : Wire frames number image sent world)
    (rest : ∀ reply after, Kept frames after → Wire frames number image [] after →
      ((protocol δ frames).rules (handle device) .rt).Ensures (next reply) post after) :
    ((protocol δ frames).rules (handle device) .rt).Ensures (.request (.select .low) next) post world :=
  bus_ensures rfl trivial (fun _ _ _ _ => trivial) wire rest

theorem indeterminate_ensures {next : BitVec 32 → Rpi α} (wire : Wire frames number image sent world)
    (rest : ∀ reply after, Kept frames after → Wire frames number image sent after →
      ((protocol δ frames).rules (handle device) .rt).Ensures (next reply) post after) :
    ((protocol δ frames).rules (handle device) .rt).Ensures (.request .indeterminate next) post world :=
  bus_ensures rfl trivial (fun _ _ _ _ => trivial) wire rest

/-- A transaction that did not address the write FIFO is not judged. -/
theorem high_ensures {next : Unit → Rpi α} (other : ¬ header <+: sent)
    (wire : Wire frames number image sent world)
    (rest : ∀ reply after, Kept frames after → Wire frames number image sent after →
      ((protocol δ frames).rules (handle device) .rt).Ensures (next reply) post after) :
    ((protocol δ frames).rules (handle device) .rt).Ensures (.request (.select .high) next) post world :=
  bus_ensures rfl other (fun _ _ _ wire data addressed => absurd ⟨data, (wire.sent.symm.trans addressed).symm⟩ other)
    wire rest

end Bus

theorem writeReg_ensures (address : BitVec 16) (data : BitVec 32) (register : byte address 1 ≠ 0x00)
    {number : Nat} {image : ProcBuffer} {sent : List Byte} (wire : Wire frames number image sent world) :
    ((protocol δ frames).rules (handle device) .rt).Ensures (writeReg address data)
      (fun _ after => ∃ sent, Wire frames number image sent after) world := by
  simp only [writeReg, bind_eq, spiWrite_bind, select_eq, request_bind, pure_bind]
  apply low_ensures wire; intro _ _ _ wire
  apply transfer_ensures wire; intro _ _ _ wire
  apply transfer_ensures wire; intro _ _ _ wire
  apply transfer_ensures wire; intro _ _ _ wire
  apply transfer_ensures wire; intro _ _ _ wire
  apply transfer_ensures wire; intro _ _ _ wire
  apply transfer_ensures wire; intro _ _ _ wire
  apply transfer_ensures wire; intro _ _ _ wire
  apply high_ensures ?_ wire
  · intro _ _ _ wire _ moves _
    exact ⟨_, wire.stable moves⟩
  · intro addressed
    obtain ⟨data, same⟩ := addressed
    injection same with _ tail
    injection tail with high _
    exact register high.symm

private theorem readBytes_ensures (count : Nat) {number : Nat} {image : ProcBuffer} {sent : List Byte} (result : BitVec 32)
    (kept : Kept frames world) (wire : Wire frames number image sent world) :
    ((protocol δ frames).rules (handle device) .rt).Ensures (forUp readByte count 0 result)
      (fun _ after => Wire frames number image (sent ++ List.replicate count dummyByte) after) world := by
  let received (index : Nat) (_ : BitVec 32) (world : World Thread RpiOp RpiOp.Reply (Machine δ)) : Prop :=
    Wire frames number image (sent ++ List.replicate index dummyByte) world
  have each : ∀ index value world, 0 ≤ index → index < 0 + count → Kept frames world → received index value world →
      ((protocol δ frames).rules (handle device) .rt).Ensures (readByte index value) (received (index + 1)) world := by
    intro index value world _ _ _ wire
    apply transfer_ensures wire
    intro _ _ _ wire _ moves _
    have wire := wire.stable moves
    rwa [List.append_assoc, ← List.replicate_succ'] at wire
  have starts : received 0 result world := by
    rwa [show received 0 result world = Wire frames number image (sent ++ []) world from rfl, List.append_nil]
  have all : ((protocol δ frames).rules (handle device) .rt).Ensures (forUp readByte count 0 result)
      (received (0 + count)) world :=
    .forUp received (fun moves _ wire => wire.stable moves) count 0 result world each kept starts
  rwa [Nat.zero_add] at all

theorem readReg_ensures (address : BitVec 16) (len : Byte) {number : Nat} {image : ProcBuffer} {sent : List Byte}
    (wire : Wire frames number image sent world) :
    ((protocol δ frames).rules (handle device) .rt).Ensures (readReg address len)
      (fun _ after => ∃ sent, Wire frames number image sent after) world := by
  simp only [readReg, bind_eq, indeterminate_bind, select_bind, spiWrite_bind, pure_eq]
  apply indeterminate_ensures wire; intro result _ _ wire
  apply low_ensures wire; intro _ _ _ wire
  apply transfer_ensures wire; intro _ _ _ wire
  apply transfer_ensures wire; intro _ _ _ wire
  apply transfer_ensures wire; intro _ _ kept wire
  apply Rules.Ensures.bind kept
  apply (readBytes_ensures len.toNat result kept wire).mono
  intro value _ _ wire
  apply high_ensures ?_ wire
  · intro _ _ _ wire _ moves _
    exact ⟨_, wire.stable moves⟩
  · intro addressed
    obtain ⟨data, same⟩ := addressed
    injection same with command _
    exact absurd command (by decide)

private theorem sendByte_ensures {number : Nat} {image : ProcBuffer} {sent : List Byte} {index : Nat} (inside : index < 32)
    (wire : Wire frames number image sent world) :
    ((protocol δ frames).rules (handle device) .rt).Ensures (sendByte index ())
      (fun _ after => Wire frames number image (sent ++ [byte image index]) after) world := by
  simp only [sendByte, bind_eq, load_bind, spiWrite, pure_eq]
  intro between moves kept (value : Byte) middle acts
  obtain ⟨kept', spared⟩ := sending_step acts trivial kept trivial
  refine ⟨kept', spared, ?_⟩
  have wire := wire.stable moves
  have observed : observe middle.log = observe between.log := acts_observe acts
  obtain ⟨_, performed, _⟩ := acts
  obtain ⟨reads, same⟩ := loaded performed
  simp only [RpiBase.read, inside, if_true] at reads
  have value_of : value = byte image index := by
    rw [← wire.image]
    exact (Option.some.inj reads).symm
  have unmoved : Advanced between middle := by
    constructor <;> simp only [observed, same, Nat.le_refl]
  apply transfer_ensures (wire.stable unmoved)
  intro _ _ _ wire _ moves _
  have wire := wire.stable moves
  rwa [value_of] at wire

/-- The transaction on the write FIFO carries the copied image. -/
private theorem transmit_ensures {number : Nat} {image : ProcBuffer} {sent : List Byte} (wire : Wire frames number image sent world) :
    ((protocol δ frames).rules (handle device) .rt).Ensures
      (do select .low; spiWrite commSpiWrite; spiWrite 0x00; spiWrite 0x20
          forUp sendByte 31 0 (); sendByte 31 (); select .high)
      (fun _ after => (observe after.log).tally = .whole (number + 1)) world := by
  simp only [bind_eq, select_bind, spiWrite_bind]
  apply low_ensures wire; intro _ _ _ wire
  apply transfer_ensures wire; intro _ _ _ wire
  apply transfer_ensures wire; intro _ _ _ wire
  apply transfer_ensures wire; intro _ addressed kept wire
  let going (index : Nat) (_ : Unit) (world : World Thread RpiOp RpiOp.Reply (Machine δ)) : Prop :=
    Wire frames number image ([0x02, 0x00, 0x20] ++ (List.range index).map (byte image)) world
  have each : ∀ index value world, 0 ≤ index → index < 0 + 31 → Kept frames world → going index value world →
      ((protocol δ frames).rules (handle device) .rt).Ensures (sendByte index value) (going (index + 1)) world := by
    intro index _ world _ inside _ wire
    apply (sendByte_ensures (by omega) wire).mono
    intro _ after _ wire
    change Wire frames number image ([0x02, 0x00, 0x20] ++ (List.range (index + 1)).map (byte image)) after
    rwa [List.range_succ, List.map_append, ← List.append_assoc]
  have most : ((protocol δ frames).rules (handle device) .rt).Ensures (forUp sendByte 31 0 ()) (going 31) addressed :=
    .forUp going (fun moves _ wire => wire.stable moves) 31 0 () addressed each kept wire
  apply Rules.Ensures.bind kept
  apply most.mono
  intro _ _ kept wire
  apply Rules.Ensures.bind kept
  apply (sendByte_ensures (by decide) wire).mono
  intro _ _ _ wire between moves kept _ after acts
  have wire := wire.stable moves
  have whole : (observe between.log).wire = header ++ bytes image := by
    rw [wire.sent, List.append_assoc, bytes, List.range_succ, List.map_append]
    rfl
  have addressed : header <+: (observe between.log).wire := ⟨_, whole.symm⟩
  have object : after.state.object = between.state.object := by
    obtain ⟨_, performed, _⟩ := acts
    obtain ⟨_, same⟩ := Prod.mk.inj (Option.some.inj performed)
    rw [← same]
  have verdict : Verdict reuse frames (observe between.log) ⟨.rt, .select .high, (), after.state⟩ := by
    intro data same
    have carried : data = bytes image := List.append_cancel_left (same.symm.trans whole)
    refine ⟨by rw [wire.tally], by rw [wire.tally], ?_, fun low => ?_⟩
    · rw [object, wire.image]
      exact carried
    · rw [← wire.copied low, wire.image]
      exact carried
  obtain ⟨kept', spared⟩ := sending_step acts trivial kept verdict
  refine ⟨kept', spared, fun _ moves _ => ?_⟩
  have counted : (observe after.log).tally = .whole (number + 1) := by
    rw [acts_observe acts, show (observe between.log).note .rt (.select .high) = _ from if_pos addressed, wire.tally]
    rfl
  exact moves.tally.trans counted

theorem spiWriteProcRamFifo_ensures {number : Nat} (finished : (observe world.log).tally = .whole number) :
    ((protocol δ frames).rules (handle device) .rt).Ensures spiWriteProcRamFifo
      (fun _ after => (observe after.log).tally = .whole (number + 1)) world := by
  rw [spiWriteProcRamFifo, bind_eq, load_bind]
  intro between moves kept (index : BitVec 32) middle acts
  have finished := moves.tally.trans finished
  have verdict : Verdict reuse frames (observe between.log) ⟨.rt, .load .curqoutidx, index, middle.state⟩ :=
    ⟨by rw [finished]; rfl, kept.ordered⟩
  obtain ⟨kept', spared⟩ := sending_step acts trivial kept verdict
  refine ⟨kept', spared, ?_⟩
  have starts : Taking frames number index 0 middle := by
    have observed := acts_observe acts
    obtain ⟨_, performed, _⟩ := acts
    have reads := (loaded performed).1
    refine ⟨?_, ?_, fun _ _ none => absurd none (Nat.not_lt_zero _), fun never => absurd never (by decide)⟩
    · rw [observed]
      change { (observe between.log).tally with started := (observe between.log).tally.started + 1 } = _
      rw [finished]
      rfl
    · rw [observed, ← Option.some.inj reads]
      exact kept.ring.handed
  have each : ∀ word value world, 0 ≤ word → word < 0 + 4 → Kept frames world →
      Taking frames number index word world → ((protocol δ frames).rules (handle device) .rt).Ensures
        (takeWord index word value) (fun _ => Taking frames number index (word + 1)) world :=
    fun _ _ _ _ inside _ taking => takeWord_ensures (by omega) taking
  have taken : ((protocol δ frames).rules (handle device) .rt).Ensures (forUp (takeWord index) 4 0 ())
      (fun _ => Taking frames number index (0 + 4)) middle :=
    .forUp (fun word _ => Taking frames number index word) (fun moves _ taking => taking.stable moves) 4 0 () middle each
      kept' starts
  apply Rules.Ensures.bind kept'
  apply taken.mono
  intro _ copied kept taking
  have wire : Wire frames number copied.state.object.bufferIn (observe copied.log).wire copied :=
    ⟨taking.tally, taking.whole rfl, rfl, rfl⟩
  apply Rules.Ensures.bind kept
  apply (writeReg_ensures ecatPramWrAddrLen 0x00201200 (by decide) wire).mono
  intro _ _ kept ⟨_, wire⟩
  apply Rules.Ensures.bind kept
  apply (writeReg_ensures ecatPramWrCmd 0x80000000 (by decide) wire).mono
  intro _ started kept ⟨_, wire⟩
  let polling (world : World Thread RpiOp RpiOp.Reply (Machine δ)) : Prop :=
    ∃ sent, Wire frames number copied.state.object.bufferIn sent world
  have poll : ∀ world, Kept frames world → polling world →
      ((protocol δ frames).rules (handle device) .rt).Ensures (readReg ecatPramWrCmd 4)
        (Rules.Exits writeNotReady (fun _ => polling)
        fun _ => ((protocol δ frames).rules (handle device) .rt).Ensures
          (do select .low; spiWrite commSpiWrite; spiWrite 0x00; spiWrite 0x20
              forUp sendByte 31 0 (); sendByte 31 (); select .high)
          (fun _ after => (observe after.log).tally = .whole (number + 1))) world := by
    intro world _ ⟨_, wire⟩
    apply (readReg_ensures ecatPramWrCmd 4 wire).mono
    intro status _ _ polled
    exact .intro (fun _ => polled) (fun _ => polled.elim fun _ wire => transmit_ensures wire)
  exact Rules.Ensures.loop (fun _ => polling) kept ⟨_, wire⟩ fun _ => poll

theorem transmissions_ensure (count : Nat) {number : Nat} (kept : Kept frames world)
    (finished : (observe world.log).tally = .whole number) :
    ((protocol δ frames).rules (handle device) .rt).Ensures (times spiWriteProcRamFifo count)
      (fun _ after => (observe after.log).tally = .whole (number + count)) world := by
  induction count generalizing number world with
  | zero => exact fun _ moves _ => moves.tally.trans finished
  | succ count ih =>
    refine .bind kept ((spiWriteProcRamFifo_ensures finished).mono fun _ _ kept finished => ?_)
    rw [Nat.add_comm count 1, ← Nat.add_assoc]
    exact ih kept finished

end RealTime

section Application

def Queueing : RpiOp → Prop
  | .load _ => True
  | .store (.fromSlaveBufferIn _ _) _ => True
  | .store .curqidx _ => True
  | .store .curqoutidx _ => True
  | _ => False

variable {op : RpiOp} {reply : op.Reply}

private theorem queueing_kept {machine following : Machine δ} (allowed : Queueing op)
    (performed : device.perform op machine = some (reply, following)) :
    following.object.bufferIn = machine.object.bufferIn := by
  cases op with
  | load cell => rw [(loaded performed).2]
  | store cell value =>
    obtain ⟨object, writes, rfl⟩ := written performed
    cases cell with
    | curqidx => cases writes; rfl
    | curqoutidx => cases writes; rfl
    | fromSlaveBufferIn index word =>
      simp only [RpiBase.write] at writes
      repeat' split at writes
      all_goals cases writes <;> rfl
    | _ => exact absurd allowed id
  | _ => exact absurd allowed id

private theorem queueing_note {thread : Thread} (own : thread = .app) (observed : Observed) :
    observed.begun ≤ (observed.note thread op).begun ∧ (observed.note thread op).current = observed.current ∧
    (observed.note thread op).begunAtCopy = observed.begunAtCopy ∧
    (observed.note thread op).wire = observed.wire ∧ (observed.note thread op).tally = observed.tally := by
  unfold Observed.note
  split
  next => exact ⟨Nat.le_succ _, rfl, rfl, rfl, rfl⟩
  next => exact ⟨Nat.le_refl _, rfl, rfl, rfl, rfl⟩
  all_goals first | exact ⟨Nat.le_refl _, rfl, rfl, rfl, rfl⟩ | cases own

/-- A step of a call has the ring to answer for. -/
theorem queueing_step (acts : Pool.acts (handle device) .app op before reply after) (allowed : Queueing op)
    (kept : Kept frames before)
    (ring : Ring frames ((observe before.log).note .app op) after.state.object) :
    Kept frames after ∧ Advanced before after := by
  have observed := acts_observe acts
  obtain ⟨begun, current, copy, wire, tally⟩ := @queueing_note op _ rfl (observe before.log)
  have image : after.state.object.bufferIn = before.state.object.bufferIn := by
    obtain ⟨_, performed, _⟩ := acts
    exact queueing_kept allowed performed
  rw [← observed] at begun current copy wire tally ring
  refine ⟨⟨ring, ?_, acts_hands acts trivial kept.hands⟩, begun, current, copy, wire, tally, image⟩
  rw [observed]
  exact note_ordered _ kept.ordered

/-- Where the application is: what only its own steps change. -/
structure Counted (handed begun index : Nat) (world : World Thread RpiOp RpiOp.Reply (Machine δ)) : Prop where
  handed : (observe world.log).handed = handed
  begun : (observe world.log).begun = begun
  curqidx : world.state.object.curqidx.toNat = index

theorem Counted.stable {handed begun index : Nat} (spared : Spared world later)
    (counted : Counted handed begun index world) : Counted handed begun index later := by
  refine ⟨spared.handed.trans counted.handed, spared.begun.trans counted.begun, ?_⟩
  rw [spared.curqidx]
  exact counted.curqidx

/-- `sent` calls are complete and the next one has stored `count` words of its frame. -/
structure Queued (image : ProcBuffer) (sent count : Nat)
    (world : World Thread RpiOp RpiOp.Reply (Machine δ)) : Prop where
  counted : Counted sent (if count = 0 then sent else sent + 1) (sent % qinSize) world
  words : ∀ word < count, ul (world.state.object.fromSlaveBufferIn (slot (sent + 1))) word = ul image word

theorem Queued.stable {image : ProcBuffer} {sent count : Nat} (spared : Spared world later)
    (queued : Queued image sent count world) : Queued image sent count later := by
  refine ⟨queued.counted.stable spared, fun word inside => ?_⟩
  rw [spared.slots]
  exact queued.words word inside

/-- Only the slot of the call itself is overwritten, and no earlier call that
may still be read has that slot. -/
theorem slot_ne {sent call : Nat} (earlier : call ≤ sent) (unused : sent + 1 < reuse call) :
    slot call ≠ slot (sent + 1) := by
  cases call with
  | zero => exact absurd unused (by simp [reuse])
  | succ call =>
    simp only [reuse, qinSize] at unused
    intro same
    have equal := congrArg Fin.val same
    simp only [slot, qinSize] at equal
    omega

private theorem note_queue (observed : Observed) (index : BitVec 32) (value : BitVec 64) : ∀ word : Nat,
    observed.note .app (.store (.fromSlaveBufferIn index word) value) =
      { observed with begun := if word = 0 then observed.begun + 1 else observed.begun }
  | 0 => rfl
  | _ + 1 => rfl

/-- What the store of one word leaves. -/
private theorem word_stored {index : BitVec 32} {call : Nat} {word : Nat} {value : BitVec 64} {reply : Unit}
    {machine following : Machine δ} (target : index.toNat = slot call) (inside : word < 4)
    (performed : device.perform (.store (.fromSlaveBufferIn index word) value) machine = some (reply, following)) :
    following.object.fromSlaveBufferIn = Function.update machine.object.fromSlaveBufferIn (slot call)
        (setPart (machine.object.fromSlaveBufferIn (slot call)) word value) ∧
      following.object.curqidx = machine.object.curqidx ∧ following.object.curqoutidx = machine.object.curqoutidx := by
  obtain ⟨object, writes, rfl⟩ := written performed
  simp only [RpiBase.write, target, (slot call).isLt, dif_pos, inside, if_true] at writes
  cases writes
  exact ⟨rfl, rfl, rfl⟩

theorem Queued.store {source : ProcBuffer} {sent word : Nat} {index : BitVec 32} {reply : Unit} (inside : word < 4)
    (target : index.toNat = slot (sent + 1)) (kept : Kept frames before) (queued : Queued source sent word before)
    (acts : Pool.acts (handle device) .app (.store (.fromSlaveBufferIn index word) (ul source word)) before
      reply after) :
    Kept frames after ∧ Advanced before after ∧ Queued source sent (word + 1) after := by
  have observed := acts_observe acts
  rw [note_queue] at observed
  obtain ⟨slots, curqidx, curqoutidx⟩ : _ ∧ _ ∧ _ := by
    obtain ⟨_, performed, _⟩ := acts
    exact word_stored target inside performed
  have begun : (if word = 0 then (observe before.log).begun + 1 else (observe before.log).begun) = sent + 1 := by
    rw [queued.counted.begun]
    split <;> rfl
  have ring : Ring frames ((observe before.log).note .app (.store (.fromSlaveBufferIn index word) (ul source word)))
      after.state.object := by
    rw [note_queue]
    constructor
    · rw [curqoutidx]
      exact kept.ring.handed
    · intro call past unused
      have low : call ≤ sent := queued.counted.handed ▸ past
      have high : sent + 1 < reuse call := begun ▸ unused
      have still : (observe before.log).begun < reuse call := by
        rw [queued.counted.begun]
        split <;> omega
      rw [slots, Function.update_of_ne (slot_ne low high)]
      exact kept.ring.held call past still
  obtain ⟨kept', advanced⟩ := queueing_step acts trivial kept ring
  refine ⟨kept', advanced, ⟨?_, ?_, ?_⟩, fun other earlier => ?_⟩
  · rw [observed]
    exact queued.counted.handed
  · rw [observed, if_neg (Nat.succ_ne_zero word)]
    exact begun
  · rw [curqidx]
    exact queued.counted.curqidx
  · rw [slots, Function.update_self]
    by_cases last : other = word
    · rw [last]
      exact part_setPart_self _ _ _ (by omega)
    · rw [← queued.words other (by omega)]
      exact part_setPart_of_ne _ _ last

/-- A load of the application changes nothing. -/
theorem Counted.load {handed begun index : Nat} {value : BitVec 32} (kept : Kept frames before)
    (counted : Counted handed begun index before)
    (acts : Pool.acts (handle device) .app (.load .curqidx) before value after) :
    Kept frames after ∧ Advanced before after ∧ Spared before after ∧ value.toNat = index := by
  have observed : observe after.log = observe before.log := acts_observe acts
  have read : before.state.object.read .curqidx = some value ∧ after.state = before.state := by
    obtain ⟨_, performed, _⟩ := acts
    exact loaded performed
  obtain ⟨kept', advanced⟩ := queueing_step acts trivial kept (by rw [read.2]; exact kept.ring)
  refine ⟨kept', advanced, ?_, ?_⟩
  · constructor <;> simp only [observed, read.2]
  · rw [← counted.curqidx, ← Option.some.inj read.1]

theorem queueWord_ensures {source : ProcBuffer} {sent word : Nat} (inside : word < 4)
    (queued : Queued source sent word world) :
    ((protocol δ frames).rules (handle device) .app).Ensures (queueWord source word ())
      (fun _ => Queued source sent (word + 1)) world := by
  rw [queueWord, bind_eq, load_bind]
  intro _ moves kept (index : BitVec 32) _ acts
  have queued := queued.stable moves
  obtain ⟨kept', advanced, spared, target⟩ := queued.counted.load kept acts
  refine ⟨kept', advanced, ?_⟩
  have queued := queued.stable spared
  intro _ moves kept _ _ acts
  obtain ⟨stored, advanced, queued⟩ := (queued.stable moves).store inside target kept acts
  exact ⟨stored, advanced, fun _ moves _ => queued.stable moves⟩

/-- Handing over makes the slot of the call current. -/
theorem Queued.handOver {source : ProcBuffer} {sent : Nat} {index : BitVec 32} {reply : Unit}
    (target : index.toNat = slot (sent + 1)) (source_eq : source = frame frames (sent + 1)) (kept : Kept frames before)
    (queued : Queued source sent 4 before)
    (acts : Pool.acts (handle device) .app (.store .curqoutidx index) before reply after) :
    Kept frames after ∧ Advanced before after ∧ Counted (sent + 1) (sent + 1) (sent % qinSize) after := by
  have observed := acts_observe acts
  have object : after.state.object = { before.state.object with curqoutidx := index } := by
    obtain ⟨_, performed, _⟩ := acts
    obtain ⟨_, writes, equal⟩ := written performed
    rw [equal]
    exact (Option.some.inj writes).symm
  have handed : ((observe before.log).note .app (.store .curqoutidx index)).handed = sent + 1 :=
    congrArg Nat.succ queued.counted.handed
  have ring : Ring frames ((observe before.log).note .app (.store .curqoutidx index)) after.state.object := by
    constructor
    · rw [handed, object]
      exact target
    · intro call past unused
      rw [object]
      rw [handed] at past
      by_cases last : call = sent + 1
      · rw [last, ← source_eq]
        apply eq_of_parts 64 4 (by decide)
        intro word inside
        exact queued.words word inside
      · apply kept.ring.held call ?_ unused
        rw [queued.counted.handed]
        omega
  obtain ⟨kept', advanced⟩ := queueing_step acts trivial kept ring
  refine ⟨kept', advanced, ?_, ?_, ?_⟩
  · rw [observed]
    exact handed
  · rw [observed]
    exact queued.counted.begun
  · rw [object]
    exact queued.counted.curqidx

theorem Counted.store {handed begun index : Nat} {value : BitVec 32} {reply : Unit} (kept : Kept frames before)
    (counted : Counted handed begun index before)
    (acts : Pool.acts (handle device) .app (.store .curqidx value) before reply after) :
    Kept frames after ∧ Advanced before after ∧ Counted handed begun value.toNat after := by
  have observed : observe after.log = observe before.log := acts_observe acts
  have object : after.state.object = { before.state.object with curqidx := value } := by
    obtain ⟨_, performed, _⟩ := acts
    obtain ⟨_, writes, equal⟩ := written performed
    rw [equal]
    exact (Option.some.inj writes).symm
  have ring : Ring frames ((observe before.log).note .app (.store .curqidx value)) after.state.object := by
    rw [object]
    exact ⟨kept.ring.handed, kept.ring.held⟩
  obtain ⟨kept', advanced⟩ := queueing_step acts trivial kept ring
  refine ⟨kept', advanced, ?_, ?_, ?_⟩
  · rw [observed]
    exact counted.handed
  · rw [observed]
    exact counted.begun
  · rw [object]

/-- Past the last slot comes the first. -/
theorem wrap_ensures {sent : Nat} {index : BitVec 32} (advanced : index.toNat = sent % qinSize + 1)
    (counted : Counted (sent + 1) (sent + 1) index.toNat world) :
    ((protocol δ frames).rules (handle device) .app).Ensures
      (if qinSize ≤ index.toNat then store .curqidx 0 else return ())
      (fun _ => Counted (sent + 1) (sent + 1) ((sent + 1) % qinSize)) world := by
  rw [qinSize] at *
  by_cases wraps : 10 ≤ index.toNat
  · rw [if_pos wraps]
    intro _ moves kept _ _ acts
    obtain ⟨kept', advanced', counted⟩ := (counted.stable moves).store kept acts
    have wrapped : (sent + 1) % 10 = (0#32).toNat := by
      rw [BitVec.toNat_zero]
      omega
    rw [wrapped]
    exact ⟨kept', advanced', fun _ moves _ => counted.stable moves⟩
  · rw [if_neg wraps]
    intro _ moves _
    have next : (sent + 1) % 10 = index.toNat := by omega
    rw [next]
    exact counted.stable moves

theorem advance_ensures {sent : Nat} (counted : Counted (sent + 1) (sent + 1) (sent % qinSize) world) :
    ((protocol δ frames).rules (handle device) .app).Ensures
      (do increment .curqidx
          let index ← load .curqidx
          if qinSize ≤ index.toNat then store .curqidx 0)
      (fun _ => Counted (sent + 1) (sent + 1) ((sent + 1) % qinSize)) world := by
  simp only [increment, bind_eq, load_bind, request_bind, store_eq, pure_bind]
  intro _ moves kept (value : BitVec 32) _ acts
  have counted := counted.stable moves
  obtain ⟨kept', advanced, spared, held⟩ := counted.load kept acts
  refine ⟨kept', advanced, ?_⟩
  have counted := counted.stable spared
  intro _ moves kept _ _ acts
  obtain ⟨kept', advanced, counted⟩ := (counted.stable moves).store kept acts
  refine ⟨kept', advanced, ?_⟩
  have incremented : (value + 1#32).toNat = sent % qinSize + 1 := by
    rw [BitVec.toNat_add, held, BitVec.toNat_ofNat]
    have small := Nat.mod_lt sent (show 0 < qinSize by decide)
    rw [qinSize] at *
    omega
  intro _ moves kept (index : BitVec 32) _ acts
  have counted := counted.stable moves
  obtain ⟨kept', advanced, spared, read⟩ := counted.load kept acts
  have counted := counted.stable spared
  rw [← read] at counted
  exact ⟨kept', advanced, wrap_ensures (read.trans incremented) counted⟩

/-- One call of `send_output` hands over the next frame. -/
theorem sendOutput_ensures {source : ProcBuffer} {sent : Nat} (source_eq : source = frame frames (sent + 1))
    (kept : Kept frames world) (counted : Counted sent sent (sent % qinSize) world) :
    ((protocol δ frames).rules (handle device) .app).Ensures (sendOutput source)
      (fun _ => Counted (sent + 1) (sent + 1) ((sent + 1) % qinSize)) world := by
  have starts : Queued source sent 0 world := ⟨counted, fun _ none => absurd none (Nat.not_lt_zero _)⟩
  have each : ∀ word value world, 0 ≤ word → word < 0 + 4 → Kept frames world → Queued source sent word world →
      ((protocol δ frames).rules (handle device) .app).Ensures (queueWord source word value)
        (fun _ => Queued source sent (word + 1)) world :=
    fun _ _ _ _ inside _ queued => queueWord_ensures (by omega) queued
  have stored : ((protocol δ frames).rules (handle device) .app).Ensures (forUp (queueWord source) 4 0 ())
      (fun _ => Queued source sent (0 + 4)) world :=
    .forUp (fun word _ => Queued source sent word) (fun moves _ queued => queued.stable moves) 4 0
      () world each kept starts
  rw [sendOutput]
  apply Rules.Ensures.bind kept
  apply stored.mono
  intro _ _ _ queued _ moves kept (index : BitVec 32) _ acts
  have queued := queued.stable moves
  obtain ⟨kept', advanced, spared, target⟩ := queued.counted.load kept acts
  refine ⟨kept', advanced, ?_⟩
  have queued := queued.stable spared
  intro _ moves kept _ _ acts
  obtain ⟨kept', advanced, counted⟩ := (queued.stable moves).handOver target source_eq kept acts
  exact ⟨kept', advanced, advance_ensures counted⟩

theorem sendAll_ensures (rest : List ProcBuffer) {sent : Nat} (remain : frames.drop sent = rest)
    (kept : Kept frames world) (counted : Counted sent sent (sent % qinSize) world) :
    ((protocol δ frames).rules (handle device) .app).Ensures (sendAll rest) (fun _ _ => True) world := by
  induction rest generalizing sent world with
  | nil => exact fun _ _ _ => trivial
  | cons source rest ih =>
    have source_eq : source = frame frames (sent + 1) := by
      have first := congrArg List.head? remain
      rw [List.head?_drop] at first
      rw [frame, first]
      rfl
    have remain' : frames.drop (sent + 1) = rest := by
      rw [← List.tail_drop, remain]
      rfl
    apply Rules.Ensures.bind kept
    apply (sendOutput_ensures source_eq kept counted).mono
    intro _ _ kept counted
    exact ih remain' kept counted

end Application

def Promised (executions : Nat) : (thread : Thread) → Result thread →
    World Thread RpiOp RpiOp.Reply (Machine δ) → Prop
  | .app, _ => fun _ => True
  | .rt, _ => fun world => (observe world.log).tally = .whole executions

theorem starts (start : Machine δ) (frames : List ProcBuffer) (executions : Nat)
    (fresh : start.object = RpiBase.construct {}) :
    (protocol δ frames).Holds (handle device) (Promised executions) (pool start frames executions) := by
  have zero : ∀ call ≤ 0, start.object.fromSlaveBufferIn (slot call) = frame frames call := by
    intro call none
    rw [fresh, Nat.le_zero.mp none]
    rfl
  have kept : Kept frames (pool start frames executions).world := by
    refine ⟨⟨?_, fun call none _ => zero call none⟩, Nat.le_refl 0, fun earlier _ _ split => ?_⟩
    · change start.object.curqoutidx.toNat = _
      rw [fresh]
      rfl
    · cases earlier <;> cases split
  refine ⟨kept, fun thread => ?_⟩
  cases thread with
  | app =>
    refine sendAll_ensures frames rfl kept ⟨rfl, rfl, ?_⟩
    change start.object.curqidx.toNat = _
    rw [fresh]
    rfl
  | rt =>
    have all : ((protocol δ frames).rules (handle device) .rt).Ensures (times spiWriteProcRamFifo executions)
        (fun _ after => (observe after.log).tally = .whole (0 + executions)) (pool start frames executions).world :=
      transmissions_ensure executions kept rfl
    rwa [Nat.zero_add] at all

/-- In every run each transmission sends one copy, a frame whose slot is not
reused before its copy ends leaves the slave whole, and no older frame follows it. -/
theorem frames_handed_over (device : Device δ) (start : Machine δ) (frames : List ProcBuffer) (executions : Nat)
    (schedule : List (Thread × Unit)) (final : Pool Thread RpiOp RpiOp.Reply (Machine δ) Result)
    (fresh : start.object = RpiBase.construct {})
    (ran : (pool start frames executions).run (handle device) schedule = some final) :
    HandsOver reuse frames final.world.log ∧
      (final.threads .rt = .pure () → (observe final.world.log).tally = .whole executions) := by
  have holds := Protocol.run_holds (starts start frames executions fresh) ran
  exact ⟨holds.1.hands, fun ended => holds.returned ended⟩

/-- A zeroed, constructed object beside a chip that is never busy. -/
def idle : Machine Lan9252 := ⟨RpiBase.construct {}, ⟨.released, .prompt fun _ => 0⟩, fun _ => 0⟩

/-- The second frame is queued while the first one is transmitted. -/
def inTurn : List (Thread × Unit) :=
  List.replicate 13 (.app, ()) ++ List.replicate 30 (.rt, ()) ++ List.replicate 13 (.app, ()) ++
    List.replicate 182 (.rt, ())

theorem frames_handed_over_in_turn : ∃ final, (pool idle [0x55, 0x0123] 2).run (handle lan9252) inTurn = some final ∧
    HandsOver reuse [0x55, 0x0123] final.world.log ∧ (observe final.world.log).tally = .whole 2 := by
  have ends : ((pool idle [0x55, 0x0123] 2).run (handle lan9252) inTurn).map
      (fun final => (final.threads .rt).returned) = some (some ()) := by decide +kernel
  obtain ⟨final, ran, returned⟩ := Option.map_eq_some_iff.mp ends
  obtain ⟨hands, finished⟩ := frames_handed_over lan9252 idle [0x55, 0x0123] 2 _ final rfl ran
  exact ⟨final, ran, hands, finished (returned_iff.mp returned)⟩

/-- What the last step of a copy left in `BufferIn`. -/
def copyEnd : Event Thread RpiOp RpiOp.Reply (Machine δ) → Option ProcBuffer
  | ⟨.rt, .store (.bufferIn 3) _, _, after⟩ => some after.object.bufferIn
  | _ => none

private theorem copyEnd_verdict {limit : Nat → Nat} {observed : Observed} {image : ProcBuffer}
    {event : Event Thread RpiOp RpiOp.Reply (Machine δ)} (ends : copyEnd event = some image)
    (verdict : Verdict limit frames observed event) (low : observed.begun < limit observed.current) :
    image = frame frames observed.current := by
  unfold copyEnd at ends
  split at ends
  next =>
    rw [← Option.some.inj ends]
    exact verdict.2 low
  next => cases ends

/-- The application has stored two words of its first frame when the real-time
thread copies the slot that `m_curqoutidx` starts with. -/
def overtaken : List (Thread × Unit) := List.replicate 4 (.app, ()) ++ List.replicate 9 (.rt, ())

def allOnes : ProcBuffer := BitVec.allOnes 256

/-- No call has handed over a frame, call 10 has not begun, and yet half of the
first frame is copied. -/
theorem first_frame_torn : ∃ final,
    (pool idle [allOnes] 1).run (handle lan9252) overtaken = some final ∧
      ¬ HandsOver (fun call => call + qinSize) [allOnes] final.world.log := by
  have ends : ((pool idle [allOnes] 1).run (handle lan9252) overtaken).map (fun final =>
      (observe final.world.log.dropLast, final.world.log.getLast?.bind copyEnd)) =
        some (⟨1, 0, 0, 0, [], ⟨1, 0, 0⟩⟩, some (BitVec.setWidth 256 (BitVec.allOnes 128))) := by decide +kernel
  obtain ⟨final, ran, same⟩ := Option.map_eq_some_iff.mp ends
  obtain ⟨observed, copied⟩ := Prod.mk.inj same
  refine ⟨final, ran, fun hands => ?_⟩
  obtain ⟨last, present, copied⟩ := Option.bind_eq_some_iff.mp copied
  obtain ⟨earlier, split⟩ := List.getLast?_eq_some_iff.mp present
  have verdict := hands earlier last [] split
  rw [split, List.dropLast_concat] at observed
  rw [observed] at verdict
  exact absurd (copyEnd_verdict copied verdict (by decide)) (by decide)

end EthercatSlave.Proofs.OutputQueue
