import EthercatSlave.Proofs.Accesses
import EthercatSlave.Proofs.RelyGuarantee
import EthercatSlave.Sharing
import EthercatSlave.Lan9252
import Mathlib.Data.List.TakeWhile
import Mathlib.Tactic.Tauto
import Mathlib.Algebra.Group.Nat.Defs

/-! The application's copy of the output image beside the fetches of the
real-time thread. Both threads are judged by the history of the published image:
the fetches keep it in order, and an accepted copy lies where it stood still. -/

namespace EthercatSlave.Proofs.InputImage
open Program Rpi Sharing SequenceLock Accesses EthercatSlave.InputImage

variable {δ : Type} {device : Device δ}

/-- The object holds what the history says. -/
structure Reflects (start object : RpiBase) (history : List (Mark (BitVec 64))) : Prop where
  counter : object.atomiccounter = start.atomiccounter + BitVec.ofNat 32 (bumps history)
  words : ∀ index < 4, ul object.bufferOutEthToSlaveBuffer index =
    content (ul start.bufferOutEthToSlaveBuffer) history index

theorem marks_append (first second : Log δ) : marks (first ++ second) = marks first ++ marks second :=
  List.filterMap_append ..

theorem unmarked_kept {op : RpiOp} {before after : Machine δ} {reply : op.Reply} (unmarked : mark op = none)
    (performed : device.perform op before = some (reply, after)) :
    after.object.atomiccounter = before.object.atomiccounter ∧
      after.object.bufferOutEthToSlaveBuffer = before.object.bufferOutEthToSlaveBuffer := by
  cases op with
  | select level => cases performed; exact ⟨rfl, rfl⟩
  | transfer data => cases performed; exact ⟨rfl, rfl⟩
  | indeterminate => cases performed; exact ⟨rfl, rfl⟩
  | load cell =>
    rw [(loaded performed).2]
    exact ⟨rfl, rfl⟩
  | store cell value =>
    obtain ⟨object, writes, rfl⟩ := written performed
    cases cell with
    | atomiccounter => cases unmarked
    | bufferOutEthToSlaveBuffer word => cases unmarked
    | _ =>
      simp only [RpiBase.write] at writes
      repeat' split at writes
      all_goals cases writes <;> exact ⟨rfl, rfl⟩

theorem counterRead_facts {event : Event Thread RpiOp RpiOp.Reply (Machine δ)} {counter : BitVec 32}
    (read : counterRead event = some counter) : event.thread = .app ∧ mark event.op = none := by
  unfold counterRead at read
  split at read
  · exact ⟨rfl, rfl⟩
  · cases read

/-- Two counter values that agree modulo 2^32 agree when they are close. -/
theorem bumps_still (start : BitVec 32) (before during : Nat) (few : during < 2 ^ 32)
    (same : start + BitVec.ofNat 32 before = start + BitVec.ofNat 32 (before + during)) : during = 0 := by
  have equal := congrArg BitVec.toNat ((BitVec.add_right_inj start).mp same)
  rw [BitVec.toNat_ofNat, BitVec.toNat_ofNat] at equal
  omega

/-- What the application knows about a copy of `count` words. -/
structure Copied (start : RpiBase) (before during : Log δ) (counter : BitVec 32) (count : Nat) (image : ProcBuffer) :
    Prop where
  ordered : Ordered 4 (marks before)
  counted : counter = start.atomiccounter + BitVec.ofNat 32 (bumps (marks before))
  alone : during.filterMap counterRead = []
  reads : during.filterMap wordRead = List.range count
  words : ∀ index < count, ∃ seen rest, during = seen ++ rest ∧
    ul image index = content (ul start.bufferOutEthToSlaveBuffer) (marks before ++ marks seen) index

/-- A copy around which the counter stood still is whole, unless it overlaps the stores of a fetch. -/
theorem whole_of_accepted {start : RpiBase} {before during later : Log δ}
    {first last : Event Thread RpiOp RpiOp.Reply (Machine δ)} {counter : BitVec 32} {image : ProcBuffer}
    (copied : Copied start before during counter 4 image)
    (readFirst : counterRead first = some counter) (readLast : counterRead last = some counter)
    (ordered : Ordered 4 (marks before ++ marks during))
    (counted : counter = start.atomiccounter + BitVec.ofNat 32 (bumps (marks before ++ marks during)))
    (brief : Brief (before ++ first :: (during ++ last :: later)))
    (apart : Apart (before ++ first :: (during ++ last :: later))) :
    Whole start (before ++ first :: (during ++ last :: later)) image := by
  have few := brief before first during last later rfl (counterRead_facts readFirst).1 (counterRead_facts readLast).1
  have clear := apart before during
    ⟨first, last, later, counter, rfl, readFirst, copied.alone, by rw [copied.reads]; rfl, readLast⟩
  have same := copied.counted.symm.trans counted
  rw [bumps_append] at same
  have still := bumps_still _ _ _ (by omega) same
  have nothing : marks during = [] := unmoved copied.ordered ordered still clear
  have words : ∀ index < 4, ul image index =
      content (ul start.bufferOutEthToSlaveBuffer) (marks before) index := by
    intro index inside
    obtain ⟨seen, rest, split, holds⟩ := copied.words index inside
    rw [split, marks_append] at nothing
    rw [holds, (List.append_eq_nil_iff.mp nothing).1, List.append_nil]
  rw [nothing, List.append_nil] at clear
  rcases settled (ul start.bufferOutEthToSlaveBuffer) copied.ordered clear with initial | ⟨stored, complete, holds⟩
  · refine .inl (eq_of_parts 64 4 (by decide) fun index inside => ?_)
    exact (words index inside).trans (initial index inside)
  · obtain ⟨earlier, rest, history⟩ := complete
    have equal : SequenceLock.words stored 4 = SequenceLock.words (ul image) 4 :=
      List.map_congr_left fun index member => by
        rw [words index (List.mem_range.mp member), holds index (List.mem_range.mp member)]
    refine .inr ⟨earlier, rest ++ marks (first :: (during ++ last :: later)), ?_⟩
    rw [marks_append, history, equal, List.append_assoc]

/-- Only the real-time thread adds to the history. -/
def Steps (thread : Thread) (before after : World Thread RpiOp RpiOp.Reply (Machine δ)) : Prop :=
  ∃ event, after.log = before.log ++ [event] ∧ event.thread = thread ∧ (event.thread = .app → mark event.op = none)

def Interferes (thread : Thread) (before after : World Thread RpiOp RpiOp.Reply (Machine δ)) : Prop :=
  ∃ more, after.log = before.log ++ more ∧
    ∀ event ∈ more, event.thread ≠ thread ∧ (event.thread = .app → mark event.op = none)

/-- The history is in order and the object reflects it. -/
def protocol (δ : Type) (start : RpiBase) : Protocol Thread RpiOp RpiOp.Reply (Machine δ) where
  invariant world := Reflects start world.state.object (marks world.log) ∧ Ordered 4 (marks world.log)
  rely := Interferes
  guarantee := Steps
  refl _ world := ⟨[], (List.append_nil _).symm, fun _ none => absurd none List.not_mem_nil⟩
  trans := by
    intro thread first second third given given'
    obtain ⟨more, grows, others⟩ := given
    obtain ⟨more', grows', others'⟩ := given'
    refine ⟨more ++ more', by rw [grows', grows, List.append_assoc], fun event member => ?_⟩
    exact (List.mem_append.mp member).elim (others event) (others' event)
  compatible := by
    intro thread other before after different given
    obtain ⟨event, grows, own, quiet⟩ := given
    refine ⟨[event], grows, fun event' member => ?_⟩
    cases List.mem_singleton.mp member
    exact ⟨fun same => different (same.symm.trans own), quiet⟩

variable {start : RpiBase} {thread : Thread} {before after world later : World Thread RpiOp RpiOp.Reply (Machine δ)}

theorem acts_marks {op : RpiOp} {reply : op.Reply} (acts : Pool.acts (handle device) thread op before reply after) :
    marks after.log = marks before.log ++ (mark op).toList := by
  obtain ⟨_, _, grows⟩ := acts
  rw [grows, marks_append]
  rfl

theorem acts_steps {op : RpiOp} {reply : op.Reply} (acts : Pool.acts (handle device) thread op before reply after)
    (quiet : thread = .app → mark op = none) : Steps thread before after := by
  obtain ⟨_, _, grows⟩ := acts
  exact ⟨_, grows, rfl, quiet⟩

theorem rely_marks (moves : Interferes .rt before after) : marks after.log = marks before.log := by
  obtain ⟨more, grows, others⟩ := moves
  rw [grows, marks_append]
  have nothing : marks more = [] := by
    refine List.filterMap_eq_nil_iff.mpr fun event member => ?_
    obtain ⟨other, quiet⟩ := others event member
    cases thread : event.thread with
    | app => exact quiet thread
    | rt => exact absurd thread other
  rw [nothing, List.append_nil]

theorem unmarked_reflects {op : RpiOp} {reply : op.Reply} (unmarked : mark op = none)
    (acts : Pool.acts (handle device) thread op before reply after)
    (kept : (protocol δ start).invariant before) : (protocol δ start).invariant after := by
  have same : marks after.log = marks before.log := by
    rw [acts_marks acts, unmarked]
    exact List.append_nil _
  obtain ⟨_, performed, _⟩ := acts
  obtain ⟨counter, image⟩ := unmarked_kept unmarked performed
  refine ⟨⟨?_, ?_⟩, by rw [same]; exact kept.2⟩
  · rw [counter, same]
    exact kept.1.counter
  · rw [image, same]
    exact kept.1.words

theorem bump_reflects {value : BitVec 32} {reply : Unit} (counts : value = before.state.object.atomiccounter + 1)
    (acts : Pool.acts (handle device) thread (.store .atomiccounter value) before reply after)
    (reflects : Reflects start before.state.object (marks before.log)) :
    Reflects start after.state.object (marks after.log) := by
  have grows : marks after.log = marks before.log ++ [.bump] := acts_marks acts
  obtain ⟨_, performed, _⟩ := acts
  obtain ⟨object, writes, same⟩ := written performed
  cases writes
  rw [same, grows]
  refine ⟨?_, fun index inside => ?_⟩
  · rw [bumps_append, BitVec.ofNat_add, ← BitVec.add_assoc, ← reflects.counter]
    exact counts
  · rw [content_append]
    exact reflects.words index inside

theorem word_reflects {word : Nat} {value : BitVec 64} {reply : Unit}
    (acts : Pool.acts (handle device) thread (.store (.bufferOutEthToSlaveBuffer word) value) before reply after)
    (reflects : Reflects start before.state.object (marks before.log)) :
    Reflects start after.state.object (marks after.log) := by
  have grows : marks after.log = marks before.log ++ [.word word value] := acts_marks acts
  obtain ⟨_, performed, _⟩ := acts
  obtain ⟨object, writes, same⟩ := written performed
  simp only [RpiBase.write] at writes
  split at writes
  next inside =>
    cases writes
    rw [same, grows]
    refine ⟨?_, fun index low => ?_⟩
    · rw [bumps_append]
      exact reflects.counter
    · rw [content_append]
      change part 64 (setPart _ word value) index =
        Function.update (content (ul start.bufferOutEthToSlaveBuffer) (marks before.log)) word value index
      by_cases target : index = word
      · rw [target, Function.update_self, part_setPart_self _ _ _ (by omega)]
      · rw [Function.update_of_ne target, part_setPart_of_ne _ _ target]
        exact reflects.words index low
  next => cases writes

/-- A load of the real-time thread tells nothing new, so what it knows of the history stays known. -/
theorem increment_ensures {knows learns : List (Mark (BitVec 64)) → Prop}
    (bumped : ∀ history, knows history → learns (history ++ [.bump]))
    (ordered : ∀ history, learns history → Ordered 4 history)
    (known : knows (marks world.log)) :
    ((protocol δ start).rules (handle device) .rt).Ensures (increment .atomiccounter)
      (fun _ after => learns (marks after.log)) world := by
  intro between moves kept value middle acts
  have same : marks middle.log = marks between.log := (acts_marks acts).trans (List.append_nil _)
  have held : between.state.object.atomiccounter = value := by
    obtain ⟨_, performed, _⟩ := acts
    exact Option.some.inj (loaded performed).1
  refine ⟨unmarked_reflects rfl acts kept, acts_steps acts (fun impossible => nomatch impossible), ?_⟩
  intro between' moves' kept' _ stored acts'
  have history : marks between'.log = marks world.log := by rw [rely_marks moves', same, rely_marks moves]
  have grows : marks stored.log = marks world.log ++ [.bump] := by rw [acts_marks acts', history]; rfl
  have current : between'.state.object.atomiccounter = value := by
    rw [← held, kept'.1.counter, history, ← rely_marks moves, ← kept.1.counter]
  refine ⟨⟨bump_reflects (congrArg (· + 1) current.symm) acts' kept'.1, ?_⟩,
    acts_steps acts' (fun impossible => nomatch impossible), ?_⟩
  · rw [grows]
    exact ordered _ (bumped _ known)
  · intro final moves'' _
    rw [rely_marks moves'', grows]
    exact bumped _ known

theorem publish_ensures {word : Nat} (inside : word < 4) (storing : Storing 4 word (marks world.log)) :
    ((protocol δ start).rules (handle device) .rt).Ensures (publishWord word ())
      (fun _ after => Storing 4 (word + 1) (marks after.log)) world := by
  intro between moves kept value middle acts
  have same : marks middle.log = marks between.log := (acts_marks acts).trans (List.append_nil _)
  refine ⟨unmarked_reflects rfl acts kept, acts_steps acts (fun impossible => nomatch impossible), ?_⟩
  intro between' moves' kept' _ after acts'
  have history : marks between'.log = marks world.log := by rw [rely_marks moves', same, rely_marks moves]
  have grows : marks after.log = marks world.log ++ [.word word value] := by rw [acts_marks acts', history]; rfl
  have stored : Storing 4 (word + 1) (marks after.log) := by
    rw [grows]
    exact storing.store value
  refine ⟨⟨word_reflects acts' kept'.1, .inr ⟨word + 1, inside, stored⟩⟩,
    acts_steps acts' (fun impossible => nomatch impossible), ?_⟩
  intro final moves'' _
  rwa [rely_marks moves'']

/-- Everything a fetch does between moving the counter and publishing. -/
def fetch : Rpi Unit := do
  writeReg ecatPramRdAddrLen 0x00201000
  writeReg ecatPramRdCmd 0x80000000
  let _ ← loop (readReg ecatPramRdCmd 4) readNotReady
  select .low
  spiWrite commSpiRead
  spiWrite 0x00
  spiWrite 0x00
  forUp receiveByte 32 0 ()

theorem spiReadProcRamFifo_eq : spiReadProcRamFifo = (increment .atomiccounter).bind fun _ => fetch.bind fun _ =>
    (forUp publishWord 4 0 ()).bind fun _ => (select .high).bind fun _ => increment .atomiccounter := by
  simp only [spiReadProcRamFifo, fetch, bind_eq, bind_assoc]

theorem writeReg_unmarked (address : BitVec 16) (data : BitVec 32) :
    (writeReg address data).Uses fun op => mark op = none := by
  simp [writeReg, Rpi.select, spiWrite, ask, Uses, mark]

theorem readReg_unmarked (address : BitVec 16) (len : Byte) :
    (readReg address len).Uses fun op => mark op = none := by
  have bytes : ∀ result, (forUp readByte len.toNat 0 result).Uses fun op => mark op = none :=
    fun result => Uses.forUp _ _ _ fun _ _ => ⟨rfl, fun _ => trivial⟩
  have last : ∀ result : BitVec 32, (do Rpi.select .high; return result : Rpi (BitVec 32)).Uses fun op =>
      mark op = none :=
    fun _ => ⟨rfl, fun _ => trivial⟩
  exact ⟨rfl, fun result => ⟨rfl, fun _ => ⟨rfl, fun _ => ⟨rfl, fun _ => ⟨rfl, fun _ => (bytes result).bind last⟩⟩⟩⟩⟩

theorem fetch_unmarked : fetch.Uses fun op => mark op = none := by
  have bytes : (forUp receiveByte 32 0 ()).Uses fun op => mark op = none :=
    Uses.forUp _ _ _ fun _ _ => ⟨rfl, fun _ => ⟨rfl, fun _ => trivial⟩⟩
  refine (writeReg_unmarked _ _).bind fun _ => (writeReg_unmarked _ _).bind fun _ =>
    ⟨fun _ => readReg_unmarked _ _, fun _ => ?_⟩
  exact ⟨rfl, fun _ => ⟨rfl, fun _ => ⟨rfl, fun _ => ⟨rfl, fun _ => bytes⟩⟩⟩⟩

theorem unmarked_ensures {α : Type} {program : Rpi α} (unmarked : program.Uses fun op => mark op = none)
    {knows : List (Mark (BitVec 64)) → Prop} (known : knows (marks world.log)) :
    ((protocol δ start).rules (handle device) .rt).Ensures program (fun _ after => knows (marks after.log)) world := by
  let fact (world : World Thread RpiOp RpiOp.Reply (Machine δ)) : Prop := knows (marks world.log)
  have stable : ∀ {world later}, Interferes .rt world later → (protocol δ start).invariant later → fact world →
      fact later := by
    intro world later moves _ known
    rwa [show fact later = knows (marks later.log) from rfl, rely_marks moves]
  have keeps : ∀ {op before reply after}, mark op = none → (protocol δ start).invariant before → fact before →
      Pool.acts (handle device) .rt op before reply after →
        (protocol δ start).invariant after ∧ Steps .rt before after ∧ fact after := by
    intro op before reply after unmarked kept known acts
    have same : marks after.log = marks before.log := by
      rw [acts_marks acts, unmarked]
      exact List.append_nil _
    refine ⟨unmarked_reflects unmarked acts kept, acts_steps acts fun _ => unmarked, ?_⟩
    rwa [show fact after = knows (marks after.log) from rfl, same]
  exact Rules.Ensures.of_uses stable keeps unmarked known

theorem spiReadProcRamFifo_ensures (kept : (protocol δ start).invariant world) (idle : Idle 4 (marks world.log)) :
    ((protocol δ start).rules (handle device) .rt).Ensures spiReadProcRamFifo
      (fun _ after => Idle 4 (marks after.log)) world := by
  rw [spiReadProcRamFifo_eq]
  refine .bind kept ((increment_ensures (fun _ => Idle.begin) (fun _ => fun storing => .inr ⟨0, by decide, storing⟩)
    idle).mono ?_)
  intro _ counted kept storing
  refine .bind kept ((unmarked_ensures fetch_unmarked storing).mono ?_)
  intro _ fetched kept storing
  refine .bind kept (Rules.Ensures.mono (.forUp (fun word _ after => Storing 4 word (marks after.log)) ?_ 4 0 () fetched
    ?_ kept storing) ?_)
  · intro _ _ _ _ moves _ storing
    rwa [rely_marks moves]
  · intro word _ _ _ inside _ storing
    exact publish_ensures (by omega) storing
  intro _ published kept storing
  refine .bind kept ((unmarked_ensures (.ask rfl) storing).mono ?_)
  intro _ released kept storing
  exact increment_ensures (fun _ => Storing.finish) (fun _ => .inl) storing

/-- What the application knows while its copy is under way: the copy's events
are the end of the log, and nobody can add a read to them. -/
def Copying (start : RpiBase) (before : Log δ) (first : Event Thread RpiOp RpiOp.Reply (Machine δ))
    (counter : BitVec 32) (count : Nat) (image : ProcBuffer)
    (world : World Thread RpiOp RpiOp.Reply (Machine δ)) : Prop :=
  ∃ during, world.log = before ++ first :: during ∧ Copied start before during counter count image

theorem others_read {more : Log δ} (others : ∀ event ∈ more, event.thread ≠ .app ∧
    (event.thread = .app → mark event.op = none)) :
    more.filterMap counterRead = [] ∧ more.filterMap wordRead = [] := by
  constructor
  · refine List.filterMap_eq_nil_iff.mpr fun event member => ?_
    unfold counterRead
    split
    · exact absurd rfl (others _ member).1
    · rfl
  · refine List.filterMap_eq_nil_iff.mpr fun event member => ?_
    unfold wordRead
    split
    · exact absurd rfl (others _ member).1
    · rfl

theorem Copying.stable {before : Log δ} {first : Event Thread RpiOp RpiOp.Reply (Machine δ)} {counter : BitVec 32}
    {count : Nat} {image : ProcBuffer} (moves : Interferes .app world later)
    (copying : Copying start before first counter count image world) :
    Copying start before first counter count image later := by
  obtain ⟨more, grows, others⟩ := moves
  obtain ⟨during, log, copied⟩ := copying
  refine ⟨during ++ more, by rw [grows, log, List.append_assoc, List.cons_append], copied.ordered, copied.counted, ?_, ?_,
    fun index inside => ?_⟩
  · rw [List.filterMap_append, copied.alone, (others_read others).1]
    rfl
  · rw [List.filterMap_append, copied.reads, (others_read others).2, List.append_nil]
  · obtain ⟨seen, rest, split, holds⟩ := copied.words index inside
    exact ⟨seen, rest ++ more, by rw [split, List.append_assoc], holds⟩

/-- One more word is loaded from what the history left in memory. -/
theorem copyWord_ensures {before : Log δ} {first : Event Thread RpiOp RpiOp.Reply (Machine δ)} {counter : BitVec 32}
    {count : Nat} {image : ProcBuffer} (inside : count < 4) (silent : mark first.op = none)
    (copying : Copying start before first counter count image world) :
    ((protocol δ start).rules (handle device) .app).Ensures (copyWord count image)
      (Copying start before first counter (count + 1)) world := by
  intro between moves kept (value : BitVec 64) after acts
  obtain ⟨during, log, copied⟩ := copying.stable moves
  refine ⟨unmarked_reflects rfl acts kept, acts_steps acts fun _ => rfl, ?_⟩
  obtain ⟨_, performed, grows⟩ := acts
  have held : ul between.state.object.bufferOutEthToSlaveBuffer count = value := by
    have reads := (loaded performed).1
    simp only [RpiBase.read, inside, if_true] at reads
    exact Option.some.inj reads
  have history : marks between.log = marks before ++ marks during := by
    rw [log, marks_append, show first :: during = [first] ++ during from rfl, marks_append]
    simp [marks, silent]
  intro final moves' _
  refine Copying.stable moves' ⟨during ++ [⟨.app, .load (.bufferOutEthToSlaveBuffer count), value, after.state⟩], ?_,
    copied.ordered, copied.counted, ?_, ?_, fun index low => ?_⟩
  · rw [grows, log, List.append_assoc, List.cons_append]
  · rw [List.filterMap_append, copied.alone]
    rfl
  · rw [List.filterMap_append, copied.reads, List.range_succ]
    rfl
  · by_cases last : index = count
    · subst last
      refine ⟨during, _, rfl, (part_setPart_self image index value (by omega)).trans ?_⟩
      rw [← history, ← kept.1.words index inside, held]
    · obtain ⟨seen, rest, split, holds⟩ := copied.words index (by omega)
      refine ⟨seen, _, by rw [split, List.append_assoc], ?_⟩
      rw [← holds]
      exact part_setPart_of_ne _ _ last

/-- What a returned image is worth. -/
def Delivered (start : RpiBase) (image : ProcBuffer) (world : World Thread RpiOp RpiOp.Reply (Machine δ)) : Prop :=
  Brief world.log → Apart world.log → Whole start world.log image

theorem attempt_ensures :
    ((protocol δ start).rules (handle device) .app).Ensures attempt (Rules.Exits Prod.snd (fun _ _ => True) fun last =>
      ((protocol δ start).rules (handle device) .app).Ensures (.pure last.1) (Delivered start)) world := by
  rw [attempt, bind_eq, load_bind]
  intro between moves kept (counter : BitVec 32) middle acts
  refine ⟨unmarked_reflects rfl acts kept, acts_steps acts fun _ => rfl, ?_⟩
  have kept' := unmarked_reflects rfl acts kept
  obtain ⟨_, performed, grows⟩ := acts
  have counted : between.state.object.atomiccounter = counter := Option.some.inj (loaded performed).1
  let first : Event Thread RpiOp RpiOp.Reply (Machine δ) := ⟨.app, .load .atomiccounter, counter, middle.state⟩
  have starts : Copying start between.log first counter 0 0 middle :=
    ⟨[], grows, kept.2, counted.symm.trans kept.1.counter, rfl, rfl, fun _ none => absurd none (Nat.not_lt_zero _)⟩
  have copies : ∀ index image world, 0 ≤ index → index < 0 + 4 → (protocol δ start).invariant world →
      Copying start between.log first counter index image world →
      ((protocol δ start).rules (handle device) .app).Ensures (copyWord index image)
        (Copying start between.log first counter (index + 1)) world :=
    fun _ _ _ _ inside _ copying => copyWord_ensures (by omega) rfl copying
  refine .bind kept' (Rules.Ensures.mono
    (.forUp (Copying start between.log first counter)
      (fun moves _ => Copying.stable moves) 4 0 0 middle copies kept' starts)
    ?_)
  intro image copiedWorld _ copying between' moves' kept'' (counter' : BitVec 32) after acts'
  refine ⟨unmarked_reflects rfl acts' kept'', acts_steps acts' fun _ => rfl, ?_⟩
  obtain ⟨during, log, copied⟩ := copying.stable moves'
  obtain ⟨_, performed', grows'⟩ := acts'
  have counted' : between'.state.object.atomiccounter = counter' := Option.some.inj (loaded performed').1
  have history : marks between'.log = marks between.log ++ marks during := by
    rw [log, marks_append]
    rfl
  intro final moves'' _
  refine Rules.Exits.intro (fun _ => trivial) fun still => ?_
  have same : counter = counter' := of_decide_eq_true (Eq.mp (Bool.not_eq_false' _) still)
  intro last stays _ brief apart
  obtain ⟨more, extended, _⟩ := (protocol δ start).trans .app moves'' stays
  rw [extended, grows', log, List.append_assoc, List.append_assoc, List.cons_append] at brief apart ⊢
  exact whole_of_accepted copied rfl (by rw [same]; rfl) (history ▸ kept''.2)
    (by rw [same, ← counted', kept''.1.counter, history]) brief apart

theorem receiveInput_ensures (kept : (protocol δ start).invariant world) :
    ((protocol δ start).rules (handle device) .app).Ensures receiveInput (Delivered start) world :=
  Rules.Ensures.loop (fun _ _ => True) kept trivial fun _ _ _ _ => attempt_ensures

def Promised (start : RpiBase) : (thread : Thread) → Result thread → World Thread RpiOp RpiOp.Reply (Machine δ) → Prop
  | .app, image => Delivered start image
  | .rt, _ => fun _ => True

theorem starts (start : Machine δ) (executions : Nat) :
    (protocol δ start.object).Holds (handle device) (Promised start.object) (pool start executions) := by
  have kept : (protocol δ start.object).invariant (pool start executions).world :=
    ⟨⟨(BitVec.add_zero _).symm, fun _ _ => rfl⟩, .inl (idle_nil 4)⟩
  refine ⟨kept, fun thread => ?_⟩
  cases thread with
  | app => exact receiveInput_ensures kept
  | rt =>
    let idle (world : World Thread RpiOp RpiOp.Reply (Machine δ)) : Prop := Idle 4 (marks world.log)
    have stable : ∀ {world later}, Interferes .rt world later → (protocol δ start.object).invariant later →
        idle world → idle later := by
      intro world later moves _ holds
      rwa [show idle later = Idle 4 (marks later.log) from rfl, rely_marks moves]
    exact (Rules.Ensures.times idle stable (fun _ kept holds => spiReadProcRamFifo_ensures kept holds) executions _ kept
      (idle_nil 4)).mono fun _ _ _ _ => trivial

/-- In every run in which no accepted copy overlaps the stores of a fetch,
`receive_input` delivers the four words of one image. -/
theorem input_image_whole (device : Device δ) (start : Machine δ) (executions : Nat) (schedule : List (Thread × Unit))
    (final : Pool Thread RpiOp RpiOp.Reply (Machine δ) Result) (image : ProcBuffer)
    (ran : (pool start executions).run (handle device) schedule = some final)
    (returned : final.threads .app = .pure image) (brief : Brief final.world.log) (apart : Apart final.world.log) :
    Whole start.object final.world.log image :=
  (Protocol.run_holds (starts start executions) ran).returned returned brief apart

private theorem brief_of_few {log : Log δ} (few : (marks log).length < 2 * 2 ^ 31) : Brief log := by
  intro before first during last later same _ _
  subst same
  have within : (marks during).length ≤ (marks (before ++ first :: (during ++ last :: later))).length := by
    rw [marks_append, show first :: (during ++ last :: later) = [first] ++ (during ++ last :: later) from rfl,
      marks_append, marks_append, List.length_append, List.length_append, List.length_append]
    omega
  have bound : bumps (marks during) ≤ (marks during).length := List.countP_le_length
  omega

private theorem apart_of_unstored {log : Log δ} (unstored : ∀ entry ∈ marks log, entry.isWord = false) : Apart log := by
  intro before during given given'
  obtain ⟨first, last, later, counter, rfl, -⟩ := given
  obtain ⟨-, stored⟩ := given'
  obtain ⟨entry, member⟩ := List.exists_mem_of_length_pos stored
  have word := List.mem_takeWhile_imp member
  have present : entry ∈ marks (before ++ first :: (during ++ last :: later)) := by
    have either := List.mem_append.mp (List.mem_reverse.mp ((List.takeWhile_sublist _).subset member))
    rw [marks_append, show first :: (during ++ last :: later) = [first] ++ (during ++ last :: later) from rfl,
      marks_append, marks_append]
    simp only [List.mem_append]
    tauto
  rw [unstored entry present] at word
  cases word

def facing : Machine Lan9252 := ⟨RpiBase.construct {}, ⟨.released, .prompt fun _ => 0x55⟩, fun _ => 0⟩

/-- What a schedule of one fetch and one call leaves: the history and what was delivered. -/
def outcome (schedule : List (Thread × Unit)) : Option (List (Mark (BitVec 64)) × Option ProcBuffer) :=
  ((pool facing 1).run (handle lan9252) schedule).map fun final =>
    (marks final.world.log, (final.threads .app).returned)

private theorem outcome_run {schedule : List (Thread × Unit)} {history : List (Mark (BitVec 64))} {image : ProcBuffer}
    (ends : outcome schedule = some (history, some image)) : ∃ final,
      (pool facing 1).run (handle lan9252) schedule = some final ∧ final.threads .app = .pure image ∧
      marks final.world.log = history := by
  obtain ⟨final, ran, same⟩ := Option.map_eq_some_iff.mp ends
  obtain ⟨holds, returned⟩ := Prod.mk.inj same
  refine ⟨final, ran, ?_, holds⟩
  cases rest : final.threads .app with
  | pure value =>
    rw [rest] at returned
    exact congrArg Program.pure (Option.some.inj returned)
  | _ =>
    rw [rest] at returned
    cases returned

/-- The copy is taken while the fetch still talks to the chip. -/
theorem input_image_polled : ∃ final,
    (pool facing 1).run (handle lan9252) (List.replicate 30 (.rt, ()) ++ List.replicate 6 (.app, ())) = some final ∧
      Whole facing.object final.world.log 0 := by
  have ends : outcome (List.replicate 30 (.rt, ()) ++ List.replicate 6 (.app, ())) = some ([.bump], some 0) := by
    decide +kernel
  obtain ⟨final, ran, returned, history⟩ := outcome_run ends
  refine ⟨final, ran, input_image_whole lan9252 facing 1 _ final 0 ran returned
    (brief_of_few (by rw [history]; decide)) (apart_of_unstored ?_)⟩
  rw [history]
  decide

def torn : List (Thread × Unit) := List.replicate 101 (.rt, ()) ++ List.replicate 6 (.app, ())

/-- The counter reads 1 both times, and one new word comes with three old ones. -/
theorem input_image_torn : ∃ final, (pool facing 1).run (handle lan9252) torn = some final ∧
    final.threads .app = .pure 0x5555555555555555 ∧ Brief final.world.log ∧
    ¬ Whole facing.object final.world.log 0x5555555555555555 := by
  have ends : outcome torn = some ([.bump, .word 0 0x5555555555555555], some 0x5555555555555555) := by decide +kernel
  obtain ⟨final, ran, returned, history⟩ := outcome_run ends
  refine ⟨final, ran, returned, brief_of_few (by rw [history]; decide), ?_⟩
  intro given
  rcases given with initial | ⟨earlier, later, stored⟩
  · exact absurd initial (by decide)
  · have length := congrArg List.length (history.symm.trans stored)
    simp only [List.length_append, words_length, List.length_cons, List.length_nil] at length
    omega

end EthercatSlave.Proofs.InputImage
