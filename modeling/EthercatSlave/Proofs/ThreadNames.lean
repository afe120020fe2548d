import EthercatSlave.History
import EthercatSlave.Proofs.RelyGuarantee
import EthercatSlave.ThreadNames

/-! The names that any number of threads give at the same time: no array is left, and
each long name keeps a number of its own. -/

namespace EthercatSlave.Proofs.ThreadNames
open Program EthercatSlave.ThreadNames

section Texts

theorem digits_clean (number : Nat) : Cells.nul ∉ Nat.toDigits 10 number := by
  intro member
  have digit := Nat.isDigit_of_mem_toDigits (by decide) (by decide) member
  exact absurd digit (by decide)

theorem printedInt_clean (number : Int) : Cells.nul ∉ printedInt number := by
  cases number with
  | ofNat number => exact digits_clean number
  | negSucc number =>
    rw [printedInt, List.mem_cons, not_or]
    exact ⟨by decide, digits_clean _⟩

/-- A copy that may be cut short still starts like its source. -/
theorem strncpy_begins {size count : Nat} (cells : Cells size) (source : List Char) (fits : count ≤ size) :
    ∃ after rest, cells.strncpy source count = some after ∧ after.chars = source.take count ++ rest := by
  let chars := source.take count ++ List.replicate (count - source.length) Cells.nul
  have length : chars.length = count := by
    simp only [chars, List.length_append, List.length_take, List.length_replicate]
    omega
  obtain ⟨after, stored, same⟩ := @Cells.putAll_some _ cells [] (cells.chars.take count) (cells.chars.drop count)
    chars (by simp) (by rw [List.length_take, cells.length_eq, length, Nat.min_eq_left fits])
  refine ⟨after, List.replicate (count - source.length) Cells.nul ++ cells.chars.drop count, stored, ?_⟩
  rw [same]
  simp only [chars, List.nil_append, List.append_assoc]

/-- The eleventh character becomes the mark and the string ends behind it. -/
theorem marked_holds {cname : List Char} (clean : Cells.nul ∉ cname) (long : 12 < cname.length) (buffer : Cells 64) :
    ∃ copied marked ended, buffer.strncpy cname 62 = some copied ∧ copied.put 11 '@' = some marked ∧
      marked.put 12 Cells.nul = some ended ∧ ended.Holds (cname.take 11 ++ ['@']) := by
  obtain ⟨copied, rest, stored, begins⟩ := strncpy_begins buffer cname (show 62 ≤ 64 by decide)
  obtain ⟨first, second, more, tail⟩ : ∃ first second more, (cname.take 62).drop 11 = first :: second :: more := by
    match shape : (cname.take 62).drop 11 with
    | first :: second :: more => exact ⟨first, second, more, rfl⟩
    | [_] | [] =>
      have length := congrArg List.length shape
      simp only [List.length_drop, List.length_take, List.length_cons, List.length_nil] at length
      omega
  have short : (cname.take 11).length = 11 := by
    rw [List.length_take]
    omega
  have split : copied.chars = cname.take 11 ++ first :: (second :: more ++ rest) := by
    rw [begins, ← List.take_append_drop 11 (cname.take 62), List.take_take, tail]
    simp
  obtain ⟨marked, put, shape⟩ := @Cells.put_some 64 copied _ _ _ '@' split
  rw [short] at put
  have split : marked.chars = (cname.take 11 ++ ['@']) ++ second :: (more ++ rest) := by
    rw [shape]
    simp
  obtain ⟨ended, put', shape⟩ := @Cells.put_some 64 marked _ _ _ Cells.nul split
  rw [List.length_append, short] at put'
  refine ⟨copied, marked, ended, stored, put, put', ?_, more ++ rest, shape⟩
  rw [List.mem_append, List.mem_singleton, not_or]
  exact ⟨fun member => clean (List.mem_of_mem_take member), by decide⟩

/-- With the array sizes of its callers `fix_threadname` leaves none of them. -/
theorem shorten_some {cname : List Char} (clean : Cells.nul ∉ cname) (long : 12 < cname.length) (buffer : Cells 64)
    (temp : Cells 10) (unique : BitVec 32) :
    shorten cname buffer 63 temp unique =
      some (cname.take 11 ++ '@' :: (printedInt (unique - 1).toInt).take 8) := by
  unfold shorten
  generalize (unique - 1).toInt = value
  let digits := (printedInt value).take 8
  have digits_clean : Cells.nul ∉ digits := fun member => printedInt_clean _ (List.mem_of_mem_take member)
  have digits_short : digits.length ≤ 8 := List.length_take_le _ _
  obtain ⟨copied, marked, ended, stored, put, put', holds⟩ := marked_holds clean long buffer
  let closed : Cells 10 := ⟨temp.chars.set 9 Cells.nul, by rw [List.length_set, temp.length_eq]⟩
  have put'' : temp.put 9 Cells.nul = some closed := if_pos (by decide)
  obtain ⟨number, printed, shown⟩ :=
    Cells.snprintf_holds closed (printedInt_clean value) (by decide : 0 < 9) (by decide)
  have number_text : number.text = some digits := shown.text_eq
  have room : (cname.take 11 ++ ['@']).length = 12 := by
    rw [List.length_append, List.length_take, List.length_singleton]
    omega
  obtain ⟨joined, appended, holds⟩ := Cells.strncat_holds holds digits_clean (by omega : _ ≤ 62) (by omega)
  have text : joined.text = some (cname.take 11 ++ '@' :: digits) := by
    rw [holds.text_eq, List.append_assoc]
    rfl
  simp [stored, put, put', put'', printed, number_text, appended, text, digits]

theorem prepare_some (named : Named) : ∃ namebuf, named.prepare = some namebuf := by
  let closed : Cells 64 := ⟨named.namebuf.chars.set 63 Cells.nul, by rw [List.length_set, named.namebuf.length_eq]⟩
  have put : named.namebuf.put 63 Cells.nul = some closed := if_pos (by decide)
  rw [Named.prepare, put]
  cases named.id with
  | none => exact ⟨closed, rfl⟩
  | some id =>
    obtain ⟨printed, stored, _⟩ :=
      Cells.snprintf_holds closed (digits_clean id.toNat) (by decide : 0 < 63) (by decide)
    exact ⟨printed, stored⟩

/-- Below 10 ^ 8 a number is printed whole. -/
theorem printed_below {number : Nat} (small : number < 10 ^ 8) :
    (printedInt (BitVec.ofNat 32 number).toInt).take 8 = Nat.toDigits 10 number := by
  have value : (BitVec.ofNat 32 number).toNat = number := by
    rw [BitVec.toNat_ofNat, Nat.mod_eq_of_lt (by omega)]
  have signed : (BitVec.ofNat 32 number).toInt = Int.ofNat number := by
    rw [BitVec.toInt_eq_toNat_of_lt (by omega), value]
    rfl
  rw [signed, printedInt]
  exact List.take_of_length_le ((Nat.length_toDigits_le_iff (by decide) (by decide)).mpr small)

theorem shortened_inj {one other : List Char} {first second : Nat} (long : 12 < one.length) (long' : 12 < other.length)
    (small : first < 10 ^ 8) (small' : second < 10 ^ 8) (same : shortened one first = shortened other second) :
    first = second := by
  rw [shortened, shortened, printed_below small, printed_below small'] at same
  have heads : (one.take 11).length = (other.take 11).length := by
    rw [List.length_take, List.length_take]
    omega
  obtain ⟨_, tails⟩ := List.append_inj same heads
  have numbers := congrArg (fun digits => Nat.ofDigitChars 10 digits 0) (List.cons.inj tails).2
  simpa using numbers

theorem length_shortened (cname : List Char) (long : 12 < cname.length) (number : Nat) :
    (shortened cname number).length = 12 + ((printedInt (BitVec.ofNat 32 number).toInt).take 8).length := by
  rw [shortened, List.length_append, List.length_take, List.length_cons]
  omega

/-- Fifteen characters are enough for three digits. -/
theorem accepted_iff {cname : List Char} (long : 12 < cname.length) {number : Nat} (small : number < 10 ^ 8) :
    (shortened cname number).length ≤ 15 ↔ number < 1000 := by
  rw [length_shortened cname long, printed_below small]
  have digits : (Nat.toDigits 10 number).length ≤ 3 ↔ number < 10 ^ 3 :=
    Nat.length_toDigits_le_iff (by decide) (by decide)
  omega

theorem shortened_long {cname : List Char} (long : 12 < cname.length) (number : Nat) :
    12 < (shortened cname number).length := by
  rw [length_shortened cname long]
  have some : printedInt (BitVec.ofNat 32 number).toInt ≠ [] := by
    cases (BitVec.ofNat 32 number).toInt with
    | ofNat number => exact Nat.toDigits_ne_nil
    | negSucc number => exact List.cons_ne_nil _ _
  have positive := List.length_pos_iff.mpr some
  rw [List.length_take]
  omega

end Texts

section Tallies

variable {ι : Type} [DecidableEq ι]

/-- The number each thread has drawn and not used yet, and the numbers that were used
with their names. -/
structure Tally (ι : Type) where
  drawn : Nat := 0
  pending : ι → Option Nat := fun _ => none
  given : List (Nat × List Char) := []

def Tally.note (tally : Tally ι) (event : Event ι NameOp NameOp.Reply (BitVec 32)) : Tally ι :=
  match event.op with
  | .interlockedIncrement =>
    { tally with drawn := tally.drawn + 1, pending := Function.update tally.pending event.thread (some tally.drawn) }
  | .setname name =>
    match tally.pending event.thread with
    | none => tally
    | some number =>
      { tally with
        pending := Function.update tally.pending event.thread none
        given := tally.given ++ [(number, name)] }
  | .outOfBounds => tally

def tally (log : Log ι) : Tally ι := log.foldl Tally.note {}

theorem tally_snoc (log : Log ι) (event : Event ι NameOp NameOp.Reply (BitVec 32)) :
    tally (log ++ [event]) = (tally log).note event := by
  rw [tally, List.foldl_append]
  rfl

structure Tidy (tally : Tally ι) : Prop where
  drawn : ∀ thread number, tally.pending thread = some number → number < tally.drawn
  apart : ∀ thread other number, tally.pending thread = some number → tally.pending other = some number → thread = other
  unused : ∀ thread number, tally.pending thread = some number → number ∉ tally.given.map Prod.fst
  given : ∀ number ∈ tally.given.map Prod.fst, number < tally.drawn
  once : (tally.given.map Prod.fst).Nodup

theorem Tidy.note {tally : Tally ι} (tidy : Tidy tally) (event : Event ι NameOp NameOp.Reply (BitVec 32)) :
    Tidy (tally.note event) := by
  obtain ⟨thread, op, reply, state⟩ := event
  cases op with
  | outOfBounds => exact tidy
  | interlockedIncrement =>
    have fresh : ∀ other, tally.pending other ≠ some tally.drawn := fun other same =>
      Nat.lt_irrefl _ (tidy.drawn other _ same)
    constructor
    · intro other number pending
      simp only [Tally.note, Function.update_apply] at pending ⊢
      split at pending
      · cases pending
        exact Nat.lt_succ_self _
      · exact Nat.lt_succ_of_lt (tidy.drawn other number pending)
    · intro one other number first second
      simp only [Tally.note, Function.update_apply] at first second
      split at first <;> split at second
      next one_is other_is => exact one_is.trans other_is.symm
      next => exact absurd (second.trans first.symm) (fresh other)
      next => exact absurd (first.trans second.symm) (fresh one)
      next => exact tidy.apart one other number first second
    · intro other number pending used
      simp only [Tally.note, Function.update_apply] at pending used
      split at pending
      · cases pending
        exact Nat.lt_irrefl _ (tidy.given _ used)
      · exact tidy.unused other number pending used
    · exact fun number used => Nat.lt_succ_of_lt (tidy.given number used)
    · exact tidy.once
  | setname name =>
    cases mine : tally.pending thread with
    | none =>
      have same : tally.note ⟨thread, .setname name, reply, state⟩ = tally := by simp [Tally.note, mine]
      rw [same]
      exact tidy
    | some number =>
      have noted : tally.note ⟨thread, .setname name, reply, state⟩ = { tally with
          pending := Function.update tally.pending thread none, given := tally.given ++ [(number, name)] } := by
        simp [Tally.note, mine]
      rw [noted]
      have others : ∀ {other number'}, Function.update tally.pending thread none other = some number' →
          other ≠ thread ∧ tally.pending other = some number' := by
        intro other number' pending
        rw [Function.update_apply] at pending
        split at pending
        · cases pending
        · exact ⟨‹_›, pending⟩
      constructor
      · exact fun other number' pending => tidy.drawn other number' (others pending).2
      · exact fun one other number' first second => tidy.apart one other number' (others first).2 (others second).2
      · intro other number' pending used
        obtain ⟨different, pending⟩ := others pending
        rw [List.map_append, List.mem_append] at used
        rcases used with used | used
        · exact tidy.unused other number' pending used
        · rw [List.mem_singleton.mp used] at pending
          exact different (tidy.apart other thread number pending mine)
      · intro number' used
        rw [List.map_append, List.mem_append] at used
        rcases used with used | used
        · exact tidy.given number' used
        · rw [List.mem_singleton.mp used]
          exact tidy.drawn thread number mine
      · rw [List.map_append, List.nodup_append]
        refine ⟨tidy.once, List.nodup_singleton _, fun number' used last member same => ?_⟩
        rw [List.mem_singleton.mp member] at same
        rw [same] at used
        exact tidy.unused thread number mine used

theorem tally_tidy (log : Log ι) : Tidy (tally log) := by
  induction log using List.reverseRecOn with
  | nil => exact ⟨nofun, nofun, nofun, nofun, List.nodup_nil⟩
  | append_singleton log event ih =>
    rw [tally_snoc]
    exact ih.note event

theorem tally_drawn (log : Log ι) : (tally log).drawn = ThreadNames.drawn log := by
  induction log using List.reverseRecOn with
  | nil => rfl
  | append_singleton log event ih =>
    obtain ⟨thread, op, reply, state⟩ := event
    rw [tally_snoc, ThreadNames.drawn, List.countP_append, ← ThreadNames.drawn, ← ih]
    cases op with
    | setname name => cases pending : (tally log).pending thread <;> simp [Tally.note, pending]
    | _ => rfl

end Tallies

section Protocols

variable {ι : Type} [DecidableEq ι] {thread : ι} {op : NameOp} {reply : op.Reply}
  {named : ι → List Named} {world before after : World ι NameOp NameOp.Reply (BitVec 32)}

/-- What is set is the name whose turn it is, or its short form with a number that was
drawn. -/
def Fitting (named : ι → List Named) (earlier : Log ι) (thread : ι) (name : List Char) : Prop :=
  ∃ naming, (named thread)[setBy thread earlier]? = some naming ∧
    (naming.cname.length ≤ 12 ∧ name = naming.cname ∨
      12 < naming.cname.length ∧ ∃ number < drawn earlier, name = shortened naming.cname number)

structure Orderly (named : ι → List Named) (world : World ι NameOp NameOp.Reply (BitVec 32)) : Prop where
  counter : world.state = BitVec.ofNat 32 (tally world.log).drawn
  inside : ∀ event ∈ world.log, event.op ≠ .outOfBounds
  fitting : Throughout (fun earlier event => ∀ name, event.op = .setname name →
    Fitting named earlier event.thread name) world.log
  given : (names world.log).filter (fun name => 12 < name.length) = (tally world.log).given.map Prod.snd
  shortened : ∀ entry ∈ (tally world.log).given, ∃ cname : List Char, 12 < cname.length ∧
    entry.2 = shortened cname entry.1

/-- Nobody else uses the number a thread has drawn or sets a name for it. -/
structure Relies (thread : ι) (before after : World ι NameOp NameOp.Reply (BitVec 32)) : Prop where
  pending : (tally after.log).pending thread = (tally before.log).pending thread
  names : setBy thread after.log = setBy thread before.log

def protocol (named : ι → List Named) : Protocol ι NameOp NameOp.Reply (BitVec 32) where
  invariant := Orderly named
  rely := Relies
  guarantee thread before after := ∀ other, other ≠ thread → Relies other before after
  refl _ _ := ⟨rfl, rfl⟩
  trans _ _ _ _ one two := ⟨two.pending.trans one.pending, two.names.trans one.names⟩
  compatible different guarantees := guarantees _ different

theorem setBy_self (log : Log ι) (event : Event ι NameOp NameOp.Reply (BitVec 32)) :
    setBy event.thread (log ++ [event]) = setBy event.thread log + (names [event]).length := by
  rw [setBy, List.filter_append, List.filter_singleton, decide_eq_true rfl, names, List.filterMap_append,
    List.length_append]
  rfl

theorem setBy_of_ne {other : ι} {event : Event ι NameOp NameOp.Reply (BitVec 32)} (log : Log ι)
    (different : event.thread ≠ other) : setBy other (log ++ [event]) = setBy other log := by
  rw [setBy, List.filter_append, List.filter_singleton, decide_eq_false different, cond_false, List.append_nil, setBy]

theorem spares_others (acts : Pool.acts ThreadNames.perform thread op before reply after) :
    ∀ other, other ≠ thread → Relies other before after := by
  intro other different
  obtain ⟨_, _, logged⟩ := acts
  constructor
  · rw [logged, tally_snoc]
    cases op with
    | interlockedIncrement => exact Function.update_of_ne different _ _
    | setname name =>
      cases pending : (tally before.log).pending thread with
      | none => simp [Tally.note, pending]
      | some number => simp [Tally.note, pending, Function.update_of_ne different]
    | outOfBounds => rfl
  · rw [logged]
    exact setBy_of_ne _ different.symm

theorem Orderly.inside_step (orderly : Orderly named before)
    (acts : Pool.acts ThreadNames.perform thread op before reply after) (inside : op ≠ .outOfBounds) :
    ∀ event ∈ after.log, event.op ≠ .outOfBounds := by
  obtain ⟨_, _, logged⟩ := acts
  intro event member
  rw [logged] at member
  rcases List.mem_append.mp member with old | new
  · exact orderly.inside event old
  · rw [List.mem_singleton.mp new]
    exact inside

theorem draw_step {unique : BitVec 32} (orderly : Orderly named before)
    (acts : Pool.acts ThreadNames.perform thread .interlockedIncrement before unique after) :
    Orderly named after ∧ unique = BitVec.ofNat 32 (tally before.log).drawn + 1 ∧
      (tally after.log).pending thread = some (tally before.log).drawn ∧
      setBy thread after.log = setBy thread before.log := by
  have inside := orderly.inside_step acts nofun
  obtain ⟨status, performed, logged⟩ := acts
  injection performed with same
  injection same with replied state
  have noted : tally after.log = { tally before.log with
      drawn := (tally before.log).drawn + 1
      pending := Function.update (tally before.log).pending thread (some (tally before.log).drawn) } := by
    rw [logged, tally_snoc]
    rfl
  refine ⟨⟨?_, inside, ?_, ?_, ?_⟩, ?_, ?_, ?_⟩
  · rw [← state, orderly.counter, noted]
    exact (BitVec.ofNat_add _ 1).symm
  · rw [logged]
    refine Throughout.snoc_iff.mpr ⟨orderly.fitting, fun name sets => ?_⟩
    cases sets
  · rw [noted, ← orderly.given, logged, names, List.filterMap_append, ← names]
    simp
  · rw [noted]
    exact orderly.shortened
  · rw [← replied, orderly.counter]
  · rw [noted]
    exact Function.update_self _ _ _
  · rw [logged]
    exact setBy_self before.log ⟨thread, _, _, _⟩

/-- A name is set: one that no number was drawn for, or one with the number that was. -/
theorem set_step {name : List Char} {status : Int} (orderly : Orderly named before)
    (fitting : Fitting named before.log thread name)
    (numbered : (tally before.log).pending thread = none ∧ name.length ≤ 12 ∨
      ∃ number cname, (tally before.log).pending thread = some number ∧ 12 < cname.length ∧
        name = shortened cname number)
    (acts : Pool.acts ThreadNames.perform thread (.setname name) before status after) :
    Orderly named after ∧ (tally after.log).pending thread = none ∧
      setBy thread after.log = setBy thread before.log + 1 := by
  have inside := orderly.inside_step acts nofun
  obtain ⟨chosen, performed, logged⟩ := acts
  injection performed with same
  injection same with _ state
  have added : names after.log = names before.log ++ [name] := by
    rw [logged, names, List.filterMap_append]
    rfl
  have kept : (tally after.log).drawn = (tally before.log).drawn := by
    rw [tally_drawn, tally_drawn, logged, ThreadNames.drawn, List.countP_append]
    rfl
  have fits : Throughout (fun earlier event => ∀ name, event.op = .setname name →
      Fitting named earlier event.thread name) after.log := by
    rw [logged]
    refine Throughout.snoc_iff.mpr ⟨orderly.fitting, fun name' sets => ?_⟩
    cases sets
    exact fitting
  have turned : setBy thread after.log = setBy thread before.log + 1 := by
    rw [logged]
    exact setBy_self before.log ⟨thread, _, _, _⟩
  have counter : after.state = BitVec.ofNat 32 (tally after.log).drawn := by
    rw [← state, kept]
    exact orderly.counter
  rcases numbered with ⟨idle, short⟩ | ⟨number, cname, pending, long, same⟩
  · have noted : tally after.log = tally before.log := by
      rw [logged, tally_snoc]
      simp [Tally.note, idle]
    refine ⟨⟨counter, inside, fits, ?_, ?_⟩, ?_, turned⟩
    · rw [added, List.filter_append, orderly.given, noted, List.filter_singleton,
        decide_eq_false (Nat.not_lt.mpr short)]
      exact List.append_nil _
    · rw [noted]
      exact orderly.shortened
    · rw [noted]
      exact idle
  · have noted : tally after.log = { tally before.log with
        pending := Function.update (tally before.log).pending thread none
        given := (tally before.log).given ++ [(number, name)] } := by
      rw [logged, tally_snoc]
      simp [Tally.note, pending]
    refine ⟨⟨counter, inside, fits, ?_, ?_⟩, ?_, turned⟩
    · have stays : 12 < name.length := by
        rw [same]
        exact shortened_long long number
      rw [added, List.filter_append, orderly.given, noted, List.filter_singleton, decide_eq_true stays, List.map_append]
      rfl
    · rw [noted]
      intro entry member
      rcases List.mem_append.mp member with old | new
      · exact orderly.shortened entry old
      · rw [List.mem_singleton.mp new]
        exact ⟨cname, long, same⟩
    · rw [noted]
      exact Function.update_self _ _ _

end Protocols

section Results

variable {ι : Type} [DecidableEq ι] {thread : ι} {named : ι → List Named}
  {world : World ι NameOp NameOp.Reply (BitVec 32)}

/-- The thread is between two names. -/
structure Idle (thread : ι) (turn : Nat) (world : World ι NameOp NameOp.Reply (BitVec 32)) : Prop where
  pending : (tally world.log).pending thread = none
  turn : setBy thread world.log = turn

theorem Idle.stable {turn : Nat} {later : World ι NameOp NameOp.Reply (BitVec 32)} (idle : Idle thread turn world)
    (moves : Relies thread world later) : Idle thread turn later :=
  ⟨moves.pending.trans idle.pending, moves.names.trans idle.turn⟩

theorem perform_ensures {turn : Nat} (naming : Named) (mine : (named thread)[turn]? = some naming)
    (idle : Idle thread turn world) :
    ((protocol named).rules ThreadNames.perform thread).Ensures naming.perform (fun _ => Idle thread (turn + 1))
      world := by
  obtain ⟨namebuf, prepared⟩ := prepare_some naming
  rw [Named.perform, prepared]
  by_cases long : 12 < naming.cname.length
  · simp only [fixThreadname, if_pos long]
    intro between moves orderly (unique : BitVec 32) middle acts
    have turned := moves.names.trans idle.turn
    obtain ⟨orderly, drew, pending, kept⟩ := draw_step orderly acts
    refine ⟨orderly, spares_others acts, ?_⟩
    change Rules.Ensures _ (setname (shorten naming.cname namebuf 63 naming.temp unique)) _ _
    have number : unique - 1 = BitVec.ofNat 32 (tally between.log).drawn := by
      rw [drew, BitVec.add_sub_cancel]
    rw [shorten_some naming.clean long, number]
    intro between' moves orderly status after acts
    have pending := moves.pending.trans pending
    have turned := moves.names.trans (kept.trans turned)
    have below := (tally_tidy between'.log).drawn thread _ pending
    rw [tally_drawn between'.log] at below
    have fitting : Fitting named between'.log thread (shortened naming.cname (tally between.log).drawn) := by
      refine ⟨naming, ?_, .inr ⟨long, _, below, rfl⟩⟩
      rw [turned]
      exact mine
    obtain ⟨orderly, pending, next⟩ := set_step orderly fitting (.inr ⟨_, naming.cname, pending, long, rfl⟩) acts
    have idle : Idle thread (turn + 1) after := ⟨pending, by rw [next, turned]⟩
    exact ⟨orderly, spares_others acts, fun later moves _ => idle.stable moves⟩
  · simp only [fixThreadname, if_neg long]
    intro between moves orderly status after acts
    have short := Nat.le_of_not_lt long
    have idle := idle.stable moves
    have fitting : Fitting named between.log thread naming.cname := by
      refine ⟨naming, ?_, .inl ⟨short, rfl⟩⟩
      rw [idle.turn]
      exact mine
    obtain ⟨orderly, pending, next⟩ := set_step orderly fitting (.inl ⟨idle.pending, short⟩) acts
    have idle : Idle thread (turn + 1) after := ⟨pending, by rw [next, idle.turn]⟩
    exact ⟨orderly, spares_others acts, fun later moves _ => idle.stable moves⟩

theorem performAll_ensures {done more : List Named} (split : named thread = done ++ more)
    (orderly : Orderly named world) (idle : Idle thread done.length world) :
    ((protocol named).rules ThreadNames.perform thread).Ensures (performAll more) (fun _ _ => True) world := by
  induction more generalizing done world with
  | nil => exact fun _ _ _ => trivial
  | cons naming more ih =>
    have mine : (named thread)[done.length]? = some naming := by
      rw [split, List.getElem?_append_right (Nat.le_refl _), Nat.sub_self]
      rfl
    apply Rules.Ensures.bind orderly
    apply (perform_ensures naming mine idle).mono
    intro _ _ orderly idle
    have split' : named thread = (done ++ [naming]) ++ more := by
      rw [split, List.append_assoc]
      rfl
    apply ih split' orderly
    rw [List.length_append]
    exact idle

theorem starts (named : ι → List Named) :
    (protocol named).Holds ThreadNames.perform (fun _ _ _ => True) (pool named) := by
  have orderly : Orderly named (pool named).world := ⟨rfl, nofun, Throughout.nil, rfl, nofun⟩
  exact ⟨orderly, fun thread => performAll_ensures (List.nil_append _).symm orderly ⟨rfl, rfl⟩⟩

/-- However many threads name pthreads at the same time, no array is left, each thread
sets its names in their order and a name is changed only when it is longer than 12
characters. With up to 10 ^ 8 of these each gets a short form of its own, which the
kernel takes only for the first thousand. -/
theorem names_apart (named : ι → List Named) (schedule : List (ι × Int))
    (reached : Pool ι NameOp NameOp.Reply (BitVec 32) fun _ => Unit)
    (ran : (pool named).run ThreadNames.perform schedule = some reached) :
    (∀ event ∈ reached.world.log, event.op ≠ .outOfBounds) ∧
      Throughout (fun earlier event => ∀ name, event.op = .setname name →
        ∃ naming, (named event.thread)[setBy event.thread earlier]? = some naming ∧
          (naming.cname.length ≤ 12 ∧ name = naming.cname ∨
            12 < naming.cname.length ∧ ∃ number < drawn earlier, name = shortened naming.cname number ∧
              (drawn earlier ≤ 10 ^ 8 → (name.length ≤ 15 ↔ number < 1000)))) reached.world.log ∧
      (drawn reached.world.log ≤ 10 ^ 8 →
        ((names reached.world.log).filter fun name => 12 < name.length).Nodup) := by
  have holds := Protocol.run_holds (starts named) ran
  have orderly : Orderly named reached.world := holds.1
  have tidy := tally_tidy reached.world.log
  have count := tally_drawn reached.world.log
  refine ⟨orderly.inside, fun earlier event later split name sets => ?_, fun few => ?_⟩
  · obtain ⟨naming, turn, kept | ⟨long, number, below, same⟩⟩ := orderly.fitting earlier event later split name sets
    · exact ⟨naming, turn, .inl kept⟩
    · refine ⟨naming, turn, .inr ⟨long, number, below, same, fun few => ?_⟩⟩
      rw [same]
      exact accepted_iff long (Nat.lt_of_lt_of_le below few)
  · rw [orderly.given]
    apply (List.Nodup.of_map Prod.fst tidy.once).map_on
    have small : ∀ entry ∈ (tally reached.world.log).given, entry.1 < 10 ^ 8 := by
      intro entry used
      have below := tidy.given entry.1 (List.mem_map_of_mem used)
      rw [count] at below
      exact Nat.lt_of_lt_of_le below few
    intro one first other second same
    obtain ⟨cname, long, shape⟩ := orderly.shortened one first
    obtain ⟨cname', long', shape'⟩ := orderly.shortened other second
    rw [shape, shape'] at same
    have number := shortened_inj long long' (small one first) (small other second) same
    exact List.inj_on_of_nodup_map tidy.once first second number

def blank (size : Nat) : Cells size := ⟨List.replicate size Cells.nul, List.length_replicate⟩

/-- A name of 13 characters. -/
def communicator : Named where
  cname := ['c', 'o', 'm', 'm', 'u', 'n', 'i', 'c', 'a', 't', 'o', 'r', 's']
  clean := by decide
  namebuf := blank 64
  temp := blank 10

/-- Two threads draw their numbers before either sets its name. -/
theorem names_apart_crossed : ∃ reached, (pool fun _ : Bool => [communicator]).run ThreadNames.perform
      [(false, 0), (true, 0), (true, 0), (false, 0)] = some reached ∧
    names reached.world.log = [
      ['c', 'o', 'm', 'm', 'u', 'n', 'i', 'c', 'a', 't', 'o', '@', '1'],
      ['c', 'o', 'm', 'm', 'u', 'n', 'i', 'c', 'a', 't', 'o', '@', '0']] ∧
    ((names reached.world.log).filter fun name => 12 < name.length).Nodup := by
  have ends : ((pool fun _ : Bool => [communicator]).run ThreadNames.perform
      [(false, 0), (true, 0), (true, 0), (false, 0)]).map (fun reached =>
        (names reached.world.log, drawn reached.world.log)) = some ([
          ['c', 'o', 'm', 'm', 'u', 'n', 'i', 'c', 'a', 't', 'o', '@', '1'],
          ['c', 'o', 'm', 'm', 'u', 'n', 'i', 'c', 'a', 't', 'o', '@', '0']], 2) := by
    decide +kernel
  obtain ⟨reached, ran, ends⟩ := Option.map_eq_some_iff.mp ends
  obtain ⟨set, two⟩ := Prod.mk.inj ends
  exact ⟨reached, ran, set, (names_apart _ _ reached ran).2.2 (by rw [two]; decide)⟩

end Results
end EthercatSlave.Proofs.ThreadNames
