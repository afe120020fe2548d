import Mathlib.Data.List.Induction
import Mathlib.Logic.Function.Basic

/-! A sequence lock seen through its history: a writer bumps a counter, stores
the words of an image in order and bumps the counter again. A reader whose
counter stood still saw no word change, unless it arrived in mid-image. -/

namespace EthercatSlave
namespace SequenceLock

variable {α : Type}

inductive Mark (α : Type) where
  | bump
  | word (index : Nat) (value : α)
  deriving DecidableEq

def Mark.isWord : Mark α → Bool
  | bump => false
  | word _ _ => true

def bumps (marks : List (Mark α)) : Nat := marks.countP fun mark => !mark.isWord

/-- How many words were stored since the counter last moved. -/
def pending (marks : List (Mark α)) : Nat := (marks.reverse.takeWhile Mark.isWord).length

/-- The words in memory, from what it held before the history. -/
def content (held : Nat → α) (marks : List (Mark α)) : Nat → α :=
  marks.foldl (fun held mark => match mark with
    | .bump => held
    | .word index value => Function.update held index value) held

def words (image : Nat → α) (count : Nat) : List (Mark α) :=
  (List.range count).map fun index => .word index (image index)

def execution (size : Nat) (image : Nat → α) : List (Mark α) := .bump :: words image size ++ [.bump]

def Idle (size : Nat) (marks : List (Mark α)) : Prop :=
  ∃ images : List (Nat → α), marks = images.flatMap (execution size)

/-- An execution has stored the first `count` words of its image. -/
def Storing (size count : Nat) (marks : List (Mark α)) : Prop :=
  ∃ (images : List (Nat → α)) (image : Nat → α), marks = images.flatMap (execution size) ++ .bump :: words image count

def Ordered (size : Nat) (marks : List (Mark α)) : Prop :=
  Idle size marks ∨ ∃ count ≤ size, Storing size count marks

/-- One execution stored all the words of this image. -/
def Complete (size : Nat) (marks : List (Mark α)) (image : Nat → α) : Prop :=
  ∃ earlier later, marks = earlier ++ words image size ++ later

@[simp] theorem words_length (image : Nat → α) (count : Nat) : (words image count).length = count := by
  simp [words]

theorem words_succ (image : Nat → α) (count : Nat) :
    words image (count + 1) = words image count ++ [.word count (image count)] := by
  simp only [words, List.range_succ, List.map_append, List.map_cons, List.map_nil]

theorem bumps_append (first second : List (Mark α)) : bumps (first ++ second) = bumps first + bumps second :=
  List.countP_append ..

@[simp] theorem bumps_words (image : Nat → α) (count : Nat) : bumps (words image count) = 0 := by
  simp [bumps, words, Mark.isWord]

theorem content_append (held : Nat → α) (first second : List (Mark α)) :
    content held (first ++ second) = content (content held first) second :=
  List.foldl_append ..

theorem idle_nil (size : Nat) : Idle size ([] : List (Mark α)) := ⟨[], rfl⟩

theorem Idle.begin [Inhabited α] {size : Nat} {marks : List (Mark α)} (idle : Idle size marks) :
    Storing size 0 (marks ++ [.bump]) := by
  obtain ⟨images, rfl⟩ := idle
  exact ⟨images, fun _ => default, rfl⟩

theorem Storing.store {size count : Nat} {marks : List (Mark α)} (storing : Storing size count marks) (value : α) :
    Storing size (count + 1) (marks ++ [.word count value]) := by
  obtain ⟨images, image, rfl⟩ := storing
  refine ⟨images, Function.update image count value, ?_⟩
  have same : words (Function.update image count value) count = words image count := by
    refine List.map_congr_left fun index inside => ?_
    rw [Function.update_of_ne (Nat.ne_of_lt (List.mem_range.mp inside))]
  rw [words_succ, same, Function.update_self, List.append_assoc]
  rfl

theorem Storing.finish {size : Nat} {marks : List (Mark α)} (storing : Storing size size marks) :
    Idle size (marks ++ [.bump]) := by
  obtain ⟨images, image, rfl⟩ := storing
  refine ⟨images ++ [image], ?_⟩
  simp only [List.flatMap_append, List.flatMap_cons, List.flatMap_nil, execution, List.append_nil, List.append_assoc,
    List.cons_append]

section Counting

variable (size : Nat) (images : List (Nat → α))

private theorem length_executions : (images.flatMap (execution size)).length = (size + 2) * images.length := by
  induction images with
  | nil => rfl
  | cons image images ih =>
    simp only [List.flatMap_cons, List.length_append, ih, execution, List.length_cons, words_length, List.length_nil]
    rw [Nat.mul_succ]
    omega

private theorem bumps_executions : bumps (images.flatMap (execution size)) = 2 * images.length := by
  induction images with
  | nil => rfl
  | cons image images ih =>
    have two : bumps (execution size image) = 2 := by
      rw [execution, bumps_append, show (Mark.bump :: words image size) = [.bump] ++ words image size from rfl,
        bumps_append, bumps_words]
      rfl
    rw [List.flatMap_cons, bumps_append, ih, two, List.length_cons]
    omega

private theorem bumps_storing (image : Nat → α) (count : Nat) :
    bumps (images.flatMap (execution size) ++ .bump :: words image count) = 2 * images.length + 1 := by
  rw [bumps_append, bumps_executions, show (Mark.bump :: words image count) = [.bump] ++ words image count from rfl,
    bumps_append, bumps_words]
  rfl

end Counting

theorem pending_storing {size count : Nat} {marks : List (Mark α)} (storing : Storing size count marks) :
    pending marks = count := by
  obtain ⟨images, image, rfl⟩ := storing
  have stored : ∀ mark ∈ (words image count).reverse, mark.isWord = true := by
    intro mark member
    obtain ⟨index, _, rfl⟩ := List.mem_map.mp (List.mem_reverse.mp member)
    rfl
  rw [pending, List.reverse_append, List.reverse_cons, List.append_assoc, List.takeWhile_append_of_pos stored]
  simp [Mark.isWord]

theorem pending_bumped (marks : List (Mark α)) : pending (marks ++ [.bump]) = 0 := by
  simp [pending, Mark.isWord]

/-- An execution ends by moving the counter. -/
theorem Idle.ends {size : Nat} {marks : List (Mark α)} (idle : Idle size marks) :
    marks = [] ∨ ∃ earlier, Storing size size earlier ∧ marks = earlier ++ [.bump] := by
  obtain ⟨images, rfl⟩ := idle
  rcases List.eq_nil_or_concat images with rfl | ⟨earlier, image, rfl⟩
  · exact .inl rfl
  · refine .inr ⟨earlier.flatMap (execution size) ++ .bump :: words image size, ⟨earlier, image, rfl⟩, ?_⟩
    simp only [List.concat_eq_append, List.flatMap_append, List.flatMap_cons, List.flatMap_nil, List.append_nil,
      execution, List.append_assoc, List.cons_append]

theorem pending_idle {size : Nat} {marks : List (Mark α)} (idle : Idle size marks) : pending marks = 0 := by
  rcases idle.ends with rfl | ⟨earlier, _, rfl⟩
  · rfl
  · exact pending_bumped earlier

/-- The counter moves when no word of an image is stored, or all are. -/
theorem Ordered.bumped {size : Nat} {marks : List (Mark α)} (ordered : Ordered size (marks ++ [.bump])) :
    pending marks = 0 ∨ pending marks = size := by
  rcases ordered with idle | ⟨count, _, images, image, same⟩
  · rcases idle.ends with none | ⟨earlier, storing, same⟩
    · exact absurd none (by simp)
    · rw [(List.append_inj' same rfl).1]
      exact .inr (pending_storing storing)
  · cases count with
    | zero =>
      rw [(List.append_inj' same rfl).1]
      exact .inl (pending_idle ⟨images, rfl⟩)
    | succ count =>
      rw [words_succ, ← List.cons_append, ← List.append_assoc] at same
      have last := (List.append_inj' same rfl).2
      cases last

/-- Words are stored in order. -/
theorem Ordered.stored {size index : Nat} {value : α} {marks : List (Mark α)}
    (ordered : Ordered size (marks ++ [.word index value])) :
    index < size ∧ pending (marks ++ [.word index value]) = index + 1 := by
  rcases ordered with idle | ⟨count, inside, storing⟩
  · rcases idle.ends with none | ⟨earlier, _, same⟩
    · exact absurd none (by simp)
    · have last := (List.append_inj' same rfl).2
      cases last
  · have pending := pending_storing storing
    obtain ⟨images, image, same⟩ := storing
    cases count with
    | zero =>
      have last := (List.append_inj' same rfl).2
      cases last
    | succ count =>
      rw [words_succ, ← List.cons_append, ← List.append_assoc] at same
      have last := (List.append_inj' same rfl).2
      cases last
      exact ⟨inside, pending⟩

/-- Where the counter stood still and the reader did not arrive in mid-image, nothing was stored. -/
theorem unmoved {size : Nat} {before during : List (Mark α)} (ordered : Ordered size before)
    (ordered' : Ordered size (before ++ during)) (still : bumps during = 0)
    (apart : ¬ (pending before < size ∧ 0 < pending (before ++ during))) : during = [] := by
  have total := bumps_append before during
  rw [still, Nat.add_zero] at total
  apply List.eq_nil_of_length_eq_zero
  have length : (before ++ during).length = before.length + during.length := List.length_append
  rcases ordered with ⟨images, rfl⟩ | ⟨count, low, storing⟩ <;>
    rcases ordered' with ⟨images', same⟩ | ⟨count', low', storing'⟩
  · rw [same, bumps_executions, bumps_executions] at total
    rw [same, length_executions, length_executions, show images'.length = images.length by omega] at length
    omega
  · obtain ⟨images', image', same⟩ := storing'
    rw [same, bumps_storing, bumps_executions] at total
    omega
  · obtain ⟨images, image, rfl⟩ := storing
    rw [same, bumps_storing, bumps_executions] at total
    omega
  · rw [pending_storing storing, pending_storing storing'] at apart
    obtain ⟨images, image, rfl⟩ := storing
    obtain ⟨images', image', same⟩ := storing'
    rw [same, bumps_storing, bumps_storing] at total
    rw [same, List.length_append, List.length_append, length_executions, length_executions, List.length_cons,
      List.length_cons, words_length, words_length, show images'.length = images.length by omega] at length
    omega

private theorem content_words (held image : Nat → α) (count index : Nat) :
    content held (words image count) index = if index < count then image index else held index := by
  induction count with
  | zero => simp [words, content]
  | succ count ih =>
    rw [words_succ, content_append]
    by_cases last : index = count
    · subst last
      rw [if_pos (Nat.lt_succ_self _)]
      exact Function.update_self ..
    · have kept : content (content held (words image count)) [.word count (image count)] index =
          content held (words image count) index := Function.update_of_ne last ..
      rw [kept, ih]
      congr 1
      exact propext ⟨fun low => by omega, fun low => by omega⟩

private theorem content_executions (size : Nat) (images : List (Nat → α)) (held : Nat → α) :
    (∀ index < size, content held (images.flatMap (execution size)) index = held index) ∨
      ∃ image, Complete size (images.flatMap (execution size)) image ∧
        ∀ index < size, content held (images.flatMap (execution size)) index = image index := by
  rcases List.eq_nil_or_concat images with rfl | ⟨earlier, image, rfl⟩
  · exact .inl fun _ _ => rfl
  · refine .inr ⟨image, ⟨earlier.flatMap (execution size) ++ [.bump], [.bump], ?_⟩, fun index inside => ?_⟩
    · simp [execution]
    · rw [List.concat_eq_append, List.flatMap_append, content_append]
      simp only [List.flatMap_cons, List.flatMap_nil, List.append_nil, execution]
      rw [content_append]
      exact (content_words _ image size index).trans (if_pos inside)

/-- Outside the word stores of an execution the memory holds one whole image. -/
theorem settled {size : Nat} {marks : List (Mark α)} (held : Nat → α) (ordered : Ordered size marks)
    (apart : ¬ (pending marks < size ∧ 0 < pending marks)) : (∀ index < size, content held marks index = held index) ∨
      ∃ image, Complete size marks image ∧ ∀ index < size, content held marks index = image index := by
  rcases ordered with ⟨images, rfl⟩ | ⟨count, low, storing⟩
  · exact content_executions size images held
  · rw [pending_storing storing] at apart
    obtain ⟨images, image, rfl⟩ := storing
    rcases (show count = 0 ∨ count = size by omega) with rfl | rfl
    · have same : content held (images.flatMap (execution size) ++ .bump :: words image 0) =
          content held (images.flatMap (execution size)) := by
        rw [content_append]
        rfl
      rw [same]
      refine (content_executions size images held).imp_right ?_
      intro given
      obtain ⟨image', ⟨earlier, later, whole⟩, holds⟩ := given
      refine ⟨image', ⟨earlier, later ++ .bump :: words image 0, ?_⟩, holds⟩
      rw [whole, List.append_assoc]
    · refine .inr ⟨image, ⟨images.flatMap (execution count) ++ [.bump], [], by simp⟩, fun index inside => ?_⟩
      rw [content_append]
      exact (content_words _ image count index).trans (if_pos inside)

end SequenceLock
end EthercatSlave
