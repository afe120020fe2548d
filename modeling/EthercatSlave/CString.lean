import Mathlib.Init

/-! C strings in arrays of a fixed size. A store past the end of an array, or the
search for a terminator that is not in it, has no result. -/

namespace EthercatSlave

structure Cells (size : Nat) where
  chars : List Char
  length_eq : chars.length = size

namespace Cells

variable {size : Nat}

def nul : Char := Char.ofNat 0

def put (cells : Cells size) (index : Nat) (char : Char) : Option (Cells size) :=
  if index < size then some ⟨cells.chars.set index char, by rw [List.length_set, cells.length_eq]⟩ else none

/-- One store after the other, from `start` on. -/
def putAll (cells : Cells size) (start : Nat) : List Char → Option (Cells size)
  | [] => some cells
  | char :: chars => do
    let cells ← cells.put start char
    cells.putAll (start + 1) chars

/-- The string in the array. -/
def text (cells : Cells size) : Option (List Char) :=
  if nul ∈ cells.chars then some (cells.chars.takeWhile (· ≠ nul)) else none

def strncpy (cells : Cells size) (source : List Char) (count : Nat) : Option (Cells size) :=
  cells.putAll 0 (source.take count ++ List.replicate (count - source.length) nul)

def strncat (cells : Cells size) (source : List Char) (count : Nat) : Option (Cells size) := do
  let held ← cells.text
  cells.putAll held.length (source.take count ++ [nul])

/-- `snprintf` of a text, into at most `count` characters. -/
def snprintf (cells : Cells size) (count : Nat) (printed : List Char) : Option (Cells size) :=
  cells.putAll 0 (printed.take (count - 1) ++ [nul])

/-- The array holds this string. -/
def Holds (cells : Cells size) (held : List Char) : Prop :=
  nul ∉ held ∧ ∃ rest, cells.chars = held ++ nul :: rest

theorem Holds.text_eq {cells : Cells size} {held : List Char} (holds : cells.Holds held) :
    cells.text = some held := by
  obtain ⟨clean, rest, same⟩ := holds
  have ended : nul ∈ cells.chars := by simp [same]
  have before : ∀ char ∈ held, decide (char ≠ nul) = true := fun char member =>
    decide_eq_true fun same => clean (same ▸ member)
  rw [text, if_pos ended, same, List.takeWhile_append_of_pos before, List.takeWhile_cons_of_neg (by simp),
    List.append_nil]

theorem put_some {cells : Cells size} {before rest : List Char} {old char : Char}
    (same : cells.chars = before ++ old :: rest) :
    ∃ after, cells.put before.length char = some after ∧ after.chars = before ++ char :: rest := by
  have inside : before.length < size := by
    rw [← cells.length_eq, same, List.length_append, List.length_cons]
    omega
  refine ⟨_, if_pos inside, ?_⟩
  simp [same]

/-- Stores inside the array replace as many characters. -/
theorem putAll_some {cells : Cells size} {before middle rest chars : List Char}
    (same : cells.chars = before ++ middle ++ rest) (fits : middle.length = chars.length) :
    ∃ after, cells.putAll before.length chars = some after ∧ after.chars = before ++ chars ++ rest := by
  induction chars generalizing cells before middle with
  | nil =>
    rw [List.length_nil, List.length_eq_zero_iff] at fits
    exact ⟨cells, rfl, by rw [same, fits]⟩
  | cons char chars ih =>
    obtain ⟨old, middle, rfl⟩ := List.exists_cons_of_length_eq_add_one fits
    obtain ⟨stored, put, shape⟩ := @put_some _ cells before (middle ++ rest) old char (by simp [same])
    obtain ⟨after, all, shape'⟩ := @ih stored (before ++ [char]) middle (by simp [shape]) (by simpa using fits)
    refine ⟨after, ?_, by simp [shape']⟩
    rw [putAll, put]
    simpa using all

theorem putAll_none {cells : Cells size} {start : Nat} {chars : List Char} (some : chars ≠ [])
    (beyond : size < start + chars.length) : cells.putAll start chars = none := by
  induction chars generalizing cells start with
  | nil => exact absurd rfl some
  | cons char chars ih =>
    rw [List.length_cons] at beyond
    rw [putAll]
    cases stored : cells.put start char with
    | none => rfl
    | some after =>
      have inside : start < size := by
        unfold put at stored
        split at stored
        next inside => exact inside
        next => cases stored
      have more : chars ≠ [] := by
        intro same
        subst same
        simp only [List.length_nil] at beyond
        omega
      exact ih more (by omega)

theorem snprintf_holds (cells : Cells size) {count : Nat} {printed : List Char} (clean : nul ∉ printed)
    (positive : 0 < count) (fits : count ≤ size) :
    ∃ after, cells.snprintf count printed = some after ∧ after.Holds (printed.take (count - 1)) := by
  let chars := printed.take (count - 1) ++ [nul]
  have short : chars.length ≤ size := by
    simp only [chars, List.length_append, List.length_take, List.length_singleton]
    omega
  obtain ⟨after, stored, same⟩ :=
    @putAll_some _ cells [] (cells.chars.take chars.length) (cells.chars.drop chars.length)
    chars (by simp) (by rw [List.length_take, cells.length_eq, Nat.min_eq_left short])
  refine ⟨after, stored, fun member => clean (List.mem_of_mem_take member), cells.chars.drop chars.length, ?_⟩
  simpa [chars] using same

/-- A copy into a large enough array holds the source. -/
theorem strncpy_holds (cells : Cells size) {count : Nat} {source : List Char} (clean : nul ∉ source)
    (short : source.length < count) (fits : count ≤ size) :
    ∃ after, cells.strncpy source count = some after ∧ after.Holds source := by
  let chars := source.take count ++ List.replicate (count - source.length) nul
  have length : chars.length = count := by
    simp only [chars, List.length_append, List.length_take, List.length_replicate]
    omega
  obtain ⟨after, stored, same⟩ := @putAll_some _ cells [] (cells.chars.take count) (cells.chars.drop count)
    chars (by simp) (by rw [List.length_take, cells.length_eq, length, Nat.min_eq_left fits])
  obtain ⟨more, padding⟩ := Nat.exists_eq_add_of_lt short
  refine ⟨after, stored, clean, List.replicate more nul ++ cells.chars.drop count, ?_⟩
  rw [same]
  have all : source.take count = source := List.take_of_length_le (Nat.le_of_lt short)
  have zeros : count - source.length = more + 1 := by omega
  simp only [chars, all, zeros, List.replicate_succ, List.nil_append, List.cons_append, List.append_assoc]

/-- What is appended must fit into the array with its terminator. -/
theorem strncat_holds {cells : Cells size} {held source : List Char} {count : Nat} (holds : cells.Holds held)
    (clean : nul ∉ source) (short : source.length ≤ count) (fits : held.length + source.length < size) :
    ∃ after, cells.strncat source count = some after ∧ after.Holds (held ++ source) := by
  have text := holds.text_eq
  obtain ⟨held_clean, rest, same⟩ := holds
  have length := cells.length_eq
  rw [same, List.length_append, List.length_cons] at length
  have all : source.take count = source := List.take_of_length_le short
  obtain ⟨after, stored, shape⟩ := @putAll_some _ cells held ((nul :: rest).take (source.length + 1))
    ((nul :: rest).drop (source.length + 1)) (source ++ [nul]) (by rw [List.append_assoc, List.take_append_drop, same])
    (by simp only [List.length_take, List.length_cons, List.length_append, List.length_nil]; omega)
  refine ⟨after, ?_, by simp [held_clean, clean], (nul :: rest).drop (source.length + 1), ?_⟩
  · rw [strncat, text, all]
    exact stored
  · rw [shape]
    simp only [List.append_assoc, List.cons_append, List.nil_append]

theorem strncat_none {cells : Cells size} {held source : List Char} {count : Nat} (holds : cells.Holds held)
    (short : source.length ≤ count) (beyond : size ≤ held.length + source.length) :
    cells.strncat source count = none := by
  have length : (source.take count ++ [nul]).length = source.length + 1 := by
    rw [List.take_of_length_le short, List.length_append, List.length_singleton]
  rw [strncat, holds.text_eq]
  exact putAll_none (by simp) (by omega)

end Cells
end EthercatSlave
