import EthercatSlave.RealTimeKernel
import Mathlib.Data.List.TakeWhile

/-! Whatever the file of the kernel holds and however reading it turns out, the buffer
is not left, the file is closed, and memory is locked exactly if the first line is 1. -/

namespace EthercatSlave.Proofs.RealTimeKernel
open Program EthercatSlave.RealTimeKernel

section Stripping

variable {size : Nat}

def cleared (char : Char) : Char := if char = '\r' ∨ char = '\n' then Cells.nul else char

theorem wipe_some (path : Cells size) {before rest : List Char} {char : Char} (ending : Char)
    (same : path.chars = before ++ char :: rest) : ∃ wiped, wipe path before.length ending = some wiped ∧
      wiped.chars = before ++ (if char = ending then Cells.nul else char) :: rest := by
  have here : path.chars[before.length]? = some char := by
    rw [same, List.getElem?_append_right (Nat.le_refl _), Nat.sub_self, List.getElem?_cons_zero]
  rw [wipe, here]
  by_cases ends : char = ending
  · obtain ⟨wiped, put, shape⟩ := @Cells.put_some size path _ _ _ Cells.nul same
    refine ⟨wiped, ?_, ?_⟩
    · rw [if_pos (by rw [ends]), put]
    · rw [if_pos ends, shape]
  · refine ⟨path, if_neg fun same => ends (Option.some.inj same), ?_⟩
    rw [if_neg ends, same]

theorem stripFrom_some (path : Cells size) {before middle rest : List Char}
    (same : path.chars = before ++ middle ++ rest) : ∃ stripped,
      stripFrom middle.length before.length path = some stripped ∧
        stripped.chars = before ++ middle.map cleared ++ rest := by
  induction middle generalizing path before with
  | nil => exact ⟨path, rfl, same⟩
  | cons char middle ih =>
    have begins : path.chars = before ++ char :: (middle ++ rest) := by simpa using same
    obtain ⟨first, one, shape⟩ := wipe_some path '\r' begins
    obtain ⟨second, two, shape⟩ := wipe_some first '\n' shape
    have both : (if (if char = '\r' then Cells.nul else char) = '\n' then Cells.nul else
        if char = '\r' then Cells.nul else char) = cleared char := by
      unfold cleared
      grind
    rw [both] at shape
    obtain ⟨stripped, rounds, shape⟩ := @ih second (before ++ [cleared char]) (by simpa using shape)
    refine ⟨stripped, ?_, by simpa using shape⟩
    rw [List.length_append, List.length_singleton] at rounds
    simp only [List.length_cons, stripFrom, one, two, Option.bind_eq_bind, Option.bind_some]
    exact rounds

theorem takeWhile_cleared {held : List Char} (rest : List Char) (clean : Cells.nul ∉ held) :
    (held.map cleared ++ Cells.nul :: rest).takeWhile (· ≠ Cells.nul) = firstLine held := by
  induction held with
  | nil => simp [firstLine]
  | cons char held ih =>
    rw [List.mem_cons, not_or] at clean
    have same := ih clean.2
    by_cases ends : char = '\r' ∨ char = '\n'
    · have cut : cleared char = Cells.nul := if_pos ends
      rw [List.map_cons, List.cons_append, cut, List.takeWhile_cons_of_neg (by simp), firstLine,
        List.takeWhile_cons_of_neg (by grind)]
    · have kept : cleared char = char := if_neg ends
      have inner : char ≠ Cells.nul := fun same => clean.1 same.symm
      rw [not_or] at ends
      rw [List.map_cons, List.cons_append, kept, List.takeWhile_cons_of_pos (by simpa using inner), same, firstLine,
        firstLine, List.takeWhile_cons_of_pos (by simpa using ⟨inner, ends⟩)]

/-- What `strip` leaves of a string is its first line. -/
theorem strip_line {path : Cells size} {held : List Char} (holds : path.Holds held) : ∃ stripped,
    strip path = some stripped ∧ stripped.text = some (firstLine held) := by
  have text := holds.text_eq
  obtain ⟨clean, rest, same⟩ := holds
  obtain ⟨stripped, rounds, shape⟩ := @stripFrom_some size path [] held (Cells.nul :: rest) (by simpa using same)
  refine ⟨stripped, ?_, ?_⟩
  · rw [strip, text]
    exact rounds
  · have ended : Cells.nul ∈ stripped.chars := by simp [shape]
    rw [Cells.text, if_pos ended, shape, List.nil_append, takeWhile_cleared rest clean]

end Stripping

section Reading

variable {size : Nat}

theorem put_first (buffer : Cells size) (positive : 0 < size) : ∃ after,
    buffer.put 0 Cells.nul = some after ∧ after.Holds [] := by
  rw [← buffer.length_eq] at positive
  obtain ⟨first, rest, shape⟩ := List.exists_cons_of_length_pos positive
  obtain ⟨after, put, same⟩ := @Cells.put_some size buffer [] rest first Cells.nul shape
  exact ⟨after, put, List.not_mem_nil, rest, same⟩

/-- Characters with a zero behind them are a string up to their first zero. -/
theorem cut_holds {cells : Cells size} {read rest : List Char} (same : cells.chars = read ++ Cells.nul :: rest) :
    cells.Holds (read.takeWhile (· ≠ Cells.nul)) := by
  have split := List.takeWhile_append_dropWhile (p := (· ≠ Cells.nul)) (l := read)
  constructor
  · exact fun member => by simpa using List.mem_takeWhile_imp member
  · cases tail : read.dropWhile (· ≠ Cells.nul) with
    | nil =>
      rw [tail, List.append_nil] at split
      exact ⟨rest, by rw [split, same]⟩
    | cons first more =>
      have ends : first = Cells.nul := by
        have head := List.head?_dropWhile_not (· ≠ Cells.nul) read
        rw [tail] at head
        simpa using head
      rw [tail, ends] at split
      have shape : cells.chars = (read.takeWhile (· ≠ Cells.nul) ++ Cells.nul :: more) ++ Cells.nul :: rest := by
        rw [split, same]
      exact ⟨more ++ Cells.nul :: rest, by rw [shape, List.append_assoc, List.cons_append]⟩

theorem terminate_holds (buffer : Cells size) {read : List Char} (fits : read.length < size) : ∃ after,
    terminate buffer read = some (read.length, after) ∧ after.Holds (read.takeWhile (· ≠ Cells.nul)) := by
  rw [terminate]
  split
  next =>
    have whole : buffer.chars = [] ++ buffer.chars.take read.length ++ buffer.chars.drop read.length :=
      (List.take_append_drop _ _).symm
    obtain ⟨filled, all, shape⟩ := @Cells.putAll_some size buffer [] (buffer.chars.take read.length)
      (buffer.chars.drop read.length) read whole (by rw [List.length_take, buffer.length_eq]; omega)
    have more : 0 < (buffer.chars.drop read.length).length := by
      rw [List.length_drop, buffer.length_eq]
      omega
    obtain ⟨last, rest, tail⟩ := List.exists_cons_of_length_pos more
    rw [List.nil_append, tail] at shape
    obtain ⟨after, put, shape⟩ := @Cells.put_some size filled read rest last Cells.nul shape
    refine ⟨after, ?_, cut_holds shape⟩
    simp only [List.length_nil] at all
    simp only [all, put, Option.bind_eq_bind, Option.bind_some]
    rfl
  next unread =>
    have empty : read = [] := List.eq_nil_of_length_eq_zero (Nat.eq_zero_of_not_pos unread)
    obtain ⟨after, put, holds⟩ := put_first buffer (by omega)
    subst empty
    exact ⟨after, by rw [put]; rfl, holds⟩

end Reading

section Results

theorem firstLine_cut (read : List Char) : firstLine (read.takeWhile (· ≠ Cells.nul)) = firstLine read := by
  induction read with
  | nil => rfl
  | cons char read ih =>
    by_cases inner : char = Cells.nul
    · rw [List.takeWhile_cons_of_neg (by simp [inner]), firstLine, firstLine,
        List.takeWhile_cons_of_neg (by simp [inner])]
      rfl
    · rw [List.takeWhile_cons_of_pos (by simp [inner])]
      rw [firstLine, firstLine, List.takeWhile_cons, List.takeWhile_cons, ← firstLine, ← firstLine, ih]

/-- What is decided about the buffer once it is filled. -/
theorem decided {size : Nat} {buffer : Cells size} {held : List Char} (holds : buffer.Holds held) :
    (do let buffer ← strip buffer; buffer.text) = some (firstLine held) := by
  obtain ⟨stripped, strips, text⟩ := strip_line holds
  rw [strips]
  exact text

theorem got_short (chance : FileChance) (system : FileSystem) : (got chance system).length ≤ 62 := by
  rw [got]
  split
  · rw [List.length_take]
    omega
  · exact Nat.zero_le _

theorem readfilebuf_eval (chance : FileChance) (system : FileSystem) : ∃ buffer,
    Eval (FileSystem.perform chance) (readfilebuf realtimePath (zeros 64) 63) system
      (some ((got chance system).length, buffer)) system ∧
        buffer.Holds ((got chance system).takeWhile (· ≠ Cells.nul)) := by
  obtain ⟨cleared, put, holds⟩ := put_first (zeros 64) (by decide)
  by_cases opens : (chance.fopen && (system.contents realtimePath).isSome) = true
  · obtain ⟨fopen, there⟩ := Bool.and_eq_true_iff.mp opens
    obtain ⟨held, there⟩ := Option.isSome_iff_exists.mp there
    have read : (chance.read.map fun available => held.take (min available 62)).getD [] = got chance system := by
      rw [got, fopen, there]
      cases chance.read <;> rfl
    obtain ⟨buffer, filled, holds⟩ := terminate_holds cleared (show (got chance system).length < 64 by
      have short := got_short chance system
      omega)
    refine ⟨buffer, ?_, holds⟩
    have opening : FileSystem.perform chance (.fopen realtimePath) system =
        some (true, { system with opened := realtimePath :: system.opened }) := if_pos opens
    have reading : FileSystem.perform chance (.read 62) { system with opened := realtimePath :: system.opened } =
        some (chance.read.map fun available => held.take (min available 62),
          { system with opened := realtimePath :: system.opened }) := by
      simp [FileSystem.perform, there]
    apply Eval.request opening
    apply Eval.request reading
    refine .request rfl ?_
    have result : (do
        let buffer ← (zeros 64).put 0 Cells.nul
        terminate buffer ((chance.read.map fun available => held.take (min available 62)).getD [])) =
          some ((got chance system).length, buffer) := by
      rw [put, read]
      exact filled
    change Eval _ (.pure _) _ _ _
    rw [result]
    exact .pure
  · have nothing : got chance system = [] := by
      rw [got]
      split
      next fopen there _ =>
        rw [fopen, there] at opens
        exact absurd rfl opens
      next => rfl
    have refused : FileSystem.perform chance (.fopen realtimePath) system = some (false, system) := if_neg opens
    refine ⟨cleared, ?_, by rw [nothing]; exact holds⟩
    apply Eval.request refused
    have result : (do
        let buffer ← (zeros 64).put 0 Cells.nul
        return (0, buffer)) = some ((got chance system).length, cleared) := by
      rw [put, nothing]
      rfl
    change Eval _ (.pure _) _ _ _
    rw [result]
    exact .pure

/-- However the file turns out, `isrealtime` ends, leaves no array, and has done what
the first line says. -/
theorem isrealtime_tested (chance : FileChance) (system : FileSystem) : ∃ status final,
    Eval (FileSystem.perform chance) isrealtime system (some status) final ∧ Tested chance system status final := by
  obtain ⟨buffer, filled, holds⟩ := readfilebuf_eval chance system
  have line : (do let buffer ← strip buffer; buffer.text) = some (firstLine (got chance system)) := by
    rw [decided holds, firstLine_cut]
  have other : firstLine (got chance system) ≠ ['1'] → Tested chance system (-3) system := by
    intro other
    exact ⟨rfl, rfl, (if_neg other).symm, by simp [other]⟩
  by_cases any : 0 < (got chance system).length
  · by_cases one : firstLine (got chance system) = ['1']
    · refine ⟨chance.mlockall, { system with locked := system.locked || chance.mlockall == 0 }, filled.bind ?_, ?_⟩
      · simp only [if_pos any, line, one, if_true]
        exact .request rfl .pure
      · exact ⟨rfl, rfl, (if_pos one).symm, by simp [one]⟩
    · refine ⟨-3, system, filled.bind ?_, other one⟩
      simp only [if_pos any, line, if_neg one]
      exact .pure
  · have nothing : got chance system = [] := List.eq_nil_of_length_eq_zero (Nat.eq_zero_of_not_pos any)
    refine ⟨-3, system, filled.bind ?_, other (by rw [nothing]; decide)⟩
    simp only [if_neg any]
    exact .pure

end Results
end EthercatSlave.Proofs.RealTimeKernel
