import EthercatSlave.Bashoutput
import Mathlib.Data.Nat.Log

/-! When the status line fits into its buffer. Each `strncat` only bounds what it
appends, so the lengths of the ten numbers decide together. -/

namespace EthercatSlave.Proofs.StatusLine
open Bashoutput Cells Float.Model

def minus : UnpackedFloat.Sign → Nat
  | .positive => 0
  | .negative => 1

/-- The characters a number takes: its sign, its digits before the point, the point
and six decimals, at most as many as `snprintf` lets through. -/
def width (value : Float) : Nat :=
  match value.toModel.unpack with
  | .notANumber => 3
  | .infinity sign => minus sign + 3
  | .zero sign => minus sign + 8
  | .finite sign mantissa exponent _ => min 62 (minus sign + Nat.log 10 (millionths mantissa exponent / 10 ^ 6) + 8)

/-- The numbers on the line. -/
def numbers (period runtime : Statbuffer Float) : List Float :=
  [period.vmean, period.vrange, period.vstddev, period.vmax, period.vmin,
    runtime.vmean, runtime.vrange, runtime.vstddev, runtime.vmax, runtime.vmin]

theorem length_toDigits (number : Nat) : (Nat.toDigits 10 number).length = Nat.log 10 number + 1 := by
  apply Nat.le_antisymm
  · exact (Nat.length_toDigits_le_iff (by decide) (Nat.succ_pos _)).mpr (Nat.lt_pow_succ_log_self (by decide) number)
  · cases Nat.eq_zero_or_pos (Nat.log 10 number) with
    | inl none =>
      rw [none]
      exact Nat.length_toDigits_pos
    | inr positive =>
      have filled : 10 ^ Nat.log 10 number ≤ number :=
        Nat.pow_log_le_self 10 fun zero => by simp [zero] at positive
      have longer := mt (Nat.length_toDigits_le_iff (by decide) positive).mp (Nat.not_lt.mpr filled)
      omega

theorem length_decimal (units : Nat) : (decimal units).length = Nat.log 10 (units / 10 ^ 6) + 8 := by
  simp only [decimal, List.length_append, length_toDigits, List.length_cons, List.length_map, List.length_range]

theorem length_signed (sign : UnpackedFloat.Sign) (digits : List Char) :
    (signed sign digits).length = minus sign + digits.length := by
  cases sign with
  | positive => exact (Nat.zero_add _).symm
  | negative => exact Nat.add_comm _ _

theorem minus_le (sign : UnpackedFloat.Sign) : minus sign ≤ 1 := by
  cases sign <;> decide

theorem length_printed (value : Float) : ((printed value).take 62).length = width value := by
  unfold printed width
  rw [List.length_take]
  cases value.toModel.unpack with
  | notANumber => rfl
  | infinity sign =>
    have small := minus_le sign
    simp only [length_signed, List.length_cons, List.length_nil]
    omega
  | zero sign =>
    have small := minus_le sign
    have digits : Nat.log 10 (0 / 10 ^ 6) = 0 := Nat.log_zero_right 10
    simp only [length_signed, length_decimal, digits]
    omega
  | finite sign mantissa exponent =>
    simp only [length_signed, length_decimal, Nat.add_assoc]

theorem digit_clean (digit : Nat) (small : digit < 10) : Nat.digitChar digit ≠ nul := by
  revert digit
  decide

theorem decimal_clean (units : Nat) : nul ∉ decimal units := by
  intro member
  obtain whole | fraction := List.mem_append.mp member
  · have digit := Nat.isDigit_of_mem_toDigits (by decide) (by decide) whole
    exact absurd digit (by decide)
  · cases fraction with
    | tail _ digits =>
      obtain ⟨place, _, same⟩ := List.mem_map.mp digits
      exact digit_clean _ (Nat.mod_lt _ (by decide)) same

theorem signed_clean (sign : UnpackedFloat.Sign) {digits : List Char} (clean : nul ∉ digits) :
    nul ∉ signed sign digits := by
  cases sign with
  | positive => exact clean
  | negative =>
    intro member
    cases member with
    | tail _ inside => exact clean inside

theorem printed_clean (value : Float) : nul ∉ printed value := by
  unfold printed
  cases value.toModel.unpack with
  | notANumber => decide
  | infinity sign => exact signed_clean sign (by decide)
  | zero sign => exact signed_clean sign (decimal_clean 0)
  | finite sign mantissa exponent => exact signed_clean sign (decimal_clean _)

/-- The characters on the line so far; beyond the buffer there is no line. -/
def Filled (held : List Char) (line : Option Line) : Prop :=
  if held.length < 256 then ∃ filled, line = some filled ∧ filled.outbuffer.Holds held else line = none

theorem appendField_filled {held : List Char} {field : List Char × Float} {line : Option Line}
    (filled : Filled held line)
    (clean : nul ∉ field.1) (short : field.1.length ≤ 255) :
    Filled (held ++ (field.1 ++ (printed field.2).take 62)) (line.bind fun line => appendField line field) := by
  unfold Filled at *
  let digits := (printed field.2).take 62
  have digits_clean : nul ∉ digits := fun member => printed_clean field.2 (List.mem_of_mem_take member)
  have digits_short : digits.length ≤ 255 := Nat.le_trans (List.length_take_le _ _) (by decide)
  have total : (held ++ (field.1 ++ digits)).length = held.length + field.1.length + digits.length := by
    rw [List.length_append, List.length_append, Nat.add_assoc]
  rw [total]
  split at filled
  next room =>
    obtain ⟨before, rfl, holds⟩ := filled
    obtain ⟨numeric, stored, number⟩ :=
      snprintf_holds before.numeric (printed_clean field.2) (by decide : 0 < 63) (by decide)
    have number : numeric.text = some digits := number.text_eq
    by_cases labelled : held.length + field.1.length < 256
    · obtain ⟨outbuffer, appended, holds⟩ := strncat_holds holds clean short labelled
      have length : (held ++ field.1).length = held.length + field.1.length := List.length_append
      by_cases whole : held.length + field.1.length + digits.length < 256
      · obtain ⟨outbuffer', appended', holds⟩ := strncat_holds holds digits_clean digits_short (by rwa [length])
        rw [if_pos whole]
        refine ⟨⟨outbuffer', numeric⟩, ?_, by rwa [List.append_assoc] at holds⟩
        simp [appendField, stored, appended, number, appended']
      · have beyond : outbuffer.strncat digits 255 = none :=
          strncat_none holds digits_short (by rw [length]; omega)
        rw [if_neg whole]
        simp [appendField, stored, appended, number, beyond]
    · have beyond : before.outbuffer.strncat field.1 255 = none := strncat_none holds short (by omega)
      rw [if_neg (by omega)]
      simp [appendField, stored, beyond]
  next full =>
    rw [filled, if_neg (by omega)]
    rfl

theorem appendFields_filled {fields : List (List Char × Float)} {held : List Char} {line : Option Line}
    (filled : Filled held line) (clean : ∀ field ∈ fields, nul ∉ field.1)
    (short : ∀ field ∈ fields, field.1.length ≤ 255) :
    Filled (held ++ fields.flatMap fun field => field.1 ++ (printed field.2).take 62)
      (line.bind fun line => fields.foldlM appendField line) := by
  induction fields generalizing held line with
  | nil => simpa using filled
  | cons field fields ih =>
    have first := appendField_filled filled (clean field (List.mem_cons_self ..)) (short field (List.mem_cons_self ..))
    have rest := ih first (fun other member => clean other (List.mem_cons_of_mem _ member))
      fun other member => short other (List.mem_cons_of_mem _ member)
    rw [Option.bind_assoc] at rest
    simpa only [List.flatMap_cons, List.append_assoc, List.foldlM_cons, Option.bind_eq_bind] using rest

theorem filled_text {held : List Char} {line : Option Line} (filled : Filled held line) :
    (line.bind fun line => line.outbuffer.text).isSome ↔ held.length < 256 := by
  unfold Filled at filled
  split at filled
  next room =>
    obtain ⟨before, rfl, holds⟩ := filled
    simp [holds.text_eq, room]
  next full => simp [filled, full]

/-- The first number always fits. -/
theorem first_filled (value : Float) (line : Line) (next : Line → Option (List Char)) : ∃ begun,
    (do
      let outbuffer ← line.outbuffer.put 255 nul
      let numeric ← line.numeric.put 63 nul
      let numeric ← numeric.snprintf 63 (printed value)
      let outbuffer ← outbuffer.strncpy firstLabel 255
      let number ← numeric.text
      let outbuffer ← outbuffer.strncat number 255
      next ⟨outbuffer, numeric⟩) = next begun ∧ Filled (firstLabel ++ (printed value).take 62) (some begun) := by
  let digits := (printed value).take 62
  have digits_clean : nul ∉ digits := fun member => printed_clean value (List.mem_of_mem_take member)
  have digits_short : digits.length ≤ 62 := List.length_take_le _ _
  have label : firstLabel.length = 11 := by decide
  let outbuffer : Cells 256 := ⟨line.outbuffer.chars.set 255 nul, by rw [List.length_set, line.outbuffer.length_eq]⟩
  let numeric : Cells 64 := ⟨line.numeric.chars.set 63 nul, by rw [List.length_set, line.numeric.length_eq]⟩
  have ended : line.outbuffer.put 255 nul = some outbuffer := if_pos (by decide)
  have ended' : line.numeric.put 63 nul = some numeric := if_pos (by decide)
  obtain ⟨number, stored, holds⟩ := snprintf_holds numeric (printed_clean value) (by decide : 0 < 63) (by decide)
  have number_text : number.text = some digits := holds.text_eq
  obtain ⟨labelled, copied, holds⟩ :=
    strncpy_holds outbuffer (by decide : nul ∉ firstLabel) (by decide : _ < 255) (by decide)
  obtain ⟨begun, appended, holds⟩ := strncat_holds holds digits_clean (by omega : _ ≤ 255) (by omega)
  have length : (firstLabel ++ digits).length < 256 := by
    rw [List.length_append, label]
    omega
  refine ⟨⟨begun, number⟩, ?_, ?_⟩
  · simp [ended, ended', stored, copied, number_text, appended]
  · rw [Filled, if_pos length]
    exact ⟨_, rfl, holds⟩

theorem line_length (period runtime : Statbuffer Float) :
    (firstLabel ++ (printed period.vmean).take 62 ++
      (fields period runtime).flatMap fun field => field.1 ++ (printed field.2).take 62).length =
        110 + ((numbers period runtime).map width).sum := by
  simp only [fields, numbers, List.flatMap_cons, List.flatMap_nil, List.length_append, List.length_nil, length_printed,
    List.map_cons, List.map_nil, List.sum_cons, List.sum_nil]
  have labels : firstLabel.length = 11 ∧ " per_range:".toList.length = 11 ∧ " per_stddev:".toList.length = 12 ∧
      " per_max:".toList.length = 9 ∧ " per_min:".toList.length = 9 ∧ " runtime(us):".toList.length = 13 ∧
      " runt_range:".toList.length = 12 ∧ " runt_stddev:".toList.length = 13 ∧ " runt_max:".toList.length = 10 ∧
      " runt_min:".toList.length = 10 := by decide
  omega

/-- The line is built inside the buffer and ends in it exactly when its numbers
take at most 145 characters. -/
theorem line_fits_iff (period runtime : Statbuffer Float) (line : Line) :
    (bashoutput period runtime line).isSome ↔ ((numbers period runtime).map width).sum ≤ 145 := by
  obtain ⟨begun, same, first⟩ := first_filled period.vmean line fun line => do
    let line ← (fields period runtime).foldlM appendField line
    line.outbuffer.text
  have clean : ∀ field ∈ fields period runtime, nul ∉ field.1 := by
    simp only [fields, List.forall_mem_cons, List.not_mem_nil, false_implies, implies_true, and_true]
    decide
  have short : ∀ field ∈ fields period runtime, field.1.length ≤ 255 := by
    simp only [fields, List.forall_mem_cons, List.not_mem_nil, false_implies, implies_true, and_true]
    decide
  have whole := filled_text (appendFields_filled first clean short)
  rw [show bashoutput period runtime line = _ from same]
  refine whole.trans ?_
  rw [line_length]
  omega

def blank : Line := ⟨⟨List.replicate 256 nul, List.length_replicate⟩, ⟨List.replicate 64 nul, List.length_replicate⟩⟩

/-- After a cycle that took 20000 s, the third number of the runtime does not fit. -/
theorem line_overflows : ¬ ∀ (periods runtimes : List (BitVec 64)) (line : Line),
    (bashoutput (measuredPeriod periods) (measuredRuntime runtimes) line).isSome := by
  intro fits
  have printed := fits [1000000, 1000000, 20000000000000] [100000, 20000000000000, 100000] blank
  exact absurd printed (by decide +kernel)

end EthercatSlave.Proofs.StatusLine
