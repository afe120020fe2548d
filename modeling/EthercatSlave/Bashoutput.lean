import EthercatSlave.CString
import EthercatSlave.Stattool

/-! The status line: ten numbers of the cycle statistics, printed into `numeric`
one after the other and joined with their labels in `outbuffer`. -/

namespace EthercatSlave
open Float.Model

namespace Bashoutput

/-- A quotient, rounded to the nearest integer and to the even one of two. -/
def nearest (numerator denominator : Nat) : Nat :=
  let quotient := numerator / denominator
  let rest := numerator % denominator
  if 2 * rest < denominator then quotient
  else if denominator < 2 * rest then quotient + 1
  else if quotient % 2 = 0 then quotient else quotient + 1

/-- `mantissa * 2 ^ exponent` in millionths. -/
def millionths (mantissa : Nat) (exponent : Int) : Nat :=
  if 0 ≤ exponent then mantissa * 2 ^ exponent.toNat * 10 ^ 6
  else nearest (mantissa * 10 ^ 6) (2 ^ (-exponent).toNat)

def signed : UnpackedFloat.Sign → List Char → List Char
  | .positive, digits => digits
  | .negative, digits => '-' :: digits

def decimal (units : Nat) : List Char :=
  Nat.toDigits 10 (units / 10 ^ 6) ++ '.' ::
    (List.range 6).map fun place => Nat.digitChar (units / 10 ^ (5 - place) % 10)

/-- What `%f` prints. The sign that some NaNs are printed with is left out. -/
def printed (value : Float) : List Char :=
  match value.toModel.unpack with
  | .notANumber => ['n', 'a', 'n']
  | .infinity sign => signed sign ['i', 'n', 'f']
  | .zero sign => signed sign (decimal 0)
  | .finite sign mantissa exponent _ => signed sign (decimal (millionths mantissa exponent))

structure Line where
  outbuffer : Cells 256
  numeric : Cells 64

/-- `snprintf` of the value, then `strncat` of the label and of the number. -/
def appendField (line : Line) (field : List Char × Float) : Option Line := do
  let numeric ← line.numeric.snprintf 63 (printed field.2)
  let outbuffer ← line.outbuffer.strncat field.1 255
  let number ← numeric.text
  let outbuffer ← outbuffer.strncat number 255
  return ⟨outbuffer, numeric⟩

def firstLabel : List Char := "period(ms):".toList

/-- The numbers that are appended to the first one, the mean period. -/
def fields (period runtime : Statbuffer Float) : List (List Char × Float) :=
  [(" per_range:".toList, period.vrange), (" per_stddev:".toList, period.vstddev), (" per_max:".toList, period.vmax),
    (" per_min:".toList, period.vmin), (" runtime(us):".toList, runtime.vmean),
    (" runt_range:".toList, runtime.vrange), (" runt_stddev:".toList, runtime.vstddev),
    (" runt_max:".toList, runtime.vmax), (" runt_min:".toList, runtime.vmin)]

/-- The line that is printed. -/
def bashoutput (period runtime : Statbuffer Float) (line : Line) : Option (List Char) := do
  let outbuffer ← line.outbuffer.put 255 Cells.nul
  let numeric ← line.numeric.put 63 Cells.nul
  let numeric ← numeric.snprintf 63 (printed period.vmean)
  let outbuffer ← outbuffer.strncpy firstLabel 255
  let number ← numeric.text
  let outbuffer ← outbuffer.strncat number 255
  let line ← (fields period runtime).foldlM appendField ⟨outbuffer, numeric⟩
  line.outbuffer.text

/-- The values of both statistics after these measurements, in nanoseconds. -/
def measuredPeriod (periods : List (BitVec 64)) : Statbuffer Float :=
  Statbuffer.zero.calcAll (periods.map fun period => Measure.double period * 1E-6)

def measuredRuntime (runtimes : List (BitVec 64)) : Statbuffer Float :=
  Statbuffer.zero.calcAll (runtimes.map fun runtime => Measure.double runtime * 1E-3)

end Bashoutput
end EthercatSlave
