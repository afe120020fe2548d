import Mathlib.Analysis.Real.Sqrt

/-! The running statistics of `rt_utilities`. The arithmetic is whatever `K` has:
`Float` is C's `double`, and the real numbers compute without rounding. -/

namespace EthercatSlave

/-- What `double` has besides the basic operations: the conversion from
`unsigned long long`, and `sqrt`. -/
class Measure (K : Type) extends Add K, Sub K, Mul K, Div K, LT K, OfScientific K where
  less : DecidableLT K
  double : BitVec 64 → K
  sqrt : K → K

instance Measure.decidableLT [Measure K] : DecidableLT K := Measure.less

instance : Measure Float where
  less := inferInstance
  double value := (UInt64.ofBitVec value).toFloat
  sqrt := Float.sqrt

noncomputable instance : Measure ℝ where
  less := inferInstance
  double value := value.toNat
  sqrt := Real.sqrt

/-- `STATBUFFER`. -/
@[ext] structure Statbuffer (K : Type) where
  v : K
  count : BitVec 64
  vmean : K
  vmax : K
  vmin : K
  vstddev : K
  vrange : K
  icSum : K
  icSum2 : K

namespace Statbuffer

variable {K : Type} [Measure K]

/-- Cleared memory. -/
def zero : Statbuffer K where
  v := 0.0
  count := 0
  vmean := 0.0
  vmax := 0.0
  vmin := 0.0
  vstddev := 0.0
  vrange := 0.0
  icSum := 0.0
  icSum2 := 0.0

def reset (_ : Statbuffer K) : Statbuffer K := zero

/-- `stattool::calc`. -/
def calcOne (sbuf : Statbuffer K) (value : K) : Statbuffer K :=
  let vmax := if sbuf.count = 0 then value else if sbuf.vmax < value then value else sbuf.vmax
  let vmin := if sbuf.count = 0 then value else if value < sbuf.vmin then value else sbuf.vmin
  let icSum := sbuf.icSum + value
  let icSum2 := sbuf.icSum2 + value * value
  let count := sbuf.count + 1
  let sqrtval := (icSum2 - icSum * icSum / Measure.double count) / Measure.double (count - 1)
  { v := value
    count
    vmean := icSum / Measure.double count
    vmax
    vmin
    vstddev := if 1 < count then if 0.0 < sqrtval then Measure.sqrt sqrtval else 0.0 else 0.0
    vrange := vmax - vmin
    icSum
    icSum2 }

/-- `stattool::calc` for each of the values. -/
def calcAll (sbuf : Statbuffer K) (values : List K) : Statbuffer K := values.foldl calcOne sbuf

end Statbuffer
end EthercatSlave
