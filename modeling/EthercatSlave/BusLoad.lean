import EthercatSlave.PriorMemory
import Mathlib.Data.List.Infix

/-! How much a run puts on the SPI bus, counted on the pins. -/

namespace EthercatSlave
namespace BusLoad
open Sharing

/-- The bytes exchanged. -/
def bytes (trace : List Wire) : Nat := trace.countP fun wire => decide (wire ≠ .select .low ∧ wire ≠ .select .high)

/-- The windows opened with the chip select. -/
def windows (trace : List Wire) : Nat := trace.countP fun wire => decide (wire = .select .low)

/-- The registers that are read until the chip is done. -/
def statusRegisters : List (BitVec 16) := [Rpi.ecatCsrCmd, Rpi.ecatPramRdCmd, Rpi.ecatPramWrCmd]

/-- The status register read in the window a trace begins with. -/
def polled : List Wire → Option (BitVec 16)
  | .select .low :: .exchange command _ :: .exchange high _ :: .exchange low _ :: _ =>
    let register : BitVec 16 := high ++ low
    if command = Rpi.commSpiRead ∧ register ∈ statusRegisters then some register else none
  | _ => none

/-- The trace from the next window on. -/
def nextWindow (trace : List Wire) : List Wire := trace.tail.dropWhile fun wire => decide (wire ≠ .select .low)

/-- The windows that read a status register and are followed by another that reads the same one. -/
def repeats (trace : List Wire) : Nat :=
  trace.tails.countP fun rest => decide ((polled rest).isSome = true ∧ polled (nextWindow rest) = polled rest)

/-- The last word of each image fetched is published once. -/
def publishes : RpiOp → Bool
  | .store (.bufferOutEthToSlaveBuffer 3) _ => true
  | _ => false

def fetches (log : Log δ) : Nat := log.countP fun event => publishes event.op

/-- The load of some cycles, of which some fetch an image. A cycle waits three times
and a fetch once, and each of these waits may poll again. -/
structure Accounted (cycles fetched : Nat) (trace : List Wire) : Prop where
  bytes : bytes trace = 92 * cycles + 56 * fetched + 7 * repeats trace
  windows : windows trace = 10 * cycles + 4 * fetched + repeats trace
  fetched : fetched ≤ cycles

end BusLoad
end EthercatSlave
