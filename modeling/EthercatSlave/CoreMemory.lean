import EthercatSlave.Slave

/-! What the indirect accesses are for: the EtherCAT core memory as an array of
bytes. A call is judged by the bytes it puts there, whatever the bus does. -/

namespace EthercatSlave
namespace CoreMemory
open Program

/-- Four bytes from here on lie inside the core memory. -/
abbrev Address := { address : BitVec 16 // address ≤ 0xFFFC }

inductive Len where
  | one
  | two
  | four
  deriving DecidableEq

def Len.count : Len → Byte
  | one => 1
  | two => 2
  | four => 4

inductive Call where
  | read (address : Address) (len : Len)
  | write (address : Address) (data : BitVec 32)

/-- The byte a call puts at an address, little-endian. -/
def Call.written (other : BitVec 16) : Call → Option Byte
  | .read _ _ => none
  | .write address data =>
    if address.1.toNat ≤ other.toNat ∧ other.toNat ≤ address.1.toNat + 3 then
      some (byte data (other.toNat - address.1.toNat))
    else none

/-- The byte that the latest of these calls to cover an address puts there. -/
def latest (calls : List Call) (other : BitVec 16) : Option Byte := calls.reverse.findSome? (Call.written other)

/-- A write returns nothing. -/
def Call.perform : Call → Rpi (Option (BitVec 32))
  | .read address len => do
    let value ← Rpi.readRegWait address.1 len.count
    return some value
  | .write address data => do
    Rpi.writeRegWait address.1 data
    return none

def performAll : List Call → Rpi (List (Option (BitVec 32)))
  | [] => return []
  | call :: calls => do
    let reply ← call.perform
    let replies ← performAll calls
    return reply :: replies

theorem latest_cons (call : Call) (calls : List Call) (other : BitVec 16) :
    latest (call :: calls) other = (latest calls other).or (call.written other) := by
  simp only [latest, List.reverse_cons, List.findSome?_append, List.findSome?_singleton]

theorem Len.count_le (len : Len) : len.count.toNat ≤ 4 := by
  cases len <;> decide

end CoreMemory
end EthercatSlave
