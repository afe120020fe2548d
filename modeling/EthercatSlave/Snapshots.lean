import EthercatSlave.PriorMemory

/-! The output image as the application sees it call after call. An observer of
the accesses reads the images off the bus as the real-time thread publishes them
and notes, for every copy the application accepts, how many there were when its
round began. -/

namespace EthercatSlave
namespace Snapshots
open Program Sharing SequenceLock InputImage
open PriorMemory (AppCall)

/-- Carries out the calls and keeps what `receive_input` delivers. -/
def performAll : List AppCall → Rpi (List ProcBuffer)
  | [] => return []
  | .send frame :: calls => do
    Rpi.sendOutput frame
    performAll calls
  | .receive :: calls => do
    let image ← Rpi.receiveInput
    let images ← performAll calls
    return image :: images

abbrev Result : Thread → Type
  | .app => List ProcBuffer
  | .rt => Unit

/-- These calls beside a number of cycles. -/
def pool (start : Machine δ) (calls : List AppCall) (cycles : Nat) :
    Pool Thread RpiOp RpiOp.Reply (Machine δ) Result where
  threads
    | .app => performAll calls
    | .rt => times PriorMemory.cycle cycles
  world := { state := start }

/-- The bytes exchanged by the real-time thread since chip select last fell, each
with its answer; the images the chip had sent when their last word was
published; the counter and the number of images at the start of the round under
way; that number for each accepted round. -/
structure Observed where
  window : List (Byte × Byte) := []
  published : List (Option ProcBuffer) := []
  opened : Option (BitVec 32 × Nat) := none
  snapshots : List Nat := []
  deriving DecidableEq

/-- What the chip sent in answer to the command that reads its output FIFO. -/
def fetched (window : List (Byte × Byte)) : Option ProcBuffer :=
  if (window.take 3).map Prod.fst = [0x03, 0x00, 0x00] ∧ window.length = 35 then
    some (setParts 0 0 ((window.drop 3).map Prod.snd))
  else none

/-- A round begins with one read of the counter and ends with the next. -/
def Observed.count (observed : Observed) (counter : BitVec 32) : Observed :=
  match observed.opened with
  | none => { observed with opened := some (counter, observed.published.length) }
  | some (localcounter, version) =>
    if localcounter = counter then { observed with opened := none, snapshots := observed.snapshots ++ [version] }
    else { observed with opened := none }

def Observed.note (observed : Observed) : Event Thread RpiOp RpiOp.Reply (Machine δ) → Observed
  | ⟨.rt, .select .low, _, _⟩ => { observed with window := [] }
  | ⟨.rt, .transfer data, answer, _⟩ => { observed with window := observed.window ++ [(data, answer)] }
  | ⟨.rt, .store (.bufferOutEthToSlaveBuffer 3) _, _, _⟩ =>
    { observed with published := observed.published ++ [fetched observed.window] }
  | ⟨.app, .load .atomiccounter, counter, _⟩ => observed.count counter
  | _ => observed

def observe (log : Log δ) : Observed := log.foldl Observed.note {}

/-- The initial image and the ones fetched after it. -/
def versions (start : RpiBase) (log : Log δ) : List (Option ProcBuffer) :=
  some start.bufferOutEthToSlaveBuffer :: (observe log).published

/-- What calls access when no round is repeated. -/
def cost : List AppCall → Nat
  | [] => 0
  | .send _ :: calls => 14 + cost calls
  | .receive :: calls => 6 + cost calls

def accesses (log : Log δ) : Nat := log.countP fun event => decide (event.thread = .app)

/-- No accepted round takes as long as 2^31 fetches, and none overlaps the word
stores of a fetch. -/
def Clear (log : Log δ) : Prop :=
  ∀ before during, Accepted log before during → bumps (marks during) < 2 ^ 32 ∧
    ¬ (pending (marks before) < 4 ∧ 0 < pending (marks before ++ marks during))

end Snapshots
end EthercatSlave
