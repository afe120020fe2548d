import EthercatSlave.Interleaving
import EthercatSlave.SequenceLock
import EthercatSlave.Slave
import Mathlib.Algebra.Group.Nat.Defs

/-! The two threads of a slave object. The application calls `receive_input` or
`send_output` while the real-time thread transfers process data; every access of
a volatile member or of a 64-bit word is one step. -/

namespace EthercatSlave

inductive Thread where
  | app
  | rt
  deriving DecidableEq

namespace Sharing

abbrev Log (δ : Type) := List (Event Thread RpiOp RpiOp.Reply (Machine δ))

/-- Nothing but the schedule is left to chance. -/
def handle (device : Device δ) : Unit → Handler RpiOp RpiOp.Reply (Machine δ) := fun _ => device.perform

end Sharing

namespace InputImage
open Program Sharing SequenceLock

abbrev Result : Thread → Type
  | .app => ProcBuffer
  | .rt => Unit

/-- One call of `receive_input` beside any number of fetches. -/
def pool (start : Machine δ) (executions : Nat) : Pool Thread RpiOp RpiOp.Reply (Machine δ) Result where
  threads
    | .app => Rpi.receiveInput
    | .rt => times Rpi.spiReadProcRamFifo executions
  world := { state := start }

/-- What an access does to the published image and its counter. -/
def mark : RpiOp → Option (Mark (BitVec 64))
  | .store .atomiccounter _ => some .bump
  | .store (.bufferOutEthToSlaveBuffer word) value => some (.word word value)
  | _ => none

def marks (log : Log δ) : List (Mark (BitVec 64)) := log.filterMap fun event => mark event.op

def counterRead : Event Thread RpiOp RpiOp.Reply (Machine δ) → Option (BitVec 32)
  | ⟨.app, .load .atomiccounter, counter, _⟩ => some counter
  | _ => none

def wordRead : Event Thread RpiOp RpiOp.Reply (Machine δ) → Option Nat
  | ⟨.app, .load (.bufferOutEthToSlaveBuffer word), _, _⟩ => some word
  | _ => none

/-- After `before`, one attempt of the application copied the four words during
`during` and found the counter where it was. The counter is read by no one else
in between, so the two reads are those of one attempt. -/
def Accepted (log before during : Log δ) : Prop :=
  ∃ first last later counter, log = before ++ first :: (during ++ last :: later) ∧
    counterRead first = some counter ∧ during.filterMap counterRead = [] ∧
    during.filterMap wordRead = [0, 1, 2, 3] ∧ counterRead last = some counter

/-- No accepted copy overlaps the word stores of a fetch that still had words to
store when the copy began. -/
def Apart (log : Log δ) : Prop :=
  ∀ before during, Accepted log before during →
    ¬ (pending (marks before) < 4 ∧ 0 < pending (marks before ++ marks during))

/-- Fewer than 2^31 fetches during the call; each moves the counter twice. -/
def Brief (log : Log δ) : Prop :=
  ∀ before first during last later, log = before ++ first :: (during ++ last :: later) →
    first.thread = .app → last.thread = .app → bumps (marks during) < 2 * 2 ^ 31

/-- The image is the initial one, or one that a single fetch stored. -/
def Whole (start : RpiBase) (log : Log δ) (image : ProcBuffer) : Prop :=
  image = start.bufferOutEthToSlaveBuffer ∨ Complete 4 (marks log) (ul image)

end InputImage

namespace OutputQueue
open Program Sharing

def sendAll : List ProcBuffer → Rpi Unit
  | [] => return ()
  | frame :: frames => do
    Rpi.sendOutput frame
    sendAll frames

abbrev Result : Thread → Type := fun _ => Unit

/-- One `send_output` call after the other beside any number of transmissions. -/
def pool (start : Machine δ) (frames : List ProcBuffer) (executions : Nat) :
    Pool Thread RpiOp RpiOp.Reply (Machine δ) Result where
  threads
    | .app => sendAll frames
    | .rt => times Rpi.spiWriteProcRamFifo executions
  world := { state := start }

/-- The frame of call 1, 2, ...; frame 0 is the zero frame. -/
def frame (frames : List ProcBuffer) : Nat → ProcBuffer
  | 0 => 0
  | call + 1 => frames[call]?.getD 0

/-- The transmissions that began, those that completed their copy, and those
that sent it. -/
structure Tally where
  started : Nat := 0
  copied : Nat := 0
  sent : Nat := 0
  deriving DecidableEq

/-- What an observer of the accesses counts: the calls that began to store, the
calls that stored `m_curqoutidx`, that count at the last read of this index, the
begun calls when `BufferIn` was last complete, the bytes since chip select, and
the transmissions. -/
structure Observed where
  begun : Nat := 0
  handed : Nat := 0
  current : Nat := 0
  begunAtCopy : Nat := 0
  wire : List Byte := []
  tally : Tally := {}
  deriving DecidableEq

/-- The command and the address with which a burst into the write FIFO begins. -/
def header : List Byte := [0x02, 0x00, 0x20]

def Observed.note (observed : Observed) : Thread → RpiOp → Observed
  | .app, .store (.fromSlaveBufferIn _ 0) _ => { observed with begun := observed.begun + 1 }
  | .app, .store .curqoutidx _ => { observed with handed := observed.handed + 1 }
  | .rt, .load .curqoutidx =>
    { observed with
      current := observed.handed
      tally := { observed.tally with started := observed.tally.started + 1 } }
  | .rt, .store (.bufferIn 3) _ =>
    { observed with
      begunAtCopy := observed.begun
      tally := { observed.tally with copied := observed.tally.copied + 1 } }
  | .rt, .select .low => { observed with wire := [] }
  | .rt, .transfer data => { observed with wire := observed.wire ++ [data] }
  | .rt, .select .high =>
    if header <+: observed.wire then
      { observed with tally := { observed.tally with sent := observed.tally.sent + 1 } }
    else observed
  | _, _ => observed

def observe (log : Log δ) : Observed := log.foldl (fun observed event => observed.note event.thread event.op) {}

/-- The bytes of a frame as they leave the slave. -/
def bytes (frame : ProcBuffer) : List Byte := (List.range 32).map (byte frame)

/-- What an event must satisfy, given what was observed before it. A transmission
begins when each one before it has sent its copy, completes its own copy once
and sends it once, as one burst of the bytes of `BufferIn`. A frame whose slot
no call at or past `limit` has begun to overwrite is copied and sent whole, and
the current frame is never older than the one before. -/
def Verdict (limit : Nat → Nat) (frames : List ProcBuffer) (observed : Observed) :
    Event Thread RpiOp RpiOp.Reply (Machine δ) → Prop
  | ⟨.rt, .store (.bufferIn 3) _, _, after⟩ =>
    observed.tally.copied + 1 = observed.tally.started ∧
    (observed.begun < limit observed.current → after.object.bufferIn = frame frames observed.current)
  | ⟨.rt, .select .high, _, after⟩ => ∀ data, observed.wire = header ++ data →
    observed.tally.copied = observed.tally.started ∧ observed.tally.sent + 1 = observed.tally.started ∧
    data = bytes after.object.bufferIn ∧
    (observed.begunAtCopy < limit observed.current → data = bytes (frame frames observed.current))
  | ⟨.rt, .load .curqoutidx, _, _⟩ =>
    observed.tally.sent = observed.tally.started ∧ observed.current ≤ observed.handed
  | _ => True

def HandsOver (limit : Nat → Nat) (frames : List ProcBuffer) (log : Log δ) : Prop :=
  ∀ earlier event later, log = earlier ++ event :: later → Verdict limit frames (observe earlier) event

/-- So many transmissions began, and each of them copied and sent a frame. -/
def Tally.whole (count : Nat) : Tally := ⟨count, count, count⟩

/-- The first call that stores into the slot a transmission reads. Before any
frame is handed over that is the slot of call 1. -/
def reuse : Nat → Nat
  | 0 => 1
  | call + 1 => call + 1 + qinSize

end OutputQueue
end EthercatSlave
