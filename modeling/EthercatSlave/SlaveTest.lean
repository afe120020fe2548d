import EthercatSlave.History
import EthercatSlave.RealTimeLoop
import EthercatSlave.Threads

/-! The test program: `main` and the destructors of the global objects after it,
beside the thread that was created before it. Both threads work on one object;
each access tells which of them makes it. What `bashoutput` prints is left out. -/

namespace EthercatSlave
open Threads (Party)

inductive SlaveOp (K : Type) where
  | owner (op : LoopOp K)
  | body (op : LoopOp K)
  | pthread (op : PthreadOp)
  | spiEnd
  | bcm2835Close
  | bashoutput
  | milisleep (miliseconds : Nat)

abbrev SlaveOp.Reply {K : Type} : SlaveOp K → Type
  | .owner op => op.Reply
  | .body op => op.Reply
  | .pthread op => op.Reply
  | _ => Unit

abbrev Slave (K α : Type) := Program (SlaveOp K) SlaveOp.Reply α

/-- `etherberry_9252 ETHB` and `rttestthread mytestthread`. -/
structure Process (K δ : Type) where
  station : Station K δ
  thread : ThreadObject

section Steps

variable {K δ : Type} [Measure K]

/-- An access of the object by either thread. -/
def Station.access (device : Device δ) (outcome : Outcome) : Handler (LoopOp K) LoopOp.Reply (Station K δ)
  | .shield op, station => (station.board.perform device outcome op).map fun (reply, board) =>
    (reply, { station with board })
  | op, station => station.perform device op

namespace Process

def onStation (process : Process K δ) {α : Type} (result : Option (α × Station K δ)) : Option (α × Process K δ) :=
  result.map fun (reply, station) => (reply, { process with station })

/-- A pthread takes no step once it was joined. -/
def perform (device : Device δ) (outcome : Outcome) : Handler (SlaveOp K) SlaveOp.Reply (Process K δ)
  | .owner op, process => process.onStation (process.station.access device outcome op)
  | .body op, process =>
    if process.thread.joined then none else process.onStation (process.station.access device outcome op)
  | .pthread op, process => (process.thread.perform true op).map fun (reply, thread) =>
    (reply, { process with thread })
  | .spiEnd, process => some ((), process)
  | .bcm2835Close, process => some ((), process)
  | .bashoutput, process => some ((), process)
  | .milisleep _, process => some ((), process)

end Process
end Steps

namespace SlaveTest
open Program

variable {K : Type}

def call (op : SlaveOp K) : Slave K op.Reply := ask op

/-- What `main` does with the object. -/
def owner {α : Type} (program : Loop K α) : Slave K α := program.embed .owner fun _ reply => reply

def ethb {α : Type} (program : Shield α) : Slave K α := owner (RealTimeLoop.shield program)

/-- What is done with the thread object. -/
def mytestthread {α : Type} (program : Life α) : Slave K α := program.embed .pthread fun _ reply => reply

def inputbuffer (loopstartms counter : BitVec 64) : ProcBuffer := setParts 0 0 [loopstartms, counter, 1, 2]

/-- One round of `main`, and the counter of the next. -/
def mainRound (counter : BitVec 64) : Slave K (BitVec 64) := do
  let loopstartns ← owner (RealTimeLoop.call .getns)
  let loopstartms := loopstartns / 1000000
  let _ ← ethb (Shield.base Rpi.receiveInput)
  ethb (Shield.base (Rpi.sendOutput (inputbuffer loopstartms counter)))
  call .bashoutput
  call (.milisleep 100)
  return counter + 1

def main : Slave K Int := do
  let status ← ethb Shield.init
  if status ≠ 0 then
    call .spiEnd
    call .bcm2835Close
    return status
  mytestthread Threads.resume
  let _ ← whileDo (fun _ => true) mainRound 0
  return 0

/-- `main`, then the destructors of the global objects, the last one constructed first. -/
def process : Slave K Int := do
  let status ← main
  mytestthread (Threads.destroy .rtthread)
  ethb Shield.destroy
  return status

/-- `__Start_thread` with the `Execute` of `rttestthread`. -/
def startThread [Measure K] : Slave K Unit := do
  mytestthread (Threads.call .mutexLock)
  mytestthread (Threads.call .begin)
  RealTimeLoop.executeFromthread.embed .body fun _ reply => reply
  mytestthread (Threads.call .exit)

abbrev Result : Party → Type
  | .owner => Int
  | .body => Unit

/-- The program from the entry of `main` on: the object was constructed, and so was the
thread object, whose pthread waits for its start mutex. -/
def pool [Measure K] {δ : Type} (station : Station K δ) (thread : Nat) :
    Pool Party (SlaveOp K) SlaveOp.Reply (Process K δ) Result where
  threads
    | .owner => process
    | .body => startThread
  world := { state := ⟨station.construct, .created thread false⟩ }

abbrev Log (K δ : Type) := List (Event Party (SlaveOp K) SlaveOp.Reply (Process K δ))

/-- Chip select edges and bytes on the SPI bus. -/
def drives : LoopOp K → Bool
  | .shield (.base (.select _)) => true
  | .shield (.base (.transfer _)) => true
  | _ => false

/-- `main` itself is on the bus. -/
def mainDrives : SlaveOp K → Bool
  | .owner op => drives op
  | _ => false

def Resumed {δ : Type} (log : Log K δ) : Prop := ∃ event ∈ log, event.op = .pthread .mutexUnlock

/-- The process holds the handle. -/
def Open {δ : Type} (process : Process K δ) (handle : Int) : Prop :=
  handle ≠ -1 ∧ handle ∈ process.station.board.handles

/-- `main` has the bus before it resumes the thread and the thread has it after, with an
open device handle, on which it waits. -/
def Exclusive {δ : Type} (log : Log K δ) : Prop :=
  Throughout (fun earlier event =>
    (mainDrives event.op = true → ¬ Resumed earlier) ∧
      (event.thread = .body → Resumed earlier ∧ Open event.state event.state.station.board.devhndl ∧
        ∀ handle cmd arg, event.op = .body (.shield (.ioctl handle cmd arg)) → Open event.state handle)) log

end SlaveTest
end EthercatSlave
