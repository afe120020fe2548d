import EthercatSlave.Sharing
import EthercatSlave.SpiBus

/-! What the memory of an object held before its constructor ran. A global object
starts from zeroed storage; any other starts from whatever was there. -/

namespace EthercatSlave
namespace PriorMemory
open Program Sharing

/-- What the application may call. -/
inductive AppCall where
  | send (frame : ProcBuffer)
  | receive

def AppCall.perform : AppCall → Rpi Unit
  | .send frame => Rpi.sendOutput frame
  | .receive => do let _ ← Rpi.receiveInput

def performAll : List AppCall → Rpi Unit
  | [] => return ()
  | call :: calls => do
    call.perform
    performAll calls

/-- One cycle, whose status nobody keeps. -/
def cycle : Rpi Unit := do let _ ← Rpi.mainTask

abbrev Result : Thread → Type := fun _ => Unit

/-- These calls beside a number of cycles, on an object constructed on `memory`. -/
def pool (memory : RpiBase) (state : δ) (stack : Nat → BitVec 32) (calls : List AppCall) (cycles : Nat) :
    Pool Thread RpiOp RpiOp.Reply (Machine (Recorded δ)) Result where
  threads
    | .app => performAll calls
    | .rt => times cycle cycles
  world := { state := ⟨memory.construct, ⟨state, []⟩, stack⟩ }

/-- An index into `fromSlaveBufferIn` lies inside it. -/
def InRange : RpiOp → Prop
  | .load (.fromSlaveBufferIn index _) | .store (.fromSlaveBufferIn index _) _ => index.toNat < qinSize
  | _ => True

/-- The prior memory does not show: every index used is in range and so is the next
one, and the traffic is that of a zeroed object under the same schedule. -/
structure Unseen (device : Device δ) (state : δ) (stack : Nat → BitVec 32) (calls : List AppCall) (cycles : Nat)
    (schedule : List (Thread × Unit)) (reached : Pool Thread RpiOp RpiOp.Reply (Machine (Recorded δ)) Result) :
    Prop where
  used : ∀ event ∈ reached.world.log, InRange event.op
  next : ∀ thread, (reached.threads thread).returned = none →
    (reached.step (handle device.recorded) thread ()).isSome = true
  traffic : ∃ other, (pool {} state stack calls cycles).run (handle device.recorded) schedule = some other ∧
    other.world.state.device.trace = reached.world.state.device.trace

/-- `m_curqoutidx` has been stored. -/
def Handed (log : Log δ) : Prop := ∃ event ∈ log, ∃ value, event.op = .store .curqoutidx value

/-- It is never read before that. -/
def HandedFirst (log : Log δ) : Prop :=
  ∀ earlier event later, log = earlier ++ event :: later → event.op = .load .curqoutidx → Handed earlier

/-- The memory starts with the zero frame as the current one. -/
def Zeroed (memory : RpiBase) : Prop :=
  memory.curqoutidx = 0 ∧ memory.fromSlaveBufferIn ⟨0, by decide⟩ = 0

end PriorMemory
end EthercatSlave
