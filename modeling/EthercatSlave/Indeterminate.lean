import EthercatSlave.Sharing
import EthercatSlave.SpiBus

/-! What uninitialised locals happen to hold. Two runs on boards that differ in
nothing else, with the same device and the same frames. -/

namespace EthercatSlave
namespace Indeterminate

abbrev Result : Thread → Type
  | .app => Unit
  | .rt => List Int

/-- The board, with its locals filled from `stack`. -/
def filled (board : Board δ) (stack : Nat → BitVec 32) : Board δ :=
  { board with machine := { board.machine with stack } }

/-- `send_output` calls beside calls that talk to the chip. -/
def pool (board : Board δ) (frames : List ProcBuffer) (calls : List Shield.Call) :
    Pool Thread ShieldOp ShieldOp.Reply (Board (Recorded δ)) Result where
  threads
    | .app => Shield.base (OutputQueue.sendAll frames)
    | .rt => Shield.performAll calls
  world := { state := Shield.observe board }

/-- The states are the same but for what is on the stack. -/
def SameBut (first second : Board δ) : Prop := filled first second.machine.stack = second

/-- Neither the object nor the traffic, and nothing a thread returned or has still
to do, tells the two runs apart. -/
structure Indistinguishable (first second : Pool Thread ShieldOp ShieldOp.Reply (Board (Recorded δ)) Result) :
    Prop where
  states : SameBut first.world.state second.world.state
  threads : first.threads = second.threads

end Indeterminate
end EthercatSlave
