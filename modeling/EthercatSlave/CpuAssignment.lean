import EthercatSlave.History
import EthercatSlave.Interleaving
import Mathlib.Algebra.BigOperators.Group.Finset.Basic
import Mathlib.Data.Fintype.Basic

/-! Handing out the processors to new threads. The counter is shared; the atomic
increment and the read behind it are two steps. -/

namespace EthercatSlave

/-- `loadNproc` and `storeNproc` are accesses of the static variable of `get_nextcpu`. -/
inductive CpuOp where
  | loadNproc
  | storeNproc (nproc : BitVec 32)
  | sysconf
  | storeCpu (value : BitVec 32)
  | interlockedIncrement
  | loadCpu
  deriving DecidableEq

abbrev CpuOp.Reply : CpuOp → Type
  | .loadNproc => BitVec 32
  | .sysconf => BitVec 64
  | .interlockedIncrement => BitVec 32
  | .loadCpu => BitVec 32
  | _ => Unit

abbrev Assigning (α : Type) := Program CpuOp CpuOp.Reply α

/-- The static variables, and the processors that are online. -/
structure CpuCounter where
  online : BitVec 64
  nproc : BitVec 32 := -1
  scCpu : BitVec 32 := 0

namespace CpuCounter

def perform (_ : Unit) : Handler CpuOp CpuOp.Reply CpuCounter
  | .loadNproc, counter => some (counter.nproc, counter)
  | .storeNproc nproc, counter => some ((), { counter with nproc })
  | .sysconf, counter => some (counter.online, counter)
  | .storeCpu value, counter => some ((), { counter with scCpu := value })
  | .interlockedIncrement, counter => some (counter.scCpu + 1, { counter with scCpu := counter.scCpu + 1 })
  | .loadCpu, counter => some (counter.scCpu, counter)

/-- What the first call of `get_nextcpu` leaves. -/
def initialised (online : BitVec 64) : CpuCounter :=
  { online, nproc := online.setWidth 32, scCpu := online.setWidth 32 }

end CpuCounter

namespace CpuAssignment
open Program

def call (op : CpuOp) : Assigning op.Reply := ask op

@[simp] theorem call_bind {α : Type} (op : CpuOp) (next : op.Reply → Assigning α) :
    @Program.bind _ _ (no_index op.Reply) α (call op) next = .request op next := rfl

/-- What only the first call does more than test. -/
def initialise : Assigning Unit := do
  let nproc ← call .loadNproc
  if nproc = -1 then
    let online ← call .sysconf
    call (.storeNproc (online.setWidth 32))
    let nproc ← call .loadNproc
    call (.storeCpu (nproc - 1))
  else return

def getNextcpu : Assigning (BitVec 32) := do
  initialise
  -- the incremented value is not used
  let _ ← call .interlockedIncrement
  let scCpu ← call .loadCpu
  let nproc ← call .loadNproc
  return scCpu % nproc

/-- So many calls, one after the other, and what they returned. -/
def assign : Nat → Assigning (List (BitVec 32))
  | 0 => return []
  | count + 1 => do
    let cpu ← getNextcpu
    let cpus ← assign count
    return cpu :: cpus

section Threads

variable {ι : Type}

abbrev Log (ι : Type) := List (Event ι CpuOp CpuOp.Reply CpuCounter)

abbrev Result : ι → Type := fun _ => List (BitVec 32)

/-- Any number of threads that make their calls after the first one. -/
def pool (online : BitVec 64) (calls : ι → Nat) : Pool ι CpuOp CpuOp.Reply CpuCounter Result where
  threads thread := assign (calls thread)
  world := { state := .initialised online }

def increments (log : Log ι) : Nat := log.countP fun event => decide (event.op = .interlockedIncrement)

def incrementsBy [DecidableEq ι] (thread : ι) (log : Log ι) : Nat :=
  log.countP fun event => decide (event.thread = thread) && decide (event.op = .interlockedIncrement)

def readsBy [DecidableEq ι] (thread : ι) (log : Log ι) : Nat :=
  log.countP fun event => decide (event.thread = thread) && decide (event.op = .loadCpu)

/-- No call increments while another one has yet to read. -/
def Apart [DecidableEq ι] (log : Log ι) : Prop :=
  Throughout (fun earlier event => event.op = .interlockedIncrement →
    ∀ thread, incrementsBy thread earlier = readsBy thread earlier) log

instance [DecidableEq ι] [Fintype ι] (log : Log ι) : Decidable (Apart log) :=
  inferInstanceAs (Decidable (Throughout _ log))

/-- The calls that were given this processor. -/
def given [Fintype ι] (cpus : ι → List (BitVec 32)) (cpu : BitVec 32) : Nat := ∑ thread, (cpus thread).count cpu

/-- Every returned number is one of a processor, and once all calls have returned
no processor is two ahead of another. -/
structure Balanced [Fintype ι] (nproc : BitVec 32) (pool : Pool ι CpuOp CpuOp.Reply CpuCounter Result) : Prop where
  inside : ∀ (thread : ι) (cpus : List (BitVec 32)), pool.threads thread = .pure cpus →
    ∀ cpu ∈ cpus, 0 ≤ cpu.toInt ∧ cpu.toInt < nproc.toInt
  even : ∀ cpus : ι → List (BitVec 32), (∀ thread, pool.threads thread = .pure (cpus thread)) →
    ∀ first second : BitVec 32, first.toNat < nproc.toNat → second.toNat < nproc.toNat →
      given cpus first ≤ given cpus second + 1

end Threads
end CpuAssignment
end EthercatSlave
