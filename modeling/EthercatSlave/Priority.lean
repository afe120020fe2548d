import EthercatSlave.Execution

/-! Setting the priority of a thread: the kernel's limits of RLIMIT_RTPRIO and the
retry once the soft limit was raised. An `int` is a `BitVec 32`, a limit a
`BitVec 64`. The warnings that are printed are left out. -/

namespace EthercatSlave

/-- `struct rlimit`. -/
structure Rlimit where
  rlimCur : BitVec 64
  rlimMax : BitVec 64
  deriving DecidableEq

inductive SchedOp where
  | errno
  | schedSetscheduler (pid policy schedPriority : BitVec 32)
  | schedGetPriorityMax (policy : BitVec 32)
  | getrlimit
  | setrlimit (rlim : Rlimit)

abbrev SchedOp.Reply : SchedOp → Type
  | .errno => Int
  | .schedSetscheduler .. => Int
  | .schedGetPriorityMax _ => BitVec 32
  | .getrlimit => Int × Rlimit
  | .setrlimit _ => Int

abbrev Sched (α : Type) := Program SchedOp SchedOp.Reply α

/-- The limits of the process, `errno`, and how often `sched_setscheduler` was called. -/
structure Scheduler where
  rlim : Rlimit
  priorityMax : BitVec 32 → BitVec 32
  errno : Int := 0
  calls : Nat := 0

namespace Priority
open Program

def eperm : Int := 1
def einval : Int := 22
def rlimInfinity : BitVec 64 := BitVec.allOnes 64

end Priority

namespace Scheduler
open Priority

def fail (kernel : Scheduler) (err : Int) : Int × Scheduler := (-1, { kernel with errno := err })

/-- The kernel of an unprivileged process. When it `refuses`, `sched_setscheduler`
answers EPERM whatever the limits are. -/
def perform (refuses : Bool) : Handler SchedOp SchedOp.Reply Scheduler
  | .errno, kernel => some (kernel.errno, kernel)
  | .schedSetscheduler _ _ schedPriority, kernel =>
    let called := { kernel with calls := kernel.calls + 1 }
    some (if refuses || decide (kernel.rlim.rlimCur.toNat < schedPriority.toNat) then called.fail eperm else
      (0, called))
  | .schedGetPriorityMax policy, kernel =>
    some (kernel.priorityMax policy, if kernel.priorityMax policy = -1 then (kernel.fail Priority.einval).2 else kernel)
  | .getrlimit, kernel => some ((0, kernel.rlim), kernel)
  | .setrlimit rlim, kernel =>
    some (if rlim.rlimMax.toNat < rlim.rlimCur.toNat then kernel.fail Priority.einval
      else if kernel.rlim.rlimMax.toNat < rlim.rlimMax.toNat then kernel.fail eperm
      else (0, { kernel with rlim }))

end Scheduler

namespace Priority
open Program

def call (op : SchedOp) : Sched op.Reply := ask op

@[simp] theorem call_bind {α : Type} (op : SchedOp) (next : op.Reply → Sched α) :
    @Program.bind _ _ (no_index op.Reply) α (call op) next = .request op next := rfl

/-- A limit in an `int`, where RLIM_INFINITY is the maximum of the policy. -/
def limit (policyMax : BitVec 32) (rlim : BitVec 64) : BitVec 32 :=
  if rlim = rlimInfinity then policyMax else rlim.setWidth 32

def raiseSoftPrio (policy schedPriority : BitVec 32) : Sched Int := do
  let prio := schedPriority
  let policyMax ← call (.schedGetPriorityMax policy)
  if policyMax = -1 then
    call .errno
  else
    let (err, rlim) ← call .getrlimit
    if err ≠ 0 then
      call .errno
    else
      let softMax := limit policyMax rlim.rlimCur
      let hardMax := limit policyMax rlim.rlimMax
      if softMax.toInt < prio.toInt ∧ prio.toInt ≤ hardMax.toInt then
        let err ← call (.setrlimit { rlim with rlimCur := prio.signExtend 64 })
        if err ≠ 0 then call .errno else return err
      else
        return -1

/-- What follows `try_again`: the error, and whether to go back there. -/
def tryAgain (pid policy schedPriority : BitVec 32) : Sched (Int × Bool) := do
  let err ← call (.schedSetscheduler pid policy schedPriority)
  if err ≠ 0 then
    let err ← call .errno
    if err = eperm then
      let err1 ← raiseSoftPrio policy schedPriority
      return (err, decide (err1 = 0))
    else
      return (err, false)
  else
    return (err, false)

def setscheduler (pid policy schedPriority : BitVec 32) : Sched Int := do
  let last ← loop (tryAgain pid policy schedPriority) Prod.snd
  return last.1

/-- What a call has to do that finds these limits. -/
structure Raised (schedPriority : BitVec 32) (before : Scheduler) (err : Int) (after : Scheduler) : Prop where
  calls : after.calls ≤ before.calls + 2
  granted : err = 0 ↔ schedPriority.toNat ≤ before.rlim.rlimMax.toNat
  hard : after.rlim.rlimMax = before.rlim.rlimMax
  soft : before.rlim.rlimCur.toNat ≤ after.rlim.rlimCur.toNat
  failed : err ≠ 0 → after.rlim = before.rlim

/-- The call does it, and stops as soon where the kernel refuses for another reason. -/
def Meets (pid policy schedPriority : BitVec 32) (before : Scheduler) : Prop :=
  (∃ err after, Eval (Scheduler.perform false) (setscheduler pid policy schedPriority) before err after ∧
    Raised schedPriority before err after) ∧
  ∃ err after, Eval (Scheduler.perform true) (setscheduler pid policy schedPriority) before err after ∧
    after.calls ≤ before.calls + 2

end Priority
end EthercatSlave
