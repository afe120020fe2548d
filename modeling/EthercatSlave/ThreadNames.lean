import EthercatSlave.CString
import EthercatSlave.Interleaving
import Mathlib.Data.BitVec

/-! The names of the pthreads. `fix_threadname` cuts a long name short and numbers it
from a counter that all threads share. The kernel takes 15 characters at most. -/

namespace EthercatSlave

/-- `outOfBounds` stands for an access past the end of an array. -/
inductive NameOp where
  | interlockedIncrement
  | setname (name : List Char)
  | outOfBounds
  deriving DecidableEq

abbrev NameOp.Reply : NameOp → Type
  | .interlockedIncrement => BitVec 32
  | .setname _ => Int
  | .outOfBounds => Unit

abbrev Naming (α : Type) := Program NameOp NameOp.Reply α

namespace ThreadNames
open Program

def erange : Int := 34

/-- `status` is what `pthread_setname_np` returns for a name that is short enough. -/
def perform (status : Int) : Handler NameOp NameOp.Reply (BitVec 32)
  | .interlockedIncrement, threadunique => some (threadunique + 1, threadunique + 1)
  | .setname name, threadunique => some (if 15 < name.length then erange else status, threadunique)
  | .outOfBounds, threadunique => some ((), threadunique)

def call (op : NameOp) : Naming op.Reply := ask op

/-- What `%d` prints. -/
def printedInt : Int → List Char
  | .ofNat number => Nat.toDigits 10 number
  | .negSucc number => '-' :: Nat.toDigits 10 (number + 1)

/-- What is done with the arrays, of which `temp` is a local one. There is no result
where one of them is left. -/
def shorten {size : Nat} (cname : List Char) (buffer : Cells size) (maxsize : Nat) (temp : Cells 10)
    (unique : BitVec 32) : Option (List Char) := do
  let buffer ← buffer.strncpy cname (maxsize - 1)
  let buffer ← buffer.put 11 '@'
  let buffer ← buffer.put 12 Cells.nul
  let temp ← temp.put 9 Cells.nul
  let temp ← temp.snprintf 9 (printedInt (unique - 1).toInt)
  let number ← temp.text
  let buffer ← buffer.strncat number (maxsize - 1)
  buffer.text

def fixThreadname {size : Nat} (cname : List Char) (buffer : Cells size) (maxsize : Nat) (temp : Cells 10) :
    Naming (Option (List Char)) :=
  if 12 < cname.length then do
    let unique ← call .interlockedIncrement
    return shorten cname buffer maxsize temp unique
  else
    return some cname

/-- One pthread is named: by the constructor of its `rtthread`, or by
`register_this_thread`, which prints the thread's id first. -/
structure Named where
  cname : List Char
  clean : Cells.nul ∉ cname
  namebuf : Cells 64
  temp : Cells 10
  id : Option (BitVec 64) := none

/-- `namebuf` as `fix_threadname` gets it. -/
def Named.prepare (named : Named) : Option (Cells 64) := do
  let namebuf ← named.namebuf.put 63 Cells.nul
  match named.id with
  | none => return namebuf
  | some id => namebuf.snprintf 63 (Nat.toDigits 10 id.toNat)

def setname : Option (List Char) → Naming Unit
  | none => call .outOfBounds
  | some cname => do let _ ← call (.setname cname)

def Named.perform (named : Named) : Naming Unit :=
  match named.prepare with
  | none => call .outOfBounds
  | some namebuf => do
    let cname ← fixThreadname named.cname namebuf 63 named.temp
    setname cname

def performAll : List Named → Naming Unit
  | [] => return
  | named :: more => do
    named.perform
    performAll more

section Threads

variable {ι : Type}

abbrev Log (ι : Type) := List (Event ι NameOp NameOp.Reply (BitVec 32))

/-- Any number of threads that name pthreads one after the other. -/
def pool (named : ι → List Named) : Pool ι NameOp NameOp.Reply (BitVec 32) fun _ => Unit where
  threads thread := performAll (named thread)
  world := { state := 0 }

/-- How often a number was drawn. -/
def drawn (log : Log ι) : Nat := log.countP fun event => decide (event.op = .interlockedIncrement)

/-- The names that were set. -/
def names (log : Log ι) : List (List Char) :=
  log.filterMap fun event => match event.op with
    | .setname name => some name
    | _ => none

/-- How many names a thread has set. -/
def setBy [DecidableEq ι] (thread : ι) (log : Log ι) : Nat :=
  (names (log.filter fun event => event.thread = thread)).length

/-- A long name with its number, of which eight characters are left. -/
def shortened (cname : List Char) (number : Nat) : List Char :=
  cname.take 11 ++ '@' :: (printedInt (BitVec.ofNat 32 number).toInt).take 8

end Threads
end ThreadNames
end EthercatSlave
