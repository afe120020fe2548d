import EthercatSlave.CString
import EthercatSlave.Execution

/-! The test for a real-time kernel, with which an object of `rpi_base` begins: the
first line of a file of the kernel decides whether all memory is locked. -/

namespace EthercatSlave

/-- `read` gets some characters, none at the end of the file, or fails. -/
inductive FileOp where
  | fopen (pathname : List Char)
  | read (count : Nat)
  | fclose
  | mlockall

abbrev FileOp.Reply : FileOp → Type
  | .fopen _ => Bool
  | .read _ => Option (List Char)
  | .fclose => Unit
  | .mlockall => Int

abbrev Files (α : Type) := Program FileOp FileOp.Reply α

/-- `contents` is what a file holds that is there, `opened` how many are open, and
`locked` whether the memory of the process is. -/
structure FileSystem where
  contents : List Char → Option (List Char)
  opened : List (List Char) := []
  locked : Bool := false

/-- How the calls turn out: a file that is there can be refused, and a `read` can fail
or get less than there is. -/
structure FileChance where
  fopen : Bool := true
  read : Option Nat
  mlockall : Int := 0

namespace FileSystem

def perform (chance : FileChance) : Handler FileOp FileOp.Reply FileSystem
  | .fopen pathname, system =>
    if chance.fopen && (system.contents pathname).isSome then
      some (true, { system with opened := pathname :: system.opened })
    else some (false, system)
  | .read count, system => do
    let pathname ← system.opened.head?
    let held ← system.contents pathname
    return (chance.read.map fun available => held.take (min available count), system)
  | .fclose, system => do
    let _ ← system.opened.head?
    return ((), { system with opened := system.opened.tail })
  | .mlockall, system => some (chance.mlockall, { system with locked := system.locked || chance.mlockall == 0 })

end FileSystem

namespace RealTimeKernel
open Program

def call (op : FileOp) : Files op.Reply := ask op

def realtimePath : List Char := "/sys/kernel/realtime".toList

/-- The characters that `read` has put into the buffer are terminated; the result is
how many they are. -/
def terminate {size : Nat} (buffer : Cells size) (read : List Char) : Option (Nat × Cells size) :=
  if 0 < read.length then do
    let buffer ← buffer.putAll 0 read
    let buffer ← buffer.put read.length Cells.nul
    return (read.length, buffer)
  else do
    let buffer ← buffer.put 0 Cells.nul
    return (0, buffer)

/-- There is no result where the buffer is left. -/
def readfilebuf {size : Nat} (pathname : List Char) (buffer : Cells size) (maxbufsize : Nat) :
    Files (Option (Nat × Cells size)) := do
  let fh ← call (.fopen pathname)
  if !fh then
    return do
      let buffer ← buffer.put 0 Cells.nul
      return (0, buffer)
  else
    let ret ← call (.read (maxbufsize - 1))
    call .fclose
    return do
      let buffer ← buffer.put 0 Cells.nul
      terminate buffer (ret.getD [])

/-- `if (path[i] == char) path[i] = 0;` -/
def wipe {size : Nat} (path : Cells size) (i : Nat) (char : Char) : Option (Cells size) :=
  if path.chars[i]? = some char then path.put i Cells.nul else some path

def stripFrom {size : Nat} : (count i : Nat) → Cells size → Option (Cells size)
  | 0, _, path => some path
  | count + 1, i, path => do
    let path ← wipe path i '\r'
    let path ← wipe path i '\n'
    stripFrom count (i + 1) path

def strip {size : Nat} (path : Cells size) : Option (Cells size) := do
  let held ← path.text
  stripFrom held.length 0 path

def zeros (size : Nat) : Cells size := ⟨List.replicate size Cells.nul, List.length_replicate⟩

/-- `none` where an array is left. -/
def isrealtime : Files (Option Int) := do
  let filled ← readfilebuf realtimePath (zeros 64) 63
  match filled with
  | none => return none
  | some (len, buffer) =>
    if 0 < len then
      match (do let buffer ← strip buffer; buffer.text) with
      | none => return none
      | some line =>
        if line = ['1'] then
          let err ← call .mlockall
          return some err
        else return some (-3)
    else return some (-3)

/-- The first line of a file, as far as it was read and without what follows a zero. -/
def firstLine (held : List Char) : List Char :=
  held.takeWhile fun char => char ≠ Cells.nul ∧ char ≠ '\r' ∧ char ≠ '\n'

/-- What one `read` gets of the file. -/
def got (chance : FileChance) (system : FileSystem) : List Char :=
  match chance.fopen, system.contents realtimePath, chance.read with
  | true, some held, some available => held.take (min available 62)
  | _, _, _ => []

/-- Every file is closed, memory is locked as far as that goes exactly if the first
line is 1, and the result is what `mlockall` returned then and -3 otherwise. -/
structure Tested (chance : FileChance) (system : FileSystem) (status : Int) (final : FileSystem) : Prop where
  closed : final.opened = system.opened
  kept : final.contents = system.contents
  status : status = if firstLine (got chance system) = ['1'] then chance.mlockall else -3
  locked : final.locked = true ↔
    system.locked = true ∨ firstLine (got chance system) = ['1'] ∧ chance.mlockall = 0

end RealTimeKernel
end EthercatSlave
