import EthercatSlave.Bytes
import EthercatSlave.Execution
import Mathlib.Logic.Function.Basic

/-! The process-data layer of `rpi_base`. Its functions are programs over the
accesses they make: volatile members and buffer words of the object, chip select
and byte transfers on the SPI bus, and the content of uninitialised locals.
`unsigned long` arguments reach the wire through a 32-bit union, so they are
32-bit words here. -/

namespace EthercatSlave

/-- `PROCBUFFER`: 32 bytes, read as bytes or as four 64-bit words. -/
abbrev ProcBuffer := BitVec 256

/-- The view `ul[index]`. -/
abbrev ul (buffer : ProcBuffer) (index : Nat) : BitVec 64 := part 64 buffer index

def qinSize : Nat := 10

structure RpiBase where
  bufferOutEthToSlaveBuffer : ProcBuffer := 0
  bufferOut : ProcBuffer := 0
  fromSlaveBufferIn : Fin qinSize → ProcBuffer := fun _ => 0
  bufferIn : ProcBuffer := 0
  curqidx : BitVec 32 := 0
  curqoutidx : BitVec 32 := 0
  atomiccounter : BitVec 32 := 0

/-- What a single access of the object touches. -/
inductive Cell where
  | atomiccounter
  | curqidx
  | curqoutidx
  | bufferOutEthToSlaveBuffer (word : Nat)
  | bufferOut (word : Nat)
  | bufferOutByte (index : Nat)
  | fromSlaveBufferIn (index : BitVec 32) (word : Nat)
  | bufferIn (word : Nat)
  | bufferInByte (index : Nat)
  deriving DecidableEq

namespace Cell

def width : Cell → Nat
  | atomiccounter | curqidx | curqoutidx => 32
  | bufferOutEthToSlaveBuffer _ | bufferOut _ | fromSlaveBufferIn _ _ | bufferIn _ => 64
  | bufferOutByte _ | bufferInByte _ => 8

end Cell

namespace RpiBase

/-- An access outside its array is undefined and has no result. -/
def read (object : RpiBase) : (cell : Cell) → Option (BitVec cell.width)
  | .atomiccounter => some object.atomiccounter
  | .curqidx => some object.curqidx
  | .curqoutidx => some object.curqoutidx
  | .bufferOutEthToSlaveBuffer word => if word < 4 then some (ul object.bufferOutEthToSlaveBuffer word) else none
  | .bufferOut word => if word < 4 then some (ul object.bufferOut word) else none
  | .bufferOutByte index => if index < 32 then some (byte object.bufferOut index) else none
  | .fromSlaveBufferIn index word =>
    if inside : index.toNat < qinSize then
      if word < 4 then some (ul (object.fromSlaveBufferIn ⟨index.toNat, inside⟩) word) else none
    else none
  | .bufferIn word => if word < 4 then some (ul object.bufferIn word) else none
  | .bufferInByte index => if index < 32 then some (byte object.bufferIn index) else none

def write (object : RpiBase) : (cell : Cell) → BitVec cell.width → Option RpiBase
  | .atomiccounter, value => some { object with atomiccounter := value }
  | .curqidx, value => some { object with curqidx := value }
  | .curqoutidx, value => some { object with curqoutidx := value }
  | .bufferOutEthToSlaveBuffer word, value => if word < 4 then
      some { object with bufferOutEthToSlaveBuffer := setPart object.bufferOutEthToSlaveBuffer word value } else none
  | .bufferOut word, value => if word < 4 then
      some { object with bufferOut := setPart object.bufferOut word value } else none
  | .bufferOutByte index, value => if index < 32 then
      some { object with bufferOut := setPart object.bufferOut index value } else none
  | .fromSlaveBufferIn index word, value =>
    if inside : index.toNat < qinSize then
      let slot : Fin qinSize := ⟨index.toNat, inside⟩
      let frame := setPart (object.fromSlaveBufferIn slot) word value
      if word < 4 then some { object with fromSlaveBufferIn := Function.update object.fromSlaveBufferIn slot frame }
      else none
    else none
  | .bufferIn word, value => if word < 4 then
      some { object with bufferIn := setPart object.bufferIn word value } else none
  | .bufferInByte index, value => if index < 32 then
      some { object with bufferIn := setPart object.bufferIn index value } else none

/-- What the constructor sets, on whatever the object's memory held. -/
def construct (memory : RpiBase) : RpiBase := { memory with curqidx := 0, atomiccounter := 0 }

end RpiBase

inductive Level where
  | low
  | high
  deriving DecidableEq

inductive RpiOp where
  | select (level : Level)
  | transfer (data : Byte)
  | indeterminate
  | load (cell : Cell)
  | store (cell : Cell) (value : BitVec cell.width)

abbrev RpiOp.Reply : RpiOp → Type
  | .select _ => Unit
  | .transfer _ => Byte
  | .indeterminate => BitVec 32
  | .load cell => BitVec cell.width
  | .store _ _ => Unit

abbrev Rpi (α : Type) := Program RpiOp RpiOp.Reply α

/-- The other end of the SPI bus, seen from the pins. -/
structure Device (δ : Type) where
  select : Level → δ → δ
  transfer : Byte → δ → Byte × δ

/-- `stack` supplies what uninitialised locals happen to hold. -/
structure Machine (δ : Type) where
  object : RpiBase
  device : δ
  stack : Nat → BitVec 32 := fun _ => 0

def Device.perform (device : Device δ) : Handler RpiOp RpiOp.Reply (Machine δ)
  | .select level, machine => some ((), { machine with device := device.select level machine.device })
  | .transfer data, machine =>
    let (answer, following) := device.transfer data machine.device
    some (answer, { machine with device := following })
  | .indeterminate, machine =>
    some (machine.stack 0, { machine with stack := fun index => machine.stack (index + 1) })
  | .load cell, machine => (machine.object.read cell).map fun value => (value, machine)
  | .store cell value, machine => (machine.object.write cell value).map fun object => ((), { machine with object })

namespace Rpi
open Program

def resetCtl : BitVec 16 := 0x01F8
def ecatCsrData : BitVec 16 := 0x0300
def ecatCsrCmd : BitVec 16 := 0x0304
def ecatPramRdAddrLen : BitVec 16 := 0x0308
def ecatPramRdCmd : BitVec 16 := 0x030C
def ecatPramWrAddrLen : BitVec 16 := 0x0310
def ecatPramWrCmd : BitVec 16 := 0x0314
def alStatusReg0 : BitVec 16 := 0x0130
def wdogStatus : BitVec 16 := 0x0440

def ecatCsrBusy : Byte := 0x80
def pramReadAvail : Byte := 0x01
def pramWriteAvail : Byte := 0x01
def esmOp : Byte := 0x08
def escWrite : Byte := 0x80
def escRead : Byte := 0xC0
def commSpiRead : Byte := 0x03
def commSpiWrite : Byte := 0x02
def dummyByte : Byte := 0xFF

def select (level : Level) : Rpi Unit := ask (RpiOp.select level)
def load (cell : Cell) : Rpi (BitVec cell.width) := ask (RpiOp.load cell)
def store (cell : Cell) (value : BitVec cell.width) : Rpi Unit := ask (RpiOp.store cell value)
def indeterminate : Rpi (BitVec 32) := ask RpiOp.indeterminate

def spiRead (data : Byte) : Rpi Byte := ask (RpiOp.transfer data)
def spiWrite (data : Byte) : Rpi Unit := do let _ ← ask (RpiOp.transfer data)

section Normalization

variable {α : Type}

/-- A last access of a function is followed by nothing. -/
theorem select_eq (level : Level) : select level = .request (.select level) .pure := rfl

theorem store_eq (cell : Cell) (value : BitVec cell.width) :
    store cell value = .request (.store cell value) .pure := rfl

@[simp] theorem select_bind (level : Level) (next : Unit → Rpi α) :
    (select level).bind next = .request (.select level) next := rfl

@[simp] theorem load_bind (cell : Cell) (next : BitVec cell.width → Rpi α) :
    (load cell).bind next = .request (.load cell) next := rfl

@[simp] theorem store_bind (cell : Cell) (value : BitVec cell.width) (next : Unit → Rpi α) :
    (store cell value).bind next = .request (.store cell value) next := rfl

@[simp] theorem indeterminate_bind (next : BitVec 32 → Rpi α) :
    indeterminate.bind next = .request .indeterminate next := rfl

@[simp] theorem spiRead_bind (data : Byte) (next : Byte → Rpi α) :
    (spiRead data).bind next = .request (.transfer data) next := rfl

@[simp] theorem spiWrite_bind (data : Byte) (next : Unit → Rpi α) :
    (spiWrite data).bind next = .request (.transfer data) (fun _ => next ()) := rfl

end Normalization

def readByte (index : Nat) (result : BitVec 32) : Rpi (BitVec 32) := do
  let answer ← spiRead dummyByte
  return setPart result index answer

/-- The bytes of the result past `len` stay what the local happened to hold. -/
def readReg (address : BitVec 16) (len : Byte) : Rpi (BitVec 32) := do
  let result ← indeterminate
  select .low
  spiWrite commSpiRead
  spiWrite (byte address 1)
  spiWrite (byte address 0)
  let result ← forUp readByte len.toNat 0 result
  select .high
  return result

def writeReg (address : BitVec 16) (dataOut : BitVec 32) : Rpi Unit := do
  select .low
  spiWrite commSpiWrite
  spiWrite (byte address 1)
  spiWrite (byte address 0)
  spiWrite (byte dataOut 0)
  spiWrite (byte dataOut 1)
  spiWrite (byte dataOut 2)
  spiWrite (byte dataOut 3)
  select .high

/-- The command word both indirect accesses compose byte by byte. -/
def csrCommand (local_ : BitVec 32) (address : BitVec 16) (len direction : Byte) : BitVec 32 :=
  setParts local_ 0 [byte address 0, byte address 1, len, direction]

def csrBusy (status : BitVec 32) : Bool := byte status 3 &&& ecatCsrBusy != 0

def readRegWait (address : BitVec 16) (len : Byte) : Rpi (BitVec 32) := do
  let tempLong ← indeterminate
  writeReg ecatCsrCmd (csrCommand tempLong address len escRead)
  let _ ← loop (readReg ecatCsrCmd 4) csrBusy
  readReg ecatCsrData len

def writeRegWait (address : BitVec 16) (dataOut : BitVec 32) : Rpi Unit := do
  writeReg ecatCsrData dataOut
  let tempLong ← indeterminate
  writeReg ecatCsrCmd (csrCommand tempLong address 4 escWrite)
  let _ ← loop (readReg ecatCsrCmd 4) csrBusy

def increment (cell : Cell) : Rpi Unit := do
  let value ← load cell
  store cell (value + 1)

def readNotReady (status : BitVec 32) : Bool := byte status 0 &&& pramReadAvail == 0 || byte status 1 != 8

/-- `BufferOut.Byte[index] = SPI_Read(DUMMY_BYTE);` -/
def receiveByte (index : Nat) (_ : Unit) : Rpi Unit := do
  let answer ← spiRead dummyByte
  store (.bufferOutByte index) answer

/-- One word of `m_BufferOutEthToSlaveBuffer = BufferOut;`. -/
def publishWord (word : Nat) (_ : Unit) : Rpi Unit := do
  let value ← load (.bufferOut word)
  store (.bufferOutEthToSlaveBuffer word) value

def spiReadProcRamFifo : Rpi Unit := do
  increment .atomiccounter
  writeReg ecatPramRdAddrLen 0x00201000
  writeReg ecatPramRdCmd 0x80000000
  let _ ← loop (readReg ecatPramRdCmd 4) readNotReady
  select .low
  spiWrite commSpiRead
  spiWrite 0x00
  spiWrite 0x00
  forUp receiveByte 32 0 ()
  forUp publishWord 4 0 ()
  select .high
  increment .atomiccounter

def writeNotReady (status : BitVec 32) : Bool := byte status 0 &&& pramWriteAvail == 0 || byte status 1 < 8

/-- One word of `BufferIn = fromSlaveBufferIn[index];`. -/
def takeWord (index : BitVec 32) (word : Nat) (_ : Unit) : Rpi Unit := do
  let value ← load (.fromSlaveBufferIn index word)
  store (.bufferIn word) value

/-- `SPI_Write(BufferIn.Byte[index]);` -/
def sendByte (index : Nat) (_ : Unit) : Rpi Unit := do
  let value ← load (.bufferInByte index)
  spiWrite value

def spiWriteProcRamFifo : Rpi Unit := do
  let index ← load .curqoutidx
  forUp (takeWord index) 4 0 ()
  writeReg ecatPramWrAddrLen 0x00201200
  writeReg ecatPramWrCmd 0x80000000
  let _ ← loop (readReg ecatPramWrCmd 4) writeNotReady
  select .low
  spiWrite commSpiWrite
  spiWrite 0x00
  spiWrite 0x20
  forUp sendByte 31 0 ()
  sendByte 31 ()
  select .high

/-- `fromSlaveBufferIn[m_curqidx].ul[word] = *source;` -/
def queueWord (source : ProcBuffer) (word : Nat) (_ : Unit) : Rpi Unit := do
  let index ← load .curqidx
  store (.fromSlaveBufferIn index word) (ul source word)

def sendOutput (source : ProcBuffer) : Rpi Unit := do
  forUp (queueWord source) 4 0 ()
  let index ← load .curqidx
  store .curqoutidx index
  increment .curqidx
  let index ← load .curqidx
  if qinSize ≤ index.toNat then store .curqidx 0

/-- One word of `*pBufferOut = m_BufferOutEthToSlaveBuffer;`. -/
def copyWord (word : Nat) (image : ProcBuffer) : Rpi ProcBuffer := do
  let value ← load (.bufferOutEthToSlaveBuffer word)
  return setPart image word value

/-- One round of the copy: what it delivers, and whether the counter moved meanwhile. -/
def attempt : Rpi (ProcBuffer × Bool) := do
  let localcounter ← load .atomiccounter
  let image ← forUp copyWord 4 0 0
  let counter ← load .atomiccounter
  return (image, localcounter != counter)

def receiveInput : Rpi ProcBuffer := do
  let last ← loop attempt Prod.snd
  return last.1

/-- `BufferOut.ul[word] = 0;` -/
def clearWord (word : Nat) (_ : Unit) : Rpi Unit := store (.bufferOut word) 0

def mainTask : Rpi Byte := do
  let tempLong ← readRegWait wdogStatus 1
  let watchDog := !(byte tempLong 0 &&& 0x01 == 0x01)
  let tempLong ← readRegWait alStatusReg0 1
  let status := byte tempLong 0 &&& 0x0F
  let operational := status == esmOp
  if watchDog || !operational then
    forUp clearWord 4 0 ()
  else
    spiReadProcRamFifo
  spiWriteProcRamFifo
  return if watchDog then status ||| 0x80 else status

end Rpi
end EthercatSlave
