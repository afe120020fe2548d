import EthercatSlave.Slave

/-! The LAN9252 as its SPI host sees it: framed register accesses, the indirect
access to the EtherCAT core memory, and the two process RAM FIFOs. How long the
chip keeps the host polling, and what it answers meanwhile, is up to the chip. -/

namespace EthercatSlave

/-- The answers to polling one transfer: some that do not report it ready, then one that does. -/
structure Polls (ready : BitVec 32 → Bool) where
  waits : List (BitVec 32)
  last : BitVec 32
  waiting : ∀ status ∈ waits, ready status = false
  finished : ready last = true

namespace Polls

variable {ready : BitVec 32 → Bool}

def immediate (last : BitVec 32) (finished : ready last = true) : Polls ready :=
  ⟨[], last, fun _ none => absurd none List.not_mem_nil, finished⟩

/-- Once ready, a transfer stays ready. -/
def next : Polls ready → BitVec 32 × Polls ready
  | ⟨[], last, waiting, finished⟩ => (last, ⟨[], last, waiting, finished⟩)
  | ⟨status :: waits, last, waiting, finished⟩ =>
    (status, ⟨waits, last, fun other member => waiting other (List.mem_cons_of_mem _ member), finished⟩)

end Polls

namespace Lan9252

/-- Eight words, the 32 bytes asked for, are in the read FIFO. -/
def readReady (status : BitVec 32) : Bool := byte status 0 &&& 0x01 != 0 && byte status 1 == 8

/-- The write FIFO has room for at least eight words. -/
def writeReady (status : BitVec 32) : Bool := byte status 0 &&& 0x01 != 0 && decide (8 ≤ byte status 1)

/-- For each transfer to come, in order: the busy polls of an indirect access
and the poll answers of a FIFO transfer. -/
structure Schedule where
  csr : Nat → Nat
  read : Nat → Polls readReady
  write : Nat → Polls writeReady

/-- A transfer between a FIFO and the process RAM: the next byte and how many are left. -/
structure Fifo where
  offset : BitVec 16 := 0
  left : Nat := 0

structure Chip where
  memory : BitVec 16 → Byte
  registers : BitVec 16 → BitVec 32 := fun _ => 0
  csrData : BitVec 32 := 0
  csrCmd : BitVec 32 := 0
  csrWait : Nat := 0
  readFifo : Fifo := {}
  writeFifo : Fifo := {}
  readAddrLen : BitVec 32 := 0
  writeAddrLen : BitVec 32 := 0
  readPolls : Polls readReady
  writePolls : Polls writeReady
  schedule : Schedule

/-- The bytes of the core memory from `address` on. -/
def content (memory : BitVec 16 → Byte) (address : BitVec 16) (count : Nat) : List Byte :=
  (List.range count).map fun index => memory (address + BitVec.ofNat 16 index)

/-- The core memory with `count` bytes from `address` on taken from `data`. -/
def overwrite (memory : BitVec 16 → Byte) (address : BitVec 16) (count : Nat) (data : Nat → Byte) :
    BitVec 16 → Byte :=
  fun other => if (other - address).toNat < count then data (other - address).toNat else memory other

namespace Chip

/-- A chip that is never busy. -/
def prompt (memory : BitVec 16 → Byte) : Chip where
  memory := memory
  readPolls := .immediate 0x0801 (by decide)
  writePolls := .immediate 0x0801 (by decide)
  schedule := ⟨fun _ => 0, fun _ => .immediate 0x0801 (by decide), fun _ => .immediate 0x0801 (by decide)⟩

/-- The pending command acts on the core memory and is no longer busy. Its
direction is bit 30, its size byte 2 and its address the lower half. -/
def execute (chip : Chip) : Chip :=
  let address := part 16 chip.csrCmd 0
  let size := (byte chip.csrCmd 2).toNat
  let done := { chip with csrCmd := chip.csrCmd &&& 0x7FFFFFFF }
  if chip.csrCmd.getLsbD 30 then
    { done with csrData := setParts chip.csrData 0 (content chip.memory address size) }
  else
    { done with memory := overwrite chip.memory address size (byte chip.csrData) }

def pollCsr (chip : Chip) : BitVec 32 × Chip :=
  if chip.csrCmd.getLsbD 31 then
    match chip.csrWait with
    | wait + 1 => (chip.csrCmd, { chip with csrWait := wait })
    | 0 => (chip.execute.csrCmd, chip.execute)
  else (chip.csrCmd, chip)

/-- The value a read of a directly addressable register latches. -/
def readRegister (chip : Chip) (address : BitVec 16) : BitVec 32 × Chip :=
  if address = 0x0300 then (chip.csrData, chip)
  else if address = 0x0304 then chip.pollCsr
  else if address = 0x0308 then (chip.readAddrLen, chip)
  else if address = 0x030C then
    let (status, readPolls) := chip.readPolls.next
    (status, { chip with readPolls })
  else if address = 0x0310 then (chip.writeAddrLen, chip)
  else if address = 0x0314 then
    let (status, writePolls) := chip.writePolls.next
    (status, { chip with writePolls })
  else (chip.registers address, chip)

/-- Bit 31 of the command registers starts what their other bits, or the
address and length register, describe. -/
def writeRegister (chip : Chip) (address : BitVec 16) (data : BitVec 32) : Chip :=
  if address = 0x0300 then { chip with csrData := data }
  else if address = 0x0304 then
    { chip with csrCmd := data, csrWait := chip.schedule.csr 0
                schedule := { chip.schedule with csr := fun index => chip.schedule.csr (index + 1) } }
  else if address = 0x0308 then { chip with readAddrLen := data }
  else if address = 0x030C then
    if data.getLsbD 31 then
      { chip with readFifo := ⟨part 16 chip.readAddrLen 0, (part 16 chip.readAddrLen 1).toNat⟩
                  readPolls := chip.schedule.read 0
                  schedule := { chip.schedule with read := fun index => chip.schedule.read (index + 1) } }
    else chip
  else if address = 0x0310 then { chip with writeAddrLen := data }
  else if address = 0x0314 then
    if data.getLsbD 31 then
      { chip with writeFifo := ⟨part 16 chip.writeAddrLen 0, (part 16 chip.writeAddrLen 1).toNat⟩
                  writePolls := chip.schedule.write 0
                  schedule := { chip.schedule with write := fun index => chip.schedule.write (index + 1) } }
    else chip
  else { chip with registers := fun other => if other = address then data else chip.registers other }

def popFifo (chip : Chip) : Byte × Chip :=
  match chip.readFifo.left with
  | 0 => (0xFF, chip)
  | left + 1 => (chip.memory chip.readFifo.offset, { chip with readFifo := ⟨chip.readFifo.offset + 1, left⟩ })

def pushFifo (chip : Chip) (data : Byte) : Chip :=
  match chip.writeFifo.left with
  | 0 => chip
  | left + 1 => { chip with
      memory := fun other => if other = chip.writeFifo.offset then data else chip.memory other
      writeFifo := ⟨chip.writeFifo.offset + 1, left⟩ }

end Chip

/-- Where the chip is in the current SPI transaction. -/
inductive Bus where
  | released
  | command
  | addressHigh (read : Bool)
  | addressLow (read : Bool) (high : Byte)
  | reading (value : BitVec 32) (index : Nat)
  | readingFifo
  | writing (address : BitVec 16) (data : List Byte)
  | writingFifo
  | ignoring
  deriving DecidableEq

end Lan9252

structure Lan9252 where
  bus : Lan9252.Bus := .released
  chip : Lan9252.Chip

namespace Lan9252

/-- The address is complete; the FIFOs sit at 0x0000 (read) and 0x0020 (write). -/
def addressed (read : Bool) (address : BitVec 16) (chip : Chip) : Lan9252 :=
  if read then
    if address = 0x0000 then ⟨.readingFifo, chip⟩
    else ⟨.reading (chip.readRegister address).1 0, (chip.readRegister address).2⟩
  else if address = 0x0020 then ⟨.writingFifo, chip⟩
  else ⟨.writing address [], chip⟩

/-- One byte each way. A register write takes effect with its fourth byte. -/
def exchange (data : Byte) : Lan9252 → Byte × Lan9252
  | ⟨.released, chip⟩ => (0xFF, ⟨.released, chip⟩)
  | ⟨.ignoring, chip⟩ => (0xFF, ⟨.ignoring, chip⟩)
  | ⟨.command, chip⟩ =>
    if data = 0x03 then (0xFF, ⟨.addressHigh true, chip⟩)
    else if data = 0x02 then (0xFF, ⟨.addressHigh false, chip⟩)
    else (0xFF, ⟨.ignoring, chip⟩)
  | ⟨.addressHigh read, chip⟩ => (0xFF, ⟨.addressLow read data, chip⟩)
  | ⟨.addressLow read high, chip⟩ => (0xFF, addressed read (high ++ data) chip)
  | ⟨.reading value index, chip⟩ => (byte value index, ⟨.reading value (index + 1), chip⟩)
  | ⟨.readingFifo, chip⟩ => (chip.popFifo.1, ⟨.readingFifo, chip.popFifo.2⟩)
  | ⟨.writing address [b0, b1, b2], chip⟩ =>
    (0xFF, ⟨.ignoring, chip.writeRegister address (setParts 0 0 [b0, b1, b2, data])⟩)
  | ⟨.writing address sent, chip⟩ => (0xFF, ⟨.writing address (sent ++ [data]), chip⟩)
  | ⟨.writingFifo, chip⟩ => (0xFF, ⟨.writingFifo, chip.pushFifo data⟩)

end Lan9252

def lan9252 : Device Lan9252 where
  select level lan := match level with
    | .low => { lan with bus := .command }
    | .high => { lan with bus := .released }
  transfer := Lan9252.exchange

end EthercatSlave
