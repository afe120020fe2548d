import EthercatSlave.Slave

/-! The LAN9252 shield: bringing the chip up, opening the interrupt driver and
waiting for it. The pin settings of `spi_init`, which move no byte and return
nothing, and the messages on the console are left out. -/

namespace EthercatSlave

/-- `base` is an access of `rpi_base`; the others are calls into the system and
accesses of `m_devhndl`. -/
inductive ShieldOp where
  | base (op : RpiOp)
  | bcm2835Init
  | bcm2835SpiBegin
  | usleep (microseconds : Nat)
  | openDevice
  | closeDevice (handle : Int)
  | loadDevhndl
  | storeDevhndl (handle : Int)
  | ioctl (handle : Int) (cmd : BitVec 32) (arg : BitVec 64)

abbrev ShieldOp.Reply : ShieldOp → Type
  | .base op => op.Reply
  | .bcm2835Init => Int
  | .bcm2835SpiBegin => Int
  | .openDevice => Int
  | .loadDevhndl => Int
  | .ioctl _ _ _ => Int
  | _ => Unit

abbrev Shield (α : Type) := Program ShieldOp ShieldOp.Reply α

/-- `handles` are the device handles the process holds. -/
structure Board (δ : Type) where
  machine : Machine δ
  devhndl : Int := -1
  handles : List Int := []

/-- How the system calls turn out. `opened` is the new handle. -/
structure Outcome where
  bcm2835Init : Int := 1
  bcm2835SpiBegin : Int := 1
  opened : Option Nat := none
  ioctl : Int := 0

namespace Board

/-- What the constructors leave of the object's memory. -/
def construct (board : Board δ) : Board δ :=
  { board with machine := { board.machine with object := board.machine.object.construct }, devhndl := -1 }

def perform (device : Device δ) (outcome : Outcome) : Handler ShieldOp ShieldOp.Reply (Board δ)
  | .base op, board => (device.perform op board.machine).map fun (reply, machine) => (reply, { board with machine })
  | .bcm2835Init, board => some (outcome.bcm2835Init, board)
  | .bcm2835SpiBegin, board => some (outcome.bcm2835SpiBegin, board)
  | .usleep _, board => some ((), board)
  | .openDevice, board =>
    match outcome.opened with
    | none => some (-1, board)
    | some handle =>
      -- the system hands out no handle that is still open
      if (handle : Int) ∈ board.handles then none
      else some ((handle : Int), { board with handles := (handle : Int) :: board.handles })
  | .closeDevice handle, board => some ((), { board with handles := board.handles.erase handle })
  | .loadDevhndl, board => some (board.devhndl, board)
  | .storeDevhndl handle, board => some ((), { board with devhndl := handle })
  | .ioctl _ _ _, board => some (outcome.ioctl, board)

end Board

namespace Shield
open Program Rpi

def alEventMaskReg0 : BitVec 16 := 0x0204
def irqCfg : BitVec 16 := 0x0054
def intEn : BitVec 16 := 0x005C
def byteTest : BitVec 16 := 0x0064
def hwCfg : BitVec 16 := 0x0074

def ready : BitVec 32 := 0x08000000
def digitalRst : BitVec 32 := 0x00000001

/-- What a chip that can be talked to shows in BYTE_TEST. -/
def testPattern : BitVec 32 := 0x87654321

/-- `_IOW('B', 42, int)`. -/
def irqmodDownTimeout : BitVec 32 := 0x4004422A

def call (op : ShieldOp) : Shield op.Reply := ask op

-- the reply type reduces once the call is known, so it is no key for the rewriting
@[simp] theorem call_bind {α : Type} (op : ShieldOp) (next : op.Reply → Shield α) :
    @Program.bind _ _ (no_index op.Reply) α (call op) next = .request op next := rfl

/-- An inherited function. -/
def base {α : Type} (program : Rpi α) : Shield α := program.embed .base fun _ reply => reply

def spiInit : Shield Int := do
  let initialized ← call .bcm2835Init
  if initialized = 0 then
    return -10
  let begun ← call .bcm2835SpiBegin
  if begun = 0 then
    return -9
  return 0

def isResetneeded : Shield Int := do
  let tempLong ← base (readReg hwCfg 4)
  if tempLong &&& ready = 0 then
    return -11
  let tempLong ← base (readReg byteTest 4)
  return if tempLong ≠ testPattern then -15 else 0

def doResetshield : Shield Int := do
  base (writeReg resetCtl digitalRst)
  call (.usleep 2000)
  base (writeReg resetCtl digitalRst)
  call (.usleep 2000)
  let tempLong ← base (readReg byteTest 4)
  return if tempLong = testPattern then 0 else -9

def doInitirq : Shield Int := do
  base (writeRegWait alEventMaskReg0 0x00000100)
  base (writeReg irqCfg 0x00000111)
  base (writeReg intEn 0x00000001)
  let handle ← call .openDevice
  call (.storeDevhndl handle)
  let devhndl ← call .loadDevhndl
  if devhndl = -1 then
    return -27
  return 0

def init : Shield Int := do
  let err ← spiInit
  if err ≠ 0 then
    return err
  let needed ← isResetneeded
  let err ← if needed ≠ 0 then doResetshield else .pure err
  if err ≠ 0 then
    return err
  doInitirq

/-- `~etherberry_9252`. -/
def destroy : Shield Unit := do
  let devhndl ← call .loadDevhndl
  if devhndl ≠ -1 then
    let handle ← call .loadDevhndl
    call (.closeDevice handle)

def waitforirqOrTimeout (timeoutms : BitVec 32) : Shield Int := do
  let devhndl ← call .loadDevhndl
  if devhndl ≠ -1 then
    let handle ← call .loadDevhndl
    call (.ioctl handle irqmodDownTimeout (timeoutms.setWidth 64))
  else
    return -1

/-- The functions of the shield that talk to the chip. -/
inductive Call where
  | init
  | isResetneeded
  | doResetshield
  | doInitirq
  | mainTask

def Call.perform : Call → Shield Int
  | .init => Shield.init
  | .isResetneeded => Shield.isResetneeded
  | .doResetshield => Shield.doResetshield
  | .doInitirq => Shield.doInitirq
  | .mainTask => do
    let status ← base Rpi.mainTask
    return status.toNat

/-- The returned values, one call after the other. -/
def performAll : List Call → Shield (List Int)
  | [] => return []
  | call :: calls => do
    let result ← call.perform
    let results ← performAll calls
    return result :: results

end Shield
end EthercatSlave
