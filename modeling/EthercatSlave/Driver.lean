import EthercatSlave.Execution
import EthercatSlave.Bytes
import Mathlib.Logic.Function.Basic

/-! The interrupt driver `gpioirq`. Its functions are programs over the kernel
calls and member accesses they make. What a kernel call does is decided by the
kernel's state and a `Chance`; an access through a pointer to no context has no
result. Of a `printk` only the members it reads are kept. -/

namespace EthercatSlave

/-- A `MYCONTEXT *`; `none` is the null pointer. -/
abbrev Pointer := Option Nat

/-- `MYCONTEXT`. Zeroed memory is not yet a semaphore. -/
structure MyContext where
  wOpen : Int := 0
  irqNumber : Int := 0
  devicename : String := ""
  irqLsigsema : Option Nat := none
  deriving DecidableEq

inductive Member where
  | wOpen
  | irqNumber
  | devicename
  deriving DecidableEq

abbrev Member.Value : Member → Type
  | .wOpen => Int
  | .irqNumber => Int
  | .devicename => String

namespace MyContext

def get (context : MyContext) : (member : Member) → member.Value
  | .wOpen => context.wOpen
  | .irqNumber => context.irqNumber
  | .devicename => context.devicename

def set (context : MyContext) : (member : Member) → member.Value → MyContext
  | .wOpen, value => { context with wOpen := value }
  | .irqNumber, value => { context with irqNumber := value }
  | .devicename, value => { context with devicename := value }

end MyContext

inductive KernelOp where
  | kzalloc
  | kfree (md : Pointer)
  | load (md : Pointer) (member : Member)
  | store (md : Pointer) (member : Member) (value : member.Value)
  | fMode (file : Nat)
  | privateData (file : Nat)
  | setPrivateData (file : Nat) (md : Pointer)
  | gpioRequest (gpio : Nat)
  | gpioFree (gpio : Nat)
  | gpioToIrq (gpio : Nat)
  | requestIrq (irq : Int) (data : Pointer)
  | freeIrq (irq : Int) (data : Pointer)
  | dispatch
  | semaInit (md : Pointer) (count : Nat)
  | up (md : Pointer)
  | downInterruptible (md : Pointer)
  | downTimeout (md : Pointer) (jiffies : Nat)
  | usecsToJiffies (usecs : BitVec 32)
  | ktimeGetMonoFastNs
  | accessOk (address size : Nat)

abbrev KernelOp.Reply : KernelOp → Type
  | .kzalloc => Pointer
  | .load _ member => member.Value
  | .fMode _ => BitVec 32
  | .privateData _ => Pointer
  | .gpioRequest _ => Int
  | .gpioToIrq _ => Int
  | .requestIrq _ _ => Int
  | .dispatch => Pointer
  | .downInterruptible _ => Int
  | .downTimeout _ _ => Int
  | .usecsToJiffies _ => Nat
  | .ktimeGetMonoFastNs => BitVec 64
  | .accessOk _ _ => Bool
  | _ => Unit

structure File where
  fMode : BitVec 32 := 0
  privateData : Pointer := none

/-- `irqs` holds what every registered handler is called with; `now` and `jiffy`
are nanoseconds. -/
structure Kernel where
  contexts : Nat → Option MyContext := fun _ => none
  files : Nat → File := fun _ => {}
  gpios : Nat → Bool := fun _ => false
  irqs : List (Int × Pointer) := []
  now : Nat := 0
  jiffy : Nat := 4000000
  accessible : Nat → Nat → Bool := fun _ _ => true

/-- What is not determined by the kernel's state: the outcome of each call that
may fail, the address of new memory, the handler that an interrupt is meant for
and the time a wait takes. -/
structure Chance where
  kzalloc : Pointer := none
  gpioRequest : Bool := true
  gpioToIrq : Int := 0
  requestIrq : Bool := true
  dispatch : Nat := 0
  down : Bool := true
  elapsed : Nat := 0

def efault : Int := 14
def enotty : Int := 25
def einval : Int := 22
def ebusy : Int := 16
def eintr : Int := 4
def etime : Int := 62

namespace Kernel

def context (kernel : Kernel) (md : Pointer) : Option MyContext := md.bind kernel.contexts

def setContext (kernel : Kernel) (md : Pointer) (context : Option MyContext) : Kernel :=
  match md with
  | none => kernel
  | some address => { kernel with contexts := Function.update kernel.contexts address context }

def modify (kernel : Kernel) (md : Pointer) (change : MyContext → MyContext) : Option (Unit × Kernel) :=
  (kernel.context md).map fun context => ((), kernel.setContext md (change context))

def setFile (kernel : Kernel) (file : Nat) (content : File) : Kernel :=
  { kernel with files := Function.update kernel.files file content }

/-- The semaphore of a context, once it is one. -/
def semaphore (kernel : Kernel) (md : Pointer) : Option Nat := (kernel.context md).bind MyContext.irqLsigsema

def setSemaphore (kernel : Kernel) (md : Pointer) (count : Nat) : Kernel :=
  match kernel.context md with
  | none => kernel
  | some context => kernel.setContext md (some { context with irqLsigsema := some count })

/-- A failing wait for `jiffies` jiffies ends in the last of them. -/
def expire (kernel : Kernel) (jiffies elapsed : Nat) : Kernel :=
  { kernel with now := kernel.now + (jiffies - 1) * kernel.jiffy + 1 + elapsed % kernel.jiffy }

def perform (chance : Chance) : Handler KernelOp KernelOp.Reply Kernel
  | .kzalloc, kernel =>
    match chance.kzalloc with
    | none => some (none, kernel)
    | some address =>
      if (kernel.contexts address).isNone then some (some address, kernel.setContext (some address) (some {}))
      else none
  | .kfree md, kernel =>
    if md.isSome && (kernel.context md).isNone then none else some ((), kernel.setContext md none)
  | .load md member, kernel => (kernel.context md).map fun context => (context.get member, kernel)
  | .store md member value, kernel => kernel.modify md fun context => context.set member value
  | .fMode file, kernel => some ((kernel.files file).fMode, kernel)
  | .privateData file, kernel => some ((kernel.files file).privateData, kernel)
  | .setPrivateData file md, kernel =>
    some ((), kernel.setFile file { kernel.files file with privateData := md })
  | .gpioRequest gpio, kernel =>
    if chance.gpioRequest && !kernel.gpios gpio then
      some (0, { kernel with gpios := Function.update kernel.gpios gpio true })
    else some (-ebusy, kernel)
  | .gpioFree gpio, kernel => some ((), { kernel with gpios := Function.update kernel.gpios gpio false })
  | .gpioToIrq _, kernel => some (chance.gpioToIrq, kernel)
  | .requestIrq irq data, kernel =>
    if chance.requestIrq then some (0, { kernel with irqs := (irq, data) :: kernel.irqs }) else some (-ebusy, kernel)
  | .freeIrq irq data, kernel => some ((), { kernel with irqs := kernel.irqs.erase (irq, data) })
  | .dispatch, kernel => kernel.irqs[chance.dispatch]?.map fun entry => (entry.2, kernel)
  | .semaInit md count, kernel => kernel.modify md fun context => { context with irqLsigsema := some count }
  | .up md, kernel => (kernel.semaphore md).map fun count => ((), kernel.setSemaphore md (count + 1))
  | .downInterruptible md, kernel =>
    -- without a unit and without a signal the caller sleeps
    (kernel.semaphore md).bind fun count =>
      if !chance.down then some (-eintr, kernel)
      else if 0 < count then some (0, kernel.setSemaphore md (count - 1)) else none
  | .downTimeout md jiffies, kernel =>
    (kernel.semaphore md).map fun count =>
      if chance.down && decide (0 < count) then
        (0, { kernel.setSemaphore md (count - 1) with now := kernel.now + chance.elapsed })
      else (-etime, kernel.expire jiffies chance.elapsed)
  | .usecsToJiffies usecs, kernel => some ((usecs.toNat * 1000 + kernel.jiffy - 1) / kernel.jiffy, kernel)
  | .ktimeGetMonoFastNs, kernel => some (BitVec.ofNat 64 kernel.now, kernel)
  | .accessOk address size, kernel => some (kernel.accessible address size, kernel)

end Kernel

abbrev Driver (α : Type) := Program KernelOp KernelOp.Reply α

namespace Driver
open Program

def call (op : KernelOp) : Driver op.Reply := ask op

-- the reply type reduces once the call is known, so it is no key for the rewriting
@[simp] theorem call_bind {α : Type} (op : KernelOp) (next : op.Reply → Driver α) :
    @Program.bind _ _ (no_index op.Reply) α (call op) next = .request op next := rfl

theorem call_eq (op : KernelOp) : @Eq (Driver (no_index op.Reply)) (call op) (.request op .pure) := rfl

def deviceName : String := "gpioirq"
def gpioAnyGpio : Nat := 25
def irqmodBase : Nat := 40
def irqmoddevWaitIrq : Nat := irqmodBase + 1
def irqmoddevDownTimeout : Nat := irqmodBase + 2
def fmodeWrite : BitVec 32 := 2

/-- `_IOC_NR`, `_IOC_SIZE` and `_IOC_DIR`. -/
def iocNr (cmd : BitVec 32) : Nat := (cmd &&& 0xFF).toNat
def iocSize (cmd : BitVec 32) : Nat := (cmd >>> 16 &&& 0x3FFF).toNat
def iocDir (cmd : BitVec 32) : BitVec 32 := cmd >>> 30 &&& 3
def iocWrite : BitVec 32 := 1
def iocRead : BitVec 32 := 2

def rIrqHandler (data : Pointer) : Driver Unit := call (.up data)

/-- Both failures are only printed. -/
def rIntConfig (md : Pointer) : Driver Unit := do
  let busy ← call (.gpioRequest gpioAnyGpio)
  if busy = 0 then
    let irq ← call (.gpioToIrq gpioAnyGpio)
    call (.store md .irqNumber irq)
    if 0 ≤ irq then
      let _ ← call (.load md .irqNumber)

def rIntRelease (md : Pointer) : Driver Unit := do
  let irq ← call (.load md .irqNumber)
  call (.freeIrq irq md)
  call (.gpioFree gpioAnyGpio)

def driverOpen (instance_ : Nat) : Driver Int := do
  let md ← call .kzalloc
  call (.setPrivateData instance_ md)
  call (.store md .devicename deviceName)
  rIntConfig md
  let irq ← call (.load md .irqNumber)
  let failed ← call (.requestIrq irq md)
  if failed ≠ 0 then
    return -efault
  let mode ← call (.fMode instance_)
  call (.store md .wOpen (if mode &&& fmodeWrite ≠ 0 then 1 else 0))
  call (.semaInit md 0)
  return 0

def driverClose (instance_ : Nat) : Driver Int := do
  let md ← call (.privateData instance_)
  rIntRelease md
  -- printed
  let _ ← call (.load md .irqNumber)
  let held ← call (.privateData instance_)
  call (.kfree held)
  call (.setPrivateData instance_ none)
  return 0

def facMs2ns (w : Nat) : BitVec w := BitVec.ofNat w 1000000
def facUs2ns : BitVec 64 := 1000

/-- One round: the error of `down_timeout` and the rest of the time to wait. The
rest is only computed anew after a failure. -/
def waitRound (w : Nat) (md : Pointer) (endtime : BitVec 64) (last : Int × BitVec 64) : Driver (Int × BitVec 64) := do
  let jiffies ← call (.usecsToJiffies ((last.2 / facUs2ns).setWidth 32))
  let counted := BitVec.ofNat w jiffies
  let localjiffies := if 1 < counted then counted else 1
  let err ← call (.downTimeout md localjiffies.toNat)
  if err = 0 then
    return (err, last.2)
  let now ← call .ktimeGetMonoFastNs
  return (err, endtime - now)

def waiting (last : Int × BitVec 64) : Bool := last.1 != 0 && decide (0 < last.2.toInt)

/-- `w` is the width of `unsigned long`. -/
def downTimeoutms (w : Nat) (md : Pointer) (timeoutMs : BitVec w) : Driver Int := do
  let restNs := (facMs2ns w * timeoutMs).setWidth 64
  let start ← call .ktimeGetMonoFastNs
  let last ← whileDo waiting (waitRound w md (start + restNs)) (-1, restNs)
  return last.1

def myApi (w : Nat) (cmd : BitVec 32) (md : Pointer) (arg : BitVec w) : Driver Int := do
  if iocNr cmd = irqmoddevWaitIrq then
    let wOpen ← call (.load md .wOpen)
    if wOpen = 0 then
      return -einval
    call (.downInterruptible md)
  else if iocNr cmd = irqmoddevDownTimeout then
    let wOpen ← call (.load md .wOpen)
    if wOpen = 0 then
      return -einval
    downTimeoutms w md arg
  else
    return -enotty

/-- `parameter_error = !access_ok(user_ptr, _IOC_SIZE(cmd));` in one of the two directions. -/
def checkParameter (cmd direction : BitVec 32) (address : Nat) (parameterError : Bool) : Driver Bool := do
  if iocDir cmd &&& direction ≠ 0 then
    let ok ← call (.accessOk address (iocSize cmd))
    return !ok
  else
    return parameterError

def driverUnioctl (w : Nat) (file : Nat) (cmd : BitVec 32) (arg : BitVec w) : Driver Int := do
  let mycontext ← call (.privateData file)
  let parameterError ← checkParameter cmd iocRead arg.toNat false
  let parameterError ← checkParameter cmd iocWrite arg.toNat parameterError
  if parameterError then
    return -efault
  else
    myApi w cmd mycontext arg

/-- An interrupt enters the handler it is meant for. -/
def interrupt : Driver Unit := do
  let data ← call .dispatch
  rIrqHandler data

end Driver
end EthercatSlave
