import EthercatSlave.Driver

/-! Open and close calls on any number of file handles, one call after the
other. The kernel calls `release` exactly once for every handle whose `open`
returned 0. -/

namespace EthercatSlave
open Driver

/-- The resources the driver may hold. -/
structure Held where
  gpio : Bool := false
  irqs : List (Int × Pointer) := []
  contexts : Nat → Bool := fun _ => false

def Kernel.held (kernel : Kernel) : Held :=
  ⟨kernel.gpios gpioAnyGpio, kernel.irqs, fun address => (kernel.contexts address).isSome⟩

structure Desk where
  kernel : Kernel := {}
  opened : List Nat := []

namespace Desk

inductive Call where
  | opening (file : Nat) (mode : BitVec 32) (chance : Chance)
  | closing (file : Nat)

/-- A call that comes to an end and what it returns. -/
inductive Step : Desk → Call → Int → Desk → Prop where
  | opening {kernel after : Kernel} {opened : List Nat} {file : Nat} {mode : BitVec 32} {chance : Chance}
      {result : Int} : file ∉ opened →
      Eval (Kernel.perform chance) (driverOpen file) (kernel.setFile file { fMode := mode }) result after →
      Step ⟨kernel, opened⟩ (.opening file mode chance) result ⟨after, if result = 0 then file :: opened else opened⟩
  | closing {kernel after : Kernel} {opened : List Nat} {file : Nat} {result : Int} :
      file ∈ opened → Eval (Kernel.perform {}) (driverClose file) kernel result after →
      Step ⟨kernel, opened⟩ (.closing file) result ⟨after, opened.erase file⟩

/-- Desks reached from `start` by calls that are `allowed` where they are made. -/
inductive Reached (start : Kernel) (allowed : Desk → Call → Prop) : Desk → Prop where
  | start : Reached start allowed ⟨start, []⟩
  | step {before after : Desk} {call : Call} {result : Int} : Reached start allowed before → allowed before call →
      Step before call result after → Reached start allowed after

/-- What an open handle holds. -/
structure Owns (desk : Desk) (file : Nat) : Prop where
  gpio : desk.kernel.gpios gpioAnyGpio = true
  irq : ∃ md context, (desk.kernel.files file).privateData = some md ∧ desk.kernel.contexts md = some context ∧
    (context.irqNumber, some md) ∈ desk.kernel.irqs

structure Safe (desk : Desk) : Prop where
  gpio : desk.kernel.gpios gpioAnyGpio = true ↔ desk.opened ≠ []
  owned : ∀ file ∈ desk.opened, desk.Owns file
  released : desk.opened = [] → desk.kernel.held = {}
  reopens : desk.opened = [] → ∀ file mode, ∃ chance after, Step desk (.opening file mode chance) 0 after

/-- A failing `open` leaves what is held as it was. -/
def Clean (before : Desk) : Call → Int → Desk → Prop
  | .opening .., result, after => result ≠ 0 → after.kernel.held = before.kernel.held
  | .closing _, _, _ => True

/-- Neither `gpio_request` nor `request_irq` fails in this call. -/
def Granted (desk : Desk) : Call → Prop
  | .opening _ _ chance => (chance.gpioRequest && !desk.kernel.gpios gpioAnyGpio) = true ∧ chance.requestIrq = true
  | .closing _ => True

end Desk
end EthercatSlave
