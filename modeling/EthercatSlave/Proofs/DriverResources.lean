import EthercatSlave.OpenFiles
import EthercatSlave.Proofs.KernelCalls

/-! What open and close calls hold. `driver_open` gives nothing back when a
call inside it fails, so nothing is left over only as long as none does. -/

namespace EthercatSlave.Proofs.DriverResources
open Program Driver Desk

variable {kernel after : Kernel} {chance : Chance} {file address : Nat} {result : Int} {context : MyContext}

/-- The context a successful `open` leaves. -/
def initialised (mode : BitVec 32) (irq : Int) : MyContext :=
  { wOpen := if mode &&& fmodeWrite ≠ 0 then 1 else 0, irqNumber := irq, devicename := deviceName,
    irqLsigsema := some 0 }

def opened (kernel : Kernel) (file address : Nat) (irq : Int) : Kernel :=
  { kernel with
    contexts := Function.update kernel.contexts address (some (initialised (kernel.files file).fMode irq))
    files := Function.update kernel.files file { kernel.files file with privateData := some address }
    gpios := Function.update kernel.gpios gpioAnyGpio true
    irqs := (irq, some address) :: kernel.irqs }

def closed (kernel : Kernel) (file address : Nat) (irq : Int) : Kernel :=
  { kernel with
    contexts := Function.update kernel.contexts address none
    files := Function.update kernel.files file { kernel.files file with privateData := none }
    gpios := Function.update kernel.gpios gpioAnyGpio false
    irqs := kernel.irqs.erase (irq, some address) }

theorem printed_eval (held : kernel.contexts address = some context) (irq : Int) : Eval (Kernel.perform chance)
    (if 0 ≤ irq then .request (.load (some address) .irqNumber) fun _ => .pure () else .pure ()) kernel () kernel := by
  obtain ⟨contexts, files, gpios, irqs, now, jiffy, accessible⟩ := kernel
  split
  · exact Eval.request (Kernel.load_eq held) Eval.pure
  · exact Eval.pure

theorem open_eval (given : chance.kzalloc = some address) (fresh : kernel.contexts address = none)
    (gpio : (chance.gpioRequest && !kernel.gpios gpioAnyGpio) = true) (irq : chance.requestIrq = true) :
    Eval (Kernel.perform chance) (driverOpen file) kernel 0 (opened kernel file address chance.gpioToIrq) := by
  obtain ⟨contexts, files, gpios, irqs, now, jiffy, accessible⟩ := kernel
  simp only [driverOpen, rIntConfig, bind_eq, call_eq, pure_eq, request_bind, pure_bind]
  apply Eval.request (Kernel.kzalloc_eq given fresh)
  apply Eval.request rfl
  apply Eval.request (Kernel.store_eq (Function.update_self ..))
  apply Eval.request (Kernel.gpioRequest_eq gpio)
  apply Eval.request rfl
  apply Eval.request (Kernel.store_eq (Function.update_self ..))
  refine Eval.bind (printed_eval (Function.update_self ..) _) ?_
  apply Eval.request (Kernel.load_eq (Function.update_self ..))
  apply Eval.request (Kernel.requestIrq_eq irq)
  apply Eval.request rfl
  apply Eval.request (Kernel.store_eq (Function.update_self ..))
  apply Eval.request (Kernel.semaInit_eq (Function.update_self ..))
  simp only [Function.update_idem, Function.update_self]
  exact Eval.pure

theorem close_eval (linked : (kernel.files file).privateData = some address)
    (held : kernel.contexts address = some context) :
    Eval (Kernel.perform chance) (driverClose file) kernel 0 (closed kernel file address context.irqNumber) := by
  obtain ⟨contexts, files, gpios, irqs, now, jiffy, accessible⟩ := kernel
  have data : ∀ gpios irqs, Kernel.perform chance (.privateData file)
    ⟨contexts, files, gpios, irqs, now, jiffy, accessible⟩ =
      some (some address, ⟨contexts, files, gpios, irqs, now, jiffy, accessible⟩) := by
    intro gpios irqs
    rw [← linked]
    rfl
  simp only [driverClose, rIntRelease, bind_eq, call_eq, pure_eq, request_bind, pure_bind]
  apply Eval.request (data gpios irqs)
  apply Eval.request (Kernel.load_eq held)
  apply Eval.request rfl
  apply Eval.request rfl
  apply Eval.request (Kernel.load_eq held)
  apply Eval.request (data _ _)
  apply Eval.request (Kernel.kfree_eq held)
  apply Eval.request rfl
  exact Eval.pure

theorem open_allocates (ran : Eval (Kernel.perform chance) (driverOpen file) kernel result after) :
    ∃ address, chance.kzalloc = some address ∧ kernel.contexts address = none := by
  simp only [driverOpen, bind_eq, call_bind] at ran
  obtain ⟨md, _, allocated, ran⟩ := Eval.request_iff.mp ran
  obtain ⟨_, _, _, ran⟩ := Eval.request_iff.mp ran
  obtain ⟨_, _, named, _⟩ := Eval.request_iff.mp ran
  simp only [Kernel.perform] at allocated
  split at allocated
  next =>
    cases allocated
    cases named
  next address given =>
    refine ⟨address, given, ?_⟩
    split at allocated
    next fresh => exact Option.isNone_iff_eq_none.mp fresh
    next => cases allocated

/-- Nothing is held, or one handle holds everything. -/
inductive Settled : Desk → Prop where
  | free {kernel : Kernel} : kernel.held = {} → Settled ⟨kernel, []⟩
  | owned {kernel : Kernel} {file address : Nat} {context : MyContext} : kernel.gpios gpioAnyGpio = true →
      (kernel.files file).privateData = some address → kernel.contexts address = some context →
      kernel.irqs = [(context.irqNumber, some address)] → (∀ other ≠ address, kernel.contexts other = none) →
      Settled ⟨kernel, [file]⟩

theorem held_empty : kernel.held = {} ↔
    kernel.gpios gpioAnyGpio = false ∧ kernel.irqs = [] ∧ ∀ address, kernel.contexts address = none := by
  simp only [Kernel.held, Held.mk.injEq, funext_iff, Option.isSome_eq_false_iff, Option.isNone_iff_eq_none]

theorem settled_opened {file : Nat} {irq : Int} (empty : kernel.held = {}) :
    Settled ⟨opened kernel file address irq, [file]⟩ := by
  obtain ⟨_, irqs, contexts⟩ := held_empty.mp empty
  have held : (opened kernel file address irq).contexts address = some (initialised (kernel.files file).fMode irq) := by
    simp only [opened, Function.update_self]
  have linked : ((opened kernel file address irq).files file).privateData = some address := by
    simp only [opened, Function.update_self]
  apply Settled.owned (by simp only [opened, Function.update_self]) linked held (congrArg (List.cons _) irqs)
  intro other different
  simp only [opened, Function.update_of_ne different]
  exact contexts other

theorem settled_closed (irqs : kernel.irqs = [(context.irqNumber, some address)])
    (only : ∀ other ≠ address, kernel.contexts other = none) :
    Settled ⟨closed kernel file address context.irqNumber, []⟩ := by
  apply Settled.free
  apply held_empty.mpr
  refine ⟨by simp only [closed, Function.update_self], ?_, fun other => ?_⟩
  · simp only [closed, irqs]
    exact List.erase_cons_head ..
  · by_cases same : other = address
    · simp only [closed, same, Function.update_self]
    · simp only [closed, Function.update_of_ne same]
      exact only other same

/-- A call in which nothing fails succeeds and leaves a settled desk. -/
theorem settled_step {before desk : Desk} {call : Call} (settled : Settled before) (granted : Granted before call)
    (stepped : Step before call result desk) : result = 0 ∧ Settled desk := by
  cases stepped with
  | opening unopened ran =>
    obtain ⟨gpio, irq⟩ := granted
    obtain ⟨address, given, fresh⟩ := open_allocates ran
    obtain ⟨rfl, rfl⟩ := ran.deterministic (open_eval given fresh gpio irq)
    refine ⟨rfl, ?_⟩
    cases settled with
    | free empty => exact settled_opened empty
    | owned held =>
      rw [held] at gpio
      simp at gpio
  | closing present ran =>
    cases settled with
    | free => cases present
    | owned gpio linked held irqs only =>
      cases List.mem_singleton.mp present
      obtain ⟨rfl, rfl⟩ := ran.deterministic (close_eval linked held)
      refine ⟨rfl, ?_⟩
      rw [List.erase_cons_head]
      exact settled_closed irqs only

theorem settled_safe {desk : Desk} (settled : Settled desk) : Safe desk := by
  cases settled with
  | @free kernel empty =>
    obtain ⟨gpio, _, contexts⟩ := held_empty.mp empty
    refine ⟨?_, fun _ absent => (nomatch absent), fun _ => empty, fun _ file mode => ?_⟩
    · rw [gpio]
      simp
    · refine ⟨{ kzalloc := some 0 }, _, .opening (List.not_mem_nil) (open_eval rfl (contexts 0) ?_ rfl)⟩
      have unheld : (kernel.setFile file { fMode := mode }).gpios gpioAnyGpio = false := gpio
      rw [unheld]
      rfl
  | owned gpio linked held irqs only =>
    refine ⟨?_, fun file present => ?_, fun never => (nomatch never), fun never => (nomatch never)⟩
    · simp [gpio]
    · cases List.mem_singleton.mp present
      exact ⟨gpio, _, _, linked, held, by rw [irqs]; exact List.mem_singleton_self _⟩

theorem reached_settled {start : Kernel} {desk : Desk} (unheld : start.held = {})
    (reached : Reached start Granted desk) :
    Settled desk := by
  induction reached with
  | start => exact .free unheld
  | step _ granted stepped settled => exact (settled_step settled granted stepped).2

/-- As long as neither `gpio_request` nor `request_irq` fails, open and close
calls never hold more or less than the open handles need. -/
theorem resources_safe (start : Kernel) (desk : Desk) (unheld : start.held = {})
    (reached : Reached start Granted desk) :
    Safe desk ∧ ∀ call result after, Granted desk call → Step desk call result after →
    Clean desk call result after := by
  have settled := reached_settled unheld reached
  refine ⟨settled_safe settled, fun call result after granted stepped => ?_⟩
  obtain ⟨zero, _⟩ := settled_step settled granted stepped
  cases stepped with
  | opening => exact fun failed => absurd zero failed
  | closing => trivial

/-- An open, the close of that handle, and the open of another one. -/
theorem resources_safe_reopened : ∃ first between again : Desk,
    (first.opened = [0] ∧ Safe first) ∧ (between.opened = [] ∧ Safe between) ∧ again.opened = [1] ∧ Safe again := by
  let call (file : Nat) : Call := .opening file 3 { kzalloc := some file }
  let held : Kernel := opened (({} : Kernel).setFile 0 { fMode := 3 }) 0 0 0
  let idle : Kernel := closed held 0 0 0
  have opening : Eval (Kernel.perform { kzalloc := some 0 }) (driverOpen 0) (({} : Kernel).setFile 0 { fMode := 3 })
      0 held := open_eval rfl rfl rfl rfl
  have linked : (held.files 0).privateData = some 0 := rfl
  have context : held.contexts 0 = some (initialised 3 0) := rfl
  have closing : Eval (Kernel.perform {}) (driverClose 0) held 0 idle := close_eval linked context
  have reopening : Eval (Kernel.perform { kzalloc := some 1 }) (driverOpen 1) (idle.setFile 1 { fMode := 3 }) 0 _ :=
    open_eval rfl rfl rfl rfl
  have granted : Granted ⟨{}, []⟩ (call 0) := ⟨rfl, rfl⟩
  have granted' : Granted ⟨held, [0]⟩ (.closing 0) := trivial
  have granted'' : Granted ⟨idle, []⟩ (call 1) := ⟨rfl, rfl⟩
  have first : Reached {} Granted ⟨held, [0]⟩ := .step .start granted (.opening List.not_mem_nil opening)
  have between : Reached {} Granted ⟨idle, []⟩ := .step first granted' (.closing List.mem_cons_self closing)
  have again : Reached {} Granted ⟨_, [1]⟩ := .step between granted'' (.opening List.not_mem_nil reopening)
  exact ⟨_, _, _, ⟨rfl, (resources_safe {} _ rfl first).1⟩, ⟨rfl, (resources_safe {} _ rfl between).1⟩, rfl,
    (resources_safe {} _ rfl again).1⟩

def refused : Chance := { kzalloc := some 0, requestIrq := false }

/-- The failing call keeps the GPIO, which no open handle owns. -/
theorem failed_open_leaks : ∃ result after, Step ⟨{}, []⟩ (.opening 0 3 refused) result after ∧
    ¬ Clean ⟨{}, []⟩ (.opening 0 3 refused) result after ∧ ¬ Safe after := by
  have ends : ((driverOpen 0).exec (Kernel.perform refused) 0 (({} : Kernel).setFile 0 { fMode := 3 })).map
      (fun (result, after) => (result, after.held.gpio)) = some (-efault, true) := by decide +kernel
  obtain ⟨⟨result, after⟩, ran, same⟩ := Option.map_eq_some_iff.mp ends
  obtain ⟨rfl, gpio⟩ := Prod.mk.inj same
  refine ⟨_, _, .opening List.not_mem_nil (exec_sound ran), fun clean => ?_, fun safe => ?_⟩
  · have kept := congrArg Held.gpio (clean (by decide))
    rw [gpio] at kept
    cases kept
  · exact absurd rfl (safe.gpio.mp gpio)

end EthercatSlave.Proofs.DriverResources
