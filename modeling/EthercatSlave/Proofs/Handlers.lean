import EthercatSlave.Interrupts
import EthercatSlave.Proofs.Visits

/-! The registered handler as a visit of its interrupt: it raises the semaphore
once, with the context it was entered with, and then returns. Units raised are
interrupts handled, whatever the tasks in the driver do meanwhile. -/

namespace EthercatSlave.Proofs.Handlers
open Program Driver Interrupts

variable {ι : Type} {file : Nat} {md : Pointer}

/-- The context whose semaphore is raised. -/
def raised : Event (KernelThread ι) KernelOp KernelOp.Reply Kernel → Option Pointer
  | ⟨_, .up data, _, _⟩ => some data
  | _ => none

def raises (md : Pointer) : Event (KernelThread ι) KernelOp KernelOp.Reply Kernel → Bool
  | ⟨_, .up data, _, _⟩ => data == md
  | _ => false

def ups (md : Pointer) (log : Log ι) : Nat := log.countP (raises md)

def handling : Visit (KernelThread ι) KernelOp KernelOp.Reply Kernel Pointer := ⟨entered, raised⟩

theorem raises_eq (event : Event (KernelThread ι) KernelOp KernelOp.Reply Kernel) :
    raises md event = decide (raised event = some md) := by
  obtain ⟨thread, op, reply, state⟩ := event
  cases op with
  | up data => simp [raises, raised, Bool.beq_eq_decide_eq]
  | _ => rfl

/-- What a task in the driver asks of the kernel: it neither is an interrupt nor handles one. -/
def Tasking : KernelOp → Prop
  | .dispatch | .up _ => False
  | _ => True

theorem silent_of_tasking {op : KernelOp} (tasking : Tasking op) :
    (handling (ι := ι)).Silent op := by
  intro thread reply state
  cases op with
  | dispatch => exact tasking.elim
  | up => exact tasking.elim
  | _ => exact ⟨rfl, rfl⟩

theorem interrupt_enters : (handling : Visit (KernelThread ι) _ _ _ _).Entering interrupt := by
  refine ⟨.dispatch, _, rfl, fun data => ⟨data, ?_, fun _ _ => ⟨rfl, rfl⟩⟩⟩
  exact ⟨.up data, _, rfl, fun _ => ⟨rfl, fun _ _ => ⟨rfl, rfl⟩⟩⟩

theorem rIntConfig_tasks : (rIntConfig md).Uses Tasking := by
  refine ⟨trivial, fun (busy : Int) => ?_⟩
  simp only [bind_eq, call_eq, request_bind, pure_bind]
  split
  · refine ⟨trivial, fun (irq : Int) => ⟨trivial, fun _ => ?_⟩⟩
    dsimp only
    split
    · exact ⟨trivial, fun _ => trivial⟩
    · trivial
  · trivial

theorem driverOpen_tasks : (driverOpen file).Uses Tasking := by
  refine ⟨trivial, fun md => ⟨trivial, fun _ => ⟨trivial, fun _ => rIntConfig_tasks.bind fun _ => ?_⟩⟩⟩
  refine ⟨trivial, fun _ => ⟨trivial, fun (failed : Int) => ?_⟩⟩
  simp only [bind_eq, call_eq, request_bind, pure_bind]
  split
  · trivial
  · exact ⟨trivial, fun _ => ⟨trivial, fun _ => ⟨trivial, fun _ => trivial⟩⟩⟩

section Runs

variable [DecidableEq ι] {tasks : ι → Driver Int} {start : Kernel}

theorem pool_staged (tasking : ∀ index, (tasks index).Uses Tasking) : (pool tasks start).Staged handling
  | .task index => .outside ((tasking index).mono fun _ => silent_of_tasking) fun _ => (nomatch ·)
  | .irq _ => .before interrupt_enters

/-- In every run of tasks beside interrupts, each interrupt handled raised one unit. -/
theorem ups_eq_handled {schedule : List (KernelThread ι × Chance)}
    {final : Pool (KernelThread ι) KernelOp KernelOp.Reply Kernel Result} (tasking : ∀ index, (tasks index).Uses Tasking)
    (ran : (pool tasks start).run Kernel.perform schedule = some final) (md : Pointer) :
    ups md final.world.log = handled md final := by
  refine .trans (List.countP_congr fun event _ => ?_) ((Pool.run_staged (pool_staged tasking) ran).left md)
  rw [raises_eq]
  rfl

end Runs
end EthercatSlave.Proofs.Handlers
