import EthercatSlave.Driver

/-! What the kernel calls answer where they have a result, from an explicit
state of the kernel. -/

namespace EthercatSlave.Kernel

variable {contexts : Nat → Option MyContext} {files : Nat → File} {gpios : Nat → Bool} {irqs : List (Int × Pointer)}
  {now jiffy : Nat} {accessible : Nat → Nat → Bool} {chance : Chance} {address : Nat} {context : MyContext}

theorem kzalloc_eq (given : chance.kzalloc = some address) (fresh : contexts address = none) :
    perform chance .kzalloc ⟨contexts, files, gpios, irqs, now, jiffy, accessible⟩ = some (some address,
      ⟨Function.update contexts address (some {}), files, gpios, irqs, now, jiffy, accessible⟩) := by
  simp only [perform, given, fresh, Option.isNone_none, if_true]
  rfl

theorem kfree_eq (held : contexts address = some context) :
    perform chance (.kfree (some address)) ⟨contexts, files, gpios, irqs, now, jiffy, accessible⟩ =
      some ((), ⟨Function.update contexts address none, files, gpios, irqs, now, jiffy, accessible⟩) := by
  have present : (Kernel.mk contexts files gpios irqs now jiffy accessible).context (some address) =
      some context := held
  simp only [perform, present, Option.isNone_some, Bool.and_false, Bool.false_eq_true, if_false]
  rfl

theorem load_eq {member : Member} (held : contexts address = some context) :
    perform chance (.load (some address) member) ⟨contexts, files, gpios, irqs, now, jiffy, accessible⟩ =
      some (context.get member, ⟨contexts, files, gpios, irqs, now, jiffy, accessible⟩) :=
  congrArg (Option.map _) held

theorem store_eq {member : Member} {value : member.Value} (held : contexts address = some context) :
    perform chance (.store (some address) member value) ⟨contexts, files, gpios, irqs, now, jiffy, accessible⟩ =
      some ((), ⟨Function.update contexts address (some (context.set member value)), files, gpios, irqs, now, jiffy,
        accessible⟩) :=
  congrArg (Option.map _) held

theorem semaInit_eq {count : Nat} (held : contexts address = some context) :
    perform chance (.semaInit (some address) count) ⟨contexts, files, gpios, irqs, now, jiffy, accessible⟩ =
      some ((), ⟨Function.update contexts address (some { context with irqLsigsema := some count }), files, gpios, irqs,
        now, jiffy, accessible⟩) :=
  congrArg (Option.map _) held

theorem gpioRequest_eq {gpio : Nat} (granted : (chance.gpioRequest && !gpios gpio) = true) :
    perform chance (.gpioRequest gpio) ⟨contexts, files, gpios, irqs, now, jiffy, accessible⟩ =
      some ((0 : Int), ⟨contexts, files, Function.update gpios gpio true, irqs, now, jiffy, accessible⟩) :=
  if_pos granted

theorem requestIrq_eq {irq : Int} {data : Pointer} (granted : chance.requestIrq = true) :
    perform chance (.requestIrq irq data) ⟨contexts, files, gpios, irqs, now, jiffy, accessible⟩ =
      some ((0 : Int), ⟨contexts, files, gpios, (irq, data) :: irqs, now, jiffy, accessible⟩) :=
  if_pos granted

section Semaphores

variable {before after : Kernel} {md other : Pointer} {count count' : Nat}

theorem up_performed {reply : Unit} (performed : perform chance (.up md) before = some (reply, after)) :
    ∃ count, before.semaphore md = some count ∧ after = before.setSemaphore md (count + 1) := by
  obtain ⟨count, held, same⟩ := Option.map_eq_some_iff.mp performed
  cases same
  exact ⟨count, held, rfl⟩

theorem semaphore_setContext {content : MyContext} (present : before.context md = some context) :
    (before.setContext md (some content)).semaphore md = content.irqLsigsema := by
  cases md with
  | none => cases present
  | some address =>
    have written : (before.setContext (some address) (some content)).context (some address) = some content :=
      Function.update_self ..
    rw [semaphore, written]
    rfl

theorem semaInit_performed {reply : Unit}
    (performed : perform chance (.semaInit md count) before = some (reply, after)) :
    after.semaphore md = some count := by
  obtain ⟨context, held, same⟩ := Option.map_eq_some_iff.mp performed
  cases same
  exact semaphore_setContext held

theorem semaphore_setSemaphore (held : before.semaphore md = some count) :
    (before.setSemaphore md count').semaphore md = some count' := by
  obtain ⟨context, present, _⟩ := Option.bind_eq_some_iff.mp held
  have written : before.setSemaphore md count' =
      before.setContext md (some { context with irqLsigsema := some count' }) := by
    simp only [setSemaphore, present]
  rw [written]
  exact semaphore_setContext present

theorem semaphore_setSemaphore_of_ne (different : other ≠ md) :
    (before.setSemaphore md count').semaphore other = before.semaphore other := by
  unfold setSemaphore
  split
  next => rfl
  next context present =>
    cases md with
    | none => cases present
    | some address =>
      cases other with
      | none => rfl
      | some address' =>
        have apart : address' ≠ address := fun same => different (congrArg some same)
        exact congrArg (fun found => Option.bind found MyContext.irqLsigsema) (Function.update_of_ne apart ..)

/-- A semaphore operation changes nothing else of a context. -/
theorem wOpen_setSemaphore {content : MyContext}
    (present : (before.setSemaphore md count').context other = some content) :
    ∃ context, before.context other = some context ∧ content.wOpen = context.wOpen := by
  unfold setSemaphore at present
  split at present
  next => exact ⟨content, present, rfl⟩
  next context held =>
    cases md with
    | none => cases held
    | some address =>
      cases other with
      | none => cases present
      | some address' =>
        by_cases own : address' = address
        · subst own
          have written : some { context with irqLsigsema := some count' } = some content :=
            (Function.update_self address' _ before.contexts).symm.trans present
          cases written
          exact ⟨context, held, rfl⟩
        · have kept : before.contexts address' = some content :=
            (Function.update_of_ne own _ before.contexts).symm.trans present
          exact ⟨content, kept, rfl⟩

end Semaphores

section Handles

variable {before after : Kernel}

@[simp] theorem files_setContext (kernel : Kernel) (md : Pointer) (content : Option MyContext) :
    (kernel.setContext md content).files = kernel.files := by
  cases md <;> rfl

@[simp] theorem files_setSemaphore (kernel : Kernel) (md : Pointer) (count : Nat) :
    (kernel.setSemaphore md count).files = kernel.files := by
  unfold setSemaphore
  split
  · rfl
  · exact files_setContext ..

private theorem files_modify {md : Pointer} {change : MyContext → MyContext} {reply : Unit}
    (performed : before.modify md change = some (reply, after)) : after.files = before.files := by
  obtain ⟨context, held, same⟩ := Option.map_eq_some_iff.mp performed
  cases same
  exact files_setContext ..

theorem setPrivateData_performed {file : Nat} {md : Pointer} {reply : Unit}
    (performed : perform chance (.setPrivateData file md) before = some (reply, after)) :
    (after.files file).privateData = md := by
  obtain ⟨_, rfl⟩ := Prod.mk.inj (Option.some.inj performed)
  exact congrArg File.privateData (Function.update_self file { before.files file with privateData := md } before.files)

/-- Only the driver's own link changes a handle. -/
theorem files_kept {op : KernelOp} {reply : op.Reply} (other : ∀ file md, op ≠ .setPrivateData file md)
    (performed : perform chance op before = some (reply, after)) : after.files = before.files := by
  cases op with
  | setPrivateData file md => exact absurd rfl (other file md)
  | store => exact files_modify performed
  | semaInit => exact files_modify performed
  | _ =>
    simp only [perform, Option.map_eq_some_iff, Option.bind_eq_some_iff] at performed
    grind [files_setContext, files_setSemaphore, expire]

@[simp] theorem accessible_setContext (kernel : Kernel) (md : Pointer) (content : Option MyContext) :
    (kernel.setContext md content).accessible = kernel.accessible := by
  cases md <;> rfl

@[simp] theorem accessible_setSemaphore (kernel : Kernel) (md : Pointer) (count : Nat) :
    (kernel.setSemaphore md count).accessible = kernel.accessible := by
  unfold setSemaphore
  split
  · rfl
  · exact accessible_setContext ..

theorem accessible_kept {op : KernelOp} {reply : op.Reply}
    (performed : perform chance op before = some (reply, after)) :
    after.accessible = before.accessible := by
  cases op with
  | store | semaInit =>
    obtain ⟨_, _, same⟩ := Option.map_eq_some_iff.mp performed
    cases same
    exact accessible_setContext ..
  | _ =>
    simp only [perform, Option.map_eq_some_iff, Option.bind_eq_some_iff] at performed
    grind [accessible_setContext, accessible_setSemaphore, expire, setFile]

end Handles

@[simp] theorem now_setContext (kernel : Kernel) (md : Pointer) (content : Option MyContext) :
    (kernel.setContext md content).now = kernel.now := by
  cases md <;> rfl

@[simp] theorem now_setSemaphore (kernel : Kernel) (md : Pointer) (count : Nat) :
    (kernel.setSemaphore md count).now = kernel.now := by
  unfold setSemaphore
  split
  · rfl
  · exact now_setContext ..

/-- The clock never goes back. -/
theorem now_le {before after : Kernel} {op : KernelOp} {reply : op.Reply}
    (performed : perform chance op before = some (reply, after)) : before.now ≤ after.now := by
  cases op with
  | setPrivateData =>
    cases performed
    exact Nat.le_refl _
  | _ =>
    simp only [perform, modify, Option.map_eq_some_iff, Option.bind_eq_some_iff] at performed
    grind [now_setContext, now_setSemaphore, expire]

end EthercatSlave.Kernel
