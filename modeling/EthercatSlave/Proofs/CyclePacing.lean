import EthercatSlave.History
import EthercatSlave.Pacing
import EthercatSlave.Proofs.Conservation
import EthercatSlave.Proofs.DownTimeout
import EthercatSlave.Proofs.RelyGuarantee
import EthercatSlave.Proofs.SpiTraffic

/-! Every cycle of the real-time loop is paid for: with a unit of the semaphore
that no other cycle gets, or with the whole time of a wait. -/

namespace EthercatSlave.Proofs.CyclePacing
open Program Pacing Conservation

variable {K δ : Type} {md : Pointer} {backlog start : Nat}

section Accounts

variable {log : List (Pacing.Event K δ)} {event : Pacing.Event K δ}

theorem observe_snoc : observe md (log ++ [event]) = (observe md log).note md event := by
  rw [observe, List.foldl_append]
  rfl

/-- An interrupt that raises the semaphore. -/
def lifts (md : Pointer) (event : Pacing.Event K δ) : Bool := (inKernel event).any (Handlers.raises md)

def liftedBy (md : Pointer) (time : Nat) (log : List (Pacing.Event K δ)) : Nat :=
  log.countP fun event => lifts md event && decide (at_ event ≤ time)

def consumedBy (md : Pointer) (time : Nat) (log : List (Pacing.Event K δ)) : Nat :=
  log.countP fun event => consumes md event && decide (at_ event ≤ time)

/-- Every call was due, no unit is consumed before it is raised, and time goes on. -/
structure Account (md : Pointer) (backlog start : Nat) (log : List (Pacing.Event K δ)) : Prop where
  due : ∀ call ∈ (observe md log).calls, Due call
  covered : ∀ earlier later, log = earlier ++ later →
    earlier.countP (consumes md) ≤ backlog + earlier.countP (lifts md)
  fresh : ∀ event ∈ log, start ≤ at_ event
  ordered : log.Pairwise fun first last => at_ first ≤ at_ last

/-- What an event leaves of the observation. -/
inductive Noted (md : Pointer) (event : Pacing.Event K δ) (observed : Observed) : Observed → Prop where
  | consumed : consumes md event = true →
      Noted md event observed { observed with wait := { observed.wait with units := observed.wait.units + 1 } }
  | waits : consumes md event = false →
      Noted md event observed { observed with wait := { observed.wait with began := some (at_ event) } }
  | falls : consumes md event = false →
      Noted md event observed { observed with window := some { fell := at_ event, wait := observed.wait } }
  | sends {window : Window} {sent : List Byte} : consumes md event = false → observed.window = some window →
      Noted md event observed { observed with window := some { window with sent } }
  | calls {window : Window} {sent : List Byte} : consumes md event = false → observed.window = some window →
      Noted md event observed { calls := observed.calls ++ [{ window with sent }] }
  | idle : consumes md event = false → Noted md event observed observed

theorem noted (md : Pointer) (event : Pacing.Event K δ) (observed : Observed) :
    Noted md event observed (observed.note md event) := by
  unfold Observed.note
  cases takes : consumes md event with
  | true => exact .consumed takes
  | false =>
    rw [if_neg (by decide)]
    split
    · exact .waits takes
    · exact .falls takes
    next data _ _ =>
      unfold Observed.send
      split
      · exact .idle takes
      next window opened =>
        dsimp only
        split
        · exact .calls takes opened
        · exact .sends takes opened
    · exact .idle takes

theorem Account.init (account : Account md backlog start (log ++ [event])) : Account md backlog start log := by
  obtain ⟨due, covered, fresh, ordered⟩ := account
  refine ⟨fun call member => due call ?_, fun earlier later split => ?_, fun other member => ?_, ?_⟩
  · rw [observe_snoc]
    have kept := noted md event (observe md log)
    generalize (observe md log).note md event = after at *
    cases kept with
    | calls => exact List.mem_append_left _ member
    | _ => exact member
  · apply covered earlier (later ++ [event])
    rw [split, List.append_assoc]
  · exact fresh other (List.mem_append_left _ member)
  · exact (List.pairwise_append.mp ordered).1

theorem Account.last (account : Account md backlog start (log ++ [event])) :
    start ≤ at_ event ∧ ∀ before ∈ log, at_ before ≤ at_ event :=
  ⟨account.fresh event (by simp), fun before member =>
    (List.pairwise_append.mp account.ordered).2.2 before member event (by simp)⟩

theorem Account.snoc (account : Account md backlog start log)
    (due : ∀ call ∈ ((observe md log).note md event).calls, Due call)
    (covered : (log ++ [event]).countP (consumes md) ≤ backlog + (log ++ [event]).countP (lifts md))
    (fresh : start ≤ at_ event) (recent : ∀ before ∈ log, at_ before ≤ at_ event) :
    Account md backlog start (log ++ [event]) := by
  refine ⟨?_, fun earlier later split => ?_, fun other member => ?_, ?_⟩
  · rw [observe_snoc]
    exact due
  · rcases List.prefix_concat_iff.mp ⟨later, split.symm⟩ with rfl | ⟨rest, same⟩
    · exact covered
    · exact account.covered earlier rest same.symm
  · rcases List.mem_append.mp member with earlier | last
    · exact account.fresh other earlier
    · cases List.mem_singleton.mp last
      exact fresh
  · refine List.pairwise_append.mpr ⟨account.ordered, List.pairwise_singleton .., fun before member last same => ?_⟩
    cases List.mem_singleton.mp same
    exact recent before member

/-- By `time` there are as many units and periods as calls, up to `mark`: the time spent on calls so far. -/
structure Spent (md : Pointer) (start time : Nat) (log : List (Pacing.Event K δ)) (mark : Nat) : Prop where
  since : start ≤ mark
  early : mark ≤ max start time
  passed : ∀ now, start ≤ now → (∀ event ∈ log, at_ event ≤ now) →
    mark ≤ now ∧ ∀ window, (observe md log).window = some window → window.fell ≤ now
  calls : callsBy md time log * period ≤ consumedBy md time log * period + (mark - start)
  window : ∀ window, (observe md log).window = some window → window.fell ≤ time →
    (callsBy md time log + window.wait.units) * period ≤ consumedBy md time log * period + (mark - start) ∧
      ∀ began, window.wait.began = some began → mark ≤ began
  wait : (∀ event ∈ log, at_ event ≤ time) →
    (callsBy md time log + (observe md log).wait.units) * period ≤
        consumedBy md time log * period + (mark - start) ∧
      ∀ began, (observe md log).wait.began = some began → mark ≤ began

theorem consumedBy_snoc (time : Nat) : consumedBy md time (log ++ [event]) =
    consumedBy md time log + if consumes md event && decide (at_ event ≤ time) then 1 else 0 := by
  rw [consumedBy, consumedBy, List.countP_append, List.countP_singleton]

theorem consumedBy_idle {time : Nat} (idle : consumes md event = false) :
    consumedBy md time (log ++ [event]) = consumedBy md time log := by
  rw [consumedBy_snoc, idle]
  rfl

variable {time mark : Nat}

theorem Spent.call {window : Window} {sent : List Byte} (spent : Spent md start time log mark)
    (idle : consumes md event = false) (opened : (observe md log).window = some window)
    (left : observe md (log ++ [event]) = { calls := (observe md log).calls ++ [{ window with sent }] })
    (due : Due window) : ∃ mark, Spent md start time (log ++ [event]) mark := by
  have counted : callsBy md time (log ++ [event]) = callsBy md time log + if window.fell ≤ time then 1 else 0 := by
    rw [callsBy, callsBy, left, List.countP_append, List.countP_singleton]
    simp
  have settled : ∀ mark', start ≤ mark' → mark' ≤ max start time →
      (∀ now, start ≤ now → (∀ event ∈ log, at_ event ≤ now) → mark' ≤ now) →
      (callsBy md time (log ++ [event])) * period ≤ consumedBy md time log * period + (mark' - start) →
      Spent md start time (log ++ [event]) mark' := by
    intro mark' since early passed paid
    rw [← consumedBy_idle idle] at paid
    refine ⟨since, early, fun now after all => ⟨passed now after fun before member => ?_, ?_⟩, paid, ?_, ?_⟩
    · exact all before (List.mem_append_left _ member)
    · rw [left]
      exact fun _ => (nomatch ·)
    · rw [left]
      exact fun _ => (nomatch ·)
    · rw [left]
      exact fun _ => ⟨paid, fun _ => (nomatch ·)⟩
  by_cases early : window.fell ≤ time
  · obtain ⟨paid, later⟩ := spent.window window opened early
    rw [if_pos early] at counted
    rcases due with once | ⟨none, began, waits, whole⟩
    · refine ⟨mark, settled mark spent.since spent.early (fun now after all => (spent.passed now after all).1) ?_⟩
      rw [counted, ← once]
      exact paid
    · have before := later began waits
      have reached : start ≤ window.fell := by
        have since := spent.since
        omega
      refine ⟨window.fell, settled window.fell reached (Nat.le_trans early (Nat.le_max_right ..)) (fun now after all =>
        (spent.passed now after all).2 window opened) ?_⟩
      have since := spent.since
      rw [none] at paid
      rw [counted]
      simp only [Nat.add_zero, Nat.add_mul, Nat.one_mul] at paid ⊢
      generalize period = whole at *
      omega
  · rw [if_neg early, Nat.add_zero] at counted
    refine ⟨mark, settled mark spent.since spent.early (fun now after all => (spent.passed now after all).1) ?_⟩
    rw [counted]
    exact spent.calls

/-- An event that neither consumes nor calls. -/
theorem Spent.still {after : Observed} (spent : Spent md start time log mark) (idle : consumes md event = false)
    (left : observe md (log ++ [event]) = after) (uncalled : after.calls = (observe md log).calls)
    (fell : ∀ now, start ≤ now → (∀ before ∈ log ++ [event], at_ before ≤ now) →
      ∀ window, after.window = some window → window.fell ≤ now)
    (window : ∀ window, after.window = some window → window.fell ≤ time →
      (callsBy md time log + window.wait.units) * period ≤ consumedBy md time log * period + (mark - start) ∧
        ∀ began, window.wait.began = some began → mark ≤ began)
    (wait : (∀ before ∈ log, at_ before ≤ time) →
      (callsBy md time log + after.wait.units) * period ≤ consumedBy md time log * period + (mark - start) ∧
        ∀ began, after.wait.began = some began → mark ≤ began) : Spent md start time (log ++ [event]) mark := by
  have counted : callsBy md time (log ++ [event]) = callsBy md time log := by
    rw [callsBy, callsBy, left, uncalled]
  have earlier : ∀ {now}, (∀ before ∈ log ++ [event], at_ before ≤ now) → ∀ before ∈ log, at_ before ≤ now :=
    fun all before member => all before (List.mem_append_left _ member)
  refine ⟨spent.since, spent.early, fun now after all => ⟨(spent.passed now after (earlier all)).1, ?_⟩, ?_, ?_, ?_⟩
  · rw [left]
    exact fell now after all
  · rw [counted, consumedBy_idle idle]
    exact spent.calls
  · rw [left, counted, consumedBy_idle idle]
    exact window
  · rw [left, counted, consumedBy_idle idle]
    exact fun all => wait (earlier all)

theorem Spent.snoc (spent : Spent md start time log mark)
    (due : ∀ call ∈ ((observe md log).note md event).calls, Due call) (fresh : start ≤ at_ event)
    (recent : ∀ before ∈ log, at_ before ≤ at_ event) : ∃ mark, Spent md start time (log ++ [event]) mark := by
  have left : observe md (log ++ [event]) = (observe md log).note md event := observe_snoc
  have kept := noted md event (observe md log)
  generalize (observe md log).note md event = after at *
  have earlier : ∀ {now}, (∀ before ∈ log ++ [event], at_ before ≤ now) → ∀ before ∈ log, at_ before ≤ now :=
    fun all before member => all before (List.mem_append_left _ member)
  cases kept with
  | consumed takes =>
    have counted : callsBy md time (log ++ [event]) = callsBy md time log := by
      rw [callsBy, callsBy, left]
    have more := @consumedBy_snoc _ _ md log event time
    have grown := Nat.mul_le_mul_right period (Nat.le.intro more.symm)
    refine ⟨mark, spent.since, spent.early, fun now after all => ?_, ?_, ?_, ?_⟩
    · rw [left]
      exact spent.passed now after (earlier all)
    · rw [counted]
      exact Nat.le_trans spent.calls (Nat.add_le_add_right grown _)
    · rw [left, counted]
      intro window opened early
      obtain ⟨paid, later⟩ := spent.window window opened early
      exact ⟨Nat.le_trans paid (Nat.add_le_add_right grown _), later⟩
    · intro all
      obtain ⟨paid, later⟩ := spent.wait (earlier all)
      have inside : at_ event ≤ time := all event (by simp)
      rw [takes, decide_eq_true inside] at more
      rw [left, counted, more]
      refine ⟨?_, later⟩
      simp only [Bool.and_self, if_true, Nat.add_mul, Nat.one_mul] at paid ⊢
      omega
  | waits idle =>
    refine ⟨mark, spent.still idle left rfl ?_ spent.window ?_⟩
    · exact fun now after all => (spent.passed now after (earlier all)).2
    · refine fun all => ⟨(spent.wait all).1, fun began same => ?_⟩
      cases same
      exact (spent.passed _ fresh recent).1
  | falls idle =>
    refine ⟨mark, spent.still idle left rfl ?_ ?_ spent.wait⟩
    · intro now _ all window same
      cases same
      exact all event (by simp)
    · intro window same early
      cases same
      exact spent.wait fun before member => Nat.le_trans (recent before member) early
  | @sends window sent idle opened =>
    refine ⟨mark, spent.still idle left rfl ?_ ?_ spent.wait⟩
    · intro now after all other same
      cases same
      exact (spent.passed now after (earlier all)).2 window opened
    · intro other same
      cases same
      exact spent.window window opened
  | @calls window sent idle opened =>
    have here : Due { window with sent } := due _ (by simp)
    exact spent.call idle opened left here
  | idle idle =>
    refine ⟨mark, spent.still idle left rfl ?_ spent.window spent.wait⟩
    exact fun now after all => (spent.passed now after (earlier all)).2

theorem Account.spent (account : Account md backlog start log) (time : Nat) : ∃ mark, Spent md start time log mark := by
  induction log using List.reverseRecOn with
  | nil =>
    have none : callsBy md time ([] : List (Pacing.Event K δ)) * period ≤
        consumedBy md time ([] : List (Pacing.Event K δ)) * period + (start - start) := by
      simp [callsBy, observe]
    exact ⟨start, Nat.le_refl _, Nat.le_max_left .., fun now after _ => ⟨after, fun _ => (nomatch ·)⟩, none,
      fun _ => (nomatch ·), fun _ => ⟨none, fun _ => (nomatch ·)⟩⟩
  | append_singleton log event ih =>
    obtain ⟨mark, spent⟩ := ih account.init
    obtain ⟨fresh, recent⟩ := account.last
    refine spent.snoc ?_ fresh recent
    rw [← observe_snoc]
    exact account.due

/-- What is consumed by a time was raised by then. -/
theorem Account.raised (account : Account md backlog start log) (time : Nat) :
    consumedBy md time log ≤ backlog + liftedBy md time log := by
  induction log using List.reverseRecOn with
  | nil => exact Nat.zero_le _
  | append_singleton log event ih =>
    obtain ⟨_, recent⟩ := account.last
    by_cases early : at_ event ≤ time
    · have all : ∀ other ∈ log ++ [event], at_ other ≤ time := by
        intro other member
        rcases List.mem_append.mp member with earlier | last
        · exact Nat.le_trans (recent other earlier) early
        · cases List.mem_singleton.mp last
          exact early
      have kept : ∀ test : Pacing.Event K δ → Bool,
        (log ++ [event]).countP (fun other => test other && decide (at_ other ≤ time)) =
          (log ++ [event]).countP test := by
        intro test
        exact List.countP_congr fun other member => by simp [all other member]
      rw [consumedBy, liftedBy, kept, kept]
      exact account.covered _ [] (List.append_nil _).symm
    · have dropped : ∀ test : Pacing.Event K δ → Bool,
        (log ++ [event]).countP (fun other => test other && decide (at_ other ≤ time)) =
          log.countP fun other => test other && decide (at_ other ≤ time) := by
        intro test
        rw [List.countP_append, List.countP_singleton, decide_eq_false early, Bool.and_false]
        rfl
      rw [consumedBy, liftedBy, dropped, dropped]
      exact ih account.init

theorem Account.bounded (account : Account md backlog start log) (time : Nat) :
    callsBy md time log ≤ backlog + liftedBy md time log + (time - start) / period := by
  obtain ⟨mark, spent⟩ := account.spent time
  have paid := spent.calls
  have early := spent.early
  have covered := Nat.mul_le_mul_right period (account.raised time)
  have shared : (callsBy md time log - (backlog + liftedBy md time log)) * period ≤ time - start := by
    rw [Nat.sub_mul]
    omega
  have divided := (Nat.le_div_iff_mul_le (show 0 < period by decide)).mpr shared
  omega

end Accounts

section Protocol

abbrev Run (K δ : Type) := World (KernelThread Unit) (SystemOp K) SystemOp.Reply (System K δ)

/-- Requests that leave the handle and the context what they are. -/
def Modest : SystemOp K → Prop
  | .loop (.shield (.storeDevhndl _)) => False
  | .loop _ => True
  | .kernel op => Counting op

/-- What a step leaves of the system, and how it counts. -/
structure Follows (md : Pointer) (event : Pacing.Event K δ) (before after : System K δ) : Prop where
  handle : after.station.board.devhndl = before.station.board.devhndl
  files : after.kernel.files = before.kernel.files
  accessible : after.kernel.accessible = before.kernel.accessible
  writable : ∀ context, after.kernel.context md = some context →
    ∃ earlier, before.kernel.context md = some earlier ∧ context.wOpen = earlier.wOpen
  now : before.kernel.now ≤ after.kernel.now
  balance : ∀ units, before.kernel.semaphore md = some units → ∃ units', after.kernel.semaphore md = some units' ∧
    units' + (if consumes md event then 1 else 0) = units + if lifts md event then 1 else 0

/-- What holds of the system whatever its threads have done. -/
structure Kept (handle : Int) (md : Pointer) (backlog start : Nat) (world : Run K δ) : Prop where
  devhndl : world.state.station.board.devhndl = handle
  linked : (world.state.kernel.files handle.toNat).privateData = md
  accessible : world.state.kernel.accessible 100 4 = true
  writable : ∀ context, world.state.kernel.context md = some context → context.wOpen ≠ 0
  units : ∃ units, world.state.kernel.semaphore md = some units ∧
    units + world.log.countP (consumes md) = backlog + world.log.countP (lifts md)
  account : Account md backlog start world.log
  recent : start ≤ world.state.kernel.now ∧ ∀ event ∈ world.log, at_ event ≤ world.state.kernel.now

/-- Nothing but time passes, as far as the accounts are concerned. -/
def Waits (md : Pointer) (before after : Run K δ) : Prop :=
  observe md after.log = observe md before.log ∧ before.state.kernel.now ≤ after.state.kernel.now

theorem Waits.trans {first second third : Run K δ} (left : Waits md first second) (right : Waits md second third) :
    Waits md first third :=
  ⟨right.1.trans left.1, left.2.trans right.2⟩

def Relies (md : Pointer) : KernelThread Unit → Run K δ → Run K δ → Prop
  | .task _, before, after => Waits md before after
  | .irq _, _, _ => True

def Grants (md : Pointer) : KernelThread Unit → Run K δ → Run K δ → Prop
  | .task _, _, _ => True
  | .irq _, before, after => Waits md before after

def protocol (K δ : Type) (handle : Int) (md : Pointer) (backlog start : Nat) :
    Protocol (KernelThread Unit) (SystemOp K) SystemOp.Reply (System K δ) where
  invariant := Kept handle md backlog start
  rely := Relies md
  guarantee := Grants md
  refl thread world := by
    cases thread with
    | task => exact ⟨rfl, Nat.le_refl _⟩
    | irq => trivial
  trans thread := by
    intro first second third left right
    cases thread with
    | task => exact Waits.trans left right
    | irq => trivial
  compatible := by
    intro thread other before after different grants
    cases other with
    | irq => trivial
    | task =>
      cases thread with
      | task => exact absurd rfl different
      | irq => exact grants

/-- Requests that the accounts do not look at. -/
def Quiet : SystemOp K → Prop
  | .loop (.shield (.storeDevhndl _)) => False
  | .loop (.shield (.base (.select .low))) | .loop (.shield (.base (.transfer _))) => False
  | .loop _ => True
  | .kernel (.downInterruptible _) | .kernel (.downTimeout _ _) | .kernel (.privateData _) => False
  | .kernel op => Counting op

variable {op : SystemOp K} {reply : op.Reply}

theorem quiet_modest (quiet : Quiet op) : Modest op := by
  cases op with
  | loop op =>
    cases op with
    | shield op =>
      cases op with
      | storeDevhndl => exact quiet
      | _ => trivial
    | _ => trivial
  | kernel op =>
    cases op with
    | downInterruptible | downTimeout | privateData => exact quiet.elim
    | _ => exact quiet

theorem quiet_note {task : Unit} (quiet : Quiet op) (observed : Observed) (system : System K δ) :
    observed.note md ⟨.task task, op, reply, system⟩ = observed := by
  cases op with
  | loop op =>
    cases op with
    | shield op =>
      cases op with
      | base op =>
        cases op with
        | select level =>
          cases level with
          | low => exact quiet.elim
          | high => rfl
        | transfer => exact quiet.elim
        | _ => rfl
      | _ => rfl
    | _ => rfl
  | kernel op =>
    cases op with
    | downInterruptible | downTimeout | privateData => exact quiet.elim
    | _ => rfl

/-- A call of `MainTask` is only seen in a byte on the bus. -/
theorem note_calls {thread : KernelThread Unit} (silent : ∀ data, op ≠ .loop (.shield (.base (.transfer data))))
    (observed : Observed) (system : System K δ) :
    (observed.note md ⟨thread, op, reply, system⟩).calls = observed.calls := by
  unfold Observed.note
  split
  · rfl
  · split
    next => rfl
    next => rfl
    next same =>
      cases same
      exact absurd rfl (silent _)
    next => rfl

variable {world : Run K δ}

/-- The wait began at this time and got nothing so far. -/
def Begun (md : Pointer) (began : Nat) (world : Run K δ) : Prop :=
  (observe md world.log).wait = ⟨0, some began⟩ ∧ began ≤ world.state.kernel.now

/-- The next call may begin. -/
def Paid (md : Pointer) (world : Run K δ) : Prop :=
  Due { fell := world.state.kernel.now, wait := (observe md world.log).wait }

theorem Begun.stable {began : Nat} {later : Run K δ} (waits : Waits md world later) (begun : Begun md began world) :
    Begun md began later :=
  ⟨(congrArg Observed.wait waits.1).trans begun.1, Nat.le_trans begun.2 waits.2⟩

theorem Paid.stable {later : Run K δ} (waits : Waits md world later) (paid : Paid md world) : Paid md later := by
  unfold Paid
  rw [waits.1]
  exact paid.imp_right fun ⟨untaken, began, waited, whole⟩ => ⟨untaken, began, waited, Nat.le_trans whole waits.2⟩

end Protocol

section Steps

variable [Measure K] {device : Device δ} {moment : Moment} {thread : KernelThread Unit} {op : SystemOp K}
    {reply : op.Reply}

theorem devhndl_kept {op : LoopOp K} {reply : op.Reply} {before after : Station K δ} (modest : Modest (.loop op))
    (performed : before.perform device op = some (reply, after)) : after.board.devhndl = before.board.devhndl := by
  cases op with
  | shield op =>
    cases op with
    | storeDevhndl => exact modest.elim
    | ioctl =>
      cases performed
      rfl
    | base op =>
      obtain ⟨⟨_, board⟩, answered, same⟩ := Option.map_eq_some_iff.mp performed
      cases same
      obtain ⟨_, _, same⟩ := Option.map_eq_some_iff.mp answered
      cases same
      rfl
    | _ =>
      cases performed
      rfl
  | _ =>
    cases performed
    rfl

theorem wOpen_kept {chance : Chance} {op : KernelOp} {reply : op.Reply} {before after : Kernel} (counting : Counting op)
    (performed : Kernel.perform chance op before = some (reply, after)) {context : MyContext}
    (present : after.context md = some context) :
    ∃ earlier, before.context md = some earlier ∧ context.wOpen = earlier.wOpen := by
  cases op with
  | kzalloc | kfree | store | semaInit | setPrivateData => exact counting.elim
  | up data =>
    obtain ⟨_, _, rfl⟩ := Kernel.up_performed performed
    exact Kernel.wOpen_setSemaphore present
  | downInterruptible data =>
    obtain ⟨_, _, waited⟩ := Option.bind_eq_some_iff.mp performed
    split at waited
    · cases waited
      exact ⟨context, present, rfl⟩
    · split at waited
      · cases waited
        exact Kernel.wOpen_setSemaphore present
      · cases waited
  | downTimeout data jiffies =>
    obtain ⟨_, _, same⟩ := Option.map_eq_some_iff.mp performed
    split at same
    · cases same
      exact Kernel.wOpen_setSemaphore present
    · cases same
      exact ⟨context, present, rfl⟩
  | _ =>
    simp only [Kernel.perform, Option.map_eq_some_iff] at performed
    refine ⟨context, ?_, rfl⟩
    grind [Kernel.context]

theorem perform_follows {before after : System K δ} (modest : Modest op)
    (performed : System.perform device moment op before = some (reply, after)) :
    Follows md ⟨thread, op, reply, after⟩ before after := by
  cases op with
  | loop op =>
    obtain ⟨⟨_, station⟩, answered, same⟩ := Option.map_eq_some_iff.mp performed
    cases same
    exact ⟨devhndl_kept modest answered, rfl, rfl, fun context present => ⟨context, present, rfl⟩,
      Nat.le_add_right .., fun units held => ⟨units, held, rfl⟩⟩
  | kernel op =>
    obtain ⟨⟨_, kernel⟩, answered, same⟩ := Option.map_eq_some_iff.mp performed
    cases same
    have files : kernel.files = (before.kernel.later moment.passing).files := by
      refine Kernel.files_kept ?_ answered
      intro _ _ same
      subst same
      exact modest
    have accessible : kernel.accessible = (before.kernel.later moment.passing).accessible :=
      Kernel.accessible_kept answered
    refine ⟨rfl, files, accessible, fun context present => wOpen_kept modest answered present, ?_, fun units held => ?_⟩
    · exact Nat.le_trans (Nat.le_add_right ..) (Kernel.now_le answered)
    · have balanced := @performed_balance _ _ _ op reply md _ thread units answered modest held
      exact balanced

theorem Kept.step {handle : Int} {before after : Run K δ}
    (kept : Kept handle md backlog start before) (acts : Pool.acts (System.perform device) thread op before reply after)
    (modest : Modest op)
    (due : ∀ call ∈ ((observe md before.log).note md ⟨thread, op, reply, after.state⟩).calls, Due call) :
    Kept handle md backlog start after ∧ before.state.kernel.now ≤ after.state.kernel.now := by
  obtain ⟨moment, performed, log⟩ := acts
  have follows := @perform_follows _ _ md _ _ _ thread _ _ _ _ modest performed
  obtain ⟨units, held, equal⟩ := kept.units
  obtain ⟨units', held', equal'⟩ := follows.balance units held
  have counted : units' + after.log.countP (consumes md) = backlog + after.log.countP (lifts md) := by
    rw [log, List.countP_append, List.countP_append, List.countP_singleton, List.countP_singleton]
    omega
  refine ⟨⟨?_, ?_, ?_, ?_, ⟨units', held', counted⟩, ?_, ?_⟩, follows.now⟩
  · rw [follows.handle, kept.devhndl]
  · rw [follows.files, kept.linked]
  · rw [follows.accessible, kept.accessible]
  · intro context present
    obtain ⟨earlier, present', same⟩ := follows.writable context present
    rw [same]
    exact kept.writable earlier present'
  · rw [log] at counted ⊢
    exact kept.account.snoc due (by omega) (Nat.le_trans kept.recent.1 follows.now) fun event member =>
      Nat.le_trans (kept.recent.2 event member) follows.now
  · refine ⟨Nat.le_trans kept.recent.1 follows.now, fun event member => ?_⟩
    rw [log] at member
    rcases List.mem_append.mp member with earlier | last
    · exact Nat.le_trans (kept.recent.2 event earlier) follows.now
    · cases List.mem_singleton.mp last
      exact Nat.le_refl _

/-- A step that puts no byte on the bus calls nothing. -/
theorem Kept.silent {handle : Int} {before after : Run K δ} (kept : Kept handle md backlog start before)
    (acts : Pool.acts (System.perform device) thread op before reply after) (modest : Modest op)
    (silent : ∀ data, op ≠ .loop (.shield (.base (.transfer data)))) :
    Kept handle md backlog start after ∧ before.state.kernel.now ≤ after.state.kernel.now := by
  refine kept.step acts modest ?_
  rw [note_calls silent]
  exact kept.account.due

theorem quiet_step {handle : Int} {task : Unit} {before after : Run K δ} (quiet : Quiet op)
    (kept : Kept handle md backlog start before)
    (acts : Pool.acts (System.perform device) (.task task) op before reply after) :
    Kept handle md backlog start after ∧ Waits md before after := by
  have note := @quiet_note _ _ md op reply task quiet (observe md before.log) after.state
  obtain ⟨kept', later⟩ := kept.silent acts (quiet_modest quiet) (by
    rintro data rfl
    exact quiet)
  obtain ⟨_, _, log⟩ := acts
  refine ⟨kept', ?_, later⟩
  rw [log, observe_snoc]
  exact note

abbrev rules (device : Device δ) (handle : Int) (md : Pointer) (backlog start : Nat) :
    Rules (SystemOp K) SystemOp.Reply (Run K δ) :=
  (protocol K δ handle md backlog start).rules (System.perform device) (.task ())

variable {handle : Int} {world : Run K δ} {α β : Type}

/-- A part of the loop that makes such requests only may be skipped. -/
theorem quiet_then {program : Program (SystemOp K) SystemOp.Reply β} {next : β → Program (SystemOp K) SystemOp.Reply α}
    {post : α → Run K δ → Prop} (uses : program.Uses Quiet) (kept : Kept handle md backlog start world)
    (later : ∀ value, (rules device handle md backlog start).Ensures (next value) post world) :
    (rules device handle md backlog start).Ensures (program.bind next) post world := by
  let since (after : Run K δ) : Prop := Waits md world after
  have keeps : ∀ {op before reply after}, Quiet op → Kept handle md backlog start before → since before →
      (rules device handle md backlog start).acts op before reply after →
        Kept handle md backlog start after ∧ (rules device handle md backlog start).guarantee before after ∧
          since after := by
    intro op before reply after quiet kept before acts
    obtain ⟨kept', waits⟩ := quiet_step quiet kept acts
    exact ⟨kept', trivial, before.trans waits⟩
  have skipped : (rules device handle md backlog start).Ensures program (fun _ => since) world :=
    Rules.Ensures.of_uses (fun moves _ before => before.trans moves) keeps uses ⟨rfl, Nat.le_refl _⟩
  exact Rules.Ensures.bind kept (skipped.mono fun value after _ waits => (later value).stable waits)

/-- Where the rest of the time is not positive, the time is over, however often
the clock has wrapped around. -/
theorem over_of_rest {from_ now : Nat} (elapsed : from_ ≤ now)
    (rest : (BitVec.ofNat 64 from_ + 100000000 - BitVec.ofNat 64 now).toInt ≤ 0) : from_ + period ≤ now := by
  apply Nat.le_of_not_lt
  intro early
  obtain ⟨spent, rfl⟩ := Nat.exists_eq_add_of_le elapsed
  have short : spent < 100000000 := by
    rw [period] at early
    omega
  have whole : BitVec.ofNat 64 from_ + 100000000 - BitVec.ofNat 64 from_ = 100000000 := by bv_omega
  have left := DownTimeout.rest_toInt (BitVec.ofNat 64 from_ + 100000000) from_ spent (by
    rw [whole]
    change -2 ^ 63 ≤ (100000000 : Int) - spent
    omega)
  rw [whole] at left
  have equal : (BitVec.ofNat 64 from_ + 100000000 - BitVec.ofNat 64 (from_ + spent)).toInt = 100000000 - spent := left
  omega

end Steps

section Waiting

variable [Measure K] {device : Device δ} {handle : Int} {world : Run K δ}

abbrev driverRules (device : Device δ) (handle : Int) (md : Pointer) (backlog start : Nat) :
    Rules KernelOp KernelOp.Reply (Run K δ) :=
  (rules device handle md backlog start).via SystemOp.kernel fun _ reply => reply

theorem driver_quiet {op : KernelOp} {reply : op.Reply} {before after : Run K δ} (quiet : Quiet (K := K) (.kernel op))
    (kept : Kept handle md backlog start before)
    (acts : (driverRules device handle md backlog start).acts op before reply after) :
    Kept handle md backlog start after ∧ Waits md before after ∧ ∃ moment : Moment,
      Kernel.perform moment.chance op (before.state.kernel.later moment.passing) =
        some (reply, after.state.kernel) := by
  obtain ⟨_, acts, rfl⟩ := acts
  obtain ⟨kept', waits⟩ := quiet_step quiet kept acts
  obtain ⟨moment, performed, _⟩ := acts
  obtain ⟨⟨_, kernel⟩, answered, same⟩ := Option.map_eq_some_iff.mp performed
  obtain ⟨rfl, left⟩ := Prod.mk.inj same
  refine ⟨kept', waits, moment, ?_⟩
  rw [answered, ← left]

/-- A wait that gets a unit has paid for the cycle; one that fails changes nothing. -/
theorem downTimeout_step {jiffies : Nat} {err : Int} {began : Nat} {before after : Run K δ}
    (begun : Begun md began before)
    (kept : Kept handle md backlog start before)
    (acts : (driverRules device handle md backlog start).acts (.downTimeout md jiffies) before err after) :
    Kept handle md backlog start after ∧ before.state.kernel.now ≤ after.state.kernel.now ∧
      if err = 0 then Paid md after else Begun md began after := by
  obtain ⟨given, acts, rfl⟩ := acts
  obtain ⟨kept', later⟩ := kept.silent acts trivial (fun _ => (nomatch ·))
  obtain ⟨_, _, log⟩ := acts
  refine ⟨kept', later, ?_⟩
  have counts : consumes md (⟨.task (), .kernel (.downTimeout md jiffies), given, after.state⟩ :
      Pacing.Event K δ) = decide ((given : Int) = 0) := by
    simp [consumes, Interrupts.takes, beq_eq_decide]
  split
  next taken =>
    have noted : (observe md after.log).wait =
        { (observe md before.log).wait with units := (observe md before.log).wait.units + 1 } := by
      rw [log, observe_snoc]
      exact congrArg Observed.wait (if_pos (counts.trans (decide_eq_true taken)))
    refine .inl ?_
    dsimp only
    rw [noted, begun.1]
  next failed =>
    rw [decide_eq_false failed] at counts
    have noted : observe md after.log = observe md before.log := by
      rw [log, observe_snoc]
      exact if_neg (Bool.eq_false_iff.mp counts)
    exact begun.stable ⟨noted, later⟩

/-- What a round of the wait leaves; `from_` is when the time began to run. -/
def Rested (md : Pointer) (began from_ : Nat) (last : Int × BitVec 64) (after : Run K δ) : Prop :=
  (last.1 = 0 ∧ Paid md after) ∨ (last.1 ≠ 0 ∧ Begun md began after ∧ from_ ≤ after.state.kernel.now ∧
    (last.2.toInt ≤ 0 → from_ + period ≤ after.state.kernel.now))

theorem waitRound_ensures {began from_ : Nat} {last : Int × BitVec 64} (begun : Begun md began world)
    (since : from_ ≤ world.state.kernel.now) :
    (driverRules device handle md backlog start).Ensures
      (Driver.waitRound 64 md (BitVec.ofNat 64 from_ + 100000000) last)
      (Rested md began from_) world := by
  simp only [Driver.waitRound, bind_eq, Driver.call_bind, pure_eq]
  intro first moves kept jiffies second acts
  obtain ⟨kept, waits, -⟩ := driver_quiet (by trivial) kept acts
  refine ⟨kept, trivial, fun third moves' kept err fourth acts => ?_⟩
  have waited := (Waits.trans moves waits).trans moves'
  obtain ⟨kept, later, outcome⟩ := downTimeout_step (begun.stable waited) kept acts
  refine ⟨kept, trivial, ?_⟩
  dsimp only
  split at outcome
  next taken =>
    rw [if_pos taken]
    exact fun final moves _ => .inl ⟨taken, outcome.stable moves⟩
  next failed =>
    rw [if_neg failed]
    intro fifth moves'' kept now sixth acts
    obtain ⟨kept, passed, moment, answered⟩ := driver_quiet (by trivial) kept acts
    obtain ⟨rfl, clock⟩ := Prod.mk.inj (Option.some.inj answered)
    refine ⟨kept, trivial, fun final last _ => .inr ⟨failed, ?_⟩⟩
    have reached : from_ ≤ sixth.state.kernel.now := by
      have late := Nat.le_trans (Nat.le_trans since waited.2) later
      exact Nat.le_trans (Nat.le_trans late moves''.2) passed.2
    refine ⟨((outcome.stable moves'').stable passed).stable last, Nat.le_trans reached last.2, fun rest => ?_⟩
    refine Nat.le_trans (over_of_rest reached ?_) last.2
    rw [← clock]
    exact rest

theorem downTimeoutms_ensures {began : Nat} (begun : Begun md began world) :
    (driverRules device handle md backlog start).Ensures (Driver.downTimeoutms 64 md 100) (fun _ => Paid md) world := by
  simp only [Driver.downTimeoutms, bind_eq, Driver.call_bind, pure_eq]
  intro first moves kept now second acts
  obtain ⟨kept, passed, moment, answered⟩ := driver_quiet (by trivial) kept acts
  obtain ⟨rfl, clock⟩ := Prod.mk.inj (Option.some.inj answered)
  refine ⟨kept, trivial, ?_⟩
  have begun := (begun.stable moves).stable passed
  have whole : (Driver.facMs2ns 64 * 100).setWidth 64 = 100000000 := by decide
  have enters : Driver.waiting (-1, 100000000) = true := by decide
  rw [clock, whole]
  dsimp only
  rw [whileDo, if_pos enters]
  let from_ := second.state.kernel.now
  let entry (last : Int × BitVec 64) (start : Run K δ) : Prop := Begun md began start ∧ from_ ≤ start.state.kernel.now
  refine Rules.Ensures.loop entry kept ⟨begun, Nat.le_refl _⟩ fun last start _ entered => ?_
  obtain ⟨begun', since⟩ := entered
  apply (waitRound_ensures begun' since).mono
  intro last after _ rested
  rcases rested with ⟨taken, paid⟩ | ⟨failed, begun'', late, lasts⟩
  · have stops : Driver.waiting last = false := by simp [Driver.waiting, taken]
    apply Rules.Exits.intro (fun stays => absurd stays (by rw [stops]; decide))
    intro _
    exact fun final moves _ => paid.stable moves
  · apply Rules.Exits.intro (fun _ => ⟨begun'', late⟩)
    intro stops
    rw [DownTimeout.waiting_iff failed, decide_eq_false_iff_not, Int.not_lt] at stops
    have full : began + period ≤ after.state.kernel.now :=
      Nat.le_trans (Nat.add_le_add_right begun.2 period) (lasts stops)
    have paid : Paid md after := .inr (by dsimp only; rw [begun''.1]; exact ⟨rfl, began, rfl, full⟩)
    exact fun final moves _ => paid.stable moves

theorem privateData_step {context : Pointer} {before after : Run K δ} (ready : (observe md before.log).wait.units = 0)
    (kept : Kept handle md backlog start before)
    (acts : (driverRules device handle md backlog start).acts (.privateData handle.toNat) before context after) :
    context = md ∧ Kept handle md backlog start after ∧ Begun md after.state.kernel.now after := by
  obtain ⟨given, acts, rfl⟩ := acts
  obtain ⟨kept', later⟩ := kept.silent acts trivial (fun _ => (nomatch ·))
  obtain ⟨moment, performed, log⟩ := acts
  obtain ⟨rfl, _⟩ := Prod.mk.inj (Option.some.inj performed)
  refine ⟨kept.linked, kept', ?_, Nat.le_refl _⟩
  rw [log, observe_snoc]
  exact congrArg (Wait.mk · (some after.state.kernel.now)) ready

/-- The wait of the loop, from the entry into the driver. -/
theorem driverUnioctl_ensures (ready : (observe md world.log).wait.units = 0) :
    (driverRules device handle md backlog start).Ensures
      (Driver.driverUnioctl 64 handle.toNat Shield.irqmodDownTimeout 100)
      (fun _ => Paid md) world := by
  simp only [Driver.driverUnioctl, Driver.checkParameter, bind_eq, Driver.call_bind, pure_eq]
  intro first moves kept context second acts
  obtain ⟨linked, kept, begun⟩ := privateData_step ((congrArg (fun observed => observed.wait.units) moves.1).trans ready) kept acts
  refine ⟨kept, trivial, ?_⟩
  have outward : Driver.iocDir Shield.irqmodDownTimeout &&& Driver.iocRead = 0 := by decide
  have inward : Driver.iocDir Shield.irqmodDownTimeout &&& Driver.iocWrite ≠ 0 := by decide
  dsimp only
  rw [if_neg (not_not_intro outward), pure_bind, if_pos inward]
  intro third moves' kept ok fourth acts
  obtain ⟨kept', waits, moment, answered⟩ := driver_quiet (by trivial) kept acts
  have accessible : ok = true := by
    obtain ⟨same, _⟩ := Prod.mk.inj (Option.some.inj answered)
    exact same.symm.trans (Kept.accessible kept)
  refine ⟨kept', trivial, ?_⟩
  have begun := (begun.stable moves').stable waits
  have command : Driver.iocNr Shield.irqmodDownTimeout = Driver.irqmoddevDownTimeout := by decide
  have other : Driver.iocNr Shield.irqmodDownTimeout ≠ Driver.irqmoddevWaitIrq := by decide
  simp only [accessible, Bool.not_true, pure_bind, Bool.false_eq_true, if_false, Driver.myApi, if_neg other,
    if_pos command,
    bind_eq, Driver.call_bind, pure_eq]
  intro fifth moves'' kept wOpen sixth acts
  obtain ⟨kept', passed, moment, answered⟩ := driver_quiet (by trivial) kept acts
  refine ⟨kept', trivial, ?_⟩
  have writable : wOpen ≠ (0 : Int) := by
    obtain ⟨context, present, same⟩ := Option.map_eq_some_iff.mp answered
    obtain ⟨rfl, _⟩ := Prod.mk.inj same
    rw [linked] at present
    exact Kept.writable kept context present
  dsimp only
  rw [if_neg writable, linked]
  exact downTimeoutms_ensures ((begun.stable moves'').stable passed)

/-- The wait of the loop pays for the cycle after it. -/
theorem waitforirqOrTimeout_ensures (opened : handle ≠ -1) (ready : (observe md world.log).wait.units = 0) :
    (rules device handle md backlog start).Ensures
      ((RealTimeLoop.shield (Shield.waitforirqOrTimeout 100)).expand entering)
      (fun _ => Paid md) world := by
  simp only [RealTimeLoop.shield, Shield.waitforirqOrTimeout, bind_eq, Shield.call_bind, Program.embed, expand_request]
  -- the handle is loaded twice, to be tested and to be passed on
  have loads : ∀ {next : Int → Program (SystemOp K) SystemOp.Reply Int} {world : Run K δ},
    (∀ later, Waits md world later →
      Kept handle md backlog start later → (rules device handle md backlog start).Ensures (next handle)
        (fun _ => Paid md) later) →
      (rules device handle md backlog start).Ensures (.request (.loop (.shield .loadDevhndl)) next)
        (fun _ => Paid md) world := by
    intro next world rest between moves kept devhndl after acts
    obtain ⟨kept', waits⟩ := quiet_step (by trivial) kept acts
    obtain ⟨moment, performed, _⟩ := acts
    obtain ⟨rfl, _⟩ := Prod.mk.inj (Option.some.inj performed)
    refine ⟨kept', trivial, ?_⟩
    have same : between.state.station.board.devhndl = handle := Kept.devhndl kept
    rw [same]
    exact rest after (Waits.trans moves waits) kept'
  apply loads
  intro first moves kept
  rw [pure_bind, if_pos opened]
  refine loads fun second moves' kept => ?_
  have ready' : (observe md second.log).wait.units = 0 := (congrArg (fun observed => observed.wait.units) (moves.trans moves').1).trans ready
  rw [pure_bind]
  refine Rules.Ensures.bind kept ((Rules.Ensures.embed (driverUnioctl_ensures ready')).mono fun _ after _ paid => ?_)
  exact fun final moves _ => paid.stable moves

end Waiting

section Bus

variable {world : Run K δ} {α : Type}

theorem base_eq (program : Rpi α) : ((RealTimeLoop.shield (Shield.base program) : Loop K α).expand entering) =
    program.embed (fun op => SystemOp.loop (.shield (.base op))) fun _ reply => reply := by
  rw [RealTimeLoop.shield, Shield.base, embed_embed]
  induction program with
  | pure value => rfl
  | request op next ih => exact congrArg (Program.request _) (funext fun reply => ih reply)
  | doWhile body again first next bodyIh ih =>
    have bodies := funext bodyIh
    have rests := funext ih
    simp only [embed, expand, bodies, rests]

/-- No interrupt was consumed since the last call. -/
def Idle (md : Pointer) (world : Run K δ) : Prop := (observe md world.log).wait.units = 0

/-- A select window is under way, in which these bytes were sent so far. -/
def Sent (md : Pointer) (waited : Wait) (fell : Nat) (sent : List Byte) (world : Run K δ) : Prop :=
  (observe md world.log).wait = waited ∧ (observe md world.log).window = some ⟨fell, waited, sent⟩

/-- The window that is under way is none of a call. -/
def Off (md : Pointer) (world : Run K δ) : Prop :=
  Idle md world ∧ ∀ window, (observe md world.log).window = some window → ¬ window.sent <+: wdogRequest

section Facts

variable {waited : Wait} {fell : Nat} {sent : List Byte} {later : Run K δ}

theorem Idle.stable (waits : Waits md world later) (idle : Idle md world) : Idle md later := by
  unfold Idle
  rw [waits.1]
  exact idle

theorem Sent.stable (waits : Waits md world later) (under : Sent md waited fell sent world) :
    Sent md waited fell sent later := by
  unfold Sent
  rw [waits.1]
  exact under

theorem Off.stable (waits : Waits md world later) (off : Off md world) : Off md later := by
  refine ⟨off.1.stable waits, ?_⟩
  rw [waits.1]
  exact off.2

theorem Sent.off (under : Sent md waited fell sent world) (idle : waited.units = 0) (other : ¬ sent <+: wdogRequest) :
    Off md world := by
  refine ⟨(congrArg Wait.units under.1).trans idle, fun window opened => ?_⟩
  cases under.2.symm.trans opened
  exact other

theorem transfer_note {data answer : Byte} (observed : Observed) (system : System K δ) :
    observed.note md ⟨.task (), .loop (.shield (.base (.transfer data))), answer, system⟩ = observed.send data := rfl

theorem send_other {observed : Observed} {data : Byte}
    (other : ∀ window, observed.window = some window → window.sent ++ [data] ≠ wdogRequest) :
    observed.send data = { observed with
      window := observed.window.map fun window => { window with sent := window.sent ++ [data] } } := by
  obtain ⟨wait, window, calls⟩ := observed
  cases window with
  | none => rfl
  | some window => exact if_neg (other window rfl)

end Facts

/-- Accesses that open no window. -/
def Within : RpiOp → Prop
  | .select .low => False
  | _ => True

def Aside : RpiOp → Prop
  | .select .low | .transfer _ => False
  | _ => True

theorem aside_quiet {op : RpiOp} (aside : Aside op) : Quiet (K := K) (.loop (.shield (.base op))) := by
  cases op with
  | select level =>
    cases level with
    | low => exact aside
    | high => trivial
  | transfer => exact aside
  | _ => trivial

variable [Measure K] {device : Device δ} {handle : Int}

abbrev busRules (device : Device δ) (handle : Int) (md : Pointer) (backlog start : Nat) :
    Rules RpiOp RpiOp.Reply (Run K δ) :=
  (rules device handle md backlog start).via (fun op => SystemOp.loop (.shield (.base op))) fun _ reply => reply

section Steps

variable {waited : Wait} {fell : Nat} {sent : List Byte} {before after : Run K δ}

theorem select_step {done : Unit} (kept : Kept handle md backlog start before)
    (acts : Pool.acts (System.perform device) (.task ()) (.loop (.shield (.base (.select .low)))) before done after) :
    Kept handle md backlog start after ∧ before.state.kernel.now ≤ after.state.kernel.now ∧
      Sent md (observe md before.log).wait after.state.kernel.now [] after := by
  obtain ⟨kept', later⟩ := kept.silent acts trivial (fun _ => (nomatch ·))
  obtain ⟨_, _, log⟩ := acts
  refine ⟨kept', later, ?_⟩
  rw [Sent, log, observe_snoc]
  exact ⟨rfl, rfl⟩

/-- A byte that does not complete the request of a call. -/
theorem transfer_step {data answer : Byte} (kept : Kept handle md backlog start before)
    (acts : Pool.acts (System.perform device) (.task ()) (.loop (.shield (.base (.transfer data)))) before answer after)
    (other : ∀ window, (observe md before.log).window = some window → window.sent ++ [data] ≠ wdogRequest) :
    Kept handle md backlog start after ∧ observe md after.log = { observe md before.log with
      window := (observe md before.log).window.map fun window => { window with sent := window.sent ++ [data] } } := by
  have kept' := kept.step acts trivial (by
    rw [transfer_note, send_other other]
    exact kept.account.due)
  refine ⟨kept'.1, ?_⟩
  obtain ⟨_, _, log⟩ := acts
  rw [log, observe_snoc, transfer_note, send_other other]

theorem Sent.step {data answer : Byte} (under : Sent md waited fell sent before)
    (kept : Kept handle md backlog start before)
    (acts : Pool.acts (System.perform device) (.task ()) (.loop (.shield (.base (.transfer data)))) before answer after)
    (other : sent ++ [data] ≠ wdogRequest) :
    Kept handle md backlog start after ∧ Sent md waited fell (sent ++ [data]) after := by
  obtain ⟨kept', left⟩ := transfer_step kept acts (by
    intro window opened
    cases under.2.symm.trans opened
    exact other)
  refine ⟨kept', ?_⟩
  rw [Sent, left, under.2]
  exact ⟨under.1, rfl⟩

theorem Off.step {data answer : Byte} (off : Off md before) (kept : Kept handle md backlog start before)
    (acts : Pool.acts (System.perform device) (.task ()) (.loop (.shield (.base (.transfer data)))) before answer after) :
    Kept handle md backlog start after ∧ Off md after := by
  have longer : ∀ window : Window, ¬ window.sent <+: wdogRequest → ¬ window.sent ++ [data] <+: wdogRequest :=
    fun window other goes => other ((List.prefix_append ..).trans goes)
  obtain ⟨kept', left⟩ := transfer_step kept acts (by
    intro window opened whole
    exact longer window (off.2 window opened) (whole ▸ List.prefix_refl _))
  refine ⟨kept', ?_⟩
  rw [Off, Idle, left]
  refine ⟨off.1, fun window opened => ?_⟩
  obtain ⟨window', opened', rfl⟩ := Option.map_eq_some_iff.mp opened
  exact longer window' (off.2 window' opened')

/-- The last byte of the request: `MainTask` was called, and its wait is used up. -/
theorem Sent.call {data answer : Byte} (under : Sent md waited fell sent before)
    (kept : Kept handle md backlog start before)
    (acts : Pool.acts (System.perform device) (.task ()) (.loop (.shield (.base (.transfer data)))) before answer after)
    (due : Due { fell, wait := waited }) (whole : sent ++ [data] = wdogRequest) :
    Kept handle md backlog start after ∧ Off md after := by
  have left : (observe md before.log).send data =
      { calls := (observe md before.log).calls ++ [⟨fell, waited, sent ++ [data]⟩] } := by
    unfold Observed.send
    rw [under.2]
    exact if_pos whole
  have kept' := kept.step acts trivial (by
    rw [transfer_note, left]
    intro call member
    rcases List.mem_append.mp member with earlier | last
    · exact kept.account.due call earlier
    · cases List.mem_singleton.mp last
      exact due)
  refine ⟨kept'.1, ?_⟩
  obtain ⟨_, _, log⟩ := acts
  rw [Off, Idle, log, observe_snoc, transfer_note, left]
  exact ⟨rfl, fun _ => (nomatch ·)⟩

end Steps

/-- What follows in a window that is none of a call. -/
theorem within_ensures {program : Rpi α} (uses : program.Uses Within) (off : Off md world) :
    (busRules device handle md backlog start).Ensures program (fun _ => Off md) world := by
  refine Rules.Ensures.of_uses (fun moves _ off => off.stable moves) ?_ uses off
  rintro op before reply after inside kept off ⟨given, acts, rfl⟩
  cases op with
  | transfer data =>
    obtain ⟨kept', off'⟩ := off.step kept acts
    exact ⟨kept', trivial, off'⟩
  | select level =>
    cases level with
    | low => exact inside.elim
    | high =>
      obtain ⟨kept', waits⟩ := quiet_step (by trivial) kept acts
      exact ⟨kept', trivial, off.stable waits⟩
  | _ =>
    obtain ⟨kept', waits⟩ := quiet_step (by trivial) kept acts
    exact ⟨kept', trivial, off.stable waits⟩

theorem aside_ensures {program : Rpi α} (uses : program.Uses Aside) (idle : Idle md world) :
    (busRules device handle md backlog start).Ensures program (fun _ => Idle md) world := by
  refine Rules.Ensures.of_uses (fun moves _ idle => idle.stable moves) ?_ uses idle
  rintro op before reply after aside kept idle ⟨given, acts, rfl⟩
  obtain ⟨kept', waits⟩ := quiet_step (aside_quiet aside) kept acts
  exact ⟨kept', trivial, idle.stable waits⟩

/-- These bytes, then the rest. -/
def sends : List Byte → Rpi α → Rpi α
  | [], rest => rest
  | data :: more, rest => .request (.transfer data) fun _ => sends more rest

theorem sends_ensures {waited : Wait} {fell : Nat} {sent header : List Byte} {rest : Rpi α}
    {post : α → Run K δ → Prop} (under : Sent md waited fell sent world)
    (short : (sent ++ header).length < wdogRequest.length)
    (later : ∀ after, Kept handle md backlog start after → Sent md waited fell (sent ++ header) after →
      (busRules device handle md backlog start).Ensures rest post after)
    (kept : Kept handle md backlog start world) :
    (busRules device handle md backlog start).Ensures (sends header rest) post world := by
  induction header generalizing sent world with
  | nil => exact later world kept (by rwa [List.append_nil])
  | cons data more ih =>
    rintro between moves kept' _ after ⟨given, acts, rfl⟩
    have other : sent ++ [data] ≠ wdogRequest := by
      intro whole
      rw [← whole] at short
      simp at short
    obtain ⟨kept'', under'⟩ := (under.stable moves).step kept' acts other
    have regroup : sent ++ data :: more = sent ++ [data] ++ more := List.append_cons ..
    rw [regroup] at short later
    exact ⟨kept'', trivial, ih under' short later kept''⟩

/-- A select window of the loop that is none of a call. -/
theorem window_ensures {header : List Byte} {rest : Rpi α} (short : header.length < wdogRequest.length)
    (other : ¬ header <+: wdogRequest) (uses : rest.Uses Within) (idle : Idle md world) :
    (busRules device handle md backlog start).Ensures (.request (.select .low) fun _ => sends header rest)
      (fun _ => Idle md) world := by
  rintro between moves kept _ after ⟨given, acts, rfl⟩
  obtain ⟨kept', _, under⟩ := select_step kept acts
  refine ⟨kept', trivial, sends_ensures under (by simpa using short) (fun after kept under => ?_) kept'⟩
  have waited : (observe md between.log).wait.units = 0 := idle.stable moves
  exact (within_ensures uses (under.off waited (by simpa using other))).mono fun _ _ _ off => off.1

end Bus

section MainTask
open Rpi

variable [Measure K] {device : Device δ} {handle : Int} {world : Run K δ} {α : Type}

abbrev Spares (device : Device δ) (handle : Int) (md : Pointer) (backlog start : Nat) (program : Rpi α)
    (world : Run K δ) : Prop :=
  (busRules device handle md backlog start).Ensures program (fun _ => Idle md) world

theorem aside_then {β : Type} {program : Rpi β} {next : β → Rpi α} {post : α → Run K δ → Prop}
    (uses : program.Uses Aside) (idle : Idle md world) (kept : Kept handle md backlog start world)
    (later : ∀ value after, Kept handle md backlog start after → Idle md after →
      (busRules device handle md backlog start).Ensures (next value) post after) :
    (busRules device handle md backlog start).Ensures (program.bind next) post world :=
  Rules.Ensures.bind kept ((aside_ensures uses idle).mono fun value after kept idle => later value after kept idle)

theorem readReg_spares (address : BitVec 16) (len : Byte) (idle : Idle md world) (kept : Kept handle md backlog start world) :
    Spares device handle md backlog start (readReg address len) world := by
  simp only [readReg, bind_eq, pure_eq]
  refine aside_then ⟨trivial, fun _ => trivial⟩ idle kept fun result after kept idle => ?_
  have other : ¬ [commSpiRead, byte address 1, byte address 0] <+: wdogRequest := by
    intro goes
    exact absurd (List.cons_prefix_cons.mp goes).1 (by decide)
  refine window_ensures (Nat.lt_of_sub_eq_succ rfl) other ?_ idle
  refine Uses.bind (Uses.forUp _ _ _ fun _ _ => ⟨trivial, fun _ => trivial⟩) fun _ => ?_
  exact ⟨trivial, fun _ => trivial⟩

theorem writeReg_spares {address : BitVec 16} {dataOut : BitVec 32}
    (other : ¬ [commSpiWrite, byte address 1, byte address 0, byte dataOut 0] <+: wdogRequest) (idle : Idle md world) :
    Spares device handle md backlog start (writeReg address dataOut) world := by
  refine window_ensures (Nat.lt_of_sub_eq_succ rfl) other ?_ idle
  repeat refine ⟨trivial, fun _ => ?_⟩
  trivial

theorem polls_spare (address : BitVec 16) {again : BitVec 32 → Bool} (idle : Idle md world)
    (kept : Kept handle md backlog start world) :
    Spares device handle md backlog start (loop (readReg address 4) again) world :=
  Rules.Ensures.loop (fun _ => Idle md) kept idle fun _ _ kept idle =>
    (readReg_spares address 4 idle kept).mono fun _ _ _ idle =>
      Rules.Exits.intro (fun _ => idle) fun _ _ moves _ => idle.stable moves

theorem wdogRequest_eq (local_ : BitVec 32) : [commSpiWrite, byte ecatCsrCmd 1, byte ecatCsrCmd 0] ++
    (List.range 4).map (byte (csrCommand local_ wdogStatus 1 escRead)) = wdogRequest := by
  rw [SpiTraffic.csrCommand_eq]
  decide

/-- The first access of `MainTask` is its call. -/
theorem wdog_ensures (local_ : BitVec 32) (paid : Paid md world) :
    Spares device handle md backlog start (writeReg ecatCsrCmd (csrCommand local_ wdogStatus 1 escRead)) world := by
  have whole := wdogRequest_eq local_
  generalize csrCommand local_ wdogStatus 1 escRead = dataOut at whole ⊢
  rintro between moves kept _ after ⟨given, acts, rfl⟩
  have due := paid.stable moves
  obtain ⟨kept', later, under⟩ := select_step kept acts
  have fallen : Due { fell := after.state.kernel.now, wait := (observe md between.log).wait } :=
    due.imp_right fun ⟨untaken, began, waited, elapsed⟩ => ⟨untaken, began, waited, Nat.le_trans elapsed later⟩
  let header : List Byte := [commSpiWrite, byte ecatCsrCmd 1, byte ecatCsrCmd 0, byte dataOut 0, byte dataOut 1,
    byte dataOut 2]
  have rest : ∀ after' : Run K δ, Kept handle md backlog start after' →
      Sent md (observe md between.log).wait after.state.kernel.now ([] ++ header) after' →
        Spares device handle md backlog start (.request (.transfer (byte dataOut 3)) fun _ => select .high) after' := by
    rintro after' _ under between' moves kept _ last ⟨given, acts, rfl⟩
    obtain ⟨kept, off⟩ := (under.stable moves).call kept acts fallen whole
    have closes : (select .high).Uses Within := ⟨trivial, fun _ => trivial⟩
    exact ⟨kept, trivial, (within_ensures closes off).mono fun _ _ _ off => off.1⟩
  exact ⟨kept', trivial, sends_ensures under (Nat.lt_of_sub_eq_succ rfl) rest kept'⟩

theorem readRegWait_rest (address : BitVec 16) (len : Byte) (idle : Idle md world)
    (kept : Kept handle md backlog start world) : Spares device handle md backlog start
      ((loop (readReg ecatCsrCmd 4) csrBusy).bind fun _ => readReg address len) world :=
  Rules.Ensures.bind kept ((polls_spare ecatCsrCmd idle kept).mono fun _ _ kept idle =>
    readReg_spares address len idle kept)

theorem wdogStatus_ensures (paid : Paid md world) :
    Spares device handle md backlog start (readRegWait wdogStatus 1) world := by
  simp only [readRegWait, bind_eq, indeterminate_bind]
  rintro between moves kept _ after ⟨given, acts, rfl⟩
  obtain ⟨kept', waits⟩ := quiet_step (by trivial) kept acts
  have paid := (paid.stable moves).stable waits
  exact ⟨kept', trivial, Rules.Ensures.bind kept' ((wdog_ensures _ paid).mono fun _ _ kept idle =>
    readRegWait_rest ecatCsrData 1 idle kept)⟩

theorem alStatus_spares (idle : Idle md world) (kept : Kept handle md backlog start world) :
    Spares device handle md backlog start (readRegWait alStatusReg0 1) world := by
  simp only [readRegWait, bind_eq]
  refine aside_then ⟨trivial, fun _ => trivial⟩ idle kept fun tempLong after kept idle => ?_
  have other : ¬ [commSpiWrite, byte ecatCsrCmd 1, byte ecatCsrCmd 0,
      byte (csrCommand tempLong alStatusReg0 1 escRead) 0] <+: wdogRequest := by
    rw [SpiTraffic.csrCommand_eq]
    decide
  exact Rules.Ensures.bind kept ((writeReg_spares other idle).mono fun _ _ kept idle =>
    readRegWait_rest ecatCsrData 1 idle kept)

theorem increment_aside : (increment .atomiccounter).Uses Aside := ⟨trivial, fun _ => ⟨trivial, fun _ => trivial⟩⟩

theorem spiReadProcRamFifo_spares (idle : Idle md world) (kept : Kept handle md backlog start world) :
    Spares device handle md backlog start spiReadProcRamFifo world := by
  simp only [spiReadProcRamFifo, bind_eq]
  refine aside_then increment_aside idle kept fun _ first kept idle => ?_
  refine Rules.Ensures.bind kept ((writeReg_spares (by decide) idle).mono fun _ second kept idle => ?_)
  refine Rules.Ensures.bind kept ((writeReg_spares (by decide) idle).mono fun _ third kept idle => ?_)
  refine Rules.Ensures.bind kept ((polls_spare ecatPramRdCmd idle kept).mono fun _ fourth kept idle => ?_)
  refine window_ensures (show [commSpiRead, 0x00, 0x00].length < wdogRequest.length by decide) (by decide) ?_ idle
  refine Uses.bind (Uses.forUp _ _ _ fun _ _ => ⟨trivial, fun _ => ⟨trivial, fun _ => trivial⟩⟩) fun _ => ?_
  refine Uses.bind (Uses.forUp _ _ _ fun _ _ => ⟨trivial, fun _ => ⟨trivial, fun _ => trivial⟩⟩) fun _ => ?_
  exact ⟨trivial, fun _ => ⟨trivial, fun _ => ⟨trivial, fun _ => trivial⟩⟩⟩

theorem spiWriteProcRamFifo_spares (idle : Idle md world) (kept : Kept handle md backlog start world) :
    Spares device handle md backlog start spiWriteProcRamFifo world := by
  simp only [spiWriteProcRamFifo, bind_eq]
  refine aside_then ⟨trivial, fun _ => trivial⟩ idle kept fun index first kept idle => ?_
  refine aside_then (Uses.forUp _ _ _ fun _ _ => ⟨trivial, fun _ => ⟨trivial, fun _ => trivial⟩⟩) idle kept
    fun _ second kept idle => ?_
  refine Rules.Ensures.bind kept ((writeReg_spares (by decide) idle).mono fun _ third kept idle => ?_)
  refine Rules.Ensures.bind kept ((writeReg_spares (by decide) idle).mono fun _ fourth kept idle => ?_)
  refine Rules.Ensures.bind kept ((polls_spare ecatPramWrCmd idle kept).mono fun _ fifth kept idle => ?_)
  refine window_ensures (show [commSpiWrite, 0x00, 0x20].length < wdogRequest.length by decide) (by decide) ?_ idle
  refine Uses.bind (Uses.forUp _ _ _ fun _ _ => ⟨trivial, fun _ => ⟨trivial, fun _ => trivial⟩⟩) fun _ => ?_
  exact ⟨trivial, fun _ => ⟨trivial, fun _ => ⟨trivial, fun _ => trivial⟩⟩⟩

/-- `MainTask` is called once, and uses up the wait in front of it. -/
theorem mainTask_ensures (paid : Paid md world) (kept : Kept handle md backlog start world) :
    Spares device handle md backlog start mainTask world := by
  simp only [mainTask, bind_eq, pure_eq]
  refine Rules.Ensures.bind kept ((wdogStatus_ensures paid).mono fun watchdog first kept idle => ?_)
  refine Rules.Ensures.bind kept ((alStatus_spares idle kept).mono fun status second kept idle => ?_)
  have delivers : ∀ (third : Run K δ) value, Kept handle md backlog start third → Idle md third →
      Spares device handle md backlog start (spiWriteProcRamFifo.bind fun _ => .pure (value : Byte)) third :=
    fun third value kept idle => Rules.Ensures.bind kept ((spiWriteProcRamFifo_spares idle kept).mono
      fun _ _ _ idle _ moves _ => idle.stable moves)
  split
  · exact aside_then (Uses.forUp _ _ _ fun _ _ => ⟨trivial, fun _ => trivial⟩) idle kept fun _ third kept idle =>
      delivers third _ kept idle
  · exact Rules.Ensures.bind kept ((spiReadProcRamFifo_spares idle kept).mono fun _ third kept idle =>
      delivers third _ kept idle)

end MainTask

section Loop

variable [Measure K] {device : Device δ} {handle : Int} {world : Run K δ}

theorem recordTimes_quiet (startRun : BitVec 64) :
    ((RealTimeLoop.recordTimes startRun : Loop K Unit).expand entering).Uses Quiet := by
  simp only [RealTimeLoop.recordTimes, bind_eq, RealTimeLoop.call_bind, expand_request]
  refine ⟨trivial, fun count => ?_⟩
  change Uses Quiet (expand entering (if 1 < count then _ else _))
  split
  · exact ⟨trivial, fun _ => ⟨trivial, fun _ => ⟨trivial, fun _ => ⟨trivial, fun _ => trivial⟩⟩⟩⟩
  · trivial

omit [Measure K] in
theorem call_quiet (op : LoopOp K) (own : entering op = ask (SystemOp.loop op)) (quiet : Quiet (.loop op)) :
    ((RealTimeLoop.call op).expand entering).Uses Quiet := by
  have made : (entering op).Uses Quiet := by
    rw [own]
    exact ⟨quiet, fun _ => trivial⟩
  exact Uses.bind made fun _ => trivial

theorem rest_ensures {startRun : BitVec 64} (kept : Kept handle md backlog start world) (idle : Idle md world) :
    (rules device handle md backlog start).Ensures
      (((RealTimeLoop.call (.gpio .low) : Loop K Unit).expand entering).bind fun _ =>
        ((RealTimeLoop.call .getns : Loop K (BitVec 64)).expand entering).bind fun endRun =>
          ((RealTimeLoop.call (.store .lastruntime (endRun - startRun)) : Loop K Unit).expand entering).bind fun _ =>
            ((RealTimeLoop.recordTimes startRun : Loop K Unit).expand entering).bind fun _ =>
              ((RealTimeLoop.call (.load .count) : Loop K (BitVec 64)).expand entering).bind fun count =>
                ((RealTimeLoop.call (.store .count (count + 1)) : Loop K Unit).expand entering).bind fun _ =>
                  (RealTimeLoop.call (.store .laststart startRun) : Loop K Unit).expand entering)
      (fun _ => Idle md) world := by
  refine quiet_then (call_quiet (.gpio .low) rfl trivial) kept fun _ => ?_
  refine quiet_then (call_quiet .getns rfl trivial) kept fun endRun => ?_
  refine quiet_then (call_quiet (.store .lastruntime _) rfl trivial) kept fun _ => ?_
  refine quiet_then (recordTimes_quiet startRun) kept fun _ => ?_
  refine quiet_then (call_quiet (.load .count) rfl trivial) kept fun count => ?_
  refine quiet_then (call_quiet (.store .count _) rfl trivial) kept fun _ => ?_
  rw [← bind_pure ((RealTimeLoop.call (.store .laststart startRun)).expand entering)]
  exact quiet_then (call_quiet (.store .laststart startRun) rfl trivial) kept fun _ later moves _ => idle.stable moves

theorem iteration_ensures (opened : handle ≠ -1) (kept : Kept handle md backlog start world) (ready : Idle md world) :
    (rules device handle md backlog start).Ensures ((RealTimeLoop.iteration : Loop K Unit).expand entering)
      (fun _ => Idle md) world := by
  simp only [RealTimeLoop.iteration, bind_eq, expand_bind, base_eq]
  refine Rules.Ensures.bind kept ((waitforirqOrTimeout_ensures opened ready).mono fun _ waited kept paid => ?_)
  refine quiet_then (call_quiet .getns rfl trivial) kept fun startRun => ?_
  refine quiet_then (call_quiet (.gpio .high) rfl trivial) kept fun _ => ?_
  exact Rules.Ensures.bind kept ((Rules.Ensures.embed (mainTask_ensures paid kept)).mono fun _ _ kept idle =>
    rest_ensures kept idle)

theorem executeFromthread_ensures (opened : handle ≠ -1) (kept : Kept handle md backlog start world)
    (ready : Idle md world) :
    (rules device handle md backlog start).Ensures ((RealTimeLoop.executeFromthread : Loop K Unit).expand entering)
      (fun _ _ => True) world := by
  refine Rules.Ensures.loop (fun _ => Idle md) kept ready fun _ begun kept ready => ?_
  exact (iteration_ensures opened kept ready).mono fun _ after _ ready => ready

theorem interrupt_ensures (number : Nat) :
    ((protocol K δ handle md backlog start).rules (System.perform device) (.irq number)).Ensures
    (Driver.interrupt.embed SystemOp.kernel fun _ reply => reply) (fun _ _ => True) world := by
  let raising (op : SystemOp K) : Prop := ∃ inner, op = .kernel inner ∧ Raising inner
  have uses : (Driver.interrupt.embed SystemOp.kernel fun _ reply => reply :
      Program (SystemOp K) SystemOp.Reply Unit).Uses raising :=
    ⟨⟨_, rfl, trivial⟩, fun _ => ⟨⟨_, rfl, trivial⟩, fun _ => trivial⟩⟩
  refine Rules.Ensures.of_uses (fun _ _ => id) ?_ uses trivial
  intro _ before reply after given kept _ acts
  obtain ⟨op, rfl, raises⟩ := given
  obtain ⟨kept', later⟩ := kept.silent acts (counting_of_raising raises) (fun _ => (nomatch ·))
  obtain ⟨_, _, log⟩ := acts
  refine ⟨kept', ⟨?_, later⟩, trivial⟩
  rw [log, observe_snoc]
  cases op with
  | dispatch | up => rfl
  | _ => exact raises.elim

theorem starts {system : System K δ} (ready : Initialised system md backlog) :
    (protocol K δ system.station.board.devhndl md backlog system.kernel.now).Holds (System.perform device)
      (fun _ _ _ => True)
      (pool system) := by
  have kept : Kept system.station.board.devhndl md backlog system.kernel.now ⟨system, []⟩ := by
    refine ⟨rfl, ready.linked, ready.accessible, ready.writable, ⟨backlog, ready.semaphore, rfl⟩, ⟨?_, ?_, ?_, ?_⟩,
      Nat.le_refl _, ?_⟩
    · exact fun call => (nomatch ·)
    · intro earlier later split
      obtain ⟨rfl, _⟩ := List.append_eq_nil_iff.mp split.symm
      exact Nat.zero_le _
    · exact fun event => (nomatch ·)
    · exact List.Pairwise.nil
    · exact fun event => (nomatch ·)
  refine ⟨kept, fun thread => ?_⟩
  cases thread with
  | task => exact executeFromthread_ensures ready.opened kept rfl
  | irq number => exact interrupt_ensures number

def systemHandling : Visit (KernelThread Unit) (SystemOp K) SystemOp.Reply (System K δ) Pointer :=
  Handlers.handling.among inKernel

omit [Measure K] in
theorem entering_silent (op : LoopOp K) :
    (entering op).Uses (systemHandling : Visit (KernelThread Unit) (SystemOp K) _ (System K δ) _).Silent := by
  have alone : (ask (SystemOp.loop op) : Program (SystemOp K) SystemOp.Reply op.Reply).Uses
      (systemHandling : Visit (KernelThread Unit) (SystemOp K) _ (System K δ) _).Silent :=
    Uses.ask fun _ _ _ => ⟨rfl, rfl⟩
  cases op with
  | shield op =>
    cases op with
    | ioctl handle cmd arg =>
      refine Uses.through (Conservation.driverUnioctl_serves.mono fun op serving => ?_)
      exact fun thread reply state => Handlers.silent_of_tasking (Conservation.tasking_of_serving serving) thread reply
        state.kernel
    | _ => exact alone
  | _ => exact alone

theorem pool_staged (system : System K δ) : (pool system).Staged systemHandling
  | .task _ => .outside (Uses.expand (Uses.of_forall (fun _ => trivial) _) fun op _ => entering_silent op)
      fun _ => (nomatch ·)
  | .irq _ => .before (Visit.entering_among Handlers.interrupt_enters fun _ _ _ _ => rfl)

omit [Measure K] in
theorem lifts_eq (event : Pacing.Event K δ) : lifts md event = decide (systemHandling.leaves event = some md) := by
  obtain ⟨thread, op, reply, system⟩ := event
  cases op with
  | loop op => rfl
  | kernel op => exact Handlers.raises_eq ⟨thread, op, reply, system.kernel⟩

/-- Every run of the loop is paced, whenever interrupts come and however many
were handled before it began. -/
theorem cycles_paced (device : Device δ) (system : System K δ) (md : Pointer) (backlog : Nat)
    (schedule : List (KernelThread Unit × Moment))
    (reached : Pool (KernelThread Unit) (SystemOp K) SystemOp.Reply (System K δ) Pacing.Result)
    (ready : Initialised system md backlog) (ran : (pool system).run (System.perform device) schedule = some reached) :
    Paced md backlog system.kernel.now reached := by
  have kept := (Protocol.run_holds (starts ready) ran).1
  have staged := Pool.run_staged (pool_staged system) ran
  have raised : ∀ within : Pacing.Event K δ → Bool, reached.world.log.countP (fun event => lifts md event && within event) =
      reached.world.log.countP fun event => decide (systemHandling.leaves event = some md) && within event := by
    intro within
    refine List.countP_congr fun event _ => ?_
    rw [lifts_eq]
  refine ⟨kept.account.due, ?_, fun time => ?_⟩
  · obtain ⟨units, held, equal⟩ := kept.units
    have all := raised fun _ => true
    simp only [Bool.and_true] at all
    rw [all, staged.left md] at equal
    exact ⟨units, held, equal⟩
  · have sorted : reached.world.log.Pairwise fun first last =>
        decide (at_ last ≤ time) = true → decide (at_ first ≤ time) = true :=
      kept.account.ordered.imp fun later => by simpa using Nat.le_trans later
    have bounded := kept.account.bounded time
    rw [liftedBy, raised, staged.left_within sorted md] at bounded
    exact bounded

end Loop

/-- A handle that was opened for writing and got no interrupt yet. -/
def bench : System Float Unit where
  station :=
    { board := { machine := ⟨{}, (), fun _ => 0⟩, devhndl := 0 }
      timers := fun _ => 0
      tools := fun _ => .zero
      clock := fun _ => 0 }
  kernel :=
    { contexts := fun _ => some { wOpen := 1, irqLsigsema := some 0 }
      files := fun _ => { privateData := some 0 }
      irqs := [(0, some 0)] }

/-- A chip that answers every byte with `09` is not operational and takes every frame. -/
def ninth : Device Unit := ⟨fun _ state => state, fun _ state => (0x09, state)⟩

/-- An interrupt is handled, `MainTask` runs for it, and runs again when the next wait has timed out. -/
def served : List (KernelThread Unit × Moment) :=
  List.replicate 2 (.irq 0, ({} : Moment)) ++ List.replicate 201 (.task (), { chance := { elapsed := 3999999 } })

theorem cycles_paced_served : ∃ reached, (pool bench).run (System.perform ninth) served = some reached ∧
    (observe (some 0) reached.world.log).calls.map Window.fell = [3999999, 103999999] ∧
      handled (some 0) reached = 1 ∧ Paced (some 0) 0 0 reached := by
  have ends : ((pool bench).run (System.perform ninth) served).map (fun reached =>
      ((observe (some 0) reached.world.log).calls.map Window.fell, handled (some 0) reached)) =
        some ([3999999, 103999999], 1) := by decide +kernel
  obtain ⟨reached, ran, same⟩ := Option.map_eq_some_iff.mp ends
  obtain ⟨calls, once⟩ := Prod.mk.inj same
  have ready : Initialised bench (some 0) 0 := by
    refine ⟨by decide, rfl, ?_, rfl, rfl⟩
    intro _ stopped
    cases stopped
    decide
  exact ⟨reached, ran, calls, once, cycles_paced ninth bench (some 0) 0 served reached ready ran⟩

end EthercatSlave.Proofs.CyclePacing
