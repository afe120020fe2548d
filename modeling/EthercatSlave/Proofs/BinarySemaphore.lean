import EthercatSlave.NamedMutex
import EthercatSlave.Proofs.RelyGuarantee
import EthercatSlave.Proofs.Runs

/-! The value of the semaphore against the locks that returned and the units that were
posted. A reset posts a unit that no lock took. As long as the resets keep out of the
way, at most one client holds the unit, or the semaphore has it. -/

namespace EthercatSlave.Proofs.BinarySemaphore
open NamedMutex

variable {ι : Type} [DecidableEq ι] {log : Log ι} {event : Event ι SemOp SemOp.Reply NamedSemaphore}

abbrev Clients (ι : Type) := World ι SemOp SemOp.Reply NamedSemaphore

section Accounts

omit [DecidableEq ι] in
theorem locks_snoc : locks (log ++ [event]) = locks log + if event.op = .semWait then 1 else 0 := by
  simp [locks]

omit [DecidableEq ι] in
theorem posts_snoc : posts (log ++ [event]) = posts log + if event.op = .semPost then 1 else 0 := by
  simp [posts]

theorem ledger_snoc : ledger (log ++ [event]) = (ledger log).note event := by
  rw [ledger, List.foldl_append]
  rfl

/-- The client's lock has returned, and neither it nor a reset has posted since. -/
def Alone (log : Log ι) (client : ι) : Prop :=
  (ledger log).holding client = true ∧ (ledger log).crossed client = false

/-- An unlock is made by a client whose lock has returned, with no unlock since. -/
def Lawful (log : Log ι) : Prop :=
  Throughout (fun earlier event => event.op = .semPost → (ledger earlier).resetting event.thread = false →
    (ledger earlier).holding event.thread = true) log

/-- The unit is in the semaphore, or one client has it. -/
structure Account (world : Clients ι) : Prop where
  balance : world.state.value + locks world.log = posts world.log + 1
  low : ∀ event ∈ world.log, event.state.value ≤ 1
  within : ∀ earlier later, world.log = earlier ++ later →
    posts earlier ≤ locks earlier ∧ locks earlier ≤ posts earlier + 1
  alone : ∀ client, Alone world.log client → world.state.value = 0
  only : ∀ client other, Alone world.log client → Alone world.log other → client = other
  fresh : ∀ client, (ledger world.log).resetting client = true → (ledger world.log).overtaken client = false →
    world.state.value = 0

theorem account_starts : Account ({ state := {} } : Clients ι) := by
  refine ⟨rfl, fun _ => (nomatch ·), fun earlier later split => ?_, fun _ held => (nomatch held.1),
    fun _ _ held => (nomatch held.1), fun _ => (nomatch ·)⟩
  obtain ⟨rfl, rfl⟩ := List.append_eq_nil_iff.mp split.symm
  exact ⟨Nat.le_refl 0, Nat.zero_le _⟩

/-- What an event leaves to be shown about the clients. -/
theorem Account.snoc {before : Clients ι} {after : NamedSemaphore} (account : Account before)
    (balance : after.value + locks (before.log ++ [event]) = posts (before.log ++ [event]) + 1)
    (one : after.value ≤ 1) (made : event.state = after)
    (alone : ∀ client, Alone (before.log ++ [event]) client → after.value = 0)
    (only : ∀ client other, Alone (before.log ++ [event]) client → Alone (before.log ++ [event]) other → client = other)
    (fresh : ∀ client, ((ledger before.log).note event).resetting client = true →
      ((ledger before.log).note event).overtaken client = false → after.value = 0) :
    Account ⟨after, before.log ++ [event]⟩ := by
  refine ⟨balance, fun other member => ?_, fun earlier later split => ?_, alone, only, ?_⟩
  · rcases List.mem_append.mp member with old | new
    · exact account.low other old
    · cases List.mem_singleton.mp new
      rw [made]
      exact one
  · rcases List.prefix_concat_iff.mp ⟨later, split.symm⟩ with rfl | ⟨rest, same⟩
    · omega
    · exact account.within earlier rest same.symm
  · rw [ledger_snoc]
    exact fresh

variable {client : ι} {before : Clients ι} {after : NamedSemaphore} {signal : Bool}

theorem Account.one (account : Account before) : before.state.value ≤ 1 := by
  have balance := account.balance
  have within := account.within before.log [] (List.append_nil _).symm
  omega

/-- A lock takes the unit, which nobody had. -/
theorem wait_step {err : Int} (account : Account before) (apart : apart before.log ⟨client, .semWait, err, after⟩ = true)
    (performed : NamedSemaphore.perform signal .semWait before.state = some (err, after)) :
    Account ⟨after, before.log ++ [⟨client, .semWait, err, after⟩]⟩ := by
  have success : err = 0 := by simpa [NamedMutex.apart] using apart
  subst success
  obtain ⟨positive, rfl⟩ := NamedSemaphore.wait_eq performed
  have one := account.one
  have none_alone : ∀ other, ¬ Alone before.log other := fun other alone => by
    have zero := account.alone other alone
    omega
  have mine : ∀ other, Alone (before.log ++ [⟨client, .semWait, 0, ⟨before.state.value - 1⟩⟩]) other →
      other = client := by
    intro other alone
    by_contra different
    refine none_alone other ?_
    simpa only [Alone, ledger_snoc, Ledger.note, Function.update_of_ne different] using alone
  refine account.snoc ?_ ?_ rfl (fun _ _ => ?_) (fun one other first second => ?_) fun _ _ _ => ?_
  · have balance := account.balance
    rw [locks_snoc, posts_snoc]
    simp only [if_true, reduceCtorEq, if_false]
    omega
  · dsimp only
    omega
  · dsimp only
    omega
  · exact (mine one first).trans (mine other second).symm
  · dsimp only
    omega

theorem getvalue_step {value : Nat} (account : Account before)
    (performed : NamedSemaphore.perform signal .semGetvalue before.state = some (value, after)) :
    Account ⟨after, before.log ++ [⟨client, .semGetvalue, value, after⟩]⟩ := by
  cases performed
  have same : ∀ other, Alone (before.log ++ [⟨client, .semGetvalue, before.state.value, before.state⟩]) other →
      Alone before.log other := by
    intro other alone
    simpa only [Alone, ledger_snoc, Ledger.note] using alone
  refine account.snoc ?_ account.one rfl (fun other alone => account.alone other (same other alone))
    (fun one other first second => account.only one other (same one first) (same other second)) ?_
  · rw [locks_snoc, posts_snoc]
    exact account.balance
  · intro other resetting overtaken
    simp only [Ledger.note, Function.update_apply] at resetting overtaken
    split at resetting
    · exact beq_iff_eq.mp resetting
    next different =>
      rw [if_neg different] at overtaken
      exact account.fresh other resetting overtaken

/-- Whoever posts finds no unit: a reset that nobody overtook, or the one client that has it. -/
theorem post_step {done : Unit} (account : Account before)
    (apart : apart before.log ⟨client, .semPost, done, after⟩ = true)
    (lawful : (ledger before.log).resetting client = false → (ledger before.log).holding client = true)
    (performed : NamedSemaphore.perform signal .semPost before.state = some (done, after)) :
    Account ⟨after, before.log ++ [⟨client, .semPost, done, after⟩]⟩ := by
  have posted : before.state.value = 0 → after = ⟨1⟩ := by
    intro zero
    have small : 0 < NamedSemaphore.valueMax := by decide
    rw [NamedSemaphore.perform, zero, if_pos small] at performed
    cases performed
    rfl
  have settled : before.state.value = 0 → (∀ other, ¬ Alone (before.log ++ [⟨client, .semPost, done, after⟩]) other) →
      (∀ other, ((ledger before.log).note ⟨client, .semPost, done, after⟩).overtaken other = true) →
        Account ⟨after, before.log ++ [⟨client, .semPost, done, after⟩]⟩ := by
    intro zero nobody overtaken
    have one := posted zero
    refine account.snoc ?_ (by rw [one]) rfl (fun other alone => absurd alone (nobody other))
      (fun _ _ first => absurd first (nobody _)) fun other _ fresh => ?_
    · have balance := account.balance
      rw [locks_snoc, posts_snoc, one]
      simp only [if_true, reduceCtorEq, if_false]
      omega
    · rw [overtaken] at fresh
      cases fresh
  cases resets : (ledger before.log).resetting client with
  | true =>
    have fresh : (ledger before.log).overtaken client = false := by simpa [NamedMutex.apart, resets] using apart
    apply settled (account.fresh client resets fresh)
    · intro other alone
      simp [Alone, ledger_snoc, Ledger.note, resets] at alone
    · intro other
      simp [Ledger.note, resets]
  | false =>
    have uncrossed : (ledger before.log).crossed client = false := by simpa [NamedMutex.apart, resets] using apart
    have mine : Alone before.log client := ⟨lawful resets, uncrossed⟩
    apply settled (account.alone client mine)
    · intro other alone
      simp only [Alone, ledger_snoc, Ledger.note, resets, Bool.false_eq_true, if_false, Function.update_apply] at alone
      obtain ⟨held, uncrossed⟩ := alone
      split at held
      · cases held
      next different => exact different (account.only other client ⟨held, uncrossed⟩ mine)
    · intro other
      simp [Ledger.note, resets]

theorem account_step {op : SemOp} {reply : op.Reply}
    (account : Apart before.log → Lawful before.log → Account before)
    (performed : NamedSemaphore.perform signal op before.state = some (reply, after))
    (apart : Apart (before.log ++ [⟨client, op, reply, after⟩]))
    (lawful : Lawful (before.log ++ [⟨client, op, reply, after⟩])) :
    Account ⟨after, before.log ++ [⟨client, op, reply, after⟩]⟩ := by
  obtain ⟨apart, now⟩ := Throughout.snoc_iff.mp apart
  obtain ⟨lawful, last⟩ := Throughout.snoc_iff.mp lawful
  have account := account apart lawful
  cases op with
  | semWait => exact wait_step account now performed
  | semPost => exact post_step account now (last rfl) performed
  | semGetvalue => exact getvalue_step account performed

end Accounts

section Discipline

variable {client : ι} {before after world : Clients ι} {op : SemOp} {reply : op.Reply}

/-- What a client's request leaves to the others. -/
structure Spared (client : ι) (before after : Clients ι) : Prop where
  holding : (ledger after.log).holding client = (ledger before.log).holding client
  resetting : (ledger after.log).resetting client = (ledger before.log).resetting client

def protocol (ι : Type) [DecidableEq ι] : Protocol ι SemOp SemOp.Reply NamedSemaphore where
  invariant world := Lawful world.log
  rely := Spared
  guarantee client before after := ∀ other, other ≠ client → Spared other before after
  refl _ _ := ⟨rfl, rfl⟩
  trans _ {_ _ _} left right := ⟨right.holding.trans left.holding, right.resetting.trans left.resetting⟩
  compatible {_ other _ _} different spared := spared other different

theorem acts_ledger (acts : Pool.acts NamedSemaphore.perform client op before reply after) :
    ledger after.log = (ledger before.log).note ⟨client, op, reply, after.state⟩ := by
  obtain ⟨_, _, grows⟩ := acts
  rw [grows, ledger_snoc]

theorem spares_others (acts : Pool.acts NamedSemaphore.perform client op before reply after) :
    ∀ other, other ≠ client → Spared other before after := by
  intro other different
  have noted := acts_ledger acts
  cases op with
  | semWait => exact ⟨by simp [noted, Ledger.note, different], by rw [noted]; rfl⟩
  | semGetvalue => exact ⟨by rw [noted]; rfl, by simp [noted, Ledger.note, different]⟩
  | semPost =>
    constructor
    · rw [noted, Ledger.note]
      split
      · rfl
      · exact Function.update_of_ne different ..
    · rw [noted, Ledger.note]
      split
      · exact Function.update_of_ne different ..
      · rfl

theorem lawful_step (lawful : Lawful before.log)
    (acts : Pool.acts NamedSemaphore.perform client op before reply after)
    (fair : op = .semPost → (ledger before.log).resetting client = false →
      (ledger before.log).holding client = true) : Lawful after.log := by
  obtain ⟨_, _, grows⟩ := acts
  rw [grows]
  exact Throughout.snoc_iff.mpr ⟨lawful, fair⟩

/-- Where a client is between two of its calls. -/
structure Between (client : ι) (holding : Bool) (world : Clients ι) : Prop where
  held : holding = true → (ledger world.log).holding client = true
  done : (ledger world.log).resetting client = false

theorem Between.stable {holding : Bool} {later : Clients ι} (between : Between client holding world)
    (spared : Spared client world later) : Between client holding later :=
  ⟨fun holds => spared.holding.trans (between.held holds), spared.resetting.trans between.done⟩

/-- Disciplined calls unlock what a lock of theirs has returned with. -/
theorem perform_ensures (calls : List MutexCall) {holding : Bool} (disciplined : Disciplined holding calls)
    (stands : Between client holding world) :
    ((protocol ι).rules NamedSemaphore.perform client).Ensures (Client.perform calls) (fun _ _ => True) world := by
  induction calls generalizing holding world with
  | nil => exact fun _ _ _ => trivial
  | cons call calls ih =>
    cases call with
    | lock =>
      intro between spared lawful (err : Int) after acts
      have noted := acts_ledger acts
      have stands := stands.stable spared
      refine ⟨lawful_step lawful acts nofun, spares_others acts, ih disciplined ⟨fun _ => ?_, ?_⟩⟩
      · simp [noted, Ledger.note]
      · rw [noted]
        exact stands.done
    | unlock =>
      intro between spared lawful done after acts
      have noted := acts_ledger acts
      obtain ⟨held, disciplined⟩ := disciplined
      have stands := stands.stable spared
      refine ⟨lawful_step lawful acts fun _ _ => stands.held held, spares_others acts, ih disciplined ⟨nofun, ?_⟩⟩
      rw [noted, Ledger.note, stands.done]
      exact stands.done
    | reset =>
      intro between spared lawful (value : Nat) after acts
      have noted := acts_ledger acts
      have stands := stands.stable spared
      have held : holding = true → (ledger after.log).holding client = true := by
        rw [noted]
        exact stands.held
      refine ⟨lawful_step lawful acts nofun, spares_others acts, ?_⟩
      simp only [Program.pure_bind]
      split
      next none =>
        have resets : (ledger after.log).resetting client = true := by simp [noted, Ledger.note, none]
        intro between' spared' lawful' done after' acts'
        have noted' := acts_ledger acts'
        have still := spared'.resetting.trans resets
        refine ⟨lawful_step lawful' acts' fun _ other => absurd still (by simp [other]), spares_others acts',
          ih disciplined ⟨fun holds => ?_, ?_⟩⟩
        · rw [noted', Ledger.note, if_pos still]
          exact spared'.holding.trans (held holds)
        · rw [noted', Ledger.note, if_pos still]
          exact Function.update_self ..
      next some_left =>
        refine ih disciplined ⟨held, ?_⟩
        simp [noted, Ledger.note, some_left]

end Discipline

section Runs

variable {clients : ι → Client} {schedule : List (ι × Bool)}
  {reached : Pool ι SemOp SemOp.Reply NamedSemaphore fun _ => Unit}

theorem account_run (ran : (pool clients).run NamedSemaphore.perform schedule = some reached) :
    Apart reached.world.log → Lawful reached.world.log → Account reached.world :=
  Pool.run_records (fun _ _ _ _ _ _ account performed => account_step account performed) ran fun _ _ => account_starts

theorem lawful_run (ran : (pool clients).run NamedSemaphore.perform schedule = some reached) :
    Lawful reached.world.log := by
  have starts : (protocol ι).Holds NamedSemaphore.perform (fun _ _ _ => True) (pool clients) :=
    ⟨.nil, fun client => perform_ensures (clients client).calls (clients client).disciplined ⟨nofun, rfl⟩⟩
  exact (Protocol.run_holds starts ran).1

/-- In every run of any number of clients in which no signal ends a wait and the resets
keep out of the way of locks and unlocks. -/
theorem stays_binary (clients : ι → Client) (schedule : List (ι × Bool))
    (reached : Pool ι SemOp SemOp.Reply NamedSemaphore fun _ => Unit)
    (ran : (pool clients).run NamedSemaphore.perform schedule = some reached) (apart : Apart reached.world.log) :
    Binary reached.world.log := by
  have account := account_run ran apart (lawful_run ran)
  refine ⟨account.low, fun earlier between later split none => ?_⟩
  have ahead := account.within earlier (between ++ later) (by rw [split, List.append_assoc])
  have short := account.within (earlier ++ between) later split
  rw [locks, posts, List.countP_append, List.countP_append] at short
  rw [posts] at none ahead
  rw [locks] at ahead ⊢
  omega

end Runs

def locker : Client := ⟨[.lock, .unlock], rfl, trivial⟩

def resetter : Client := ⟨[.reset], trivial⟩

def gone : Client := ⟨[.lock], trivial⟩

def restarter : Client := ⟨[.reset, .lock, .unlock], rfl, trivial⟩

/-- One client is gone with the unit; the other one resets the mutex, locks and unlocks it. -/
theorem stays_binary_restarted : ∃ reached, (pool fun restarts : Bool => if restarts then restarter else gone).run
      NamedSemaphore.perform ((false, false) :: List.replicate 4 (true, false)) = some reached ∧
    (reached.world.log.map fun event => event.state.value) = [0, 0, 1, 0, 1] ∧ Binary reached.world.log := by
  have ends : ((pool fun restarts : Bool => if restarts then restarter else gone).run
      NamedSemaphore.perform ((false, false) :: List.replicate 4 (true, false))).map (fun reached =>
        (reached.world.log.map fun event => event.state.value, decide (Apart reached.world.log))) =
          some ([0, 0, 1, 0, 1], true) := by decide +kernel
  obtain ⟨reached, ran, same⟩ := Option.map_eq_some_iff.mp ends
  obtain ⟨values, apart⟩ := Prod.mk.inj same
  exact ⟨reached, ran, values, stays_binary _ _ reached ran (of_decide_eq_true apart)⟩

/-- A reset while a client holds the mutex: once that client unlocks there are two units. -/
theorem reset_held : ¬ ∀ (ι : Type) [DecidableEq ι] (clients : ι → Client) (schedule : List (ι × Bool))
    (reached : Pool ι SemOp SemOp.Reply NamedSemaphore fun _ => Unit),
    (pool clients).run NamedSemaphore.perform schedule = some reached → Binary reached.world.log := by
  intro binary
  have seen : ((pool fun holds : Bool => if holds then locker else resetter).run NamedSemaphore.perform
      [(true, false), (false, false), (false, false), (true, false)]).map (fun reached =>
        reached.world.log.map fun event => event.state.value) = some [0, 0, 1, 2] := by decide +kernel
  obtain ⟨reached, ran, values⟩ := Option.map_eq_some_iff.mp seen
  have low := (binary Bool _ _ reached ran).value
  have last : 2 ∈ reached.world.log.map fun event => event.state.value := by
    rw [values]
    decide
  obtain ⟨event, member, two⟩ := List.mem_map.mp last
  have one := low event member
  omega

end EthercatSlave.Proofs.BinarySemaphore
