import EthercatSlave.CpuAssignment
import EthercatSlave.Proofs.RelyGuarantee
import Mathlib.Algebra.BigOperators.Group.Finset.Piecewise
import Mathlib.Data.Int.CardIntervalMod

/-! The values of the counter that the calls read. As long as the calls keep apart
they are consecutive numbers, and up to the wrap so are their remainders. -/

namespace EthercatSlave.Proofs.BalancedCpus
open CpuAssignment Program

variable {ι : Type} {nproc : BitVec 32} {log more : Log ι} {event : Event ι CpuOp CpuOp.Reply CpuCounter}

abbrev Counting (ι : Type) := World ι CpuOp CpuOp.Reply CpuCounter

/-- The first call gets processor 0 and leaves the counter initialised. -/
theorem first_call (online : BitVec 64) : Eval (CpuCounter.perform ()) getNextcpu { online } 0
      (.initialised online) := by
  have added : online.setWidth 32 - 1 + 1 = online.setWidth 32 := BitVec.sub_add_cancel _ _
  have remainder : online.setWidth 32 % online.setWidth 32 = 0 := BitVec.umod_self
  have initialises : Eval (CpuCounter.perform ()) initialise { online } ()
      { online, nproc := online.setWidth 32, scCpu := online.setWidth 32 - 1 } := by
    simp only [initialise, bind_eq, call_bind, pure_eq]
    apply Eval.request rfl
    simp only [↓reduceIte]
    exact .request rfl (.request rfl (.request rfl (.request rfl .pure)))
  refine initialises.bind (.request rfl ?_)
  simp only [added]
  refine .request rfl (.request rfl ?_)
  simp only [pure_bind, pure_eq, remainder]
  exact .pure

section Readings

/-- What a call reads to pick its processor. -/
def reading (event : Event ι CpuOp CpuOp.Reply CpuCounter) : Option (BitVec 32) :=
  match event with
  | ⟨_, .loadCpu, scCpu, _⟩ => some scCpu
  | _ => none

def readings (log : Log ι) : List (BitVec 32) := log.filterMap reading

theorem readings_snoc : readings (log ++ [event]) = readings log ++ (reading event).toList := by
  rw [readings, List.filterMap_append, List.filterMap_cons, List.filterMap_nil]
  cases reading event <;> rfl

theorem increments_snoc : increments (log ++ [event]) =
    increments log + if event.op = .interlockedIncrement then 1 else 0 := by
  simp [increments]

theorem reading_isSome : (reading event).isSome = decide (event.op = .loadCpu) := by
  obtain ⟨thread, op, reply, state⟩ := event
  cases op <;> rfl

variable [DecidableEq ι] {thread : ι}

def own (thread : ι) (log : Log ι) : Log ι := log.filter fun event => decide (event.thread = thread)

theorem own_snoc : own thread (log ++ [event]) = own thread log ++ if event.thread = thread then [event] else [] := by
  rw [own, List.filter_append, List.filter_cons, List.filter_nil]
  simp only [decide_eq_true_eq]
  rfl

theorem incrementsBy_eq : incrementsBy thread log = increments (own thread log) := by
  rw [incrementsBy, increments, own, List.countP_filter]
  simp only [Bool.and_comm]

theorem readsBy_eq : readsBy thread log = (readings (own thread log)).length := by
  rw [readsBy, readings, List.length_filterMap_eq_countP, own, List.countP_filter]
  simp only [reading_isSome, Bool.and_comm]

theorem incrementsBy_snoc : incrementsBy thread (log ++ [event]) =
    incrementsBy thread log + if event.thread = thread ∧ event.op = .interlockedIncrement then 1 else 0 := by
  simp [incrementsBy]

theorem readsBy_snoc : readsBy thread (log ++ [event]) =
    readsBy thread log + if event.thread = thread ∧ event.op = .loadCpu then 1 else 0 := by
  simp [readsBy]

end Readings

section Account

variable [DecidableEq ι] {thread : ι} {before after : Counting ι} {reply : BitVec 32}

/-- At most one call stands between its increment and its read. -/
def Turns (log : Log ι) (active : Option ι) : Prop :=
  (∀ thread, incrementsBy thread log = readsBy thread log + if active = some thread then 1 else 0) ∧
    increments log = (readings log).length + if active.isSome then 1 else 0

/-- The counter against what was done to it; calls that keep apart read consecutive values. -/
structure Account (nproc : BitVec 32) (world : Counting ι) : Prop where
  constant : world.state.nproc = nproc
  scCpu : world.state.scCpu = .ofNat 32 (nproc.toNat + increments world.log)
  turns : Apart world.log → ∃ active, Turns world.log active
  values : Apart world.log → readings world.log =
    (List.range (readings world.log).length).map fun index => .ofNat 32 (nproc.toNat + (index + 1))

theorem apart_before (grows : log = more ++ [event]) (apart : Apart log) : Apart more := by
  rw [grows] at apart
  exact apart.left

theorem account_load (account : Account nproc before)
    (acts : Pool.acts CpuCounter.perform thread .loadNproc before reply after) :
    reply = nproc ∧ Account nproc after := by
  obtain ⟨_, performed, grows⟩ := acts
  have read : reply = before.state.nproc := (congrArg Prod.fst (Option.some.inj performed)).symm
  have state : after.state = before.state := (congrArg Prod.snd (Option.some.inj performed)).symm
  have same : readings after.log = readings before.log := by
    rw [grows, readings_snoc]
    exact List.append_nil _
  have fixed : increments after.log = increments before.log := by
    rw [grows, increments_snoc]
    rfl
  have apart : Apart after.log → Apart before.log := apart_before grows
  refine ⟨read.trans account.constant, ?_, ?_, fun kept => ?_, fun kept => ?_⟩
  · rw [state]
    exact account.constant
  · rw [state, fixed]
    exact account.scCpu
  · obtain ⟨active, each, total⟩ := account.turns (apart kept)
    refine ⟨active, fun other => ?_, ?_⟩
    · rw [grows, incrementsBy_snoc, readsBy_snoc, each other]
      simp
    · rw [fixed, same, total]
  · rw [same]
    exact account.values (apart kept)

theorem account_increment (account : Account nproc before)
    (acts : Pool.acts CpuCounter.perform thread .interlockedIncrement before reply after) : Account nproc after := by
  obtain ⟨_, performed, grows⟩ := acts
  have state : after.state = { before.state with scCpu := before.state.scCpu + 1 } :=
    (congrArg Prod.snd (Option.some.inj performed)).symm
  have same : readings after.log = readings before.log := by
    rw [grows, readings_snoc]
    exact List.append_nil _
  have more : increments after.log = increments before.log + 1 := by
    rw [grows, increments_snoc]
    rfl
  have apart : Apart after.log → Apart before.log ∧ ∀ thread,
      incrementsBy thread before.log = readsBy thread before.log := by
    intro apart
    rw [grows] at apart
    obtain ⟨earlier, last⟩ := Throughout.snoc_iff.mp apart
    exact ⟨earlier, last rfl⟩
  refine ⟨by rw [state]; exact account.constant, ?_, fun kept => ?_, fun kept => ?_⟩
  · rw [state, more]
    simp only [account.scCpu]
    exact (BitVec.ofNat_add ..).symm
  · obtain ⟨earlier, settled⟩ := apart kept
    obtain ⟨active, each, total⟩ := account.turns earlier
    have idle : active = none := by
      cases active with
      | none => rfl
      | some other =>
        have ahead := each other
        rw [settled other, if_pos rfl] at ahead
        omega
    subst idle
    refine ⟨some thread, fun other => ?_, ?_⟩
    · rw [grows, incrementsBy_snoc, readsBy_snoc, settled other]
      simp
    · rw [more, same, total]
      rfl
  · rw [same]
    exact account.values (apart kept).1

theorem account_read (account : Account nproc before)
    (turn : incrementsBy thread before.log = readsBy thread before.log + 1)
    (acts : Pool.acts CpuCounter.perform thread .loadCpu before reply after) : Account nproc after := by
  obtain ⟨_, performed, grows⟩ := acts
  have read : reply = before.state.scCpu := (congrArg Prod.fst (Option.some.inj performed)).symm
  have state : after.state = before.state := (congrArg Prod.snd (Option.some.inj performed)).symm
  have more : readings after.log = readings before.log ++ [before.state.scCpu] := by
    rw [grows, readings_snoc, ← read]
    rfl
  have same : increments after.log = increments before.log := by
    rw [grows, increments_snoc]
    rfl
  have apart : Apart after.log → Apart before.log := apart_before grows
  have active : Apart after.log → Turns before.log (some thread) := by
    intro kept
    obtain ⟨active, each, total⟩ := account.turns (apart kept)
    have mine := each thread
    rw [turn] at mine
    split at mine
    next selected => exact selected ▸ ⟨each, total⟩
    next => omega
  refine ⟨by rw [state]; exact account.constant, ?_, fun kept => ?_, fun kept => ?_⟩
  · rw [state, same]
    exact account.scCpu
  · obtain ⟨each, total⟩ := active kept
    refine ⟨none, fun other => ?_, ?_⟩
    · rw [grows, incrementsBy_snoc, readsBy_snoc, each other]
      simp
    · rw [same, more, total, List.length_append]
      rfl
  · obtain ⟨_, total⟩ := active kept
    have value : before.state.scCpu = .ofNat 32 (nproc.toNat + ((readings before.log).length + 1)) := by
      rw [account.scCpu, total]
      rfl
    rw [more, List.length_append, List.length_singleton, List.range_succ, List.map_append,
      ← account.values (apart kept), value]
    rfl

end Account

section Calls

variable [DecidableEq ι] {thread : ι} {before after world : Counting ι} {ahead : Nat} {cpus : List (BitVec 32)}

/-- Nobody else makes a thread's steps. -/
def protocol (ι : Type) [DecidableEq ι] (nproc : BitVec 32) : Protocol ι CpuOp CpuOp.Reply CpuCounter where
  invariant := Account nproc
  rely thread before after := own thread after.log = own thread before.log
  guarantee thread before after := ∀ other, other ≠ thread → own other after.log = own other before.log
  refl _ _ := rfl
  trans _ {_ _ _} left right := Eq.trans right left
  compatible {_ other _ _} different kept := kept other different

abbrev Ensures (nproc : BitVec 32) (thread : ι) {α : Type} (program : Assigning α) (post : α → Counting ι → Prop)
    (world : Counting ι) : Prop :=
  ((protocol ι nproc).rules CpuCounter.perform thread).Ensures program post world

/-- How far a thread's increments are ahead of its reads, and what the reads picked. -/
structure Stands (nproc : BitVec 32) (thread : ι) (ahead : Nat) (cpus : List (BitVec 32)) (world : Counting ι) :
    Prop where
  ahead : increments (own thread world.log) = (readings (own thread world.log)).length + ahead
  cpus : (readings (own thread world.log)).map (· % nproc) = cpus

theorem Stands.stable (stands : Stands nproc thread ahead cpus before)
    (same : own thread after.log = own thread before.log) : Stands nproc thread ahead cpus after :=
  ⟨same ▸ stands.ahead, same ▸ stands.cpus⟩

theorem spares_others {op : CpuOp} {reply : op.Reply}
    (acts : Pool.acts CpuCounter.perform thread op before reply after) :
    ∀ other, other ≠ thread → own other after.log = own other before.log := by
  obtain ⟨_, _, grows⟩ := acts
  intro other different
  rw [grows, own_snoc, if_neg (Ne.symm different), List.append_nil]

/-- A thread's own step, on where it stands. -/
theorem Stands.step {op : CpuOp} {reply : op.Reply} {ahead' : Nat} (stands : Stands nproc thread ahead cpus before)
    (acts : Pool.acts CpuCounter.perform thread op before reply after)
    (counted : ahead + (if op = .interlockedIncrement then 1 else 0) =
      (reading ⟨thread, op, reply, after.state⟩).toList.length + ahead') :
    Stands nproc thread ahead' (cpus ++ (reading ⟨thread, op, reply, after.state⟩).toList.map (· % nproc)) after := by
  obtain ⟨_, _, grows⟩ := acts
  have own_after : own thread after.log = own thread before.log ++ [⟨thread, op, reply, after.state⟩] := by
    rw [grows, own_snoc, if_pos rfl]
  have count := stands.ahead
  constructor
  · rw [own_after, increments_snoc, readings_snoc, List.length_append]
    dsimp only
    omega
  · rw [own_after, readings_snoc, List.map_append, stands.cpus]

variable {α : Type} {post : α → Counting ι → Prop}

theorem ensures_loadNproc {next : BitVec 32 → Assigning α} (stands : Stands nproc thread ahead cpus world)
    (rest : ∀ after, Account nproc after → Stands nproc thread ahead cpus after →
      Ensures nproc thread (next nproc) post after) :
    Ensures nproc thread (.request .loadNproc next) post world := by
  intro between moves account reply after acts
  obtain ⟨read, kept⟩ := account_load account acts
  have stands := (stands.stable moves).step acts (Nat.zero_add ahead).symm
  rw [read] at stands ⊢
  exact ⟨kept, spares_others acts, rest after kept (List.append_nil cpus ▸ stands)⟩

theorem ensures_increment {next : BitVec 32 → Assigning α} (stands : Stands nproc thread 0 cpus world)
    (rest : ∀ value after, Account nproc after → Stands nproc thread 1 cpus after →
      Ensures nproc thread (next value) post after) :
    Ensures nproc thread (.request .interlockedIncrement next) post world := by
  intro between moves account reply after acts
  have kept := account_increment account acts
  have stands := (stands.stable moves).step acts (rfl : _ = 0 + 1)
  exact ⟨kept, spares_others acts, rest reply after kept (List.append_nil cpus ▸ stands)⟩

theorem ensures_read {next : BitVec 32 → Assigning α} (stands : Stands nproc thread 1 cpus world)
    (rest : ∀ scCpu after, Account nproc after → Stands nproc thread 0 (cpus ++ [scCpu % nproc]) after →
      Ensures nproc thread (next scCpu) post after) :
    Ensures nproc thread (.request .loadCpu next) post world := by
  intro between moves account reply after acts
  have stands := stands.stable moves
  have turn : incrementsBy thread between.log = readsBy thread between.log + 1 := by
    rw [incrementsBy_eq, readsBy_eq]
    exact stands.ahead
  have kept := account_read account turn acts
  exact ⟨kept, spares_others acts, rest reply after kept (stands.step acts (rfl : _ = 1 + 0))⟩

theorem getNextcpu_ensures (initialised : nproc ≠ -1) (stands : Stands nproc thread 0 cpus world) :
    Ensures nproc thread getNextcpu (fun cpu => Stands nproc thread 0 (cpus ++ [cpu])) world := by
  simp only [getNextcpu, initialise, bind_eq, call_bind, pure_eq, request_bind]
  refine ensures_loadNproc stands fun _ _ stands => ?_
  rw [if_neg initialised]
  refine ensures_increment stands fun _ _ _ stands => ensures_read stands fun _ _ _ stands => ?_
  exact ensures_loadNproc stands fun _ _ stands _ moves _ => stands.stable moves

theorem assign_ensures (initialised : nproc ≠ -1) (count : Nat) (account : Account nproc world)
    (stands : Stands nproc thread 0 cpus world) :
    Ensures nproc thread (assign count) (fun more => Stands nproc thread 0 (cpus ++ more)) world := by
  induction count generalizing cpus world with
  | zero =>
    intro later moves _
    rw [List.append_nil]
    exact stands.stable moves
  | succ count ih =>
    simp only [assign, bind_eq, pure_eq]
    refine Rules.Ensures.bind account ((getNextcpu_ensures initialised stands).mono fun cpu after kept stands => ?_)
    refine Rules.Ensures.bind kept ((ih kept stands).mono fun more last _ stands => ?_)
    intro later moves _
    rw [List.append_assoc] at stands
    exact stands.stable moves

end Calls

section Counting

theorem sum_readings [DecidableEq ι] [Fintype ι] (nproc cpu : BitVec 32) (log : Log ι) :
    ∑ thread, ((readings (own thread log)).map (· % nproc)).count cpu = ((readings log).map (· % nproc)).count cpu := by
  induction log using List.reverseRecOn with
  | nil => exact Finset.sum_const_zero
  | append_singleton log event ih =>
    have split : ∀ thread, ((readings (own thread (log ++ [event]))).map (· % nproc)).count cpu =
        ((readings (own thread log)).map (· % nproc)).count cpu +
          if event.thread = thread then ((reading event).toList.map (· % nproc)).count cpu else 0 := by
      intro thread
      rw [own_snoc]
      split
      · rw [readings_snoc, List.map_append, List.count_append]
      · rw [List.append_nil, Nat.add_zero]
    rw [Finset.sum_congr rfl fun thread _ => split thread, Finset.sum_add_distrib, ih, Finset.sum_ite_eq,
      if_pos (Finset.mem_univ _), readings_snoc, List.map_append, List.count_append]

/-- The remainders of consecutive values go round as long as the wrap does not show. -/
theorem remainder_eq (index : Nat) (unseen : nproc.toNat ∣ 2 ^ 32 ∨ nproc.toNat + (index + 1) < 2 ^ 32) :
    (BitVec.ofNat 32 (nproc.toNat + (index + 1)) % nproc).toNat = (index + 1) % nproc.toNat := by
  rw [BitVec.toNat_umod, BitVec.toNat_ofNat]
  rcases unseen with divides | below
  · rw [Nat.mod_mod_of_dvd _ divides, Nat.add_mod_left]
  · rw [Nat.mod_eq_of_lt below, Nat.add_mod_left]

theorem count_remainders {total : Nat} {cpu : BitVec 32} (inside : cpu.toNat < nproc.toNat)
    (unseen : nproc.toNat ∣ 2 ^ 32 ∨ nproc.toNat + total < 2 ^ 32) :
    (((List.range total).map fun index => BitVec.ofNat 32 (nproc.toNat + (index + 1))).map (· % nproc)).count cpu =
      Nat.count (· ≡ cpu.toNat + (nproc.toNat - 1) [MOD nproc.toNat]) total := by
  rw [List.map_map, List.count, List.countP_map, Nat.count]
  apply List.countP_congr
  intro index member
  have below : index < total := List.mem_range.mp member
  have value := remainder_eq index (unseen.imp_right fun fits => by omega)
  have shift : cpu.toNat + (nproc.toNat - 1) + 1 = cpu.toNat + nproc.toNat := by omega
  simp only [Function.comp_apply, beq_iff_eq, decide_eq_true_eq]
  rw [← BitVec.toNat_inj, value]
  constructor
  · intro same
    apply Nat.ModEq.add_right_cancel' 1
    rw [shift, Nat.ModEq, same, Nat.add_mod_right, Nat.mod_eq_of_lt inside]
  · intro same
    have next := same.add_right 1
    rwa [shift, Nat.ModEq, Nat.add_mod_right, Nat.mod_eq_of_lt inside] at next

/-- Of the numbers below a bound, about as many fall on one residue as on another. -/
theorem count_residue_le {modulus : Nat} (positive : 0 < modulus) (bound first second : Nat) :
    Nat.count (· ≡ first [MOD modulus]) bound ≤ Nat.count (· ≡ second [MOD modulus]) bound + 1 := by
  rw [Nat.count_modEq_card bound positive, Nat.count_modEq_card bound positive]
  split <;> split <;> omega

end Counting

variable [DecidableEq ι]

theorem account_starts (online : BitVec 64) (calls : ι → Nat) :
    Account (online.setWidth 32) (pool online calls).world := by
  refine ⟨rfl, ?_, fun _ => ⟨none, fun _ => rfl, rfl⟩, fun _ => rfl⟩
  change online.setWidth 32 = .ofNat 32 (online.setWidth 32).toNat
  rw [BitVec.ofNat_toNat, BitVec.setWidth_eq]

/-- Where a run stands: the account of the counter, and what every thread was given. -/
theorem run_stands {online : BitVec 64} {calls : ι → Nat} {schedule : List (ι × Unit)}
    {reached : Pool ι CpuOp CpuOp.Reply CpuCounter Result} (positive : 0 < (online.setWidth 32).toInt)
    (ran : (pool online calls).run CpuCounter.perform schedule = some reached) :
    Account (online.setWidth 32) reached.world ∧ ∀ thread cpus, reached.threads thread = .pure cpus →
      cpus = (readings (own thread reached.world.log)).map (· % online.setWidth 32) := by
  have initialised : online.setWidth 32 ≠ -1 := by
    intro unset
    rw [unset] at positive
    exact absurd positive (by decide)
  have starts : (protocol ι (online.setWidth 32)).Holds CpuCounter.perform
      (fun thread cpus => Stands (online.setWidth 32) thread 0 ([] ++ cpus)) (pool online calls) :=
    ⟨account_starts online calls, fun thread =>
      assign_ensures initialised (calls thread) (account_starts online calls) ⟨rfl, rfl⟩⟩
  have holds := Protocol.run_holds starts ran
  exact ⟨holds.1, fun thread cpus returned => (holds.returned returned).cpus.symm⟩

/-- In every run of any number of threads. -/
theorem balanced [Fintype ι] (online : BitVec 64) (calls : ι → Nat) (schedule : List (ι × Unit))
    (reached : Pool ι CpuOp CpuOp.Reply CpuCounter Result) (positive : 0 < (online.setWidth 32).toInt)
    (ran : (pool online calls).run CpuCounter.perform schedule = some reached)
    (apart : online.setWidth 32 = 1 ∨ Apart reached.world.log ∧ ((online.setWidth 32).toNat ∣ 2 ^ 32 ∨
      (online.setWidth 32).toNat + increments reached.world.log < 2 ^ 32)) :
    Balanced (online.setWidth 32) reached := by
  obtain ⟨account, returned⟩ := run_stands positive ran
  generalize online.setWidth 32 = nproc at *
  have signed : nproc.toInt = nproc.toNat ∧ nproc.toNat < 2 ^ 31 ∧ 0 < nproc.toNat := by
    rw [BitVec.toInt_eq_toNat_cond] at positive ⊢
    split at positive <;> omega
  obtain ⟨unsigned, small, nonzero⟩ := signed
  constructor
  · intro thread cpus given cpu member
    rw [returned thread cpus given] at member
    obtain ⟨scCpu, _, rfl⟩ := List.mem_map.mp member
    have below : (scCpu % nproc).toNat < nproc.toNat := by
      rw [BitVec.toNat_umod]
      exact Nat.mod_lt _ nonzero
    rw [unsigned, BitVec.toInt_eq_toNat_of_lt (by omega)]
    omega
  · intro cpus given first second firstInside secondInside
    have total : ∀ cpu, CpuAssignment.given cpus cpu = ((readings reached.world.log).map (· % nproc)).count cpu := by
      intro cpu
      rw [← sum_readings, CpuAssignment.given]
      exact Finset.sum_congr rfl fun thread _ => by rw [returned thread _ (given thread)]
    rw [total, total]
    rcases apart with single | ⟨apart, unseen⟩
    · subst single
      have same : first = second := by
        apply BitVec.eq_of_toNat_eq
        change first.toNat < 1 at firstInside
        change second.toNat < 1 at secondInside
        omega
      rw [same]
      exact Nat.le_succ _
    · obtain ⟨active, _, behind⟩ := account.turns apart
      have unseen := unseen.imp_right fun fits : nproc.toNat + increments reached.world.log < 2 ^ 32 =>
        (by omega : nproc.toNat + (readings reached.world.log).length < 2 ^ 32)
      rw [account.values apart, count_remainders firstInside unseen, count_remainders secondInside unseen]
      exact count_residue_le nonzero _ _ _

/-- Five calls of two threads overlap, but none between another's increment and its read. -/
def turns : List (Bool × Unit) :=
  [true, false, true, true, false, true, false, true, false, true, true, false, true, false, false, true, false, true,
    true, true].map fun thread => (thread, ())

theorem balanced_apart : ∃ reached, (pool 3 fun thread : Bool => if thread then 3 else 2).run CpuCounter.perform turns =
      some reached ∧ reached.threads true = .pure [1, 0, 2] ∧ reached.threads false = .pure [2, 1] ∧
    Balanced 3 reached := by
  have seen : ((pool 3 fun thread : Bool => if thread then 3 else 2).run CpuCounter.perform turns).map (fun reached =>
      (decide (Apart reached.world.log ∧ 3 + increments reached.world.log < 2 ^ 32), (reached.threads true).returned,
        (reached.threads false).returned)) = some (true, some [1, 0, 2], some [2, 1]) := by decide +kernel
  obtain ⟨reached, ran, values⟩ := Option.map_eq_some_iff.mp seen
  simp only [Prod.mk.injEq] at values
  obtain ⟨apart, first, second⟩ := values
  obtain ⟨apart, short⟩ := of_decide_eq_true apart
  exact ⟨reached, ran, returned_iff.mp first, returned_iff.mp second,
    balanced 3 (fun thread => if thread then 3 else 2) turns reached (by decide) ran (.inr ⟨apart, .inr short⟩)⟩

/-- Both calls increment before either reads, and both are given processor 0. -/
theorem both_increment : ¬ ∀ (ι : Type) [DecidableEq ι] [Fintype ι] (online : BitVec 64) (calls : ι → Nat)
    (schedule : List (ι × Unit)) (reached : Pool ι CpuOp CpuOp.Reply CpuCounter Result),
    0 < (online.setWidth 32).toInt → (pool online calls).run CpuCounter.perform schedule = some reached →
      Balanced (online.setWidth 32) reached := by
  intro balanced
  have seen : ((pool 2 fun _ : Bool => 1).run CpuCounter.perform
      ([true, true, false, false, true, true, false, false].map fun thread => (thread, ()))).map
        (fun reached => ((reached.threads true).returned, (reached.threads false).returned)) =
      some (some [0], some [0]) := by decide +kernel
  obtain ⟨reached, ran, values⟩ := Option.map_eq_some_iff.mp seen
  obtain ⟨first, second⟩ := Prod.mk.inj values
  have given : ∀ thread, reached.threads thread = .pure [0] := by
    intro thread
    cases thread
    · exact returned_iff.mp second
    · exact returned_iff.mp first
  have even := (balanced Bool 2 _ _ reached (by decide) ran).even (fun _ => [0]) given 0 1 (by decide) (by decide)
  exact absurd even (by decide)

end EthercatSlave.Proofs.BalancedCpus
