import EthercatSlave.RealTimeLoop
import EthercatSlave.Proofs.ProcessData
import EthercatSlave.Proofs.Statistics

/-! What the measured cycle times add up to. Each round of the loop reads the
clock twice; the samples of a run are differences of these readings. -/

namespace EthercatSlave.Proofs.CycleTimes
open Program RealTimeLoop

variable {K δ : Type} [Measure K] {device : Device δ} {before after : Station K δ}

/-- The parts of the station that only the loop itself works on. -/
structure Untouched (before after : Station K δ) : Prop where
  timers : after.timers = before.timers
  tools : after.tools = before.tools
  clock : after.clock = before.clock

theorem shield_untouched {α : Type} {program : Shield α} {value : α}
    (ran : Eval (Station.perform device) (shield program) before value after) : Untouched before after := by
  refine Eval.keeps_used ?_ (Uses.embed program) ran ⟨rfl, rfl, rfl⟩
  intro _ station reply following given performed kept
  obtain ⟨inner, rfl⟩ := given
  cases inner with
  | ioctl =>
    cases performed
    exact ⟨kept.timers, kept.tools, kept.clock⟩
  | _ =>
    simp only [Station.perform, Option.map_eq_some_iff, Prod.mk.injEq] at performed
    obtain ⟨_, _, _, rfl⟩ := performed
    exact ⟨kept.timers, kept.tools, kept.clock⟩

/-- The sample that the round `index` of the loop would take. -/
def sample (readings : Nat → BitVec 64) : Tool → Nat → K
  | .runtime, index => Measure.double (readings (2 * index + 1) - readings (2 * index)) * 1E-3
  | .period, index => Measure.double (readings (2 * index) - readings (2 * (index - 1))) * 1E-6

/-- The rounds that take a sample: `m_count` is above one. -/
def measuring (index : Nat) : Bool := decide (1 < BitVec.ofNat 64 index)

def samples (readings : Nat → BitVec 64) (tool : Tool) (rounds : Nat) : List K :=
  ((List.range rounds).filter measuring).map (sample readings tool)

variable {readings : Nat → BitVec 64} {fresh : Statbuffer K} {rounds : Nat}

theorem samples_succ (tool : Tool) : (samples readings tool (rounds + 1) : List K) =
    samples readings tool rounds ++ if measuring rounds then [sample readings tool rounds] else [] := by
  rw [samples, samples, List.range_succ, List.filter_append, List.map_append, List.filter_singleton]
  cases measuring rounds <;> rfl

/-- The station in front of the round number `rounds`. -/
structure Reached (readings : Nat → BitVec 64) (fresh : Statbuffer K) (rounds : Nat)
    (station : Station K δ) : Prop where
  clock : station.clock = fun index => readings (2 * rounds + index)
  count : station.timers .count = BitVec.ofNat 64 rounds
  laststart : 0 < rounds → station.timers .laststart = readings (2 * (rounds - 1))
  tools : ∀ tool, station.tools tool = fresh.calcAll (samples readings tool rounds)

/-- The statistics after the times of a round were recorded. -/
def recorded (startRun : BitVec 64) (timers : Timer → BitVec 64) (tools : Tool → Statbuffer K) : Tool → Statbuffer K :=
  if 1 < timers .count then
    Function.update
      (Function.update tools .runtime ((tools .runtime).calcOne (Measure.double (timers .lastruntime) * 1E-3)))
      .period ((tools .period).calcOne (Measure.double (startRun - timers .laststart) * 1E-6))
  else tools

theorem recordTimes_eval (station : Station K δ) (startRun : BitVec 64) :
    Eval (Station.perform device) (recordTimes startRun) station ()
      { station with tools := recorded startRun station.timers station.tools } := by
  simp only [recordTimes, bind_eq, call_bind, recorded]
  refine .request rfl ?_
  split
  next => exact .request rfl (.request rfl (.request rfl (.request rfl .pure)))
  next => exact .pure

/-- A sample joins the others in the rounds that take one. -/
theorem recorded_samples {startRun : BitVec 64} {timers : Timer → BitVec 64} {tools : Tool → Statbuffer K}
    (start : startRun = readings (2 * rounds))
    (lastruntime : timers .lastruntime = readings (2 * rounds + 1) - readings (2 * rounds))
    (count : timers .count = BitVec.ofNat 64 rounds)
    (laststart : 0 < rounds → timers .laststart = readings (2 * (rounds - 1)))
    (earlier : ∀ tool, tools tool = fresh.calcAll (samples readings tool rounds)) (tool : Tool) :
    recorded startRun timers tools tool = fresh.calcAll (samples readings tool (rounds + 1)) := by
  have before : ∀ tool, (samples readings tool rounds).foldl Statbuffer.calcOne fresh = tools tool :=
    fun tool => (earlier tool).symm
  rw [samples_succ, Statbuffer.calcAll, List.foldl_append, before]
  by_cases measured : 1 < BitVec.ofNat 64 rounds
  · have positive : 0 < rounds := Nat.pos_of_ne_zero fun none => by simp [none] at measured
    have counted : measuring rounds = true := decide_eq_true measured
    rw [recorded, if_pos (count ▸ measured), if_pos counted, List.foldl_cons, List.foldl_nil]
    cases tool with
    | runtime =>
      rw [Function.update_of_ne (by decide), Function.update_self, lastruntime]
      rfl
    | period =>
      rw [Function.update_self, start, laststart positive]
      rfl
  · have skipped : ¬ measuring rounds = true := fun counted => measured (of_decide_eq_true counted)
    rw [recorded, if_neg (count ▸ measured), if_neg skipped, List.foldl_nil]

theorem iteration_effect (ran : Eval (Station.perform device) iteration before () after)
    (reached : Reached readings fresh rounds before) : Reached readings fresh (rounds + 1) after := by
  simp only [iteration, bind_eq, call_bind] at ran
  obtain ⟨_, waited, wait, ran⟩ := ran.unbind
  obtain ⟨timers, tools, clock⟩ := shield_untouched wait
  replace ran := (Eval.answered_iff rfl).mp ((Eval.answered_iff rfl).mp ran)
  obtain ⟨_, cycled, cycle, ran⟩ := ran.unbind
  obtain ⟨timers', tools', clock'⟩ := shield_untouched cycle
  replace ran := (Eval.answered_iff rfl).mp ((Eval.answered_iff rfl).mp ((Eval.answered_iff rfl).mp ran))
  obtain ⟨_, measured, recording, ran⟩ := ran.unbind
  obtain ⟨_, rfl⟩ := recording.deterministic (recordTimes_eval _ _)
  replace ran := (Eval.answered_iff rfl).mp ((Eval.answered_iff rfl).mp ((Eval.answered_iff rfl).mp ran))
  obtain ⟨_, rfl⟩ := Eval.pure_iff.mp ran
  dsimp only at timers' tools' clock'
  have shown : waited.clock = fun index => readings (2 * rounds + index) := clock.trans reached.clock
  have started : waited.clock 0 = readings (2 * rounds) := by rw [shown]; rfl
  have ended : cycled.clock 0 = readings (2 * rounds + 1) := by rw [clock', shown]
  have kept : cycled.timers = before.timers := timers'.trans timers
  refine ⟨?_, ?_, fun _ => started, fun tool => ?_⟩
  · funext index
    dsimp only
    rw [clock', shown]
    exact congrArg readings (by omega)
  · dsimp only
    rw [Function.update_of_ne (by decide), Function.update_self, Function.update_of_ne (by decide), kept, reached.count,
      BitVec.ofNat_add]
    rfl
  · dsimp only
    refine recorded_samples started ?_ ?_ ?_ (fun tool => ?_) tool
    · rw [Function.update_self, ended, started]
    · rw [Function.update_of_ne (by decide), kept, reached.count]
    · rw [Function.update_of_ne (by decide), kept]
      exact reached.laststart
    · rw [tools', tools, reached.tools]

/-- Rounds of the loop that come to an end. -/
theorem iterations_effect {count : Nat} (ran : Eval (Station.perform device) (times iteration count) before () after)
    (reached : Reached readings fresh rounds before) : Reached readings fresh (rounds + count) after := by
  induction count generalizing rounds before with
  | zero =>
    obtain ⟨_, rfl⟩ := Eval.pure_iff.mp ran
    exact reached
  | succ count ih =>
    obtain ⟨_, middle, first, rest⟩ := Eval.unbind ran
    have later := ih rest (iteration_effect first reached)
    rwa [Nat.add_right_comm] at later

theorem zero_reached (station : Station K δ) (board : Board δ) :
    Reached station.clock Statbuffer.zero 0 { station.construct with board } where
  clock := by simp only [Nat.mul_zero, Nat.zero_add]; rfl
  count := rfl
  laststart none := absurd none (Nat.lt_irrefl 0)
  tools _ := rfl

theorem measuring_iff (index : Nat) : measuring index = true ↔ 1 < index % 2 ^ 64 := by
  rw [measuring, decide_eq_true_iff, BitVec.lt_def, BitVec.toNat_ofNat]
  exact Iff.rfl

/-- The first two rounds take no sample, all later ones take one. -/
theorem measuring_rounds (few : rounds ≤ 2 ^ 64) :
    (List.range rounds).filter measuring = (List.range (rounds - 2)).map (2 + ·) := by
  cases Nat.lt_or_ge rounds 2 with
  | inl short =>
    rw [Nat.sub_eq_zero_of_le short.le]
    apply List.filter_eq_nil_iff.mpr
    intro index inside
    rw [measuring_iff]
    have := List.mem_range.mp inside
    omega
  | inr enough =>
    obtain ⟨more, rfl⟩ := Nat.exists_eq_add_of_le enough
    have all : ((List.range more).map (2 + ·)).filter measuring = (List.range more).map (2 + ·) := by
      apply List.filter_eq_self.mpr
      intro index member
      obtain ⟨offset, inside, rfl⟩ := List.mem_map.mp member
      rw [measuring_iff]
      have := List.mem_range.mp inside
      omega
    rw [List.range_add, List.filter_append, all, Nat.add_sub_cancel_left]
    rfl

section Exact

variable {clock : Nat → BitVec 64}

theorem elapsed {first last : BitVec 64} (later : first ≤ last) :
    (Measure.double (last - first) : ℝ) = (last.toNat : ℝ) - first.toNat := by
  have difference : (last - first).toNat = last.toNat - first.toNat := BitVec.toNat_sub_of_le later
  have converted : (Measure.double (last - first) : ℝ) = ((last - first).toNat : ℝ) := rfl
  rw [converted, difference, Nat.cast_sub later]

theorem period_samples (few : rounds ≤ 2 ^ 64) (ordered : Nondecreasing rounds clock) :
    (samples clock .period rounds : List ℝ) = (List.range (rounds - 2)).map fun sample =>
      ((startOf clock (sample + 2) : ℝ) - startOf clock (sample + 1)) * 1E-6 := by
  rw [samples, measuring_rounds few, List.map_map]
  apply List.map_congr_left
  intro index member
  have inside := List.mem_range.mp member
  have first := ordered (2 * (index + 1)) (by omega)
  have second := ordered (2 * (index + 1) + 1) (by omega)
  have later : clock (2 * (2 + index - 1)) ≤ clock (2 * (2 + index)) := by
    rw [show 2 + index - 1 = index + 1 by omega, show 2 * (2 + index) = 2 * (index + 1) + 1 + 1 by omega]
    exact BitVec.le_trans first second
  rw [Function.comp_apply, sample, elapsed later, show 2 + index - 1 = index + 1 by omega, Nat.add_comm 2 index]
  rfl

theorem runtime_samples (few : rounds ≤ 2 ^ 64) (ordered : Nondecreasing rounds clock) :
    (samples clock .runtime rounds : List ℝ) = (List.range (rounds - 2)).map fun sample =>
      ((endOf clock (sample + 2) : ℝ) - startOf clock (sample + 2)) * 1E-3 := by
  rw [samples, measuring_rounds few, List.map_map]
  apply List.map_congr_left
  intro index member
  have inside := List.mem_range.mp member
  have later := ordered (2 * (2 + index)) (by omega)
  rw [Function.comp_apply, sample, elapsed later, Nat.add_comm 2 index]
  rfl

theorem Reached.counted {station : Station ℝ δ} (reached : Reached clock Statbuffer.zero rounds station) (tool : Tool) :
    (station.tools tool).count = BitVec.ofNat 64 ((List.range rounds).filter measuring).length := by
  have count := (Statistics.accumulated_all Statbuffer.zero (samples clock tool rounds)).count
  rw [samples, List.length_map] at count
  rw [← count, reached.tools]
  rfl

theorem tools_described {station : Station ℝ δ} (few : rounds ≤ 2 ^ 64)
    (reached : Reached clock Statbuffer.zero rounds station)
    (tool : Tool) (several : 3 ≤ rounds) :
    (station.tools tool).vmean * (rounds - 2 : Nat) = (samples clock tool rounds : List ℝ).sum := by
  have length : (samples clock tool rounds : List ℝ).length = rounds - 2 := by
    rw [samples, List.length_map, measuring_rounds few, List.length_map, List.length_range]
  have nonempty : (samples clock tool rounds : List ℝ) ≠ [] := List.ne_nil_of_length_pos (by omega)
  have described : Statistics.Describes (samples clock tool rounds) (station.tools tool) := by
    rw [reached.tools]
    exact @Statistics.describes_all _ Statbuffer.zero nonempty (by omega)
  rw [described.vmean, ← length, Samples.mean_mul_length nonempty]

theorem busy_bound (ordered : Nondecreasing (rounds + 3) clock) :
    ((List.range (rounds + 1)).map fun sample => (endOf clock (sample + 2) : ℝ) - startOf clock (sample + 2)).sum ≤
      endOf clock (rounds + 2) - startOf clock 2 := by
  induction rounds with
  | zero => simp
  | succ rounds ih =>
    have earlier := ih fun reading inside => ordered reading (by omega)
    have idle : endOf clock (rounds + 2) ≤ startOf clock (rounds + 3) := ordered (2 * (rounds + 2) + 1) (by omega)
    have apart : (endOf clock (rounds + 2) : ℝ) ≤ startOf clock (rounds + 3) := Nat.cast_le.mpr idle
    rw [List.sum_range_succ]
    linarith

theorem tiles {station : Station ℝ δ} (few : rounds ≤ 2 ^ 64) (ordered : Nondecreasing rounds clock)
    (reached : Reached clock Statbuffer.zero rounds station) : Tiles clock rounds station where
  counted tool := by
    have length : ((List.range rounds).filter measuring).length = rounds - 2 := by
      rw [measuring_rounds few, List.length_map, List.length_range]
    rw [reached.counted, length, BitVec.toNat_ofNat, Nat.mod_eq_of_lt (by omega)]
  period := by rw [reached.tools, period_samples few ordered]
  runtime := by rw [reached.tools, runtime_samples few ordered]
  covered several := by
    have ends : rounds - 2 + 1 = rounds - 1 := by omega
    rw [tools_described few reached .period several, period_samples few ordered, List.sum_map_mul_right,
      Samples.sum_differences (fun index => (startOf clock (index + 1) : ℝ)), ends]
  busy several := by
    obtain ⟨more, rfl⟩ := Nat.exists_eq_add_of_le' several
    rw [tools_described few reached .runtime several, runtime_samples few ordered, List.sum_map_mul_right]
    exact mul_le_mul_of_nonneg_right (busy_bound ordered) (by norm_num)

end Exact

/-- Up to 2^64 rounds, measured on whatever clock does not go back. -/
theorem periods_tile (device : Device δ) (station after : Station ℝ δ) (board : Board δ) (rounds : Nat)
    (few : rounds ≤ 2 ^ 64) (ordered : Nondecreasing rounds station.clock)
    (ran : Eval (Station.perform device) (times iteration rounds) { station.construct with board } () after) :
    Tiles station.clock rounds after := by
  have reached := iterations_effect ran (zero_reached station board)
  rw [Nat.zero_add] at reached
  exact tiles few ordered reached

section Runs

variable {station : Station K Lan9252}

theorem wait_eval (station : Station K Lan9252) : ∃ err after,
    Eval (Station.perform lan9252) (shield (Shield.waitforirqOrTimeout 100)) station err after ∧
    after.board = station.board := by
  simp only [shield, Shield.waitforirqOrTimeout, bind_eq, Shield.call_bind, Program.embed]
  by_cases opened : station.board.devhndl ≠ -1
  · refine ⟨station.ioctl 0, { station with ioctl := fun index => station.ioctl (index + 1) }, .request rfl ?_, rfl⟩
    rw [if_pos opened]
    exact .request rfl (.request rfl .pure)
  · refine ⟨-1, station, .request rfl ?_, rfl⟩
    rw [if_neg opened]
    exact .pure

theorem cycle_eval (station : Station K Lan9252) (slot : Fin qinSize)
    (selects : station.board.machine.object.curqoutidx.toNat = slot) : ∃ status after,
    Eval (Station.perform lan9252) (shield (Shield.base Rpi.mainTask)) station status after ∧
      after.board.machine.object.curqoutidx = station.board.machine.object.curqoutidx := by
  let machine := station.board.machine
  obtain ⟨chip, stack, ran, _⟩ :=
    ProcessData.mainTask_eval machine.object machine.stack machine.device.bus machine.device.chip slot selects
  let put (state : Machine Lan9252) : Station K Lan9252 :=
    { station with board := { station.board with machine := state } }
  have performs : ∀ op state reply following, lan9252.perform op state = some (reply, following) →
      ∃ reply', Station.perform lan9252 (.shield (.base op)) (put state) = some (reply', put following) ∧
        reply' = reply := by
    intro op state reply following performed
    refine ⟨reply, ?_, rfl⟩
    simp only [Station.perform, Board.perform, put, performed, Option.map_some]
  have embedded : Eval (Station.perform lan9252)
    (Rpi.mainTask.embed (fun op => .shield (.base op)) fun _ reply => reply)
      (put machine) (Lan9252.status machine.device.chip.memory)
      (put ⟨machine.object.cycle slot machine.device.chip.memory, ⟨.released, chip⟩, stack⟩) := Eval.embed performs ran
  rw [shield, Shield.base, embed_embed]
  exact ⟨_, _, embedded, RpiBase.cycle_curqoutidx _ _ _⟩

theorem iteration_eval (station : Station K Lan9252) (slot : Fin qinSize)
    (selects : station.board.machine.object.curqoutidx.toNat = slot) : ∃ after,
    Eval (Station.perform lan9252) iteration station () after ∧
      after.board.machine.object.curqoutidx = station.board.machine.object.curqoutidx := by
  obtain ⟨_, waited, wait, same⟩ := wait_eval station
  obtain ⟨_, cycled, cycle, kept⟩ := cycle_eval { waited with clock := fun index => waited.clock (index + 1) } slot
    (by rw [same]; exact selects)
  have recording := @recordTimes_eval K Lan9252 _ lan9252 { cycled with
    clock := fun index => cycled.clock (index + 1)
    timers := Function.update cycled.timers .lastruntime (cycled.clock 0 - waited.clock 0) } (waited.clock 0)
  dsimp only at kept
  rw [same] at kept
  simp only [iteration, bind_eq, call_bind]
  refine ⟨_, wait.bind (.request rfl (.request rfl (cycle.bind (.request rfl (.request rfl (.request rfl
    (recording.bind (.request rfl (.request rfl (.request rfl .pure)))))))))), kept⟩

theorem iterations_eval (count : Nat) (station : Station K Lan9252) (slot : Fin qinSize)
    (selects : station.board.machine.object.curqoutidx.toNat = slot) : ∃ after,
    Eval (Station.perform lan9252) (times iteration count) station () after := by
  induction count generalizing station with
  | zero => exact ⟨station, .pure⟩
  | succ count ih =>
    obtain ⟨middle, first, same⟩ := iteration_eval station slot selects
    obtain ⟨after, rest⟩ := ih middle (by rw [same]; exact selects)
    exact ⟨after, first.bind rest⟩

end Runs

/-- A board with a prompt chip and a clock that advances 250 us from reading to reading. -/
def bench (K : Type) [Measure K] : Station K Lan9252 where
  board := { machine := ⟨{}, ⟨.released, .prompt fun _ => 0⟩, fun _ => 0⟩ }
  timers _ := 0
  tools _ := .zero
  clock reading := BitVec.ofNat 64 (250000 * reading)

theorem periods_tile_three : ∃ after : Station ℝ Lan9252,
    Eval (Station.perform lan9252) (times iteration 3) (bench ℝ).construct () after ∧
    Tiles (bench ℝ).clock 3 after := by
  obtain ⟨after, ran⟩ := iterations_eval 3 (bench ℝ).construct ⟨0, by decide⟩ rfl
  have ordered : Nondecreasing 3 (bench ℝ).clock := by
    intro reading inside
    simp only [bench, BitVec.le_def, BitVec.toNat_ofNat]
    rw [Nat.mod_eq_of_lt (by omega), Nat.mod_eq_of_lt (by omega)]
    omega
  exact ⟨after, ran, periods_tile lan9252 (bench ℝ) after _ 3 (by norm_num) ordered ran⟩

/-- `m_count` comes back to zero, and the rounds after that take no sample. -/
theorem counter_wraps : ¬ ∀ (station after : Station ℝ Lan9252) (board : Board Lan9252) (rounds : Nat),
    Nondecreasing rounds station.clock →
      Eval (Station.perform lan9252) (times iteration rounds) { station.construct with board } () after →
        Tiles station.clock rounds after := by
  intro tiled
  obtain ⟨rounds, large⟩ : ∃ rounds, rounds = 2 ^ 64 := ⟨_, rfl⟩
  let station : Station ℝ Lan9252 := { bench ℝ with clock := fun _ => 0 }
  obtain ⟨after, ran⟩ := iterations_eval (rounds + 1) station.construct ⟨0, by decide⟩ rfl
  have reached := iterations_effect ran (zero_reached station station.construct.board)
  have skipped : measuring rounds = false := by
    rw [Bool.eq_false_iff, ne_eq, measuring_iff, large, Nat.mod_self]
    exact Nat.not_lt_zero 1
  have taken : ((List.range (rounds + 1)).filter measuring).length = rounds - 2 := by
    rw [List.range_succ, List.filter_append, measuring_rounds large.le, List.filter_singleton, skipped,
      List.length_append, List.length_map, List.length_range]
    rfl
  have counted := (tiled station after _ (rounds + 1) (fun _ _ => BitVec.le_refl 0) ran).counted .period
  rw [Nat.zero_add] at reached
  rw [reached.counted, taken, BitVec.toNat_ofNat, Nat.mod_eq_of_lt (by omega)] at counted
  omega

end EthercatSlave.Proofs.CycleTimes
