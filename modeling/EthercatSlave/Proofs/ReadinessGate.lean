import EthercatSlave.Proofs.Replay
import EthercatSlave.Proofs.Runs
import Mathlib.Data.List.Induction

/-! What a start-up knows of the chip when it enables the interrupt. The check
before the reset looks at HW_CFG and BYTE_TEST, the one after it only at
BYTE_TEST, so a chip that was reset is never seen to be ready. -/

namespace EthercatSlave.Proofs.ReadinessGate
open Program Rpi Shield Transaction Rules SpiTraffic ShieldTraffic Replay

variable {δ χ : Type} {device : Device δ} {outcome : Outcome} {made : List Transaction} {transaction : Transaction}

section Latest

theorem latest_concat (address : BitVec 16) (made : List Transaction) (transaction : Transaction) :
    latest address (made ++ [transaction]) = if transaction.resets then none
      else if transaction.Reads address 4 then some transaction.value else latest address made := by
  rw [latest, List.reverse_concat, List.takeWhile_cons]
  cases transaction.resets with
  | true => rfl
  | false =>
    simp only [Bool.not_false, if_true, Bool.false_eq_true, if_false, List.find?_cons]
    by_cases reads : transaction.Reads address 4
    · simp only [reads, decide_true, if_true, Option.map_some]
    · simp only [reads, decide_false, if_false]
      rfl

/-- It says nothing about the chip being ready. -/
structure Quiet (transaction : Transaction) : Prop where
  keeps : transaction.resets = false
  config : ¬ transaction.Reads hwCfg 4
  test : ¬ transaction.Reads byteTest 4

theorem quiet_of_address (reset : transaction.address ≠ resetCtl) (config : transaction.address ≠ hwCfg)
    (test : transaction.address ≠ byteTest) : Quiet transaction where
  keeps := by simp [resets, reset]
  config reads := config reads.2.1
  test reads := test reads.2.1

theorem shown_concat (quiet : Quiet transaction) : Shown (made ++ [transaction]) ↔ Shown made := by
  simp only [Shown, latest_concat, quiet.keeps, quiet.config, quiet.test, Bool.false_eq_true, if_false]

theorem shown_append {more : List Transaction} (quiet : ∀ other ∈ more, Quiet other) :
    Shown (made ++ more) ↔ Shown made := by
  induction more using List.reverseRecOn with
  | nil => rw [List.append_nil]
  | append_singleton earlier other ih =>
    rw [← List.append_assoc, shown_concat (quiet other (by simp))]
    exact ih fun other member => quiet other (List.mem_append_left _ member)

theorem not_shown_of_reset (reset : transaction.resets = true) : ¬ Shown (made ++ [transaction]) := by
  intro given
  obtain ⟨⟨config, found, _⟩, _⟩ := given
  rw [latest_concat, if_pos reset] at found
  cases found

theorem resets_of_writes {data : BitVec 32} (writes : transaction.Writes resetCtl data) :
    transaction.resets = true := by
  simp [resets, writes.1, writes.2.1]

theorem keeps_of_asks {address : BitVec 16} (asks : Asks address 4 transaction) : transaction.resets = false := by
  simp only [resets, asks.1.1]
  rfl

end Latest

section Watch

/-- READY and the test pattern are shown together only where the first two reads show them. -/
def Watched (made : List Transaction) : Prop :=
  ∀ earlier, earlier <+: made → Shown earlier → ∃ hw bt rest, earlier = hw :: bt :: rest ∧
    Asks hwCfg 4 hw ∧ hw.value &&& ready ≠ 0 ∧ Asks byteTest 4 bt ∧ bt.value = testPattern

theorem watched_nil : Watched [] := by
  intro earlier begins shown
  obtain rfl := List.prefix_nil.mp begins
  obtain ⟨⟨_, found, _⟩, _⟩ := shown
  cases found

theorem watched_concat (watched : Watched made) (last : Shown (made ++ [transaction]) → ∃ hw bt rest,
    made ++ [transaction] = hw :: bt :: rest ∧ Asks hwCfg 4 hw ∧ hw.value &&& ready ≠ 0 ∧ Asks byteTest 4 bt ∧
      bt.value = testPattern) : Watched (made ++ [transaction]) := by
  intro earlier begins shown
  rcases List.prefix_concat_iff.mp begins with rfl | begins
  · exact last shown
  · exact watched earlier begins shown

private theorem config_only {hw : Transaction} (asks : Asks hwCfg 4 hw) : ¬ Shown [hw] := by
  intro given
  obtain ⟨_, tested⟩ := given
  have other : ¬ hw.Reads byteTest 4 := fun reads => absurd (asks.1.2.1.symm.trans reads.2.1) (by decide)
  have none := latest_concat byteTest [] hw
  rw [keeps_of_asks asks, if_neg (by simp), if_neg other] at none
  cases none.symm.trans tested

theorem watched_config {hw : Transaction} (asks : Asks hwCfg 4 hw) : Watched [hw] :=
  watched_concat watched_nil fun shown => absurd shown (config_only asks)

private theorem shown_test {hw bt : Transaction} (asks : Asks byteTest 4 bt) (shown : Shown [hw, bt]) :
    bt.value = testPattern := by
  have tested := shown.2
  have last := latest_concat byteTest [hw] bt
  rw [keeps_of_asks asks, if_neg (by simp), if_pos asks.1] at last
  exact Option.some.inj (last.symm.trans tested)

theorem watched_test {hw bt : Transaction} (config : Asks hwCfg 4 hw) (found : hw.value &&& ready ≠ 0)
    (test : Asks byteTest 4 bt) : Watched [hw, bt] :=
  watched_concat (watched_config config) fun shown => ⟨hw, bt, [], rfl, config, found, test, shown_test test shown⟩

theorem watched_tolerates (address : BitVec 16) (config : address ≠ hwCfg) (test : address ≠ byteTest) :
    Tolerates Watched address := by
  intro made transaction watched _ same
  subst same
  refine watched_concat watched fun shown => ?_
  cases reset : transaction.resets with
  | true => exact absurd shown (not_shown_of_reset reset)
  | false =>
    have quiet : Quiet transaction := ⟨reset, fun reads => config reads.2.1, fun reads => test reads.2.1⟩
    obtain ⟨hw, bt, rest, rfl, finds⟩ := watched made (List.prefix_refl _) ((shown_concat quiet).mp shown)
    exact ⟨hw, bt, rest ++ [transaction], rfl, finds⟩

theorem watched_admits : Admits Watched [] where
  config _ := watched_config
  test _ _ := watched_test
  retest needed check first second bt checked writes writes' asks := by
    have checks : Watched check := by
      rcases checked with ⟨hw, rfl, config, _⟩ | ⟨hw, bt, rfl, config, found, test, _⟩
      · exact watched_config config
      · exact watched_test config found test
    have tolerates := watched_tolerates resetCtl (by decide) (by decide)
    have once := tolerates _ _ checks (Writes.register writes) writes.2.1
    have twice := tolerates _ _ once (Writes.register writes') writes'.2.1
    have hidden : ¬ Shown (check ++ [first] ++ [second] ++ [bt]) := by
      intro given
      obtain ⟨⟨config, found, _⟩, _⟩ := given
      have other : ¬ bt.Reads hwCfg 4 := fun reads => absurd (asks.1.2.1.symm.trans reads.2.1) (by decide)
      rw [latest_concat, keeps_of_asks asks, if_neg (by simp), if_neg other, latest_concat,
        if_pos (resets_of_writes writes')] at found
      cases found
    simpa using watched_concat twice fun shown => absurd shown hidden
  other := watched_tolerates

end Watch

section Power

variable {start : Board (Recorded δ)}

theorem spiInit_eval (outcome : Outcome) (start : Board (Recorded δ)) : ∃ err,
    Eval (Board.perform device.recorded outcome) spiInit start err start ∧ (err = 0 ↔ outcome.Powered) := by
  simp only [spiInit, bind_eq, call_bind, pure_eq]
  by_cases initialized : outcome.bcm2835Init = 0
  · refine ⟨-10, .request rfl ?_, by simp [Outcome.Powered, initialized]⟩
    rw [if_pos initialized]
    exact .pure
  · by_cases begun : outcome.bcm2835SpiBegin = 0
    · refine ⟨-9, .request rfl ?_, by simp [Outcome.Powered, begun]⟩
      rw [if_neg initialized]
      refine .request rfl ?_
      rw [if_pos begun]
      exact .pure
    · refine ⟨0, .request rfl ?_, by simp [Outcome.Powered, initialized, begun]⟩
      rw [if_neg initialized]
      refine .request rfl ?_
      rw [if_neg begun]
      exact .pure

theorem unpowered_init (unpowered : ¬ outcome.Powered) (start : Board (Recorded δ)) : ∃ err, err ≠ 0 ∧
    Eval (Board.perform device.recorded outcome) Shield.init start err start := by
  obtain ⟨err, ran, fine⟩ := @spiInit_eval δ device outcome start
  have failed : err ≠ 0 := fun zero => unpowered (fine.mp zero)
  refine ⟨err, failed, ?_⟩
  rw [init_eq]
  refine ran.bind ?_
  rw [if_pos failed]
  exact .pure

theorem powered_init (powered : outcome.Powered) {err : Int} {after : Board (Recorded δ)} :
    Eval (Board.perform device.recorded outcome) Shield.init start err after ↔
      Eval (Board.perform device.recorded outcome) bringUp start err after := by
  obtain ⟨zero, ran, fine⟩ := @spiInit_eval δ device outcome start
  obtain rfl := fine.mpr powered
  rw [init_eq]
  constructor
  · intro whole
    obtain ⟨err', middle, first, rest⟩ := whole.unbind
    obtain ⟨rfl, rfl⟩ := ran.deterministic first
    exact rest
  · exact fun rest => ran.bind rest

/-- What a call that finds the library up leaves, and where on the bus it was. -/
theorem init_started {lawful : List Transaction → Prop} {object : RpiBase} {done : List Transaction}
    (admits : Admits lawful done) (idle : Idle lawful object done start.machine) (powered : outcome.Powered) {err : Int}
    {after : Board (Recorded δ)} (ran : Eval (Board.perform device.recorded outcome) Shield.init start err after) :
    ∃ object made, Started (fun _ : Unit => outcome) (Board.frame start) err made (Board.frame after) ∧
      Idle lawful object (done ++ made) after.machine ∧
        Answers device start.machine.device.device (made.flatMap wire) after.machine.device.device := by
  have within : ∀ op before reply after, Board.perform device.recorded outcome op before = some (reply, after) →
      ∃ _ : Unit, Board.perform device.recorded outcome op before = some (reply, after) :=
    fun _ _ _ _ performed => ⟨(), performed⟩
  obtain ⟨_, object', made, started, idle'⟩ :=
    solo_eval within (by exact idle.traffic) (bringUp_ensures admits idle) ((powered_init powered).mp ran)
  exact ⟨object', made, started, idle', since_answers (since_eval ran) idle.trace idle'.trace⟩

/-- A start-up that got to the interrupt came past the check or past the reset. -/
theorem started_passes {outcomes : χ → Outcome} {before after : Int × List Int} {err : Int} {state final : δ}
    (started : Started outcomes before err made after) (answers : Answers device state (made.flatMap wire) final) :
    (∃ check enable, made = check ++ enable ∧ Checked 0 check ∧ Enabled enable ∧ Opened outcomes before.2 err after ∧
        (device.unready state).1 = false) ∨
      (∃ needed check reset enable, made = check ++ reset ++ enable ∧ Checked needed check ∧ Reset 0 reset ∧
        Enabled enable ∧ Opened outcomes before.2 err after ∧ device.Retested state) ∨
      (∃ needed check reset, made = check ++ reset ∧ Checked needed check ∧ Reset err reset ∧ err ≠ 0 ∧ before = after ∧
        ¬ device.Passes state) := by
  cases started with
  | @unready needed _ check reset checked unready resets failed =>
    rw [List.flatMap_append] at answers
    obtain ⟨middle, first, second⟩ := answers_append.mp answers
    have found := checked_answered checked first
    have value := reset_answered resets second
    refine .inr (.inr ⟨needed, check, reset, rfl, checked, resets, failed, rfl, fun passes => failed ?_⟩)
    rw [Device.Passes, found] at passes
    rw [value, if_pos (passes (decide_eq_true unready))]
  | @ready _ check enable _ checked enabled opened =>
    rw [List.flatMap_append] at answers
    obtain ⟨middle, first, _⟩ := answers_append.mp answers
    have found := checked_answered checked first
    exact .inl ⟨check, enable, rfl, checked, enabled, opened, by rw [found]; rfl⟩
  | @reset needed _ check reset enable _ checked unready resets enabled opened =>
    rw [List.flatMap_append, List.flatMap_append] at answers
    obtain ⟨_, front, _⟩ := answers_append.mp answers
    obtain ⟨middle, first, second⟩ := answers_append.mp front
    have found := checked_answered checked first
    have value := reset_answered resets second
    refine .inr (.inl ⟨needed, check, reset, enable, rfl, checked, resets, enabled, opened, ?_⟩)
    rw [Device.Retested, found]
    refine ⟨decide_eq_true unready, Classical.byContradiction fun differs => ?_⟩
    rw [if_neg differs] at value
    cases value

end Power

section Gate

variable {board : Board δ}

theorem idle_observe {lawful : List Transaction → Prop} (board : Board δ) (empty : lawful []) :
    Idle lawful board.machine.object [] (observe board).machine := ⟨rfl, rfl, empty⟩

/-- A device that passes only the byte test is never seen to be ready, at any point of the start-up. -/
theorem never_shown (retested : device.Retested board.machine.device) (steps : Nat)
    (final : Pool Unit ShieldOp ShieldOp.Reply (Board (Recorded δ)) fun _ => List Int)
    (ran : (session [.init] board).run (Board.perform device.recorded) (List.replicate steps ((), outcome)) =
      some final) :
    ¬ Shown (completed final.world.state.machine.device.trace) := by
  intro shown
  have idle : Idle Watched board.machine.object [] (session [.init] board).world.state.machine :=
    idle_observe board watched_nil
  have ensures : (shieldRules device Watched id).Ensures ((session [.init] board).threads ()) (fun _ _ => True)
      (session [.init] board).world.state := by
    refine Ensures.bind idle.traffic ((init_ensures watched_admits idle).mono fun _ _ _ _ => ?_)
    exact solo_pure trivial
  obtain ⟨transactions, watched, begins⟩ := (solo_run (by exact idle.traffic) ensures ran).1
  obtain ⟨front, wires⟩ := completed_prefix begins
  obtain ⟨hw, bt, rest, same, config, found, test, passed⟩ := watched _ front shown
  have each : ∀ choice op before reply after, Board.perform device.recorded choice op before = some (reply, after) →
      Since device (observe board) before → Since device (observe board) after := fun _ _ _ _ _ => since_step
  have since : Since device (observe board) final.world.state := Pool.run_keeps each ran (since_refl _)
  obtain ⟨added, trace, answers⟩ := since
  have trace : final.world.state.machine.device.trace = added := trace
  have split : ([hw, bt].flatMap wire) <+: added := by
    rw [same, trace] at wires
    refine List.IsPrefix.trans ?_ wires
    rw [show hw :: bt :: rest = [hw, bt] ++ rest from rfl, List.flatMap_append]
    exact List.prefix_append ..
  obtain ⟨later, rfl⟩ := split
  obtain ⟨middle, first, _⟩ := answers_append.mp answers
  have checked : Checked 0 [hw, bt] := .inr ⟨hw, bt, rfl, config, found, test, by simp [passed]⟩
  have unready := retested.1
  rw [show board.machine.device = (observe board).machine.device.device from rfl,
    checked_answered checked first] at unready
  cases unready

private theorem enable_quiet {enable : List Transaction} (enabled : Enabled enable) :
    ∀ other ∈ enable, Quiet other := by
  obtain ⟨mask, irq, int, rfl, ⟨data, command, polls, rfl, writes, commands, reads⟩, pin, chip⟩ := enabled
  have quiet : ∀ other : Transaction, ∀ address, other.address = address → address ≠ resetCtl → address ≠ hwCfg →
      address ≠ byteTest → Quiet other := by
    intro other _ same reset config test
    subst same
    exact quiet_of_address reset config test
  intro other member
  simp only [List.cons_append, List.mem_cons, List.mem_append, List.not_mem_nil, or_false] at member
  rcases member with rfl | rfl | polled | rfl | rfl
  · exact quiet _ _ writes.2.1 (by decide) (by decide) (by decide)
  · exact quiet _ _ commands.2.1 (by decide) (by decide) (by decide)
  · exact quiet _ _ (reads other polled).2.1 (by decide) (by decide) (by decide)
  · exact quiet _ _ pin.2.1 (by decide) (by decide) (by decide)
  · exact quiet _ _ chip.2.1 (by decide) (by decide) (by decide)

private theorem silent_of_asks {address : BitVec 16} (asks : Asks address 4 transaction) : ¬ transaction.Enables :=
  fun enables => absurd (asks.1.1.symm.trans enables.1) (by decide)

private theorem checked_silent {needed : Int} {check : List Transaction} (checked : Checked needed check) :
    ∀ other ∈ check, ¬ other.Enables := by
  intro other member
  rcases checked with ⟨hw, rfl, config, _⟩ | ⟨hw, bt, rfl, config, _, test, _⟩
  · cases List.mem_singleton.mp member
    exact silent_of_asks config
  · simp only [List.mem_cons, List.not_mem_nil, or_false] at member
    rcases member with rfl | rfl
    · exact silent_of_asks config
    · exact silent_of_asks test

private theorem reset_silent {value : Int} {reset : List Transaction} (resets : Reset value reset) :
    ∀ other ∈ reset, ¬ other.Enables := by
  obtain ⟨first, second, bt, rfl, writes, writes', asks, _⟩ := resets
  intro other member
  simp only [List.mem_cons, List.not_mem_nil, or_false] at member
  rcases member with rfl | rfl | rfl
  · exact fun enables => absurd (writes.2.1.symm.trans enables.2) (by decide)
  · exact fun enables => absurd (writes'.2.1.symm.trans enables.2) (by decide)
  · exact silent_of_asks asks

/-- A passed check shows the chip ready. -/
private theorem shown_of_checked {check : List Transaction} (checked : Checked 0 check) : Shown check := by
  rcases checked with ⟨_, _, _, _, none⟩ | ⟨hw, bt, rfl, config, found, test, value⟩
  · cases none
  · have passed : bt.value = testPattern := by
      by_contra differs
      rw [if_pos differs] at value
      cases value
    have first := latest_concat hwCfg [] hw
    rw [keeps_of_asks config, if_neg (by simp), if_pos config.1] at first
    have second := latest_concat hwCfg [hw] bt
    have other : ¬ bt.Reads hwCfg 4 := fun reads => absurd (test.1.2.1.symm.trans reads.2.1) (by decide)
    rw [keeps_of_asks test, if_neg (by simp), if_neg other] at second
    have third := latest_concat byteTest [hw] bt
    rw [keeps_of_asks test, if_neg (by simp), if_pos test.1, passed] at third
    exact ⟨⟨hw.value, second.trans first, found⟩, third⟩

theorem enabled_enables {enable : List Transaction} (enabled : Enabled enable) : ∃ other ∈ enable, other.Enables := by
  obtain ⟨mask, irq, int, rfl, _, _, writes⟩ := enabled
  exact ⟨int, by simp, writes.1, writes.2.1⟩

theorem not_gate_of_retested (powered : outcome.Powered) (retested : device.Retested board.machine.device) :
    ¬ Gate device board outcome := by
  intro gate
  obtain ⟨err, after, ran, failed, silent⟩ := gate.refused fun steps final ran => never_shown retested steps final ran
  obtain ⟨_, made, started, idle, answers⟩ := init_started watched_admits (idle_observe board watched_nil) powered ran
  rw [completed_idle idle] at silent
  rcases started_passes started answers with ⟨_, _, _, _, _, _, ready⟩ |
    ⟨_, check, reset, enable, rfl, _, _, enabled, _⟩ |
    ⟨_, _, _, _, _, _, _, _, refuses⟩
  · have unready := retested.1
    rw [show board.machine.device = (observe board).machine.device.device from rfl, ready] at unready
    cases unready
  · obtain ⟨other, member, enables⟩ := enabled_enables enabled
    exact silent other (by simp [member]) enables
  · exact refuses fun _ => retested.2

private theorem gate_opened (sound : ¬ (outcome.Powered ∧ device.Retested board.machine.device))
    {after : Board (Recorded δ)}
    (ran : Eval (Board.perform device.recorded outcome) Shield.init (observe board) 0 after)
    {earlier later : List Transaction} {enable : Transaction}
    (split : completed after.machine.device.trace = earlier ++ enable :: later) (enables : enable.Enables) :
    Shown earlier := by
  by_cases powered : outcome.Powered
  · obtain ⟨_, made, started, idle, answers⟩ := init_started watched_admits (idle_observe board watched_nil) powered ran
    rw [completed_idle idle, List.nil_append] at split
    rcases started_passes started answers with ⟨check, enabling, rfl, checked, enabled, _⟩ |
      ⟨_, _, _, _, _, _, _, _, _, retested⟩ | ⟨_, _, _, _, _, _, failed, _⟩
    · have shown := shown_of_checked checked
      rcases List.append_eq_append_iff.mp split with ⟨more, rfl, rest⟩ | ⟨more, rfl, rest⟩
      · refine (shown_append fun other member => ?_).mpr shown
        exact enable_quiet enabled other (by rw [rest]; exact List.mem_append_left _ member)
      · cases more with
        | nil => rwa [List.append_nil] at shown
        | cons head more =>
          obtain ⟨rfl, _⟩ := List.cons.inj rest
          exact absurd enables (checked_silent checked enable (by simp))
    · exact absurd ⟨powered, retested⟩ sound
    · exact absurd rfl failed
  · obtain ⟨err, failed, ran'⟩ := @unpowered_init δ device outcome powered (observe board)
    exact absurd (ran'.deterministic ran).1 failed

/-- Requests of the shield that are never refused. -/
private def Wired : ShieldOp → Prop
  | .base (.load _) | .base (.store _ _) | .openDevice => False
  | _ => True

private theorem wired_answers (op : ShieldOp) (state : Board (Recorded δ)) (wired : Wired op) :
    ∃ reply following, Board.perform device.recorded outcome op state = some (reply, following) := by
  cases op with
  | base op => cases op <;> first | exact wired.elim | exact ⟨_, _, rfl⟩
  | openDevice => exact wired.elim
  | _ => exact ⟨_, _, rfl⟩

private theorem writeReg_straight (address : BitVec 16) (data : BitVec 32) :
    (base (writeReg address data)).Straight Wired := by
  repeat refine ⟨trivial, fun _ => ?_⟩
  trivial

private theorem readReg_straight (address : BitVec 16) (len : Byte) : (base (readReg address len)).Straight Wired := by
  have filled : ∀ result, (forUp readByte len.toNat 0 result).Straight fun op => Wired (.base op) :=
    fun result => Straight.forUp len.toNat 0 result fun _ _ => ⟨trivial, fun _ => trivial⟩
  apply Straight.embed
  simp only [readReg, bind_eq, indeterminate_bind, select_bind, spiWrite_bind, pure_eq]
  iterate 5 refine ⟨trivial, fun _ => ?_⟩
  exact Straight.bind (filled _) fun _ => ⟨trivial, fun _ => trivial⟩

private theorem isResetneeded_straight : isResetneeded.Straight Wired := by
  simp only [isResetneeded, bind_eq, pure_eq]
  refine Straight.bind (readReg_straight hwCfg 4) fun config => ?_
  split
  · trivial
  · exact Straight.bind (readReg_straight byteTest 4) fun _ => trivial

private theorem doResetshield_straight : doResetshield.Straight Wired := by
  simp only [doResetshield, bind_eq, call_bind, pure_eq]
  refine Straight.bind (writeReg_straight _ _) fun _ => ⟨trivial, fun _ => ?_⟩
  refine Straight.bind (writeReg_straight _ _) fun _ => ⟨trivial, fun _ => ?_⟩
  exact Straight.bind (readReg_straight byteTest 4) fun _ => trivial

/-- The end of the first check is a point of the start-up. -/
private theorem check_reached (powered : outcome.Powered) {needed : Int} {middle : Board (Recorded δ)}
    (checks : Eval (Board.perform device.recorded outcome) isResetneeded (observe board) needed middle) :
    ∃ steps final, (session [.init] board).run (Board.perform device.recorded) (List.replicate steps ((), outcome)) =
      some final ∧ final.world.state = middle := by
  obtain ⟨err, begun, fine⟩ := @spiInit_eval δ device outcome (observe board)
  obtain rfl := fine.mpr powered
  let collect (result : Int) : Shield (List Int) := .pure [result]
  obtain ⟨next, continues⟩ : ∃ next, bringUp = isResetneeded.bind next := ⟨_, rfl⟩
  obtain ⟨first, ran, _⟩ := begun.reaches fun err => (if err ≠ 0 then .pure err else bringUp).bind collect
  obtain ⟨second, ran', _⟩ := checks.reaches fun needed => (next needed).bind collect
  have begins : performAll [.init] = spiInit.bind fun err => (if err ≠ 0 then .pure err else bringUp).bind collect := by
    rw [← bind_assoc, ← init_eq]
    simp only [performAll, Call.perform, bind_eq, pure_eq, pure_bind, collect]
  rw [← begins] at ran
  rw [← bind_assoc, ← continues] at ran'
  obtain ⟨_, reached⟩ := ran.trans ran' []
  exact ⟨_, _, reached, rfl⟩

private theorem gate_refused (sound : ¬ (outcome.Powered ∧ device.Retested board.machine.device))
    (hidden : ∀ steps final, (session [.init] board).run (Board.perform device.recorded)
      (List.replicate steps ((), outcome)) = some final → ¬ Shown (completed final.world.state.machine.device.trace)) :
    ∃ err after, Eval (Board.perform device.recorded outcome) Shield.init (observe board) err after ∧ err ≠ 0 ∧
      ∀ transaction ∈ completed after.machine.device.trace, ¬ transaction.Enables := by
  by_cases powered : outcome.Powered
  · have within : ∀ op before reply after, Board.perform device.recorded outcome op before = some (reply, after) →
        ∃ _ : Unit, Board.perform device.recorded outcome op before = some (reply, after) :=
      fun _ _ _ _ performed => ⟨(), performed⟩
    have idle := idle_observe board watched_nil
    obtain ⟨needed, middle, checks⟩ := Eval.of_straight isResetneeded_straight
      (@wired_answers δ device outcome) (observe board)
    obtain ⟨_, _, check, checked, idle', _⟩ := solo_eval within (by exact idle.traffic)
      (isResetneeded_ensures watched_admits idle) checks
    have answers := since_answers (since_eval checks) idle.trace idle'.trace
    have found := checked_answered checked answers
    by_cases unready : needed = 0
    · subst unready
      obtain ⟨steps, final, ran, rfl⟩ := check_reached powered checks
      have unseen := hidden steps final ran
      rw [completed_idle idle'] at unseen
      exact absurd (shown_of_checked checked) unseen
    · have admits := watched_admits
      obtain ⟨err, after, reset⟩ := Eval.of_straight doResetshield_straight (@wired_answers δ device outcome) middle
      have resettable := @doResetshield_ensures δ Unit device _ _ middle Watched (fun _ => outcome)
        (admits.other resetCtl (by decide) (by decide))
        (fun first second bt => admits.retest needed check first second bt checked) idle'
      obtain ⟨_, _, made, resets, idle'', _⟩ := solo_eval within (by exact idle'.traffic) resettable reset
      have value := reset_answered resets (since_answers (since_eval reset) idle'.trace idle''.trace)
      have failed : err ≠ 0 := by
        intro same
        subst same
        refine sound ⟨powered, ?_⟩
        rw [Device.Retested, show board.machine.device = (observe board).machine.device.device from rfl, found]
        refine ⟨decide_eq_true unready, Classical.byContradiction fun differs => ?_⟩
        rw [if_neg differs] at value
        cases value
      refine ⟨err, after, (powered_init powered).mpr (checks.bind ?_), failed, ?_⟩
      · rw [if_pos unready]
        refine reset.bind ?_
        dsimp only
        rw [if_pos failed]
        exact .pure
      · rw [completed_idle idle'']
        intro other member
        rcases List.mem_append.mp member with front | last
        · exact checked_silent checked other front
        · exact reset_silent resets other last
  · obtain ⟨err, failed, ran⟩ := @unpowered_init δ device outcome powered (observe board)
    refine ⟨err, _, ran, failed, fun other member => ?_⟩
    cases member

/-- The start-up is a readiness gate except for a device that fails the check before
the reset and passes the byte test after it. -/
theorem gate_iff (device : Device δ) (board : Board δ) (outcome : Outcome) :
    Gate device board outcome ↔ ¬ (outcome.Powered ∧ device.Retested board.machine.device) := by
  constructor
  · intro gate given
    obtain ⟨powered, retested⟩ := given
    exact not_gate_of_retested powered retested gate
  · intro sound
    exact ⟨fun _ ran _ _ _ split enables => gate_opened sound ran split enables, gate_refused sound⟩

/-- A chip that never gets READY but answers the byte test. It counts the bytes of a
transaction and keeps the second byte of the address. -/
def unreadyChip : Device (Nat × Byte) where
  select _ _ := (0, 0)
  transfer data state :=
    match state with
    | (0, _) => (0, (1, 0))
    | (1, _) => (0, (2, 0))
    | (2, _) => (0, (3, data))
    | (index, low) =>
      (if low = 0x64 then byte testPattern (index - 3) else 0, (index + 1, low))

/-- Its interrupt is enabled all the same. -/
theorem unready_chip_enabled : ¬ Gate unreadyChip
    (⟨⟨{}, (0, 0), fun _ => 0⟩, -1, []⟩ : Board (Nat × Byte)) { opened := some 3 } := by
  apply not_gate_of_retested
  · exact ⟨by decide, by decide⟩
  · exact ⟨by decide, by decide⟩

end Gate
end EthercatSlave.Proofs.ReadinessGate
