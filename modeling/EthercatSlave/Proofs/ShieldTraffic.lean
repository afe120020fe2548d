import EthercatSlave.Lan9252
import EthercatSlave.Startup
import EthercatSlave.Proofs.SpiTraffic

/-! The traffic of the shield's functions: start-up, reset and the set-up of the
interrupt, call after call and cycle after cycle. -/

namespace EthercatSlave.Proofs.ShieldTraffic
open Program Rpi Shield Transaction Rules SpiTraffic

variable {δ α χ : Type} {device : Device δ} {object : RpiBase} {done : List Transaction} {board : Board (Recorded δ)}
  {lawful : List Transaction → Prop} {outcomes : χ → Outcome}

def shieldRules (device : Device δ) (lawful : List Transaction → Prop) (outcomes : χ → Outcome) :
    Rules ShieldOp ShieldOp.Reply (Board (Recorded δ)) :=
  solo (fun choice => Board.perform device.recorded (outcomes choice)) fun board =>
    Traffic lawful board.machine.device.trace

/-- What a function of `rpi_base` leaves alone. -/
def Board.frame (board : Board δ) : Int × List Int := (board.devhndl, board.handles)

theorem base_ensures {program : Rpi α} {post : α → Bench δ → Prop}
    (ensures : (rules device lawful).Ensures program post board.machine) :
    (shieldRules device lawful outcomes).Ensures (base program)
      (fun value after => post value after.machine ∧ Board.frame after = Board.frame board) board := by
  refine solo_embed Board.machine Board.frame ?_ ensures
  intro choice op before reply after performed
  obtain ⟨⟨_, machine⟩, made, same⟩ := Option.map_eq_some_iff.mp performed
  cases same
  exact ⟨⟨(), made⟩, rfl⟩

def Made (lawful : List Transaction → Prop) (done : List Transaction) (frame : Int × List Int)
    (shape : List Transaction → Prop) (board : Board (Recorded δ)) : Prop :=
  ∃ object made, shape made ∧ Idle lawful object (done ++ made) board.machine ∧ Board.frame board = frame

/-- The answers of the readiness check and what it makes of them. -/
def Checked (value : Int) (made : List Transaction) : Prop :=
  (∃ hw, made = [hw] ∧ Asks hwCfg 4 hw ∧ hw.value &&& ready = 0 ∧ value = -11) ∨
  (∃ hw bt, made = [hw, bt] ∧ Asks hwCfg 4 hw ∧ hw.value &&& ready ≠ 0 ∧ Asks byteTest 4 bt ∧
    value = if bt.value ≠ testPattern then -15 else 0)

/-- Start-up after `done` stays lawful, whatever the answers. -/
structure Admits (lawful : List Transaction → Prop) (done : List Transaction) : Prop where
  config : ∀ hw, Asks hwCfg 4 hw → lawful (done ++ [hw])
  test : ∀ hw bt, Asks hwCfg 4 hw → hw.value &&& ready ≠ 0 → Asks byteTest 4 bt → lawful (done ++ [hw, bt])
  retest : ∀ needed check first second bt, Checked needed check → first.Writes resetCtl digitalRst →
    second.Writes resetCtl digitalRst → Asks byteTest 4 bt → lawful (done ++ check ++ [first, second, bt])
  other : ∀ address, address ≠ hwCfg → address ≠ byteTest → Tolerates lawful address

theorem legal_resets (legal : Legal done) {first second bt : Transaction} (writes : first.Writes resetCtl digitalRst)
    (writes' : second.Writes resetCtl digitalRst)
    (asks : Asks byteTest 4 bt) : Legal (done ++ [first, second, bt]) := by
  have once := legal_tolerates resetCtl _ _ legal (Writes.register writes) writes.2.1
  have twice := legal_tolerates resetCtl _ _ once (Writes.register writes') writes'.2.1
  simpa using (legal_tolerates byteTest).asks (.inr rfl) twice bt asks

theorem legal_admits (legal : Legal done) : Admits Legal done where
  config hw asks := (legal_tolerates hwCfg).asks (.inr rfl) legal hw asks
  test hw bt asks _ asks' := by
    have first := (legal_tolerates hwCfg).asks (.inr rfl) legal hw asks
    simpa using (legal_tolerates byteTest).asks (.inr rfl) first bt asks'
  retest needed check first second bt checked writes writes' asks := by
    have checks : Legal (done ++ check) := by
      rcases checked with ⟨hw, rfl, config, _⟩ | ⟨hw, bt, rfl, config, _, test, _⟩
      · exact (legal_tolerates hwCfg).asks (.inr rfl) legal hw config
      · have first := (legal_tolerates hwCfg).asks (.inr rfl) legal hw config
        simpa using (legal_tolerates byteTest).asks (.inr rfl) first bt test
    exact legal_resets checks writes writes' asks
  other address _ _ := legal_tolerates address

theorem isResetneeded_ensures (admits : Admits lawful done) (idle : Idle lawful object done board.machine) :
    (shieldRules device lawful outcomes).Ensures isResetneeded
      (fun value => Made lawful done (Board.frame board) (Checked value)) board := by
  simp only [isResetneeded, bind_eq, pure_eq]
  apply Ensures.bind idle.traffic
  apply (base_ensures (readReg_ensures hwCfg 4 (.inr rfl) admits.config idle)).mono
  intro value bench _ given
  obtain ⟨⟨hw, delivers, idle⟩, frame⟩ := given
  obtain rfl := value_of_delivers delivers
  split
  next unready => exact solo_pure ⟨_, [hw], .inl ⟨hw, rfl, delivers.1, unready, rfl⟩, idle, frame⟩
  next found =>
    have admitted : ∀ bt, Asks byteTest 4 bt → lawful (done ++ [hw] ++ [bt]) := by
      intro bt asks
      simpa using admits.test hw bt delivers.1 found asks
    apply Ensures.bind idle.traffic
    apply (base_ensures (readReg_ensures byteTest 4 (.inr rfl) admitted idle)).mono
    intro value bench _ given
    obtain ⟨⟨bt, delivers', idle⟩, frame'⟩ := given
    obtain rfl := value_of_delivers delivers'
    refine solo_pure ⟨_, [hw, bt], .inr ⟨hw, bt, rfl, delivers.1, found, delivers'.1, rfl⟩, by simpa using idle, ?_⟩
    rw [frame', frame]

/-- The two resets and the byte test after them. -/
def Reset (value : Int) (made : List Transaction) : Prop :=
  ∃ first second bt, made = [first, second, bt] ∧ first.Writes resetCtl digitalRst ∧ second.Writes resetCtl digitalRst ∧
    Asks byteTest 4 bt ∧ value = if bt.value = testPattern then 0 else -9

private theorem usleep_ensures {microseconds : Nat} {next : Unit → Shield α} {post : α → Board (Recorded δ) → Prop}
    (later : (shieldRules device lawful outcomes).Ensures (next ()) post board) :
    (shieldRules device lawful outcomes).Ensures (.request (.usleep microseconds) next) post board := by
  apply solo_request
  intro kept _ _ _ stopped
  cases stopped
  exact ⟨kept, later⟩

theorem doResetshield_ensures (tolerates : Tolerates lawful resetCtl)
    (admits : ∀ first second bt, first.Writes resetCtl digitalRst → second.Writes resetCtl digitalRst →
      Asks byteTest 4 bt → lawful (done ++ [first, second, bt]))
    (idle : Idle lawful object done board.machine) : (shieldRules device lawful outcomes).Ensures doResetshield
      (fun value => Made lawful done (Board.frame board) (Reset value)) board := by
  simp only [doResetshield, bind_eq, call_bind, pure_eq]
  apply Ensures.bind idle.traffic
  apply (base_ensures (writeReg_ensures resetCtl digitalRst tolerates idle)).mono
  intro _ board' _ given
  obtain ⟨⟨first, writes, idle⟩, frame⟩ := given
  apply usleep_ensures
  apply Ensures.bind idle.traffic
  apply (base_ensures (writeReg_ensures resetCtl digitalRst tolerates idle)).mono
  intro _ board' _ given
  obtain ⟨⟨second, writes', idle⟩, frame'⟩ := given
  apply usleep_ensures
  have admitted : ∀ bt, Asks byteTest 4 bt → lawful (done ++ [first] ++ [second] ++ [bt]) := by
    intro bt asks
    simpa using admits first second bt writes writes' asks
  apply Ensures.bind idle.traffic
  apply (base_ensures (readReg_ensures byteTest 4 (.inr rfl) admitted idle)).mono
  intro value bench _ given
  obtain ⟨⟨bt, delivers, idle⟩, frame''⟩ := given
  obtain rfl := value_of_delivers delivers
  refine solo_pure ⟨_, [first, second, bt], ⟨first, second, bt, rfl, writes, writes', delivers.1, rfl⟩,
    by simpa using idle, ?_⟩
  rw [frame'', frame', frame]

def Enabled (made : List Transaction) : Prop :=
  ∃ mask irq int, made = mask ++ [irq, int] ∧ IndirectWrite alEventMaskReg0 0x00000100 mask ∧
    irq.Writes irqCfg 0x00000111 ∧ int.Writes intEn 0x00000001

/-- How the open of the device turned out. -/
def Opened (outcomes : χ → Outcome) (handles : List Int) (value : Int) (frame : Int × List Int) : Prop :=
  ∃ choice, match (outcomes choice).opened with
    | none => frame = (-1, handles) ∧ value = -27
    | some handle => (handle : Int) ∉ handles ∧ frame = ((handle : Int), (handle : Int) :: handles) ∧ value = 0

theorem doInitirq_ensures (tolerates : ∀ address, address ≠ hwCfg → address ≠ byteTest → Tolerates lawful address)
    (idle : Idle lawful object done board.machine) :
    (shieldRules device lawful outcomes).Ensures doInitirq (fun value after => ∃ object made, Enabled made ∧
      Idle lawful object (done ++ made) after.machine ∧
      Opened outcomes board.handles value (Board.frame after)) board := by
  simp only [doInitirq, bind_eq, call_bind, pure_eq]
  apply Ensures.bind idle.traffic
  apply (base_ensures (writeRegWait_ensures alEventMaskReg0 0x00000100
    (tolerates ecatCsrData (by decide) (by decide)) (tolerates ecatCsrCmd (by decide) (by decide)) idle)).mono
  intro _ board' _ given
  obtain ⟨⟨mask, writes, idle⟩, frame⟩ := given
  apply Ensures.bind idle.traffic
  apply (base_ensures (writeReg_ensures irqCfg 0x00000111 (tolerates irqCfg (by decide) (by decide)) idle)).mono
  intro _ board' _ given
  obtain ⟨⟨irq, writes', idle⟩, frame'⟩ := given
  apply Ensures.bind idle.traffic
  apply (base_ensures (writeReg_ensures intEn 0x00000001 (tolerates intEn (by decide) (by decide)) idle)).mono
  intro _ board' _ given
  obtain ⟨⟨int, writes'', idle⟩, frame''⟩ := given
  rw [frame', frame] at frame''
  have handles : board'.handles = board.handles := congrArg Prod.snd frame''
  have enabled : Enabled (mask ++ [irq, int]) := ⟨mask, irq, int, rfl, writes, writes', writes''⟩
  apply solo_request
  intro kept choice (handle : Int) opened performed
  -- neither outcome of the open touches the bus
  have answered : opened.machine = board'.machine ∧ match (outcomes choice).opened with
      | none => handle = -1 ∧ opened.handles = board.handles
      | some fresh => handle = fresh ∧ handle ∉ board.handles ∧ opened.handles = handle :: board.handles := by
    rw [← handles]
    cases chosen : (outcomes choice).opened with
    | none =>
      simp only [Board.perform, chosen] at performed
      cases performed
      exact ⟨rfl, rfl, rfl⟩
    | some fresh =>
      simp only [Board.perform, chosen] at performed
      split at performed
      next => cases performed
      next free =>
        cases performed
        exact ⟨rfl, rfl, free, rfl⟩
  obtain ⟨machine, answered⟩ := answered
  rw [← machine] at kept idle
  refine ⟨kept, ?_⟩
  apply solo_request
  intro _ _ _ _ stopped
  cases stopped
  refine ⟨kept, ?_⟩
  apply solo_request
  intro _ _ _ _ stopped
  cases stopped
  refine ⟨kept, ?_⟩
  cases chosen : (outcomes choice).opened with
  | none =>
    rw [chosen] at answered
    obtain ⟨rfl, same⟩ := answered
    refine solo_pure ⟨_, _, enabled, by simpa using idle, choice, ?_⟩
    rw [chosen]
    exact ⟨congrArg (Prod.mk (-1)) same, rfl⟩
  | some fresh =>
    rw [chosen] at answered
    obtain ⟨rfl, free, same⟩ := answered
    have valid : (fresh : Int) ≠ -1 := by omega
    rw [if_neg valid]
    refine solo_pure ⟨_, _, enabled, by simpa using idle, choice, ?_⟩
    rw [chosen]
    exact ⟨free, congrArg (Prod.mk (fresh : Int)) same, rfl⟩

def bringUp : Shield Int := do
  let needed ← isResetneeded
  let err ← if needed ≠ 0 then doResetshield else .pure 0
  if err ≠ 0 then
    return err
  doInitirq

theorem init_eq : Shield.init = spiInit.bind fun err => if err ≠ 0 then .pure err else bringUp := by
  simp only [Shield.init, bind_eq, pure_eq]
  congr 1
  funext err
  split
  next => rfl
  next powered =>
    obtain rfl := Classical.not_not.mp powered
    rfl

/-- What this does on the bus and to the handles, by where it ends. -/
inductive Started (outcomes : χ → Outcome) (before : Int × List Int) : Int → List Transaction →
    Int × List Int → Prop where
  | unready {needed value : Int} {check reset : List Transaction} : Checked needed check → needed ≠ 0 →
      Reset value reset → value ≠ 0 → Started outcomes before value (check ++ reset) before
  | ready {value : Int} {check enable : List Transaction} {after : Int × List Int} : Checked 0 check → Enabled enable →
      Opened outcomes before.2 value after → Started outcomes before value (check ++ enable) after
  | reset {needed value : Int} {check reset enable : List Transaction} {after : Int × List Int} : Checked needed check →
      needed ≠ 0 → Reset 0 reset → Enabled enable → Opened outcomes before.2 value after →
      Started outcomes before value (check ++ reset ++ enable) after

theorem bringUp_ensures (admits : Admits lawful done) (idle : Idle lawful object done board.machine) :
    (shieldRules device lawful outcomes).Ensures bringUp (fun value after => ∃ object made,
      Started outcomes (Board.frame board) value made (Board.frame after) ∧
      Idle lawful object (done ++ made) after.machine) board := by
  simp only [bringUp, bind_eq, pure_eq]
  apply Ensures.bind idle.traffic
  apply (isResetneeded_ensures admits idle).mono
  intro needed board' _ given
  obtain ⟨_, check, checked, idle, frame⟩ := given
  split
  next unready =>
    apply Ensures.bind idle.traffic
    apply (doResetshield_ensures (admits.other resetCtl (by decide) (by decide))
      (fun first second bt => admits.retest needed check first second bt checked) idle).mono
    intro value board'' _ given
    obtain ⟨_, reset, resets, idle, frame'⟩ := given
    rw [frame] at frame'
    split
    next failed =>
      refine solo_pure ⟨_, check ++ reset, ?_, by simpa using idle⟩
      rw [frame']
      exact .unready checked unready resets failed
    next succeeded =>
      obtain rfl := Classical.not_not.mp succeeded
      apply (doInitirq_ensures admits.other idle).mono
      intro value after _ given
      obtain ⟨_, enable, enabled, idle, opened⟩ := given
      rw [show board''.handles = _ from congrArg Prod.snd frame'] at opened
      exact ⟨_, check ++ reset ++ enable, .reset checked unready resets enabled opened, by simpa using idle⟩
  next ready =>
    obtain rfl := Classical.not_not.mp ready
    simp only [pure_bind, ne_eq, not_true, if_false]
    apply (doInitirq_ensures admits.other idle).mono
    intro value after _ given
    obtain ⟨_, enable, enabled, idle, opened⟩ := given
    rw [show board'.handles = _ from congrArg Prod.snd frame] at opened
    exact ⟨_, check ++ enable, .ready checked enabled opened, by simpa using idle⟩

theorem spiInit_ensures : (shieldRules device lawful outcomes).Ensures spiInit
      (fun _ after => after = board) board := by
  simp only [spiInit, bind_eq, call_bind, pure_eq]
  apply solo_request
  intro kept _ _ _ stopped
  cases stopped
  refine ⟨kept, ?_⟩
  split
  · exact solo_pure rfl
  · apply solo_request
    intro _ _ _ _ stopped
    cases stopped
    refine ⟨kept, ?_⟩
    split
    · exact solo_pure rfl
    · exact solo_pure rfl

theorem init_ensures (admits : Admits lawful done) (idle : Idle lawful object done board.machine) :
    (shieldRules device lawful outcomes).Ensures Shield.init
      (fun _ after => ∃ object done, Idle lawful object done after.machine) board := by
  rw [init_eq]
  apply Ensures.bind idle.traffic
  apply spiInit_ensures.mono
  intro err _ _ same
  subst same
  split
  · exact solo_pure ⟨_, _, idle⟩
  · exact (bringUp_ensures admits idle).mono fun _ _ _ ⟨_, _, _, idle⟩ => ⟨_, _, idle⟩

section Sessions

theorem call_ensures (call : Call) (idle : Idle Legal object done board.machine) :
    (shieldRules device Legal outcomes).Ensures call.perform
      (fun _ after => ∃ object done, Idle Legal object done after.machine) board := by
  cases call with
  | init => exact init_ensures (legal_admits idle.kept) idle
  | isResetneeded => exact (isResetneeded_ensures (legal_admits idle.kept) idle).mono fun _ _ _
      ⟨_, _, _, idle, _⟩ => ⟨_, _, idle⟩
  | doResetshield => exact (doResetshield_ensures (legal_tolerates _)
      (fun _ _ _ => legal_resets idle.kept) idle).mono fun _ _ _ ⟨_, _, _, idle, _⟩ => ⟨_, _, idle⟩
  | doInitirq => exact (doInitirq_ensures (fun address _ _ => legal_tolerates address) idle).mono fun _ _ _
      ⟨_, _, _, idle, _⟩ => ⟨_, _, idle⟩
  | mainTask =>
    simp only [Call.perform, bind_eq, pure_eq]
    apply Ensures.bind idle.traffic
    apply (base_ensures (mainTask_ensures idle)).mono
    intro _ _ _ given
    obtain ⟨⟨_, _, _, idle⟩, _⟩ := given
    exact solo_pure ⟨_, _, idle⟩

theorem performAll_ensures (calls : List Call) (idle : Idle Legal object done board.machine) :
    (shieldRules device Legal outcomes).Ensures (performAll calls) (fun _ _ => True) board := by
  induction calls generalizing object done board with
  | nil => exact solo_pure trivial
  | cons call calls ih =>
    simp only [performAll, bind_eq, pure_eq]
    apply Ensures.bind idle.traffic
    apply (call_ensures call idle).mono
    intro _ board _ given
    obtain ⟨_, _, idle⟩ := given
    apply Ensures.bind idle.traffic
    exact (ih idle).mono fun _ _ _ _ => solo_pure trivial

/-- Whatever the device answers, every prefix of the traffic of these calls is the
beginning of legal transactions, however long they poll. -/
theorem traffic_well_formed (device : Device δ) (board : Board δ) (calls : List Call) (schedule : List (Unit × Outcome))
    (final : Pool Unit ShieldOp ShieldOp.Reply (Board (Recorded δ)) fun _ => List Int)
    (ran : (session calls board).run (Board.perform device.recorded) schedule = some final) :
    WellFormed final.world.state.machine.device.trace := by
  have idle : Idle Legal board.machine.object [] (session calls board).world.state.machine := by
    refine ⟨rfl, rfl, fun earlier transaction later none => ?_⟩
    simp at none
  have ensures : (shieldRules device Legal id).Ensures ((session calls board).threads ()) (fun _ _ => True)
      (session calls board).world.state := performAll_ensures calls idle
  exact (solo_run (by exact idle.traffic) ensures ran).1

/-- A chip that is ready, and operational from the start. -/
def operationalChip : Lan9252 := ⟨.released, { Lan9252.Chip.prompt fun address =>
    if address = wdogStatus then 0x01 else if address = alStatusReg0 then 0x08 else address.setWidth 8 with
  registers := fun address => if address = hwCfg then ready else if address = byteTest then testPattern else 0 }⟩

def freshBoard : Board Lan9252 := ⟨⟨{}, operationalChip, fun _ => 0⟩, -1, []⟩

/-- A start-up, and a cycle that fetches an image and sends a frame. -/
theorem traffic_well_formed_operational : ∃ final, (session [.init, .mainTask] freshBoard).run
      (Board.perform lan9252.recorded) (List.replicate 341 ((), { opened := some 3 })) = some final ∧
    (final.threads ()).returned = some [0, 8] ∧
    ((completed final.world.state.machine.device.trace).filter fun transaction => decide transaction.Burst).map
      Transaction.address = [0x0000, 0x0020] ∧ WellFormed final.world.state.machine.device.trace := by
  have ends : ((session [.init, .mainTask] freshBoard).run (Board.perform lan9252.recorded)
      (List.replicate 341 ((), { opened := some 3 }))).map (fun final => ((final.threads ()).returned,
        ((completed final.world.state.machine.device.trace).filter fun transaction => decide transaction.Burst).map
          Transaction.address)) = some (some [0, 8], [0x0000, 0x0020]) := by decide +kernel
  obtain ⟨final, ran, seen⟩ := Option.map_eq_some_iff.mp ends
  obtain ⟨returned, bursts⟩ := Prod.mk.inj seen
  exact ⟨final, ran, returned, bursts, traffic_well_formed lan9252 freshBoard [.init, .mainTask] _ final ran⟩

end Sessions

end EthercatSlave.Proofs.ShieldTraffic
