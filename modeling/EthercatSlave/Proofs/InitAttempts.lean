import EthercatSlave.Proofs.ReadinessGate

/-! What calls of `init` leave behind. A call that gets to `do_initirq` overwrites
the handle and enables the interrupt before the open that may still fail. -/

namespace EthercatSlave.Proofs.InitAttempts
open Program Rpi Shield Transaction Rules SpiTraffic ShieldTraffic Replay ReadinessGate

variable {δ : Type} {device : Device δ} {outcome : Outcome} {start before after : Board (Recorded δ)} {err : Int}
  {initial : InterruptEnables} {attempts : List (Attempt δ)}

section Registers

variable {transaction : Transaction} {registers : Registers} {made : List Transaction}

theorem written_writes {address : BitVec 16} {data : BitVec 32} (writes : transaction.Writes address data) :
    transaction.written = data := by
  rw [written, writes.2.2, RegisterAccess.word_bytes]

theorem note_reads (reads : ∀ transaction ∈ made, transaction.command = commSpiRead) :
    made.foldl Registers.note registers = registers := by
  induction made with
  | nil => rfl
  | cons transaction made ih =>
    have reading : transaction.command ≠ commSpiWrite := by
      rw [reads transaction List.mem_cons_self]
      decide
    have unchanged : registers.note transaction = registers := if_pos reading
    rw [List.foldl_cons, unchanged]
    exact ih fun other member => reads other (List.mem_cons_of_mem _ member)

theorem note_writes {address : BitVec 16} {data : BitVec 32} (writes : transaction.Writes address data) :
    registers.note transaction =
      if address = resetCtl then { enables := {} }
      else if address = ecatCsrData then { registers with csrData := data }
      else if address = ecatCsrCmd then
        if data = csrCommand 0 alEventMaskReg0 4 escWrite then
          { registers with enables := { registers.enables with alEventMask := registers.csrData } }
        else registers
      else if address = irqCfg then { registers with enables := { registers.enables with irqCfg := data } }
      else if address = intEn then { registers with enables := { registers.enables with intEn := data } }
      else registers := by
  have writing : ¬ transaction.command ≠ commSpiWrite := not_not.mpr writes.1
  rw [Registers.note, if_neg writing, writes.2.1, written_writes writes]

theorem note_reset {value : Int} {reset : List Transaction} (resets : Reset value reset) :
    reset.foldl Registers.note registers = { enables := {} } := by
  obtain ⟨first, second, bt, rfl, writes, writes', asks, _⟩ := resets
  rw [List.foldl_cons, List.foldl_cons, note_writes writes', if_pos rfl]
  exact note_reads fun other member => by
    cases List.mem_singleton.mp member
    exact asks.1.1

theorem note_enabled {enable : List Transaction} (enabled : Enabled enable) :
    (enable.foldl Registers.note registers).enables = .set := by
  obtain ⟨mask, irq, int, rfl, ⟨data, command, polls, rfl, writes, commands, reads⟩, pin, chip⟩ := enabled
  have polled : ∀ registers : Registers, polls.foldl Registers.note registers = registers :=
    fun registers => note_reads fun poll member => (reads poll member).1
  simp only [List.foldl_append, List.foldl_cons, List.foldl_nil, polled, note_writes writes, note_writes commands,
    note_writes pin, note_writes chip]
  rfl

theorem enables_append (initial : InterruptEnables) (first second : List Transaction) :
    enables initial (first ++ second) = (second.foldl Registers.note
      (first.foldl Registers.note { enables := initial })).enables := by
  rw [enables, List.foldl_append]

end Registers

section Calls

/-- The handles are those a board with this `m_devhndl` owns. -/
def Held (board : Board (Recorded δ)) : Prop := board.handles = Board.owned board.devhndl

theorem owned_nil {devhndl : Int} : [] = Board.owned devhndl ↔ devhndl = -1 := by
  unfold Board.owned
  split
  next none => exact iff_of_true rfl none
  next some => exact iff_of_false (nomatch ·) some

theorem free_admits (done : List Transaction) : Admits (fun _ => True) done :=
  ⟨fun _ _ => trivial, fun _ _ _ _ _ => trivial, fun _ _ _ _ _ _ _ _ _ => trivial, fun _ _ _ _ _ _ _ _ => trivial⟩

abbrev Calm (board : Board (Recorded δ)) : Prop := ∃ object done, Idle (fun _ => True) object done board.machine

theorem calm_start (board : Board δ) : Calm (observe board) := ⟨_, [], idle_observe board trivial⟩

/-- A call that has enabled the interrupt is clean where it found no handle and opened one. -/
private theorem opened_iff (held : Held before)
    (opened : Opened (fun _ : Unit => outcome) before.handles err (Board.frame after))
    (set : enables initial after.transactions = .set) :
    (⟨outcome, before, err, after⟩ : Attempt δ).AllOrNothing initial ↔
      before.devhndl = -1 ∧ (outcome.opened ≠ none ∨ enables initial before.transactions = .set) := by
  obtain ⟨_, opened⟩ := opened
  cases chosen : outcome.opened with
  | none =>
    rw [chosen] at opened
    obtain ⟨frame, rfl⟩ := opened
    obtain ⟨devhndl, handles⟩ := Prod.mk.inj frame
    have handles : after.handles = before.handles := handles
    have devhndl : after.devhndl = -1 := devhndl
    constructor
    · intro tidy
      obtain ⟨same, unchanged | ⟨cleared, _⟩⟩ := tidy.refused (show (-27 : Int) ≠ 0 by decide)
      · exact ⟨same.symm.trans devhndl, .inr (unchanged.symm.trans set)⟩
      · cases set.symm.trans cleared
    · intro given
      obtain ⟨closed, absent | unchanged⟩ := given
      · exact absurd rfl absent
      · refine ⟨?_, fun _ => ⟨devhndl.trans closed.symm, .inl (set.trans unchanged.symm)⟩⟩
        rw [handles, held, closed, devhndl]
  | some fresh =>
    rw [chosen] at opened
    obtain ⟨free, frame, rfl⟩ := opened
    obtain ⟨devhndl, handles⟩ := Prod.mk.inj frame
    have handles : after.handles = (fresh : Int) :: before.handles := handles
    have devhndl : after.devhndl = (fresh : Int) := devhndl
    have valid : (fresh : Int) ≠ -1 := by omega
    have owned : Board.owned (fresh : Int) = [(fresh : Int)] := if_neg valid
    have alone : after.handles = Board.owned after.devhndl ↔ before.devhndl = -1 := by
      rw [handles, devhndl, owned, held, List.cons.injEq, eq_comm (b := []), owned_nil]
      exact and_iff_right rfl
    constructor
    · exact fun tidy => ⟨alone.mp tidy.handles, .inl (nomatch ·)⟩
    · exact fun ⟨closed, _⟩ => ⟨alone.mpr closed, fun failed => absurd rfl failed⟩

theorem attempt_iff (calm : Calm before)
    (ran : Eval (Board.perform device.recorded outcome) Shield.init before err after) :
    Calm after ∧ (Held before → ((⟨outcome, before, err, after⟩ : Attempt δ).AllOrNothing initial ↔
      (⟨outcome, before, err, after⟩ : Attempt δ).Clean device initial)) := by
  obtain ⟨object, done, idle⟩ := calm
  by_cases powered : outcome.Powered
  · obtain ⟨object', made, started, idle', answers⟩ := init_started (free_admits done) idle powered ran
    have earlier : before.transactions = done := completed_idle idle
    have later : after.transactions = done ++ made := completed_idle idle'
    refine ⟨⟨object', _, idle'⟩, fun held => ?_⟩
    rcases started_passes started answers with ⟨check, enable, rfl, checked, enabled, opened, ready⟩ |
      ⟨needed, check, reset, enable, rfl, checked, resets, enabled, opened, retested⟩ |
      ⟨needed, check, reset, rfl, checked, resets, failed, frame, refuses⟩
    · rw [opened_iff held opened (by rw [later, enables_append, List.foldl_append, note_enabled enabled])]
      have passes : device.Passes before.machine.device.device := fun unready =>
        Bool.noConfusion (ready.symm.trans unready)
      exact ⟨fun clean _ _ => clean, fun clean => clean powered passes⟩
    · rw [opened_iff held opened (by rw [later, enables_append, List.foldl_append, note_enabled enabled])]
      exact ⟨fun clean _ _ => clean, fun clean => clean powered fun _ => retested.2⟩
    · refine iff_of_true ⟨?_, fun _ => ⟨?_, .inr ⟨?_, check ++ reset, ?_, ?_⟩⟩⟩ fun _ passes => absurd passes refuses
      · obtain ⟨devhndl, handles⟩ := Prod.mk.inj frame
        rw [← handles, ← devhndl]
        exact held
      · exact (congrArg Prod.fst frame).symm
      · rw [later, enables_append, List.foldl_append, note_reset resets]
      · rw [later, earlier]
      · obtain ⟨first, _, _, rfl, writes, _⟩ := resets
        exact ⟨first, by simp, resets_of_writes writes⟩
  · obtain ⟨err', failed, ran'⟩ := @unpowered_init δ device outcome powered before
    obtain ⟨rfl, rfl⟩ := ran.deterministic ran'
    exact ⟨⟨object, done, idle⟩, fun held => iff_of_true ⟨held, fun _ => ⟨rfl, .inl rfl⟩⟩ fun up => absurd up powered⟩

theorem destroyed (held : Held start) (outcome : Outcome) :
    ∃ final, Eval (Board.perform device.recorded outcome) Shield.destroy start () final ∧ final.handles = [] := by
  have handles : start.handles = Board.owned start.devhndl := held
  simp only [Shield.destroy, bind_eq, call_bind, pure_eq]
  by_cases closed : start.devhndl = -1
  · rw [closed] at handles
    refine ⟨start, .request rfl ?_, handles⟩
    rw [if_neg (not_not.mpr closed)]
    exact .pure
  · rw [Board.owned, if_neg closed] at handles
    refine ⟨{ start with handles := start.handles.erase start.devhndl }, .request rfl ?_, ?_⟩
    · rw [if_pos closed]
      exact .request rfl (.request rfl .pure)
    · rw [handles]
      exact List.erase_cons_head ..

theorem attempts_iff (calm : Calm start) (held : Held start) {last : Board (Recorded δ)}
    (attempted : Attempts device start attempts last) :
    Calm last ∧ ((∀ attempt ∈ attempts, attempt.AllOrNothing initial) → Held last) ∧
      ((∀ attempt ∈ attempts, attempt.AllOrNothing initial) ↔ ∀ attempt ∈ attempts, attempt.Clean device initial) := by
  induction attempted with
  | start => exact ⟨calm, fun _ => held, iff_of_true (fun _ none => (nomatch none)) fun _ none => (nomatch none)⟩
  | @init attempts outcome before after err _ ran ih =>
    obtain ⟨calm, holds, each⟩ := ih
    obtain ⟨calm', step⟩ := @attempt_iff δ device outcome before after err initial calm ran
    simp only [List.forall_mem_append, List.forall_mem_singleton]
    refine ⟨calm', fun tidy => tidy.2.handles, fun tidy => ?_, fun clean => ?_⟩
    · exact ⟨each.mp tidy.1, (step (holds tidy.1)).mp tidy.2⟩
    · have earlier := each.mpr clean.1
      exact ⟨earlier, (step (holds earlier)).mpr clean.2⟩

/-- Start-up is all-or-nothing in exactly the runs in which no call opens a second
handle, and none loses the race against a failing open. -/
theorem tidy_iff (device : Device δ) (machine : Machine δ) (devhndl : Int) (initial : InterruptEnables)
    (attempts : List (Attempt δ)) (last : Board (Recorded δ))
    (attempted : Attempts device (observe (Board.construct ⟨machine, devhndl, []⟩)) attempts last) :
    Tidy device initial attempts last ↔ ∀ attempt ∈ attempts, attempt.Clean device initial := by
  have held : Held (observe (Board.construct ⟨machine, devhndl, []⟩)) := rfl
  obtain ⟨_, holds, each⟩ := @attempts_iff δ device _ initial attempts (calm_start _) held last attempted
  rw [← each]
  exact ⟨fun tidy => tidy.attempts, fun tidy => ⟨tidy, destroyed (holds tidy)⟩⟩

/-- A chip that is ready and never busy. It counts the bytes of a transaction and
keeps the second byte of the address. -/
def promptChip : Device (Nat × Byte) where
  select _ _ := (0, 0)
  transfer data state :=
    match state with
    | (0, _) => (0, (1, 0))
    | (1, _) => (0, (2, 0))
    | (2, _) => (0, (3, data))
    | (index, low) =>
      (if low = 0x64 then byte testPattern (index - 3) else if low = 0x74 then byte ready (index - 3) else 0,
        (index + 1, low))

def promptBoard : Board (Nat × Byte) := Board.construct ⟨⟨{}, (0, 0), fun _ => 0⟩, 0, []⟩

/-- Two calls that do not get to the chip, and one that opens the device. -/
theorem tidy_opened : ∃ attempts last, Attempts promptChip (observe promptBoard) attempts last ∧
    attempts.map Attempt.err = [-10, -9, 0] ∧ Tidy promptChip {} attempts last := by
  let call (outcome : Outcome) := Shield.init.exec (Board.perform promptChip.recorded outcome) 2
  have ends : ((call { bcm2835Init := 0 } (observe promptBoard)).bind fun first =>
      (call { bcm2835SpiBegin := 0 } first.2).bind fun second =>
        (call { opened := some 3 } second.2).map fun third => (first.1, second.1, third.1, second.2.devhndl)) =
          some (-10, -9, 0, -1) := by
    decide +kernel
  obtain ⟨⟨_, first⟩, ran, ends⟩ := Option.bind_eq_some_iff.mp ends
  obtain ⟨⟨_, second⟩, ran', ends⟩ := Option.bind_eq_some_iff.mp ends
  obtain ⟨⟨_, third⟩, ran'', ends⟩ := Option.map_eq_some_iff.mp ends
  simp only [Prod.mk.injEq] at ends
  obtain ⟨rfl, rfl, rfl, unopened⟩ := ends
  have attempted := ((Attempts.start.init (exec_sound ran)).init (exec_sound ran')).init (exec_sound ran'')
  refine ⟨_, _, attempted, rfl,
    (tidy_iff promptChip ⟨{}, (0, 0), fun _ => 0⟩ 0 {} _ _ attempted).mpr fun attempt member => ?_⟩
  simp only [List.nil_append, List.cons_append, List.mem_cons, List.not_mem_nil, or_false] at member
  rcases member with rfl | rfl | rfl
  · exact fun powered => absurd rfl powered.1
  · exact fun powered => absurd rfl powered.2
  · exact fun _ _ => ⟨unopened, .inl nofun⟩

/-- A call whose open fails has already enabled the interrupt. -/
theorem failed_open_enables : ∃ attempts last, Attempts promptChip (observe promptBoard) attempts last ∧
    ¬ Tidy promptChip {} attempts last := by
  have ends : (Shield.init.exec (Board.perform promptChip.recorded {}) 2 (observe promptBoard)).isSome =
      true := by decide +kernel
  obtain ⟨⟨err, after⟩, ran⟩ := Option.isSome_iff_exists.mp ends
  have attempted : Attempts promptChip (observe promptBoard) [⟨_, _, err, after⟩] after := .init .start (exec_sound ran)
  refine ⟨_, _, attempted, fun tidy => ?_⟩
  have held : Held (observe promptBoard) := rfl
  obtain ⟨_, _, each⟩ := @attempts_iff _ promptChip _ {} _ (calm_start _) held _ attempted
  have clean := each.mp tidy.attempts _ List.mem_cons_self
  have powered : Outcome.Powered {} := ⟨by decide, by decide⟩
  have passes : promptChip.Passes (0, 0) := fun unready => absurd unready (by decide)
  have unset : enables {} (observe promptBoard).transactions ≠ .set := by decide
  obtain ⟨_, opened | set⟩ := clean powered passes
  · exact opened rfl
  · exact unset set

end Calls
end EthercatSlave.Proofs.InitAttempts
