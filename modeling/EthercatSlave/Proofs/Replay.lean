import EthercatSlave.Startup
import EthercatSlave.Proofs.ShieldTraffic

/-! Reading a recorded trace back. The transactions come out as they went in, and
the answers in them are the ones the device gives when it is asked again. -/

namespace EthercatSlave.Proofs.Replay
open Program Rpi Shield Transaction SpiTraffic ShieldTraffic

variable {δ : Type} {device : Device δ} {state final : δ} {transaction : Transaction}

section Decoding

theorem note_exchanges (exchanges : List (Byte × Byte)) (decoded : Decoded) :
    (exchanges.map fun (sent, received) => Wire.exchange sent received).foldl Decoded.note decoded =
      { decoded with part := decoded.part ++ exchanges } := by
  induction exchanges generalizing decoded with
  | nil => simp
  | cons exchange exchanges ih =>
    rw [List.map_cons, List.foldl_cons, ih]
    simp [Decoded.note]

theorem note_wire (transaction : Transaction) (decoded : Decoded) :
    transaction.wire.foldl Decoded.note decoded = ⟨decoded.done ++ [transaction], []⟩ := by
  obtain ⟨command, address, answers, payload⟩ := transaction
  rw [wire, List.cons_append, List.foldl_cons, List.foldl_append, note_exchanges]
  simp only [Decoded.note, exchanges, List.nil_append, List.foldl_cons, List.foldl_nil]
  rw [RegisterAccess.address_bytes]

/-- What was complete before stays in front. -/
theorem note_done (trace : List Wire) (first second : List Transaction) (part : List (Byte × Byte)) :
    (trace.foldl Decoded.note ⟨first ++ second, part⟩).done = first ++
      (trace.foldl Decoded.note ⟨second, part⟩).done := by
  induction trace generalizing second part with
  | nil => rfl
  | cons wire trace ih =>
    rw [List.foldl_cons, List.foldl_cons]
    cases wire with
    | exchange sent received => exact ih second _
    | select level =>
      cases level with
      | low => exact ih second _
      | high =>
        simp only [Decoded.note]
        split
        · rw [List.append_assoc]
          exact ih _ _
        · exact ih second _

theorem completed_cons (transaction : Transaction) (trace : List Wire) :
    completed (transaction.wire ++ trace) = transaction :: completed trace := by
  rw [completed, List.foldl_append, note_wire]
  exact note_done trace [transaction] [] []

theorem completed_wires (made : List Transaction) : completed (made.flatMap wire) = made := by
  induction made with
  | nil => rfl
  | cons transaction made ih => rw [List.flatMap_cons, completed_cons, ih]

/-- A transaction that has not ended is not complete. -/
theorem completed_open {trace : List Wire} {exchanges : List (Byte × Byte)}
    (begins : trace <+: .select .low :: exchanges.map fun (sent, received) => .exchange sent received) :
    completed trace = [] := by
  rcases List.prefix_cons_iff.mp begins with rfl | ⟨rest, rfl, begun⟩
  · rfl
  · obtain ⟨part, _, rfl⟩ := List.prefix_map_iff.mp begun
    rw [completed, List.foldl_cons, note_exchanges]
    rfl

/-- The beginning of a trace decodes to a beginning of its transactions, and holds their wires. -/
theorem completed_prefix {trace : List Wire} {made : List Transaction} (begins : trace <+: made.flatMap wire) :
    completed trace <+: made ∧ (completed trace).flatMap wire <+: trace := by
  induction made generalizing trace with
  | nil =>
    obtain rfl := List.prefix_nil.mp begins
    exact ⟨List.prefix_refl _, List.prefix_refl _⟩
  | cons transaction made ih =>
    rw [List.flatMap_cons] at begins
    rcases List.prefix_or_prefix_of_prefix begins (List.prefix_append transaction.wire _) with inside | ⟨rest, rfl⟩
    · have ended : trace = transaction.wire ∨ completed trace = [] := by
        rcases List.prefix_concat_iff.mp inside with whole | inside
        · exact .inl whole
        · exact .inr (completed_open inside)
      rcases ended with rfl | none
      · have single := completed_cons transaction []
        rw [List.append_nil] at single
        rw [single]
        exact ⟨List.prefix_append [transaction] made, by simp [completed]⟩
      · rw [none]
        exact ⟨List.nil_prefix, List.nil_prefix⟩
    · obtain ⟨first, second⟩ := ih ((List.prefix_append_right_inj _).mp begins)
      rw [completed_cons]
      exact ⟨List.cons_prefix_cons.mpr ⟨rfl, first⟩, (List.prefix_append_right_inj _).mpr second⟩

theorem completed_idle {lawful : List Transaction → Prop} {object : RpiBase} {done : List Transaction} {bench : Bench δ}
    (idle : Idle lawful object done bench) : completed bench.device.trace = done := by
  rw [idle.trace, completed_wires]

end Decoding

section Answers

/-- The answers in a trace are the device's own, from one of its states to another. -/
def Answers (device : Device δ) : δ → List Wire → δ → Prop
  | state, [], final => final = state
  | state, .select level :: trace, final => Answers device (device.select level state) trace final
  | state, .exchange sent received :: trace, final =>
    received = (device.transfer sent state).1 ∧ Answers device (device.transfer sent state).2 trace final

theorem answers_append {first second : List Wire} : Answers device state (first ++ second) final ↔
    ∃ middle, Answers device state first middle ∧ Answers device middle second final := by
  induction first generalizing state with
  | nil => simp [Answers]
  | cons wire first ih =>
    cases wire with
    | select level => simp only [List.cons_append, Answers, ih]
    | exchange sent received => simp only [List.cons_append, Answers, ih, and_assoc, exists_and_left]

theorem answers_exchanges {exchanges : List (Byte × Byte)} :
    Answers device state (exchanges.map fun (sent, received) => .exchange sent received) final ↔
      exchanges.map Prod.snd = (device.exchange (exchanges.map Prod.fst) state).1 ∧
        final = (device.exchange (exchanges.map Prod.fst) state).2 := by
  induction exchanges generalizing state with
  | nil => simp [Answers, Device.exchange]
  | cons exchange exchanges ih =>
    simp only [List.map_cons, Answers, ih, Device.exchange, List.cons.injEq, and_assoc]

theorem answers_wire : Answers device state transaction.wire final ↔
    transaction.exchanges.map Prod.snd = (device.window (transaction.exchanges.map Prod.fst) state).1 ∧
      final = (device.window (transaction.exchanges.map Prod.fst) state).2 := by
  rw [wire, List.cons_append, Answers, answers_append]
  simp only [answers_exchanges, Answers, Device.window]
  constructor
  · intro given
    obtain ⟨_, ⟨answered, rfl⟩, rfl⟩ := given
    exact ⟨answered, rfl⟩
  · intro given
    obtain ⟨answered, rfl⟩ := given
    exact ⟨_, ⟨answered, rfl⟩, rfl⟩

/-- One request adds to the trace what the device answers to it. -/
theorem perform_answers {outcome : Outcome} {op : ShieldOp} {before after : Board (Recorded δ)} {reply : op.Reply}
    (performed : Board.perform device.recorded outcome op before = some (reply, after)) :
    ∃ added, after.machine.device.trace = before.machine.device.trace ++ added ∧
      Answers device before.machine.device.device added after.machine.device.device := by
  have quiet : after.machine.device = before.machine.device →
      ∃ added, after.machine.device.trace = before.machine.device.trace ++ added ∧
        Answers device before.machine.device.device added after.machine.device.device := by
    intro same
    rw [same]
    exact ⟨[], (List.append_nil _).symm, rfl⟩
  cases op with
  | base op =>
    obtain ⟨⟨_, machine⟩, made, same⟩ := Option.map_eq_some_iff.mp performed
    cases same
    cases op with
    | select level =>
      cases made
      exact ⟨[.select level], rfl, rfl⟩
    | transfer data =>
      cases made
      exact ⟨[.exchange data _], rfl, rfl, rfl⟩
    | indeterminate =>
      cases made
      exact quiet rfl
    | load cell =>
      obtain ⟨_, rfl⟩ := Accesses.loaded made
      exact quiet rfl
    | store cell value =>
      obtain ⟨_, _, rfl⟩ := Accesses.written made
      exact quiet rfl
  | openDevice =>
    simp only [Board.perform] at performed
    split at performed
    next =>
      cases performed
      exact quiet rfl
    next =>
      split at performed
      · cases performed
      · cases performed
        exact quiet rfl
  | _ =>
    cases performed
    exact quiet rfl

/-- Since `start`, the trace has only grown by answers of the device. -/
def Since (device : Device δ) (start board : Board (Recorded δ)) : Prop :=
  ∃ added, board.machine.device.trace = start.machine.device.trace ++ added ∧
    Answers device start.machine.device.device added board.machine.device.device

theorem since_refl (start : Board (Recorded δ)) : Since device start start := ⟨[], (List.append_nil _).symm, rfl⟩

theorem since_step {start before after : Board (Recorded δ)} {outcome : Outcome} {op : ShieldOp} {reply : op.Reply}
    (performed : Board.perform device.recorded outcome op before = some (reply, after))
    (since : Since device start before) :
    Since device start after := by
  obtain ⟨first, same, answered⟩ := since
  obtain ⟨second, same', answered'⟩ := perform_answers performed
  exact ⟨first ++ second, by rw [same', same, List.append_assoc], answers_append.mpr ⟨_, answered, answered'⟩⟩

theorem since_eval {start after : Board (Recorded δ)} {outcome : Outcome} {program : Shield α} {value : α}
    (ran : Eval (Board.perform device.recorded outcome) program start value after) : Since device start after := by
  have each : ∀ op before reply after, Board.perform device.recorded outcome op before = some (reply, after) →
      Since device start before → Since device start after := fun _ _ _ _ => since_step
  exact ran.keeps each (since_refl start)

theorem since_answers {start after : Board (Recorded δ)} {done made : List Transaction}
    (since : Since device start after)
    (before : start.machine.device.trace = done.flatMap wire)
    (now : after.machine.device.trace = (done ++ made).flatMap wire) :
    Answers device start.machine.device.device (made.flatMap wire) after.machine.device.device := by
  obtain ⟨added, same, answered⟩ := since
  rw [before, now, List.flatMap_append, List.append_cancel_left_eq] at same
  rwa [same]

end Answers

section Registers

theorem asks_answered {address : BitVec 16} (asks : Asks address 4 transaction)
    (answers : Answers device state transaction.wire final) :
    (transaction.value, final) = device.register address state := by
  obtain ⟨⟨command, address', _⟩, sent⟩ := asks
  obtain ⟨answered, rfl⟩ := answers_wire.mp answers
  have asked : transaction.exchanges.map Prod.fst =
      commSpiRead :: byte address 1 :: byte address 0 :: List.replicate 4 dummyByte := by
    rw [exchanges, List.map_cons, List.map_cons, List.map_cons, command, address']
    exact congrArg (fun payload => commSpiRead :: byte address 1 :: byte address 0 :: payload) sent
  rw [asked] at answered ⊢
  unfold Device.register
  dsimp only
  rw [← answered]
  rfl

theorem writes_answered {address : BitVec 16} {data : BitVec 32} (writes : transaction.Writes address data)
    (answers : Answers device state transaction.wire final) : final = device.afterWrite address data state := by
  obtain ⟨command, address', sent⟩ := writes
  obtain ⟨_, rfl⟩ := answers_wire.mp answers
  have asked : transaction.exchanges.map Prod.fst =
      [commSpiWrite, byte address 1, byte address 0, byte data 0, byte data 1, byte data 2, byte data 3] := by
    rw [exchanges, List.map_cons, List.map_cons, List.map_cons, command, address']
    exact congrArg (fun payload => commSpiWrite :: byte address 1 :: byte address 0 :: payload) sent
  rw [asked]
  rfl

theorem checked_answered {needed : Int} {check : List Transaction} (checked : Checked needed check)
    (answers : Answers device state (check.flatMap wire) final) : device.unready state =
      (decide (needed ≠ 0), final) := by
  rcases checked with ⟨hw, rfl, asks, unready, rfl⟩ | ⟨hw, bt, rfl, asks, found, asks', rfl⟩
  · rw [List.flatMap_singleton] at answers
    simp only [Device.unready, ← asks_answered asks answers, unready, if_true]
    rfl
  · rw [List.flatMap_cons, List.flatMap_singleton] at answers
    obtain ⟨middle, first, second⟩ := answers_append.mp answers
    simp only [Device.unready, ← asks_answered asks first, ← asks_answered asks' second, if_neg found,
      Prod.mk.injEq, and_true]
    by_cases same : bt.value = testPattern <;> simp [same]

theorem reset_answered {value : Int} {reset : List Transaction} (resets : Reset value reset)
    (answers : Answers device state (reset.flatMap wire) final) :
    value = if device.retest state = testPattern then 0 else -9 := by
  obtain ⟨first, second, bt, rfl, writes, writes', asks, rfl⟩ := resets
  simp only [List.flatMap_cons, List.flatMap_nil, List.append_nil] at answers
  obtain ⟨_, once, answers⟩ := answers_append.mp answers
  obtain ⟨_, twice, answers⟩ := answers_append.mp answers
  obtain rfl := writes_answered writes once
  obtain rfl := writes_answered writes' twice
  rw [Device.retest, ← asks_answered asks answers]

end Registers
end EthercatSlave.Proofs.Replay
