import EthercatSlave.History
import EthercatSlave.SpiBus
import EthercatSlave.Shield
import EthercatSlave.Proofs.Accesses
import EthercatSlave.Proofs.ProcessData
import EthercatSlave.Proofs.Solo

/-! The transactions each function makes, whatever the device answers. Between
functions the bus is idle; inside one, a plan says what is left to send, so that
every prefix of the traffic can still become legal. -/

namespace EthercatSlave.Proofs.SpiTraffic
open Program Rpi Transaction Accesses Rules

abbrev Bench (δ : Type) := Machine (Recorded δ)

variable {δ α : Type} {device : Device δ} {object : RpiBase} {done : List Transaction} {bench : Bench δ}
  {part : List (Byte × Byte)} {rest plan : List Byte} {lawful : List Transaction → Prop}

/-- The trace is the beginning of transactions that are `lawful` as a whole. -/
def Traffic (lawful : List Transaction → Prop) (trace : List Wire) : Prop :=
  ∃ transactions, lawful transactions ∧ trace <+: transactions.flatMap Transaction.wire

/-- The rules of a function on its own that keeps the traffic lawful. -/
def rules (device : Device δ) (lawful : List Transaction → Prop) : Rules RpiOp RpiOp.Reply (Bench δ) :=
  solo (fun _ : Unit => device.recorded.perform) fun bench => Traffic lawful bench.device.trace

/-- Whatever is received, sending `plan` makes a lawful transaction after `done`. -/
def Planned (lawful : List Transaction → Prop) (done : List Transaction) (plan : List Byte) : Prop :=
  ∀ exchanges : List (Byte × Byte), exchanges.map Prod.fst = plan →
    ∃ transaction : Transaction, transaction.exchanges = exchanges ∧ lawful (done ++ [transaction])

/-- No transaction is open; `done` are all there have been. -/
structure Idle (lawful : List Transaction → Prop) (object : RpiBase) (done : List Transaction)
    (bench : Bench δ) : Prop where
  object : bench.object = object
  trace : bench.device.trace = done.flatMap Transaction.wire
  kept : lawful done

/-- A transaction that exchanged `part` and still has `rest` to send. -/
structure InFlight (lawful : List Transaction → Prop) (object : RpiBase) (done : List Transaction)
    (part : List (Byte × Byte)) (rest : List Byte) (bench : Bench δ) : Prop where
  object : bench.object = object
  trace : bench.device.trace = done.flatMap Transaction.wire ++
    .select .low :: part.map fun (sent, received) => .exchange sent received
  kept : lawful done
  planned : Planned lawful done (part.map Prod.fst ++ rest)

section Steps

theorem Idle.traffic (idle : Idle lawful object done bench) : Traffic lawful bench.device.trace :=
  ⟨done, idle.kept, idle.trace ▸ List.prefix_refl bench.device.trace⟩

theorem InFlight.traffic (flight : InFlight lawful object done part rest bench) :
    Traffic lawful bench.device.trace := by
  obtain ⟨transaction, same, legal⟩ := flight.planned (part ++ rest.map fun data => (data, 0))
    (by simp [Function.comp_def])
  refine ⟨done ++ [transaction], legal, ?_⟩
  rw [flight.trace, List.flatMap_append, List.flatMap_singleton, wire, same, List.map_append]
  exact ⟨_, by rw [List.append_assoc, List.cons_append, List.cons_append, List.append_assoc]⟩

theorem low_ensures {next : Unit → Rpi α} {post : α → Bench δ → Prop} (idle : Idle lawful object done bench)
    (planned : Planned lawful done plan)
    (later : ∀ bench', InFlight lawful object done [] plan bench' →
      (rules device lawful).Ensures (next ()) post bench') :
    (rules device lawful).Ensures (.request (.select .low) next) post bench := by
  apply solo_request
  intro _ _ _ _ stopped
  cases stopped
  have flight : InFlight lawful object done [] plan
      { bench with device := device.recorded.select .low bench.device } := by
    refine ⟨idle.object, ?_, idle.kept, planned⟩
    change bench.device.trace ++ _ = _
    rw [idle.trace]
    rfl
  exact ⟨flight.traffic, later _ flight⟩

theorem transfer_ensures {data : Byte} {next : Byte → Rpi α} {post : α → Bench δ → Prop}
    (flight : InFlight lawful object done part (data :: rest) bench)
    (later : ∀ answer bench', InFlight lawful object done (part ++ [(data, answer)]) rest bench' →
      (rules device lawful).Ensures (next answer) post bench') :
    (rules device lawful).Ensures (.request (.transfer data) next) post bench := by
  apply solo_request
  intro _ _ _ _ stopped
  cases stopped
  have flight' : InFlight lawful object done (part ++ [(data, (device.transfer data bench.device.device).1)]) rest
      { bench with device := (device.recorded.transfer data bench.device).2 } := by
    refine ⟨flight.object, ?_, flight.kept, by simpa using flight.planned⟩
    change bench.device.trace ++ _ = _
    rw [flight.trace, List.map_append, List.append_assoc]
    rfl
  exact ⟨flight'.traffic, later _ _ flight'⟩

theorem high_ensures {next : Unit → Rpi α} {post : α → Bench δ → Prop}
    (flight : InFlight lawful object done part [] bench)
    (later : ∀ transaction bench', transaction.exchanges = part → Idle lawful object (done ++ [transaction]) bench' →
      (rules device lawful).Ensures (next ()) post bench') :
    (rules device lawful).Ensures (.request (.select .high) next) post bench := by
  obtain ⟨transaction, same, legal⟩ := flight.planned part (List.append_nil _).symm
  apply solo_request
  intro _ _ _ _ stopped
  cases stopped
  have idle : Idle lawful object (done ++ [transaction])
      { bench with device := device.recorded.select .high bench.device } := by
    refine ⟨flight.object, ?_, legal⟩
    change bench.device.trace ++ _ = _
    rw [flight.trace, List.flatMap_append, List.flatMap_singleton, wire, same, List.append_assoc]
  exact ⟨idle.traffic, later _ _ same idle⟩

theorem indeterminate_ensures {next : BitVec 32 → Rpi α} {post : α → Bench δ → Prop}
    (idle : Idle lawful object done bench)
    (later : ∀ value bench', Idle lawful object done bench' → (rules device lawful).Ensures (next value) post bench') :
    (rules device lawful).Ensures (.request .indeterminate next) post bench := by
  apply solo_request
  intro kept _ _ _ stopped
  cases stopped
  exact ⟨kept, later _ _ ⟨idle.object, idle.trace, idle.kept⟩⟩

theorem load_ensures {cell : Cell} {next : BitVec cell.width → Rpi α} {post : α → Bench δ → Prop}
    (later : ∀ value, bench.object.read cell = some value → (rules device lawful).Ensures (next value) post bench) :
    (rules device lawful).Ensures (.request (.load cell) next) post bench := by
  apply solo_request
  intro kept _ value after performed
  obtain ⟨reads, rfl⟩ := loaded performed
  exact ⟨kept, later value reads⟩

theorem store_ensures {cell : Cell} {data : BitVec cell.width} {next : Unit → Rpi α} {post : α → Bench δ → Prop}
    (later : ∀ object', bench.object.write cell data = some object' →
      (rules device lawful).Ensures (next ()) post { bench with object := object' }) :
    (rules device lawful).Ensures (.request (.store cell data) next) post bench := by
  apply solo_request
  intro kept _ _ after performed
  obtain ⟨object', writes, rfl⟩ := written performed
  exact ⟨kept, later object' writes⟩

theorem Idle.store (idle : Idle lawful object done bench) (object' : RpiBase) :
    Idle lawful object' done { bench with object := object' } := ⟨rfl, idle.trace, idle.kept⟩

theorem InFlight.store (flight : InFlight lawful object done part rest bench) (object' : RpiBase) :
    InFlight lawful object' done part rest { bench with object := object' } :=
  ⟨rfl, flight.trace, flight.kept, flight.planned⟩

end Steps

section Plans

theorem legal_append {transaction : Transaction} (legal : Legal done) (sound : Sound done transaction) :
    Legal (done ++ [transaction]) := Throughout.snoc_iff.mpr ⟨legal, sound⟩

theorem planned_of_admitted {command : Byte} {address : BitVec 16} {data : List Byte}
    (admits : ∀ answers payload, payload.map Prod.fst = data →
      lawful (done ++ [⟨command, address, answers, payload⟩])) :
    Planned lawful done (command :: byte address 1 :: byte address 0 :: data) := by
  intro exchanges sent
  match exchanges, sent with
  | (_, first) :: (_, second) :: (_, third) :: payload, sent =>
    simp only [List.map_cons, List.cons.injEq] at sent
    obtain ⟨rfl, rfl, rfl, same⟩ := sent
    exact ⟨⟨_, address, (first, second, third), payload⟩, rfl, admits _ _ same⟩

/-- An access of one register. -/
structure Register (transaction : Transaction) : Prop where
  command : transaction.command = commSpiRead ∨ transaction.command = commSpiWrite
  length : transaction.payload.length = 1 ∨ transaction.payload.length = 4

theorem Writes.register {address : BitVec 16} {data : BitVec 32} {transaction : Transaction}
    (writes : transaction.Writes address data) : Register transaction := by
  have length := congrArg List.length writes.2.2
  rw [sent, List.length_map] at length
  exact ⟨.inr writes.1, .inr length⟩

theorem Reads.register {address : BitVec 16} {len : Byte} {transaction : Transaction}
    (reads : transaction.Reads address len.toNat) (size : len = 1 ∨ len = 4) : Register transaction := by
  refine ⟨.inl reads.1, ?_⟩
  rw [reads.2.2]
  rcases size with rfl | rfl
  · exact .inl rfl
  · exact .inr rfl

/-- A register read as the functions make it: nothing but dummy bytes are sent for it. -/
def Asks (address : BitVec 16) (count : Nat) (transaction : Transaction) : Prop :=
  transaction.Reads address count ∧ transaction.sent = List.replicate count dummyByte

/-- The register may be accessed at any time. -/
def Tolerates (lawful : List Transaction → Prop) (address : BitVec 16) : Prop :=
  ∀ done transaction, lawful done → Register transaction → transaction.address = address →
    lawful (done ++ [transaction])

theorem legal_tolerates (address : BitVec 16) : Tolerates Legal address := by
  intro done transaction legal given _
  obtain ⟨known, length⟩ := given
  refine legal_append legal ⟨known, length.imp_right .inl, fun burst => ?_⟩
  have size : transaction.payload.length = 32 := burst
  omega

theorem Tolerates.asks {address : BitVec 16} (tolerates : Tolerates lawful address) {len : Byte}
    (size : len = 1 ∨ len = 4)
    (kept : lawful done) (transaction : Transaction) (asks : Asks address len.toNat transaction) :
    lawful (done ++ [transaction]) :=
  tolerates done transaction kept (Reads.register asks.1 size) asks.1.2.1

/-- The header and the payload of a finished transaction. -/
theorem exchanges_eq {transaction : Transaction} {command : Byte} {address : BitVec 16} {a0 a1 a2 : Byte}
    {payload : List (Byte × Byte)}
    (same : transaction.exchanges = (command, a0) :: (byte address 1, a1) :: (byte address 0, a2) :: payload) :
    transaction.command = command ∧ transaction.address = address ∧ transaction.payload = payload := by
  simp only [exchanges, List.cons.injEq, Prod.mk.injEq] at same
  obtain ⟨⟨command, _⟩, ⟨high, _⟩, ⟨low, _⟩, payload⟩ := same
  refine ⟨command, ?_, payload⟩
  rw [← RegisterAccess.address_bytes transaction.address, high, low, RegisterAccess.address_bytes]

end Plans
section Registers

/-- What one register access leaves. -/
def Made (lawful : List Transaction → Prop) (object : RpiBase) (done : List Transaction) (shape : Transaction → Prop)
    (bench : Bench δ) : Prop :=
  ∃ transaction, shape transaction ∧ Idle lawful object (done ++ [transaction]) bench

theorem writeReg_ensures (address : BitVec 16) (data : BitVec 32) (tolerates : Tolerates lawful address)
    (idle : Idle lawful object done bench) :
    (rules device lawful).Ensures (writeReg address data)
      (fun _ => Made lawful object done (Writes address data)) bench := by
  have planned : Planned lawful done (commSpiWrite :: byte address 1 :: byte address 0 ::
      [byte data 0, byte data 1, byte data 2, byte data 3]) := planned_of_admitted fun answers payload same => by
    have writes : (⟨commSpiWrite, address, answers, payload⟩ : Transaction).Writes address data := ⟨rfl, rfl, same⟩
    exact tolerates done _ idle.kept (Writes.register writes) rfl
  simp only [writeReg, bind_eq, spiWrite_bind, select_eq, request_bind]
  apply low_ensures idle planned; intro _ flight
  apply transfer_ensures flight; intro _ _ flight
  apply transfer_ensures flight; intro _ _ flight
  apply transfer_ensures flight; intro _ _ flight
  apply transfer_ensures flight; intro _ _ flight
  apply transfer_ensures flight; intro _ _ flight
  apply transfer_ensures flight; intro _ _ flight
  apply transfer_ensures flight; intro _ _ flight
  apply high_ensures flight
  intro transaction bench' same idle
  obtain ⟨command, address, payload⟩ := exchanges_eq same
  exact solo_pure ⟨transaction, ⟨command, address, by rw [sent, payload]; rfl⟩, idle⟩

/-- A register read and the bytes of its result. -/
def Delivers (address : BitVec 16) (count : Nat) (value : BitVec 32) (transaction : Transaction) : Prop :=
  Asks address count transaction ∧ ∀ index < count, transaction.received[index]? = some (byte value index)

theorem readReg_ensures (address : BitVec 16) (len : Byte) (size : len = 1 ∨ len = 4)
    (admits : ∀ transaction, Asks address len.toNat transaction → lawful (done ++ [transaction]))
    (idle : Idle lawful object done bench) : (rules device lawful).Ensures (readReg address len)
      (fun value => Made lawful object done (Delivers address len.toNat value)) bench := by
  have planned : Planned lawful done (commSpiRead :: byte address 1 :: byte address 0 ::
      List.replicate len.toNat dummyByte) := planned_of_admitted fun answers payload same => by
    have length := congrArg List.length same
    rw [List.length_map, List.length_replicate] at length
    exact admits _ ⟨⟨rfl, rfl, length⟩, same⟩
  have small : len.toNat ≤ 4 := by rcases size with rfl | rfl <;> decide
  simp only [readReg, bind_eq, indeterminate_bind, select_bind, spiWrite_bind, pure_eq]
  apply indeterminate_ensures idle; intro result _ idle
  apply low_ensures idle planned; intro _ flight
  apply transfer_ensures flight; intro first _ flight
  apply transfer_ensures flight; intro second _ flight
  apply transfer_ensures flight; intro third bench' flight
  let header : List (Byte × Byte) := [(commSpiRead, first), (byte address 1, second), (byte address 0, third)]
  let received (index : Nat) (value : BitVec 32) (bench : Bench δ) : Prop := ∃ payload : List (Byte × Byte),
    InFlight lawful object done (header ++ payload) (List.replicate (len.toNat - index) dummyByte) bench ∧
      payload.map Prod.fst = List.replicate index dummyByte ∧
      ∀ before < index, (payload.map Prod.snd)[before]? = some (byte value before)
  have each : ∀ index value bench, index < 0 + len.toNat → received index value bench →
      (rules device lawful).Ensures (readByte index value) (received (index + 1)) bench := by
    intro index value bench inside given
    obtain ⟨payload, flight, asked, agrees⟩ := given
    have length := congrArg List.length asked
    rw [List.length_map, List.length_replicate] at length
    obtain ⟨left, more⟩ : ∃ left, len.toNat - index = left + 1 := ⟨len.toNat - index - 1, by omega⟩
    rw [more, List.replicate_succ] at flight
    simp only [readByte, bind_eq, spiRead_bind, pure_eq]
    apply transfer_ensures flight; intro answer bench' flight
    refine solo_pure ⟨payload ++ [(dummyByte, answer)], ?_, ?_, fun before low => ?_⟩
    · rw [show len.toNat - (index + 1) = left by omega, ← List.append_assoc]
      exact flight
    · rw [List.map_append, asked, List.replicate_succ']
      rfl
    · rw [List.map_append]
      by_cases last : before = index
      · subst last
        rw [List.getElem?_append_right (by simp [length]), byte, part_setPart_self _ _ _ (by omega)]
        simp [length]
      · have held : byte (setPart value index answer) before = byte value before := part_setPart_of_ne _ _ last
        rw [List.getElem?_append_left (by simp; omega), agrees before (by omega), held]
  have starts : received 0 result bench' :=
    ⟨[], by simpa [header] using flight, rfl, fun _ low => absurd low (Nat.not_lt_zero _)⟩
  apply Ensures.bind flight.traffic
  apply (solo_forUp received len.toNat 0 result each flight.traffic starts).mono
  intro value _ _ given
  obtain ⟨payload, flight, asked, agrees⟩ := given
  rw [Nat.zero_add] at flight asked agrees
  rw [Nat.sub_self] at flight
  apply high_ensures flight
  intro transaction bench' same idle
  have same : transaction.exchanges =
      (commSpiRead, first) :: (byte address 1, second) :: (byte address 0, third) :: payload := same
  obtain ⟨command, address, same⟩ := exchanges_eq same
  have length := congrArg List.length asked
  rw [List.length_map, List.length_replicate] at length
  refine solo_pure ⟨transaction, ⟨⟨⟨command, address, by rw [same, length]⟩, by rw [sent, same, asked]⟩, ?_⟩, idle⟩
  intro index inside
  rw [Transaction.received, same]
  exact agrees index inside

theorem value_of_delivers {address : BitVec 16} {value : BitVec 32} {transaction : Transaction}
    (delivers : Delivers address 4 value transaction) : transaction.value = value := by
  have length : transaction.received.length = 4 := by
    rw [Transaction.received, List.length_map]
    exact delivers.1.1.2.2
  apply eq_of_parts 8 4 (by decide)
  intro index inside
  rw [Transaction.value, part_setParts _ _ _ _ (by rw [length])]
  simp [delivers.2 index inside]

/-- Polling a register until `again` is satisfied with what it delivers. -/
theorem polls_ensures (address : BitVec 16) (again : BitVec 32 → Bool) {next : BitVec 32 → Rpi α}
    {post : α → Bench δ → Prop}
    (value : BitVec 32) (tolerates : Tolerates lawful address) (idle : Idle lawful object done bench)
    (later : ∀ polls last bench', (∀ poll ∈ polls, poll.Reads address 4) → last.Reads address 4 →
      again last.value = false → Idle lawful object (done ++ polls ++ [last]) bench' →
      (rules device lawful).Ensures (next last.value) post bench') :
    (rules device lawful).Ensures (.doWhile (fun _ => readReg address 4) again value next) post bench := by
  let polled (_ : BitVec 32) (bench : Bench δ) : Prop :=
    ∃ polls, (∀ poll ∈ polls, poll.Reads address 4) ∧ Idle lawful object (done ++ polls) bench
  have starts : polled value bench := ⟨[], fun _ none => (nomatch none), by rwa [List.append_nil]⟩
  apply Ensures.loop polled idle.traffic starts
  intro _ bench _ given
  obtain ⟨polls, reads, idle⟩ := given
  apply (readReg_ensures address 4 (.inr rfl) (tolerates.asks (.inr rfl) idle.kept) idle).mono
  intro status bench' _ given
  obtain ⟨poll, delivers, idle⟩ := given
  obtain rfl := value_of_delivers delivers
  apply Exits.intro
  · intro _
    refine ⟨polls ++ [poll], fun other member => ?_, by rwa [← List.append_assoc]⟩
    rcases List.mem_append.mp member with earlier | last
    · exact reads other earlier
    · cases List.mem_singleton.mp last
      exact delivers.1.1
  · exact fun stops => later polls poll bench' reads delivers.1.1 stops idle

/-- An indirect read: the command, some polls and the data register. -/
def Indirect (address : BitVec 16) (len : Byte) (value : BitVec 32) (made : List Transaction) : Prop :=
  ∃ command polls data, made = command :: polls ++ [data] ∧
    command.Writes ecatCsrCmd (csrCommand 0 address len escRead) ∧ (∀ poll ∈ polls, poll.Reads ecatCsrCmd 4) ∧
    Delivers ecatCsrData len.toNat value data

theorem csrCommand_eq (local_ : BitVec 32) (address : BitVec 16) (len direction : Byte) :
    csrCommand local_ address len direction = csrCommand 0 address len direction :=
  setParts_covering _ _ _ rfl

theorem readRegWait_ensures (address : BitVec 16) (len : Byte) (size : len = 1 ∨ len = 4)
    (idle : Idle Legal object done bench) :
    (rules device Legal).Ensures (readRegWait address len)
      (fun value after => ∃ made, Indirect address len value made ∧ Idle Legal object (done ++ made) after) bench := by
  simp only [readRegWait, bind_eq, indeterminate_bind, loop_bind]
  apply indeterminate_ensures idle; intro tempLong bench idle
  rw [csrCommand_eq]
  apply Ensures.bind idle.traffic
  apply (writeReg_ensures ecatCsrCmd _ (legal_tolerates _) idle).mono
  intro _ bench _ given
  obtain ⟨command, commands, idle⟩ := given
  apply polls_ensures ecatCsrCmd csrBusy _ (legal_tolerates _) idle
  intro polls last bench reads lastReads _ idle
  apply (readReg_ensures ecatCsrData len size ((legal_tolerates _).asks size idle.kept) idle).mono
  intro value after _ given
  obtain ⟨data, delivers, idle⟩ := given
  refine ⟨command :: (polls ++ [last]) ++ [data], ⟨command, polls ++ [last], data, rfl, commands, ?_, delivers⟩, ?_⟩
  · intro poll member
    rcases List.mem_append.mp member with earlier | final
    · exact reads poll earlier
    · cases List.mem_singleton.mp final
      exact lastReads
  · simpa using idle

/-- An indirect write: the data register, the command and some polls. -/
def IndirectWrite (address : BitVec 16) (dataOut : BitVec 32) (made : List Transaction) : Prop :=
  ∃ data command polls, made = data :: command :: polls ∧ data.Writes ecatCsrData dataOut ∧
    command.Writes ecatCsrCmd (csrCommand 0 address 4 escWrite) ∧ ∀ poll ∈ polls, poll.Reads ecatCsrCmd 4

theorem writeRegWait_ensures (address : BitVec 16) (dataOut : BitVec 32) (data_tolerated : Tolerates lawful ecatCsrData)
    (tolerates : Tolerates lawful ecatCsrCmd) (idle : Idle lawful object done bench) :
    (rules device lawful).Ensures (writeRegWait address dataOut)
      (fun _ after => ∃ made, IndirectWrite address dataOut made ∧ Idle lawful object (done ++ made) after) bench := by
  simp only [writeRegWait, bind_eq, indeterminate_bind, loop_bind]
  apply Ensures.bind idle.traffic
  apply (writeReg_ensures ecatCsrData dataOut data_tolerated idle).mono
  intro _ bench _ given
  obtain ⟨data, writes, idle⟩ := given
  apply indeterminate_ensures idle; intro tempLong bench idle
  rw [csrCommand_eq]
  apply Ensures.bind idle.traffic
  apply (writeReg_ensures ecatCsrCmd _ tolerates idle).mono
  intro _ bench _ given
  obtain ⟨command, commands, idle⟩ := given
  apply polls_ensures ecatCsrCmd csrBusy _ tolerates idle
  intro polls last bench reads lastReads _ idle
  refine solo_pure ⟨data :: command :: (polls ++ [last]), ⟨data, command, _, rfl, writes, commands, ?_⟩,
    by simpa using idle⟩
  intro poll member
  rcases List.mem_append.mp member with earlier | final
  · exact reads poll earlier
  · cases List.mem_singleton.mp final
    exact lastReads

theorem Writes.quiet {address : BitVec 16} {data : BitVec 32} {transaction : Transaction}
    (writes : transaction.Writes address data) : ¬ transaction.Burst := by
  intro burst
  have length := congrArg List.length writes.2.2
  rw [sent, List.length_map, burst] at length
  exact absurd length (nomatch ·)

theorem Reads.quiet {address : BitVec 16} {count : Nat} {transaction : Transaction}
    (reads : transaction.Reads address count) (small : count ≠ 32) : ¬ transaction.Burst :=
  fun burst => small (reads.2.2.symm.trans burst)

theorem Reads.not_writes {address register : BitVec 16} {count : Nat} {data : BitVec 32} {transaction : Transaction}
    (reads : transaction.Reads address count) : ¬ transaction.Writes register data := by
  intro writes
  exact absurd (reads.1.symm.trans writes.1) (by decide)

end Registers

section Fifos

/-- Accesses of the object alone. -/
def Memory : RpiOp → Prop
  | .load _ | .store _ _ => True
  | _ => False

theorem memory_ensures {program : Rpi α} (uses : program.Uses Memory) {fact : Bench δ → Prop}
    (stores : ∀ bench object, fact bench → fact { bench with object := object })
    (traffic : ∀ bench, fact bench → Traffic Legal bench.device.trace) (holds : fact bench) :
    (rules device Legal).Ensures program (fun _ => fact) bench := by
  refine Ensures.of_uses ?_ ?_ uses holds
  · intro _ _ same _ holds
    subst same
    exact holds
  · intro op before reply after allowed _ holds given
    obtain ⟨_, performed⟩ := given
    have holds' : fact after := by
      cases op with
      | load =>
        obtain ⟨_, rfl⟩ := loaded performed
        exact holds
      | store =>
        obtain ⟨object, _, rfl⟩ := written performed
        exact stores before object holds
      | _ => exact allowed.elim
    exact ⟨traffic after holds', trivial, holds'⟩

theorem idle_ensures {program : Rpi α} (uses : program.Uses Memory) (idle : Idle Legal object done bench) :
    (rules device Legal).Ensures program (fun _ after => ∃ object, Idle Legal object done after) bench :=
  memory_ensures uses (fun _ object' ⟨_, idle⟩ => ⟨object', idle.store object'⟩) (fun _ ⟨_, idle⟩ => idle.traffic)
    ⟨object, idle⟩

theorem flight_ensures {program : Rpi α} (uses : program.Uses Memory)
    (flight : InFlight Legal object done part rest bench) :
    (rules device Legal).Ensures program (fun _ after => ∃ object, InFlight Legal object done part rest after) bench :=
  memory_ensures uses (fun _ object' ⟨_, flight⟩ => ⟨object', flight.store object'⟩)
    (fun _ ⟨_, flight⟩ => flight.traffic) ⟨object, flight⟩

private theorem increment_memory : (increment .atomiccounter).Uses Memory :=
  ⟨trivial, fun _ => ⟨trivial, fun _ => trivial⟩⟩

private theorem publish_memory : (forUp publishWord 4 0 ()).Uses Memory :=
  Uses.forUp 4 0 () fun _ _ => ⟨trivial, fun _ => ⟨trivial, fun _ => trivial⟩⟩

private theorem take_memory (index : BitVec 32) : (forUp (takeWord index) 4 0 ()).Uses Memory :=
  Uses.forUp 4 0 () fun _ _ => ⟨trivial, fun _ => ⟨trivial, fun _ => trivial⟩⟩

private theorem clear_memory : (forUp clearWord 4 0 ()).Uses Memory :=
  Uses.forUp 4 0 () fun _ _ => ⟨trivial, fun _ => trivial⟩

/-- Starting a FIFO command and polling it arms the burst. -/
theorem armed_of_polled {register : BitVec 16} {ready : BitVec 32 → Bool} {start last : Transaction}
    {polls : List Transaction}
    (starts : start.Writes register 0x80000000) (reads : ∀ poll ∈ polls, poll.Reads register 4)
    (lastReads : last.Reads register 4) (finds : ready last.value = true) :
    Armed register ready (done ++ [start] ++ polls ++ [last]) := by
  have quiet : ∀ poll : Transaction, poll.Reads register 4 → ¬ poll.Writes register 0x80000000 ∧ ¬ poll.Burst :=
    fun poll reads => ⟨Reads.not_writes reads, Reads.quiet reads (by decide)⟩
  refine ⟨done, start, polls ++ [last], by simp, starts, fun other member => ?_, last,
    List.mem_append_right _ (List.mem_singleton_self _), lastReads, finds⟩
  rcases List.mem_append.mp member with earlier | final
  · exact quiet other (reads other earlier)
  · cases List.mem_singleton.mp final
    exact quiet last lastReads

/-- Transactions that end with their only burst. -/
structure Transfer (burst : Transaction) (made : List Transaction) : Prop where
  last : ∃ before, made = before ++ [burst] ∧ ∀ other ∈ before, ¬ other.Burst
  burst : burst.Burst

theorem planned_read (legal : Legal done) (armed : Armed ecatPramRdCmd Lan9252.readReady done) :
    Planned Legal done (commSpiRead :: 0x00 :: 0x00 :: List.replicate 32 dummyByte) := by
  have planned := @planned_of_admitted done Legal commSpiRead 0x0000 (List.replicate 32 dummyByte)
  refine planned fun answers payload same => legal_append legal
    ⟨.inl rfl, .inr (.inr ?_), fun _ => .inl ⟨rfl, rfl, armed⟩⟩
  have length := congrArg List.length same
  rwa [List.length_map] at length

private theorem quiet_of_polled {asked start last : Transaction} {polls : List Transaction}
    {address register : BitVec 16}
    {first second : BitVec 32} (asks : asked.Writes address first) (starts : start.Writes register second)
    (reads : ∀ poll ∈ polls, poll.Reads register 4) (lastReads : last.Reads register 4) :
    ∀ other ∈ [asked, start] ++ polls ++ [last], ¬ other.Burst := by
  intro other member
  simp only [List.mem_append, List.mem_cons, List.not_mem_nil, or_false] at member
  rcases member with ((rfl | rfl) | polled) | rfl
  · exact Writes.quiet asks
  · exact Writes.quiet starts
  · exact Reads.quiet (reads other polled) (by decide)
  · exact Reads.quiet lastReads (by decide)

/-- The 32 bytes of a fetch and the stores between them. -/
theorem receive_ensures (flight : InFlight Legal object done part (List.replicate 32 dummyByte) bench) :
    (rules device Legal).Ensures (forUp receiveByte 32 0 ()) (fun _ after => ∃ object payload, payload.length = 32 ∧
      InFlight Legal object done (part ++ payload) [] after) bench := by
  let received (index : Nat) (_ : Unit) (bench : Bench δ) : Prop := ∃ object payload, payload.length = index ∧
    InFlight Legal object done (part ++ payload) (List.replicate (32 - index) dummyByte) bench
  have each : ∀ index value bench, index < 0 + 32 → received index value bench →
      (rules device Legal).Ensures (receiveByte index value) (received (index + 1)) bench := by
    intro index _ bench inside given
    obtain ⟨object, payload, length, flight⟩ := given
    obtain ⟨left, more⟩ : ∃ left, 32 - index = left + 1 := ⟨31 - index, by omega⟩
    rw [more, List.replicate_succ] at flight
    simp only [receiveByte, bind_eq, spiRead_bind]
    apply transfer_ensures flight; intro answer bench flight
    apply store_ensures
    intro object' _
    refine solo_pure ⟨object', payload ++ [(dummyByte, answer)], by simp [length], ?_⟩
    rw [show 32 - (index + 1) = left by omega, ← List.append_assoc]
    exact flight.store object'
  have starts : received 0 () bench := ⟨object, [], rfl, by simpa using flight⟩
  exact solo_forUp received 32 0 () each flight.traffic starts

theorem spiReadProcRamFifo_ensures (idle : Idle Legal object done bench) :
    (rules device Legal).Ensures spiReadProcRamFifo (fun _ after => ∃ object made burst, Transfer burst made ∧
      burst.command = commSpiRead ∧ Idle Legal object (done ++ made) after) bench := by
  simp only [spiReadProcRamFifo, bind_eq, loop_bind]
  apply Ensures.bind idle.traffic
  apply (idle_ensures increment_memory idle).mono
  intro _ bench _ given
  obtain ⟨object, idle⟩ := given
  apply Ensures.bind idle.traffic
  apply (writeReg_ensures ecatPramRdAddrLen 0x00201000 (legal_tolerates _) idle).mono
  intro _ bench _ given
  obtain ⟨asked, asks, idle⟩ := given
  apply Ensures.bind idle.traffic
  apply (writeReg_ensures ecatPramRdCmd 0x80000000 (legal_tolerates _) idle).mono
  intro _ bench _ given
  obtain ⟨start, starts, idle⟩ := given
  apply polls_ensures ecatPramRdCmd readNotReady _ (legal_tolerates _) idle
  intro polls last bench reads lastReads finds idle
  have finds : Lan9252.readReady last.value = true := by simpa [ProcessData.readNotReady_eq] using finds
  have armed := @armed_of_polled (done ++ [asked]) _ _ _ _ _ starts reads lastReads finds
  simp only [spiWrite_bind, select_eq, request_bind, pure_bind]
  apply low_ensures idle (planned_read idle.kept armed); intro _ flight
  apply transfer_ensures flight; intro first _ flight
  apply transfer_ensures flight; intro second _ flight
  apply transfer_ensures flight; intro third bench flight
  apply Ensures.bind flight.traffic
  apply (receive_ensures flight).mono
  intro _ bench _ given
  obtain ⟨object, payload, length, flight⟩ := given
  apply Ensures.bind flight.traffic
  apply (flight_ensures publish_memory flight).mono
  intro _ bench _ given
  obtain ⟨object, flight⟩ := given
  apply high_ensures flight
  intro burst bench same idle
  have same : burst.exchanges = (commSpiRead, first) :: (byte (0x0000 : BitVec 16) 1, second) ::
      (byte (0x0000 : BitVec 16) 0, third) :: payload := same
  obtain ⟨command, _, same⟩ := exchanges_eq same
  apply (idle_ensures increment_memory idle).mono
  intro _ after _ given
  obtain ⟨object, idle⟩ := given
  refine ⟨object, [asked, start] ++ polls ++ [last] ++ [burst], burst, ⟨⟨_, rfl, ?_⟩, ?_⟩, command, by simpa using idle⟩
  · exact quiet_of_polled asks starts reads lastReads
  · rw [Burst, same, length]

/-- The bytes that a transmission puts on the bus. -/
def frameBytes (frame : ProcBuffer) : List Byte := (List.range 32).map (byte frame)

theorem planned_write (legal : Legal done) (armed : Armed ecatPramWrCmd Lan9252.writeReady done) (frame : ProcBuffer) :
    Planned Legal done (commSpiWrite :: 0x00 :: 0x20 :: frameBytes frame) := by
  have planned := @planned_of_admitted done Legal commSpiWrite 0x0020 (frameBytes frame)
  refine planned fun answers payload same => legal_append legal
    ⟨.inr rfl, .inr (.inr ?_), fun _ => .inr ⟨rfl, rfl, armed⟩⟩
  have length := congrArg List.length same
  rwa [List.length_map, frameBytes, List.length_map, List.length_range] at length

/-- One byte of the frame in `BufferIn`, with the bytes after it still to send. -/
theorem sendByte_ensures {index : Nat} (inside : index < 32)
    (flight : InFlight Legal object done part (((List.range 32).drop index).map (byte object.bufferIn)) bench) :
    (rules device Legal).Ensures (sendByte index ()) (fun _ after => ∃ answer,
      InFlight Legal object done (part ++ [(byte object.bufferIn index, answer)])
        (((List.range 32).drop (index + 1)).map (byte object.bufferIn)) after) bench := by
  have next : (List.range 32).drop index = index :: (List.range 32).drop (index + 1) := by
    rw [List.drop_eq_getElem_cons (by simpa using inside), List.getElem_range]
  rw [next, List.map_cons] at flight
  simp only [sendByte, bind_eq, load_bind]
  apply load_ensures
  intro value reads
  rw [flight.object] at reads
  have held : object.read (.bufferInByte index) = some (byte object.bufferIn index) := if_pos inside
  obtain rfl := Option.some.inj (reads.symm.trans held)
  apply transfer_ensures flight; intro answer after flight
  exact solo_pure ⟨answer, flight⟩

theorem spiWriteProcRamFifo_ensures (idle : Idle Legal object done bench) :
    (rules device Legal).Ensures spiWriteProcRamFifo (fun _ after => ∃ object made burst, Transfer burst made ∧
      burst.command = commSpiWrite ∧ burst.sent = frameBytes object.bufferIn ∧
      Idle Legal object (done ++ made) after) bench := by
  simp only [spiWriteProcRamFifo, bind_eq, load_bind, loop_bind]
  apply load_ensures
  intro index _
  apply Ensures.bind idle.traffic
  apply (idle_ensures (take_memory index) idle).mono
  intro _ bench _ given
  obtain ⟨object, idle⟩ := given
  apply Ensures.bind idle.traffic
  apply (writeReg_ensures ecatPramWrAddrLen 0x00201200 (legal_tolerates _) idle).mono
  intro _ bench _ given
  obtain ⟨asked, asks, idle⟩ := given
  apply Ensures.bind idle.traffic
  apply (writeReg_ensures ecatPramWrCmd 0x80000000 (legal_tolerates _) idle).mono
  intro _ bench _ given
  obtain ⟨start, starts, idle⟩ := given
  apply polls_ensures ecatPramWrCmd writeNotReady _ (legal_tolerates _) idle
  intro polls last bench reads lastReads finds idle
  have finds : Lan9252.writeReady last.value = true := by simpa [ProcessData.writeNotReady_eq] using finds
  have armed := @armed_of_polled (done ++ [asked]) _ _ _ _ _ starts reads lastReads finds
  simp only [spiWrite_bind, select_eq, request_bind, pure_bind]
  apply low_ensures idle (planned_write idle.kept armed object.bufferIn); intro _ flight
  apply transfer_ensures flight; intro first _ flight
  apply transfer_ensures flight; intro second _ flight
  apply transfer_ensures flight; intro third bench flight
  let header : List (Byte × Byte) := [(commSpiWrite, first), (0x00, second), (0x20, third)]
  let sent (index : Nat) (_ : Unit) (bench : Bench δ) : Prop := ∃ payload : List (Byte × Byte),
    payload.map Prod.fst = (List.range index).map (byte object.bufferIn) ∧
      InFlight Legal object (done ++ [asked] ++ [start] ++ polls ++ [last]) (header ++ payload)
        (((List.range 32).drop index).map (byte object.bufferIn)) bench
  have step : ∀ index value bench, index < 32 → sent index value bench →
      (rules device Legal).Ensures (sendByte index value) (sent (index + 1)) bench := by
    intro index _ bench inside given
    obtain ⟨payload, same, flight⟩ := given
    apply (sendByte_ensures inside flight).mono
    intro _ after _ given
    obtain ⟨answer, flight⟩ := given
    refine ⟨payload ++ [(byte object.bufferIn index, answer)], ?_, by rwa [← List.append_assoc]⟩
    rw [List.map_append, same, List.range_succ, List.map_append]
    rfl
  have begins : sent 0 () bench := ⟨[], rfl, by simpa [header, frameBytes] using flight⟩
  apply Ensures.bind flight.traffic
  apply (solo_forUp sent 31 0 () (fun index value bench inside => step index value bench (by omega))
    flight.traffic begins).mono
  intro stopped bench kept holds
  cases stopped
  apply Ensures.bind kept
  apply (step 31 () bench (by decide) holds).mono
  intro _ bench _ given
  obtain ⟨payload, same, flight⟩ := given
  apply high_ensures flight
  intro burst after exchanged idle
  have exchanged : burst.exchanges = (commSpiWrite, first) :: (byte (0x0020 : BitVec 16) 1, second) ::
      (byte (0x0020 : BitVec 16) 0, third) :: payload := exchanged
  obtain ⟨command, _, held⟩ := exchanges_eq exchanged
  have length := congrArg List.length same
  rw [List.length_map, List.length_map, List.length_range] at length
  refine solo_pure ⟨object, [asked, start] ++ polls ++ [last] ++ [burst], burst, ⟨⟨_, rfl, ?_⟩, ?_⟩, command, ?_,
    by simpa using idle⟩
  · exact quiet_of_polled asks starts reads lastReads
  · rw [Burst, held, length]
  · rw [Transaction.sent, held, same]
    rfl

end Fifos

section Cycles

def bursts (made : List Transaction) : List Transaction := made.filter fun transaction => decide transaction.Burst

theorem bursts_append (first second : List Transaction) : bursts (first ++ second) = bursts first ++ bursts second :=
  List.filter_append first second

theorem bursts_quiet {made : List Transaction} (quiet : ∀ other ∈ made, ¬ other.Burst) : bursts made = [] :=
  List.filter_eq_nil_iff.mpr fun other member => by simpa using quiet other member

theorem bursts_transfer {burst : Transaction} {made : List Transaction} (transfer : Transfer burst made) :
    bursts made = [burst] := by
  obtain ⟨before, rfl, quiet⟩ := transfer.last
  rw [bursts_append, bursts_quiet quiet]
  simp [bursts, transfer.burst]

theorem bursts_indirect {address : BitVec 16} {len : Byte} {value : BitVec 32} {made : List Transaction}
    (indirect : Indirect address len value made) (size : len = 1 ∨ len = 4) : bursts made = [] := by
  obtain ⟨command, polls, data, rfl, writes, reads, delivers⟩ := indirect
  apply bursts_quiet
  intro other member
  simp only [List.cons_append, List.mem_cons, List.mem_append, List.not_mem_nil, or_false] at member
  rcases member with rfl | polled | rfl
  · exact Writes.quiet writes
  · exact Reads.quiet (reads other polled) (by decide)
  · refine Reads.quiet delivers.1.1 ?_
    rcases size with rfl | rfl <;> decide

/-- The process-data transfers of a cycle that returns `status`: an operational one
fetches the output image first, and every one sends `BufferIn`. -/
def Exchanges (status : Byte) (frame : ProcBuffer) (made : List Transaction) : Prop :=
  ∃ fetches sends, bursts made = fetches ++ [sends] ∧ sends.command = commSpiWrite ∧ sends.sent = frameBytes frame ∧
    if status = esmOp then ∃ fetch, fetches = [fetch] ∧ fetch.command = commSpiRead else fetches = []

private theorem status_eq (watchDog : Bool) (state : Byte) :
    (if watchDog then state &&& 0x0F ||| 0x80 else state &&& 0x0F : Byte) = esmOp ↔
      (watchDog || !(state &&& 0x0F == esmOp)) = false := by
  cases watchDog with
  | false => simp
  | true =>
    simp only [Bool.true_or, if_true, Bool.true_eq_false, iff_false]
    revert state
    decide

theorem mainTask_ensures (idle : Idle Legal object done bench) :
    (rules device Legal).Ensures mainTask (fun status after => ∃ object made, Exchanges status object.bufferIn made ∧
      Idle Legal object (done ++ made) after) bench := by
  simp only [mainTask, bind_eq, pure_eq]
  apply Ensures.bind idle.traffic
  apply (readRegWait_ensures wdogStatus 1 (.inl rfl) idle).mono
  intro watchdog bench _ given
  obtain ⟨first, indirect, idle⟩ := given
  apply Ensures.bind idle.traffic
  apply (readRegWait_ensures alStatusReg0 1 (.inl rfl) idle).mono
  intro state bench _ given
  obtain ⟨second, indirect', idle⟩ := given
  have polls : bursts (first ++ second) = [] := by
    rw [bursts_append, bursts_indirect indirect (.inl rfl), bursts_indirect indirect' (.inl rfl), List.append_nil]
  have status := status_eq (!(byte watchdog 0 &&& 0x01 == 0x01)) (byte state 0)
  generalize (!(byte watchdog 0 &&& 0x01 == 0x01)) = watchDog at status ⊢
  cases failed : watchDog || !(byte state 0 &&& 0x0F == esmOp) with
  | true =>
    rw [failed] at status
    simp only [if_true]
    apply Ensures.bind idle.traffic
    apply (idle_ensures clear_memory idle).mono
    intro _ bench _ given
    obtain ⟨object, idle⟩ := given
    apply Ensures.bind idle.traffic
    apply (spiWriteProcRamFifo_ensures idle).mono
    intro _ bench _ given
    obtain ⟨object, made, sends, transfer, command, frame, idle⟩ := given
    refine solo_pure ⟨object, first ++ second ++ made, ⟨[], sends, ?_, command, frame, ?_⟩, by simpa using idle⟩
    · rw [bursts_append, polls, bursts_transfer transfer]
    · rw [if_neg fun same => Bool.noConfusion (status.mp same)]
  | false =>
    rw [failed] at status
    simp only [Bool.false_eq_true, if_false]
    apply Ensures.bind idle.traffic
    apply (spiReadProcRamFifo_ensures idle).mono
    intro _ bench _ given
    obtain ⟨object, fetched, fetch, transfer, command, idle⟩ := given
    apply Ensures.bind idle.traffic
    apply (spiWriteProcRamFifo_ensures idle).mono
    intro _ bench _ given
    obtain ⟨object, made, sends, transfer', command', frame, idle⟩ := given
    refine solo_pure ⟨object, first ++ second ++ fetched ++ made, ⟨[fetch], sends, ?_, command', frame, ?_⟩,
      by simpa using idle⟩
    · rw [bursts_append, bursts_append, polls, bursts_transfer transfer, bursts_transfer transfer']
      rfl
    · rw [if_pos (status.mpr rfl)]
      exact ⟨fetch, rfl, command⟩

end Cycles
end EthercatSlave.Proofs.SpiTraffic
