import EthercatSlave.BusLoad
import EthercatSlave.Proofs.Accesses
import EthercatSlave.Proofs.RelyGuarantee
import EthercatSlave.Proofs.Snapshots

/-! Whatever a device answers, the load on its bus follows from the cycles run, the
images fetched and the polls that had to be repeated. Each function appends complete
transactions to the trace, and a poll is repeated only inside a wait. -/

namespace EthercatSlave.Proofs.BusLoad
open Program Rpi Sharing EthercatSlave.BusLoad Transaction
open PriorMemory (AppCall)

section Decoding

variable {trace : List Wire} {transaction : Transaction} {done polls : List Transaction} {register : BitVec 16}

theorem join_bytes (address : BitVec 16) : (byte address 1 ++ byte address 0 : BitVec 16) = address := by
  apply BitVec.eq_of_getLsbD_eq
  intro bit small
  rw [BitVec.getLsbD_append, getLsbD_part, getLsbD_part]
  by_cases low : bit < 8
  · simp [low]
  · have high : bit - 8 < 8 := by omega
    simp [low, high, show 8 + (bit - 8) = bit by omega]

theorem polled_closed {wire : Wire} (closed : wire ≠ .select .low) : polled (wire :: trace) = none := by
  unfold polled
  split
  next same =>
    cases same
    exact absurd rfl closed
  next => rfl

theorem repeats_cons {wire : Wire} : repeats (wire :: trace) = repeats trace +
    if (polled (wire :: trace)).isSome = true ∧ polled (nextWindow (wire :: trace)) = polled (wire :: trace)
      then 1 else 0 := by
  rw [repeats, List.tails_cons, List.countP_cons, ← repeats]
  simp only [decide_eq_true_eq]

/-- Nothing is repeated before the next window. -/
theorem repeats_within {inner : List Wire} (closed : ∀ wire ∈ inner, wire ≠ .select .low) :
    repeats (inner ++ trace) = repeats trace := by
  induction inner with
  | nil => rfl
  | cons wire inner ih =>
    rw [List.cons_append, repeats_cons, polled_closed (closed wire List.mem_cons_self)]
    exact ih fun other member => closed other (List.mem_cons_of_mem _ member)

def inner (transaction : Transaction) : List Wire :=
  (transaction.exchanges.map fun (sent, received) => .exchange sent received) ++ [.select .high]

theorem inner_closed (transaction : Transaction) : ∀ wire ∈ inner transaction, wire ≠ .select .low := by
  intro wire member
  rcases List.mem_append.mp member with exchanged | last
  · obtain ⟨_, _, rfl⟩ := List.mem_map.mp exchanged
    exact nofun
  · rw [List.mem_singleton.mp last]
    exact nofun

theorem polled_wire : polled (transaction.wire ++ trace) =
    if transaction.command = commSpiRead ∧ transaction.address ∈ statusRegisters then some transaction.address
      else none := by
  conv_rhs => rw [← join_bytes transaction.address]
  rfl

theorem polled_alone : polled transaction.wire =
    if transaction.command = commSpiRead ∧ transaction.address ∈ statusRegisters then some transaction.address
      else none := by
  have whole : polled (transaction.wire ++ []) = _ := polled_wire
  rwa [List.append_nil] at whole

theorem nextWindow_wire : nextWindow (transaction.wire ++ done.flatMap wire) = done.flatMap wire := by
  have closed : nextWindow (transaction.wire ++ done.flatMap wire) =
      (done.flatMap wire).dropWhile fun wire => decide (wire ≠ .select .low) :=
    List.dropWhile_append_of_pos fun wire member => decide_eq_true (inner_closed transaction wire member)
  rw [closed]
  cases done <;> rfl

theorem repeats_wire : repeats (transaction.wire ++ done.flatMap wire) = repeats (done.flatMap wire) +
    if (polled transaction.wire).isSome = true ∧ polled (done.flatMap wire) = polled transaction.wire
      then 1 else 0 := by
  have whole : .select .low :: (inner transaction ++ done.flatMap wire) = transaction.wire ++ done.flatMap wire := rfl
  have alone : polled (transaction.wire ++ done.flatMap wire) = polled transaction.wire := by
    rw [polled_wire, polled_alone]
  have counted : repeats (.select .low :: (inner transaction ++ done.flatMap wire)) = _ := repeats_cons
  rwa [repeats_within (inner_closed transaction), whole, nextWindow_wire, alone] at counted

/-- Two transactions that do not poll the same register make no repetition. -/
theorem repeats_append {more : List Transaction} (fresh : polled (more.flatMap wire) = none) :
    repeats (done.flatMap wire ++ more.flatMap wire) = repeats (done.flatMap wire) + repeats (more.flatMap wire) := by
  induction done with
  | nil => exact (Nat.zero_add _).symm
  | cons transaction done ih =>
    have joined : polled (done.flatMap wire ++ more.flatMap wire) = polled (done.flatMap wire) := by
      cases done with
      | nil => exact fresh
      | cons next done =>
        rw [List.flatMap_cons, List.append_assoc, polled_wire, polled_wire]
    rw [List.flatMap_cons, List.append_assoc, ← List.flatMap_append, repeats_wire, repeats_wire, List.flatMap_append,
      ih, joined]
    omega

theorem windows_wire : windows transaction.wire = 1 := by
  have none : (inner transaction).countP (fun wire => decide (wire = .select .low)) = 0 :=
    List.countP_eq_zero.mpr fun wire member => by simpa using inner_closed transaction wire member
  change windows (.select .low :: inner transaction) = 1
  rw [windows, List.countP_cons, none]
  rfl

theorem bytes_wire : bytes transaction.wire = 3 + transaction.payload.length := by
  have payload : (transaction.payload.map fun (sent, received) => Wire.exchange sent received).countP
      (fun wire => decide (wire ≠ .select .low ∧ wire ≠ .select .high)) = transaction.payload.length := by
    rw [List.countP_map, List.countP_eq_length.mpr]
    intro exchanged _
    simp
  rw [bytes, Transaction.wire, Transaction.exchanges, List.map_cons, List.map_cons, List.map_cons,
    List.countP_append, List.countP_cons, List.countP_cons, List.countP_cons, List.countP_cons, payload]
  simp
  omega

/-- Complete transactions of so many windows and bytes, repeated polls not counted. -/
def Load (windows bytes : Nat) (trace : List Wire) : Prop :=
  ∃ done : List Transaction, trace = done.flatMap wire ∧ polled trace = none ∧
    BusLoad.windows trace = windows + repeats trace ∧ BusLoad.bytes trace = bytes + 7 * repeats trace

theorem Load.nil : Load 0 0 [] := ⟨[], rfl, rfl, rfl, rfl⟩

theorem Load.append {windows bytes windows' bytes' : Nat} {more : List Wire} (first : Load windows bytes trace)
    (second : Load windows' bytes' more) : Load (windows + windows') (bytes + bytes') (trace ++ more) := by
  obtain ⟨done, rfl, fresh, opened, exchanged⟩ := first
  obtain ⟨done', rfl, fresh', opened', exchanged'⟩ := second
  refine ⟨done ++ done', (List.flatMap_append ..).symm, ?_, ?_, ?_⟩
  · cases done with
    | nil => exact fresh'
    | cons transaction done =>
      rw [List.flatMap_cons, polled_wire] at fresh
      rw [List.flatMap_cons, List.append_assoc, polled_wire]
      exact fresh
  · rw [repeats_append fresh', BusLoad.windows, List.countP_append, ← BusLoad.windows, ← BusLoad.windows]
    omega
  · rw [repeats_append fresh', BusLoad.bytes, List.countP_append, ← BusLoad.bytes, ← BusLoad.bytes]
    omega

/-- A transaction that is no poll. -/
theorem Load.single (other : transaction.command = commSpiRead → transaction.address ∉ statusRegisters) :
    Load 1 (3 + transaction.payload.length) transaction.wire := by
  have whole : transaction.wire = [transaction].flatMap wire := (List.flatMap_singleton ..).symm
  have fresh : polled transaction.wire = none := by rw [polled_alone, if_neg fun both => other both.1 both.2]
  have none : repeats transaction.wire = 0 := by
    have counted : repeats (transaction.wire ++ [].flatMap wire) = _ := repeats_wire
    rwa [fresh, List.flatMap_nil, List.append_nil, if_neg (by simp)] at counted
  refine ⟨[transaction], whole, fresh, ?_, ?_⟩
  · rw [windows_wire, none]
  · rw [bytes_wire, none]
    rfl

/-- All polls of a wait but the first are repeated. -/
theorem polls_load (status : register ∈ statusRegisters) (reads : ∀ poll ∈ polls, poll.Reads register 4)
    (some_poll : polls ≠ []) : polled (polls.flatMap wire) = some register ∧
      windows (polls.flatMap wire) = 1 + repeats (polls.flatMap wire) ∧
        bytes (polls.flatMap wire) = 7 + 7 * repeats (polls.flatMap wire) := by
  induction polls with
  | nil => exact absurd rfl some_poll
  | cons poll polls ih =>
    obtain ⟨command, address, length⟩ := reads poll List.mem_cons_self
    have is_poll : poll.command = commSpiRead ∧ poll.address ∈ statusRegisters :=
      ⟨command, by rw [address]; exact status⟩
    refine ⟨by rw [List.flatMap_cons, polled_wire, if_pos is_poll, address], ?_⟩
    rw [List.flatMap_cons, repeats_wire, windows, bytes, List.countP_append, List.countP_append, ← windows, ← bytes,
      windows_wire, bytes_wire, polled_alone, if_pos is_poll, address, length]
    cases polls with
    | nil => exact ⟨rfl, rfl⟩
    | cons next polls =>
      obtain ⟨again, opened, exchanged⟩ :=
        ih (fun poll member => reads poll (List.mem_cons_of_mem _ member)) (List.cons_ne_nil next polls)
      rw [again, if_pos ⟨rfl, rfl⟩, ← windows, ← bytes]
      omega

/-- A command and the wait for its end. -/
theorem Load.wait {data : BitVec 32} (writes : transaction.Writes register data)
    (status : register ∈ statusRegisters) (reads : ∀ poll ∈ polls, poll.Reads register 4) (some_poll : polls ≠ []) :
    Load 2 14 (transaction.wire ++ polls.flatMap wire) := by
  obtain ⟨command, _, sent⟩ := writes
  have written : ¬ (transaction.command = commSpiRead ∧ transaction.address ∈ statusRegisters) := by
    rw [command]
    exact fun both => absurd both.1 (by decide)
  have length : transaction.payload.length = 4 := by
    have length := congrArg List.length sent
    rwa [Transaction.sent, List.length_map] at length
  obtain ⟨found, opened, exchanged⟩ := polls_load status reads some_poll
  have same : repeats (transaction.wire ++ polls.flatMap wire) = repeats (polls.flatMap wire) := by
    rw [repeats_wire, polled_alone, if_neg written, if_neg (by simp)]
    rfl
  refine ⟨transaction :: polls, rfl, by rw [polled_wire, if_neg written], ?_, ?_⟩
  · rw [same, windows, List.countP_append, ← windows, ← windows, windows_wire]
    omega
  · rw [same, bytes, List.countP_append, ← bytes, ← bytes, bytes_wire, length]
    omega

end Decoding
variable {δ α β : Type} {device : Device δ}

abbrev BusWorld (δ : Type) := World Thread RpiOp RpiOp.Reply (Machine (Recorded δ))

variable {world before after : BusWorld δ} {trace : List Wire} {fetched : Nat}

section Protocols

/-- What was seen on the pins, and the images fetched so far. -/
structure At (trace : List Wire) (fetched : Nat) (world : BusWorld δ) : Prop where
  trace : world.state.device.trace = trace
  fetched : fetches world.log = fetched

/-- The application leaves both as they are. -/
def Relies : Thread → BusWorld δ → BusWorld δ → Prop
  | .app, _, _ => True
  | .rt, before, after => At before.state.device.trace (fetches before.log) after

variable (δ) in
def protocol : Protocol Thread RpiOp RpiOp.Reply (Machine (Recorded δ)) where
  invariant _ := True
  rely := Relies
  guarantee thread before after := ∀ other, other ≠ thread → Relies other before after
  refl thread _ := match thread with
    | .app => trivial
    | .rt => ⟨rfl, rfl⟩
  trans thread _ _ _ one two := match thread, one, two with
    | .app, _, _ => trivial
    | .rt, one, two => ⟨two.trace.trans one.trace, two.fetched.trans one.fetched⟩
  compatible different guarantees := guarantees _ different

abbrev rules (device : Device δ) (thread : Thread) : Rules RpiOp RpiOp.Reply (BusWorld δ) :=
  (protocol δ).rules (handle device.recorded) thread

theorem At.stable (here : At trace fetched before) (moves : Relies .rt before after) : At trace fetched after :=
  ⟨moves.trace.trans here.trace, moves.fetched.trans here.fetched⟩

/-- What an access puts on the pins. -/
def wired : (op : RpiOp) → op.Reply → List Wire
  | .select level, _ => [.select level]
  | .transfer data, answer => [.exchange data answer]
  | _, _ => []

theorem acts_at {thread : Thread} {op : RpiOp} {reply : op.Reply} (here : At trace fetched before)
    (acts : Pool.acts (handle device.recorded) thread op before reply after) :
    At (trace ++ wired op reply) (fetched + if publishes op then 1 else 0) after := by
  obtain ⟨_, performed, logged⟩ := acts
  constructor
  · rw [← here.trace]
    cases op with
    | select level =>
      have same := (Prod.mk.inj (Option.some.inj performed)).2
      rw [← same]
      rfl
    | transfer data =>
      obtain ⟨answered, same⟩ := Prod.mk.inj (Option.some.inj performed)
      rw [← same, ← answered]
      rfl
    | indeterminate =>
      have same := (Prod.mk.inj (Option.some.inj performed)).2
      rw [← same]
      exact (List.append_nil _).symm
    | load cell =>
      obtain ⟨_, same⟩ := Accesses.loaded performed
      rw [same]
      exact (List.append_nil _).symm
    | store cell value =>
      obtain ⟨object, _, same⟩ := Accesses.written performed
      rw [same]
      exact (List.append_nil _).symm
  · rw [logged, fetches, List.countP_append, ← fetches, here.fetched, List.countP_singleton]

/-- Accesses that reach neither the pins nor the published image. -/
def Silent : RpiOp → Prop
  | .select _ | .transfer _ => False
  | op => publishes op = false

theorem Silent.at {thread : Thread} {op : RpiOp} {reply : op.Reply} (silent : Silent op) (here : At trace fetched before)
    (acts : Pool.acts (handle device.recorded) thread op before reply after) : At trace fetched after := by
  have there := acts_at here acts
  cases op with
  | select => exact silent.elim
  | transfer => exact silent.elim
  | _ =>
    have unpublished : publishes _ = false := silent
    rw [unpublished] at there
    rwa [show wired _ reply = [] from rfl, List.append_nil] at there

end Protocols

section Accesses

variable {post : α → BusWorld δ → Prop}

/-- The application relies on nothing. -/
theorem spares_app : ∀ other, other ≠ .rt → Relies other before after := by
  intro other different
  cases other with
  | app => trivial
  | rt => exact absurd rfl different

theorem request_ensures {op : RpiOp} {next : op.Reply → Rpi α} (here : At trace fetched world)
    (later : ∀ reply after, At (trace ++ wired op reply) (fetched + if publishes op then 1 else 0) after →
      (rules device .rt).Ensures (next reply) post after) : (rules device .rt).Ensures (.request op next) post world := by
  intro between moves _ reply after acts
  exact ⟨trivial, spares_app, later reply after (acts_at (here.stable moves) acts)⟩

theorem select_ensures {level : Level} {next : Unit → Rpi α} (here : At trace fetched world)
    (later : ∀ after, At (trace ++ [.select level]) fetched after → (rules device .rt).Ensures (next ()) post after) :
    (rules device .rt).Ensures (.request (.select level) next) post world :=
  request_ensures here fun _ after there => later after there

theorem transfer_ensures {data : Byte} {next : Byte → Rpi α} (here : At trace fetched world)
    (later : ∀ answer after, At (trace ++ [.exchange data answer]) fetched after →
      (rules device .rt).Ensures (next answer) post after) :
    (rules device .rt).Ensures (.request (.transfer data) next) post world :=
  request_ensures here fun answer after there => later answer after there

theorem quiet_ensures {op : RpiOp} {next : op.Reply → Rpi α} (silent : Silent op) (here : At trace fetched world)
    (later : ∀ reply after, At trace fetched after → (rules device .rt).Ensures (next reply) post after) :
    (rules device .rt).Ensures (.request op next) post world := by
  intro between moves _ reply after acts
  exact ⟨trivial, spares_app, later reply after (silent.at (here.stable moves) acts)⟩

theorem silent_ensures {program : Rpi α} (uses : program.Uses Silent) (here : At trace fetched world) :
    (rules device .rt).Ensures program (fun _ => At trace fetched) world := by
  refine Rules.Ensures.of_uses (fun moves _ here => here.stable moves) ?_ uses here
  intro op before reply after silent _ here acts
  exact ⟨trivial, spares_app, silent.at here acts⟩

/-- A window opens with a command and an address. -/
theorem header_ensures {command high low : Byte} {next : Byte → Rpi α} (here : At trace fetched world)
    (later : ∀ answers : Byte × Byte × Byte, ∀ after, At (trace ++ [.select .low, .exchange command answers.1,
      .exchange high answers.2.1, .exchange low answers.2.2]) fetched after →
        (rules device .rt).Ensures (next answers.2.2) post after) :
    (rules device .rt).Ensures (.request (.select .low) fun _ => .request (.transfer command) fun _ =>
      .request (.transfer high) fun _ => .request (.transfer low) next) post world := by
  refine select_ensures here fun _ there => ?_
  refine transfer_ensures there fun first _ there => ?_
  refine transfer_ensures there fun second _ there => ?_
  refine transfer_ensures there fun third after there => ?_
  exact later (first, second, third) after (by simpa using there)

/-- The body of a transaction: bytes one after the other. -/
theorem bytes_ensures {body : Nat → β → Rpi β} (count first : Nat) (value : β)
    (each : ∀ index value trace world, At trace fetched world → (rules device .rt).Ensures (body index value)
      (fun _ after => ∃ pair : Byte × Byte, At (trace ++ [.exchange pair.1 pair.2]) fetched after) world)
    (here : At trace fetched world) :
    (rules device .rt).Ensures (forUp body count first value) (fun _ after => ∃ more : List (Byte × Byte),
      more.length = count ∧ At (trace ++ more.map fun pair => .exchange pair.1 pair.2) fetched after) world := by
  apply (Rules.Ensures.forUp (fun index _ after => ∃ more : List (Byte × Byte), first + more.length = index ∧
    At (trace ++ more.map fun pair => .exchange pair.1 pair.2) fetched after) ?_ count first value world ?_
      trivial ⟨[], Nat.add_zero first, by rwa [List.map_nil, List.append_nil]⟩).mono
  · rintro _ after _ ⟨more, length, there⟩
    exact ⟨more, by omega, there⟩
  · rintro index _ before after moves _ ⟨more, length, there⟩
    exact ⟨more, length, there.stable moves⟩
  · rintro index value before _ _ _ ⟨more, length, there⟩
    apply (each index value _ _ there).mono
    rintro _ after _ ⟨pair, there⟩
    refine ⟨more ++ [pair], by rw [List.length_append, List.length_singleton]; omega, ?_⟩
    rwa [List.map_append, ← List.append_assoc]

end Accesses

section Registers

/-- Complete transactions of so many windows and bytes were appended, and so many images fetched. -/
def Spends (windows bytes images : Nat) (trace : List Wire) (fetched : Nat) (world : BusWorld δ) : Prop :=
  ∃ more, Load windows bytes more ∧ At (trace ++ more) (fetched + images) world

theorem Spends.bind {program : Rpi α} {next : α → Rpi β} {windows bytes images windows' bytes' images' : Nat}
    (first : (rules device .rt).Ensures program (fun _ => Spends windows bytes images trace fetched) world)
    (rest : ∀ value more after, At (trace ++ more) (fetched + images) after → (rules device .rt).Ensures (next value)
      (fun _ => Spends windows' bytes' images' (trace ++ more) (fetched + images)) after) :
    (rules device .rt).Ensures (program.bind next)
      (fun _ => Spends (windows + windows') (bytes + bytes') (images + images') trace fetched) world := by
  apply Rules.Ensures.bind trivial
  apply first.mono
  rintro value after _ ⟨more, load, there⟩
  apply (rest value more after there).mono
  rintro _ last _ ⟨more', load', there'⟩
  rw [List.append_assoc, Nat.add_assoc] at there'
  exact ⟨more ++ more', load.append load', there'⟩

theorem Spends.silently {program : Rpi α} (uses : program.Uses Silent) (here : At trace fetched world) :
    (rules device .rt).Ensures program (fun _ => Spends 0 0 0 trace fetched) world :=
  (silent_ensures uses here).mono fun _ _ _ there => ⟨[], .nil, by rwa [List.append_nil]⟩

theorem readReg_ensures (address : BitVec 16) (len : Byte) (here : At trace fetched world) :
    (rules device .rt).Ensures (readReg address len) (fun _ after => ∃ transaction : Transaction,
      transaction.Reads address len.toNat ∧ At (trace ++ transaction.wire) fetched after) world := by
  simp only [readReg, bind_eq, indeterminate_bind, select_bind, spiWrite_bind, pure_eq]
  refine quiet_ensures rfl here fun (result : BitVec 32) after there => ?_
  refine header_ensures there fun answers after there => ?_
  apply Rules.Ensures.bind trivial
  have each : ∀ (index : Nat) (value : BitVec 32) (trace : List Wire) (world : BusWorld δ), At trace fetched world →
      (rules device .rt).Ensures (readByte index value) (fun _ after => ∃ pair : Byte × Byte,
        At (trace ++ [.exchange pair.1 pair.2]) fetched after) world :=
    fun index value trace world here => transfer_ensures here fun answer after there later moves _ =>
      ⟨(dummyByte, answer), there.stable moves⟩
  apply (bytes_ensures len.toNat 0 result each there).mono
  rintro value after _ ⟨payload, length, there⟩
  refine select_ensures there fun last there later moves _ => ?_
  refine ⟨⟨commSpiRead, address, answers, payload⟩, ⟨rfl, rfl, length⟩, ?_⟩
  simpa [Transaction.wire, Transaction.exchanges] using there.stable moves

theorem writeReg_ensures (address : BitVec 16) (data : BitVec 32) (here : At trace fetched world) :
    (rules device .rt).Ensures (writeReg address data) (fun _ after => ∃ transaction : Transaction,
      transaction.Writes address data ∧ At (trace ++ transaction.wire) fetched after) world := by
  simp only [writeReg, bind_eq, select_bind, spiWrite_bind]
  refine header_ensures here fun answers _ there => ?_
  refine transfer_ensures there fun byte0 _ there => ?_
  refine transfer_ensures there fun byte1 _ there => ?_
  refine transfer_ensures there fun byte2 _ there => ?_
  refine transfer_ensures there fun byte3 _ there => ?_
  refine select_ensures there fun last there later moves _ => ?_
  refine ⟨⟨commSpiWrite, address, answers,
    [(byte data 0, byte0), (byte data 1, byte1), (byte data 2, byte2), (byte data 3, byte3)]⟩, ⟨rfl, rfl, rfl⟩, ?_⟩
  simpa [Transaction.wire, Transaction.exchanges] using there.stable moves

/-- Reading or writing a register that is not polled. -/
theorem readReg_spends (address : BitVec 16) (len : Byte) (other : address ∉ statusRegisters)
    (here : At trace fetched world) : (rules device .rt).Ensures (readReg address len)
      (fun _ => Spends 1 (3 + len.toNat) 0 trace fetched) world := by
  apply (readReg_ensures address len here).mono
  rintro _ after _ ⟨transaction, ⟨_, same, length⟩, there⟩
  have load : Load 1 (3 + transaction.payload.length) transaction.wire :=
    .single fun _ => by rw [same]; exact other
  rw [length] at load
  exact ⟨transaction.wire, load, there⟩

theorem writeReg_spends (address : BitVec 16) (data : BitVec 32) (here : At trace fetched world) :
    (rules device .rt).Ensures (writeReg address data) (fun _ => Spends 1 7 0 trace fetched) world := by
  apply (writeReg_ensures address data here).mono
  rintro _ after _ ⟨transaction, ⟨command, _, sent⟩, there⟩
  have length := congrArg List.length sent
  rw [Transaction.sent, List.length_map] at length
  have load : Load 1 (3 + transaction.payload.length) transaction.wire := .single fun reads => by
    rw [command] at reads
    exact absurd reads (by decide)
  rw [length] at load
  exact ⟨transaction.wire, load, there⟩

/-- A wait is some polls, at least one. -/
theorem polls_ensures (register : BitVec 16) (again : BitVec 32 → Bool) (here : At trace fetched world) :
    (rules device .rt).Ensures (loop (readReg register 4) again) (fun _ after => ∃ polls : List Transaction,
      polls ≠ [] ∧ (∀ poll ∈ polls, poll.Reads register 4) ∧ At (trace ++ polls.flatMap wire) fetched after) world := by
  apply Rules.Ensures.loop (fun _ after => ∃ polls : List Transaction, (∀ poll ∈ polls, poll.Reads register 4) ∧
    At (trace ++ polls.flatMap wire) fetched after) trivial
  · exact ⟨[], nofun, by rwa [List.flatMap_nil, List.append_nil]⟩
  · rintro _ before _ ⟨polls, reads, there⟩
    apply (readReg_ensures register 4 there).mono
    rintro status after _ ⟨poll, read, there⟩
    have reads : ∀ other ∈ polls ++ [poll], other.Reads register 4 := by
      intro other member
      rcases List.mem_append.mp member with old | new
      · exact reads other old
      · rw [List.mem_singleton.mp new]
        exact read
    have there : At (trace ++ (polls ++ [poll]).flatMap wire) fetched after := by
      rwa [List.flatMap_append, List.flatMap_singleton, ← List.append_assoc]
    refine Rules.Exits.intro (fun _ => ⟨_, reads, there⟩) fun _ => ?_
    exact fun later moves _ => ⟨_, by simp, reads, there.stable moves⟩

/-- A command in a status register and the wait for its end. -/
theorem wait_spends (register : BitVec 16) (status : register ∈ statusRegisters) (data : BitVec 32)
    (again : BitVec 32 → Bool) (here : At trace fetched world) :
    (rules device .rt).Ensures ((writeReg register data).bind fun _ => loop (readReg register 4) again)
      (fun _ => Spends 2 14 0 trace fetched) world := by
  apply Rules.Ensures.bind trivial
  apply (writeReg_ensures register data here).mono
  rintro _ between _ ⟨command, writes, there⟩
  apply (polls_ensures register again there).mono
  rintro _ after _ ⟨polls, some_poll, reads, there⟩
  rw [List.append_assoc] at there
  exact ⟨_, .wait writes status reads some_poll, there⟩

theorem readRegWait_spends (address : BitVec 16) (here : At trace fetched world) :
    (rules device .rt).Ensures (readRegWait address 1) (fun _ => Spends 3 18 0 trace fetched) world := by
  simp only [readRegWait, bind_eq, indeterminate_bind]
  refine quiet_ensures rfl here fun command after there => ?_
  rw [← bind_assoc]
  exact Spends.bind (wait_spends ecatCsrCmd (by decide) _ csrBusy there) fun _ _ _ there =>
    readReg_spends ecatCsrData 1 (by decide) there

end Registers

section Cycles

theorem increment_silent : (increment .atomiccounter).Uses Silent := ⟨rfl, fun _ => ⟨rfl, fun _ => trivial⟩⟩

theorem writeWord_silent {word : Nat} {value : BitVec 64} (first : word ≠ 3) :
    Silent (.store (.bufferOutEthToSlaveBuffer word) value) := by
  simp only [Silent, publishes]
  split
  next same =>
    cases same
    exact absurd rfl first
  next => rfl

/-- Publishing the last word of an image ends a fetch. -/
theorem publishLast_ensures (here : At trace fetched world) : (rules device .rt).Ensures (publishWord 3 ())
    (fun _ => At trace (fetched + 1)) world := by
  refine quiet_ensures rfl here fun (value : BitVec 64) after there => ?_
  refine request_ensures there fun _ after there later moves _ => ?_
  have published : publishes (.store (.bufferOutEthToSlaveBuffer 3) value) = true := rfl
  have there : At trace (fetched + 1) after := by simpa [wired, published] using there
  exact there.stable moves

theorem publish_ensures (here : At trace fetched world) : (rules device .rt).Ensures (forUp publishWord 4 0 ())
    (fun _ => At trace (fetched + 1)) world := by
  have words : ∀ {next : Unit → Rpi Unit} {post : Unit → BusWorld δ → Prop} {world : BusWorld δ} (word : Nat),
      word ≠ 3 → At trace fetched world →
        (∀ after, At trace fetched after → (rules device .rt).Ensures (next ()) post after) →
          (rules device .rt).Ensures ((publishWord word ()).bind next) post world := by
    intro next post world word other here later
    apply Rules.Ensures.bind trivial
    have silent : (publishWord word ()).Uses Silent := ⟨rfl, fun _ => ⟨writeWord_silent other, fun _ => trivial⟩⟩
    exact (silent_ensures silent here).mono fun _ after _ there => later after there
  refine words 0 (by decide) here fun _ there => words 1 (by decide) there fun _ there =>
    words 2 (by decide) there fun _ there => ?_
  exact Rules.Ensures.bind trivial ((publishLast_ensures there).mono fun _ _ _ there _ moves _ => there.stable moves)

/-- A transaction of 32 bytes at an address that is not polled. -/
theorem burst_load {command : Byte} {address : BitVec 16} {answers : Byte × Byte × Byte} {payload : List (Byte × Byte)}
    (other : address ∉ statusRegisters) (length : payload.length = 32) :
    Load 1 35 (Transaction.wire ⟨command, address, answers, payload⟩) := by
  have load := Load.single (fun _ => other : (⟨command, address, answers, payload⟩ : Transaction).command =
    commSpiRead → (⟨command, address, answers, payload⟩ : Transaction).address ∉ statusRegisters)
  rwa [length] at load

theorem spiReadProcRamFifo_spends (here : At trace fetched world) :
    (rules device .rt).Ensures spiReadProcRamFifo (fun _ => Spends 4 56 1 trace fetched) world := by
  have each : ∀ (index : Nat) (value : Unit) (trace : List Wire) (world : BusWorld δ), At trace fetched world →
      (rules device .rt).Ensures (receiveByte index value) (fun _ after => ∃ pair : Byte × Byte,
        At (trace ++ [.exchange pair.1 pair.2]) fetched after) world := by
    refine fun index value trace world here => transfer_ensures here fun answer after there => ?_
    have stores : (store (.bufferOutByte index) answer).Uses Silent := ⟨rfl, fun _ => trivial⟩
    exact (silent_ensures stores there).mono fun _ _ _ there => ⟨(dummyByte, answer), there⟩
  have burst : ∀ {trace : List Wire} {world : BusWorld δ}, At trace fetched world → (rules device .rt).Ensures
      (.request (.select .low) fun _ => .request (.transfer commSpiRead) fun _ => .request (.transfer 0x00) fun _ =>
        .request (.transfer 0x00) fun _ => (forUp receiveByte 32 0 ()).bind fun _ => (forUp publishWord 4 0 ()).bind
          fun _ => .request (.select .high) fun _ => increment .atomiccounter)
      (fun _ => Spends 1 35 1 trace fetched) world := by
    intro trace world here
    refine header_ensures here fun answers after there => ?_
    apply Rules.Ensures.bind trivial
    apply (bytes_ensures 32 0 () each there).mono
    rintro _ between _ ⟨payload, length, there⟩
    apply Rules.Ensures.bind trivial
    apply (publish_ensures there).mono
    intro _ between _ there
    refine select_ensures there fun between there => ?_
    apply (silent_ensures increment_silent there).mono
    intro _ last _ there
    refine ⟨Transaction.wire ⟨commSpiRead, 0, answers, payload⟩, burst_load (by decide) length, ?_⟩
    simpa [Transaction.wire, Transaction.exchanges, part] using there
  simp only [spiReadProcRamFifo, bind_eq, select_bind, spiWrite_bind]
  have whole : (rules device .rt).Ensures _ _ _ := Spends.bind (Spends.silently increment_silent here)
    fun _ _ _ there => Spends.bind (writeReg_spends ecatPramRdAddrLen 0x00201000 there) fun _ _ _ there =>
      Spends.bind (wait_spends ecatPramRdCmd (by decide) 0x80000000 readNotReady there) fun _ _ _ there => burst there
  simpa only [bind_assoc] using whole

theorem spiWriteProcRamFifo_spends (here : At trace fetched world) :
    (rules device .rt).Ensures spiWriteProcRamFifo (fun _ => Spends 4 56 0 trace fetched) world := by
  have each : ∀ (index : Nat) (value : Unit) (trace : List Wire) (world : BusWorld δ), At trace fetched world →
      (rules device .rt).Ensures (sendByte index value) (fun _ after => ∃ pair : Byte × Byte,
        At (trace ++ [.exchange pair.1 pair.2]) fetched after) world := by
    refine fun index value trace world here => quiet_ensures rfl here fun (data : Byte) after there => ?_
    exact transfer_ensures there fun answer after there later moves _ => ⟨(data, answer), there.stable moves⟩
  have takes : ∀ index : BitVec 32, (forUp (takeWord index) 4 0 ()).Uses Silent :=
    fun index => Uses.forUp 4 0 () fun _ _ => ⟨rfl, fun _ => ⟨rfl, fun _ => trivial⟩⟩
  have burst : ∀ {trace : List Wire} {world : BusWorld δ}, At trace fetched world → (rules device .rt).Ensures
      (.request (.select .low) fun _ => .request (.transfer commSpiWrite) fun _ => .request (.transfer 0x00) fun _ =>
        .request (.transfer 0x20) fun _ => (forUp sendByte 31 0 ()).bind fun _ => (sendByte 31 ()).bind fun _ =>
          select .high) (fun _ => Spends 1 35 0 trace fetched) world := by
    intro trace world here
    refine header_ensures here fun answers after there => ?_
    apply Rules.Ensures.bind trivial
    apply (bytes_ensures 31 0 () each there).mono
    rintro _ between _ ⟨payload, length, there⟩
    apply Rules.Ensures.bind trivial
    apply (each 31 () _ _ there).mono
    rintro _ between _ ⟨pair, there⟩
    refine select_ensures there fun last there later moves _ => ?_
    refine ⟨Transaction.wire ⟨commSpiWrite, 0x0020, answers, payload ++ [pair]⟩,
      burst_load (by decide) (by simp [length]), ?_⟩
    simpa [Transaction.wire, Transaction.exchanges, part] using there.stable moves
  simp only [spiWriteProcRamFifo, bind_eq, load_bind, select_bind, spiWrite_bind]
  refine quiet_ensures rfl here fun (index : BitVec 32) after there => ?_
  have whole : (rules device .rt).Ensures _ _ _ := Spends.bind (Spends.silently (takes index) there)
    fun _ _ _ there => Spends.bind (writeReg_spends ecatPramWrAddrLen 0x00201200 there) fun _ _ _ there =>
      Spends.bind (wait_spends ecatPramWrCmd (by decide) 0x80000000 writeNotReady there) fun _ _ _ there => burst there
  simpa only [bind_assoc] using whole

/-- A cycle fetches an image or clears it. -/
theorem cycle_spends (here : At trace fetched world) : (rules device .rt).Ensures PriorMemory.cycle
    (fun _ after => ∃ images ≤ 1, Spends (10 + 4 * images) (92 + 56 * images) images trace fetched after) world := by
  have clears : (forUp clearWord 4 0 ()).Uses Silent := Uses.forUp 4 0 () fun _ _ => ⟨rfl, fun _ => trivial⟩
  have sends : ∀ (status : Byte) {trace : List Wire} {fetched : Nat} {world : BusWorld δ}, At trace fetched world →
      (rules device .rt).Ensures (spiWriteProcRamFifo.bind fun _ => .pure status)
        (fun _ => Spends 4 56 0 trace fetched) world := by
    intro status trace fetched world here
    apply Rules.Ensures.bind trivial
    apply (spiWriteProcRamFifo_spends here).mono
    rintro _ after _ ⟨more, load, there⟩ later moves _
    exact ⟨more, load, there.stable moves⟩
  have either : ∀ (clearing : Bool) (status : Byte) {trace : List Wire} {world : BusWorld δ}, At trace fetched world →
      (rules device .rt).Ensures (if clearing = true then (forUp clearWord 4 0 ()).bind fun _ =>
        spiWriteProcRamFifo.bind fun _ => .pure status else spiReadProcRamFifo.bind fun _ =>
          spiWriteProcRamFifo.bind fun _ => .pure status) (fun _ after => ∃ images ≤ 1,
            Spends (4 + 4 * images) (56 + 56 * images) images trace fetched after) world := by
    intro clearing status trace world here
    cases clearing with
    | true =>
      exact (Spends.bind (Spends.silently clears here) fun _ _ _ there => sends status there).mono
        fun _ _ _ spends => ⟨0, Nat.zero_le 1, spends⟩
    | false =>
      exact (Spends.bind (spiReadProcRamFifo_spends here) fun _ _ _ there => sends status there).mono
        fun _ _ _ spends => ⟨1, Nat.le_refl 1, spends⟩
  have whole : (rules device .rt).Ensures mainTask (fun _ after => ∃ images ≤ 1,
      Spends (10 + 4 * images) (92 + 56 * images) images trace fetched after) world := by
    simp only [mainTask, bind_eq]
    apply Rules.Ensures.bind trivial
    apply (readRegWait_spends wdogStatus here).mono
    rintro _ between _ ⟨first, load, there⟩
    apply Rules.Ensures.bind trivial
    apply (readRegWait_spends alStatusReg0 there).mono
    rintro _ between _ ⟨second, load', there⟩
    apply (either _ _ there).mono
    rintro _ last _ ⟨images, few, more, load'', there⟩
    have whole := (load.append load').append load''
    rw [show 3 + 3 + (4 + 4 * images) = 10 + 4 * images by omega,
      show 18 + 18 + (56 + 56 * images) = 92 + 56 * images by omega, List.append_assoc] at whole
    rw [List.append_assoc, List.append_assoc] at there
    exact ⟨images, few, _, whole, there⟩
  apply Rules.Ensures.bind trivial
  apply whole.mono
  rintro _ after _ ⟨images, few, more, load, there⟩ later moves _
  exact ⟨images, few, more, load, there.stable moves⟩

/-- What a number of cycles appends, of which some fetch an image. -/
def Fetching (cycles : Nat) (trace : List Wire) (fetched : Nat) (world : BusWorld δ) : Prop :=
  ∃ images ≤ cycles, Spends (10 * cycles + 4 * images) (92 * cycles + 56 * images) images trace fetched world

theorem cycles_spend (cycles : Nat) (here : At trace fetched world) : (rules device .rt).Ensures
    (times PriorMemory.cycle cycles) (fun _ => Fetching cycles trace fetched) world := by
  induction cycles generalizing trace fetched world with
  | zero =>
    intro later moves _
    exact ⟨0, Nat.le_refl 0, [], .nil, by rw [List.append_nil]; exact here.stable moves⟩
  | succ cycles ih =>
    apply Rules.Ensures.bind trivial
    apply (cycle_spends here).mono
    rintro _ between _ ⟨images, few, more, load, there⟩
    apply (ih there).mono
    rintro _ after _ ⟨images', few', more', load', there⟩
    have whole := load.append load'
    rw [show 10 + 4 * images + (10 * cycles + 4 * images') = 10 * (cycles + 1) + 4 * (images + images') by omega,
      show 92 + 56 * images + (92 * cycles + 56 * images') = 92 * (cycles + 1) + 56 * (images + images') by omega]
      at whole
    rw [List.append_assoc, Nat.add_assoc] at there
    exact ⟨images + images', by omega, _, whole, there⟩

theorem sendOutput_silent (frame : ProcBuffer) : (sendOutput frame).Uses Silent := by
  have words : (forUp (queueWord frame) 4 0 ()).Uses Silent :=
    Uses.forUp 4 0 () fun _ _ => ⟨rfl, fun _ => ⟨rfl, fun _ => trivial⟩⟩
  have last : ∀ index : BitVec 32, (if qinSize ≤ index.toNat then store .curqidx 0 else .pure () : Rpi Unit).Uses
      Silent := by
    intro index
    split
    · exact ⟨rfl, fun _ => trivial⟩
    · trivial
  exact words.bind fun _ => ⟨rfl, fun _ => ⟨rfl, fun _ => ⟨rfl, fun _ => ⟨rfl, fun _ => ⟨rfl, last⟩⟩⟩⟩⟩

theorem performAll_silent (calls : List AppCall) : (PriorMemory.performAll calls).Uses Silent := by
  have copy : (forUp copyWord 4 0 0).Uses Silent := Uses.forUp 4 0 0 fun _ _ => ⟨rfl, fun _ => trivial⟩
  have round : attempt.Uses Silent := ⟨rfl, fun _ => copy.bind fun _ => ⟨rfl, fun _ => trivial⟩⟩
  have receive : AppCall.receive.perform.Uses Silent := ⟨fun _ => round, fun _ => trivial⟩
  induction calls with
  | nil => trivial
  | cons call calls ih =>
    cases call with
    | send frame => exact (sendOutput_silent frame).bind fun _ => ih
    | receive => exact receive.bind fun _ => ih

theorem performAll_ensures (calls : List AppCall) : (rules device .app).Ensures (PriorMemory.performAll calls)
    (fun _ _ => True) world := by
  refine Rules.Ensures.of_uses (fun _ _ _ => trivial) ?_ (performAll_silent calls) trivial
  intro op before reply after silent _ _ acts
  refine ⟨trivial, fun other different => ?_, trivial⟩
  cases other with
  | app => exact absurd rfl different
  | rt => exact silent.at ⟨rfl, rfl⟩ acts

/-- What each thread has done at its return. -/
def Done (cycles : Nat) : (thread : Thread) → PriorMemory.Result thread → BusWorld δ → Prop
  | .app => fun _ _ => True
  | .rt => fun _ => Fetching cycles [] 0

theorem starts (device : Device δ) (memory : RpiBase) (state : δ) (stack : Nat → BitVec 32) (calls : List AppCall)
    (cycles : Nat) : (protocol δ).Holds (handle device.recorded) (Done cycles)
      (PriorMemory.pool memory state stack calls cycles) := by
  refine ⟨trivial, fun thread => ?_⟩
  cases thread with
  | app => exact performAll_ensures calls
  | rt => exact cycles_spend cycles ⟨rfl, rfl⟩

end Cycles

/-- However the threads are scheduled and whatever the device answers, the bytes and
windows of the cycles are those of their fetches and repeated polls. -/
theorem load_accounted (device : Device δ) (memory : RpiBase) (state : δ) (stack : Nat → BitVec 32)
    (calls : List AppCall) (cycles : Nat) (schedule : List (Thread × Unit))
    (reached : Pool Thread RpiOp RpiOp.Reply (Machine (Recorded δ)) PriorMemory.Result)
    (ran : (PriorMemory.pool memory state stack calls cycles).run (handle device.recorded) schedule = some reached)
    (ended : (reached.threads .rt).returned = some ()) :
    Accounted cycles (fetches reached.world.log) reached.world.state.device.trace := by
  have holds := Protocol.run_holds (starts device memory state stack calls cycles) ran
  have done : Fetching cycles [] 0 reached.world := holds.returned (returned_iff.mp ended)
  obtain ⟨images, few, more, ⟨_, _, _, opened, exchanged⟩, trace, fetched⟩ := done
  rw [Nat.zero_add] at fetched
  rw [trace, fetched, List.nil_append]
  exact ⟨exchanged, opened, few⟩

/-- A chip in operation, busy at the first two polls of an indirect access. -/
def busy : Lan9252 := ⟨.released, { Lan9252.Chip.prompt Snapshots.operating with
  schedule := ⟨fun _ => 2, fun _ => .immediate 0x0801 rfl, fun _ => .immediate 0x0801 rfl⟩ }⟩

/-- A frame is being queued when the cycle runs. -/
def turns : List (Thread × Unit) := List.replicate 6 (.app, ()) ++ List.replicate 309 (.rt, ())

theorem load_accounted_fetching : ∃ reached,
    (PriorMemory.pool {} busy (fun _ => 0) [.send Snapshots.counted] 1).run (handle lan9252.recorded) turns =
      some reached ∧
    fetches reached.world.log = 1 ∧ repeats reached.world.state.device.trace = 4 ∧
      Accounted 1 (fetches reached.world.log) reached.world.state.device.trace := by
  have ends : ((PriorMemory.pool {} busy (fun _ => 0) [.send Snapshots.counted] 1).run (handle lan9252.recorded)
      turns).map (fun reached => ((reached.threads .rt).returned, fetches reached.world.log,
        repeats reached.world.state.device.trace)) = some (some (), 1, 4) := by
    decide +kernel
  obtain ⟨reached, ran, seen⟩ := Option.map_eq_some_iff.mp ends
  simp only [Prod.mk.injEq] at seen
  obtain ⟨ended, once, repeated⟩ := seen
  exact ⟨reached, ran, once, repeated, load_accounted lan9252 {} busy _ _ 1 turns reached ran ended⟩

end EthercatSlave.Proofs.BusLoad
