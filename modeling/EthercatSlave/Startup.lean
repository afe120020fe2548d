import EthercatSlave.SpiBus

/-! Starting the shield up: what the chip must have shown before its interrupt is
enabled, and what calls of `init` may leave behind. Everything is read off the
pins, so a recorded trace is first taken apart into its transactions. -/

namespace EthercatSlave
open Program Rpi Shield

variable {δ : Type}

/-- The complete transactions of a trace, and what the open one exchanged so far. -/
structure Decoded where
  done : List Transaction := []
  part : List (Byte × Byte) := []

def Decoded.note (decoded : Decoded) : Wire → Decoded
  | .select .low => { decoded with part := [] }
  | .exchange sent received => { decoded with part := decoded.part ++ [(sent, received)] }
  | .select .high =>
    match decoded.part with
    | (command, first) :: (high, second) :: (low, third) :: payload =>
      ⟨decoded.done ++ [⟨command, high ++ low, (first, second, third), payload⟩], []⟩
    | _ => { decoded with part := [] }

def completed (trace : List Wire) : List Transaction := (trace.foldl Decoded.note {}).done

namespace Device

/-- The device's answers to these bytes. -/
def exchange (device : Device δ) : List Byte → δ → List Byte × δ
  | [], state => ([], state)
  | data :: rest, state =>
    let (answer, following) := device.transfer data state
    let (answers, final) := device.exchange rest following
    (answer :: answers, final)

/-- One select window. -/
def window (device : Device δ) (data : List Byte) (state : δ) : List Byte × δ :=
  let (answers, following) := device.exchange data (device.select .low state)
  (answers, device.select .high following)

/-- What a four-byte read of a register delivers. -/
def register (device : Device δ) (address : BitVec 16) (state : δ) : BitVec 32 × δ :=
  let (answers, following) :=
    device.window (commSpiRead :: byte address 1 :: byte address 0 :: List.replicate 4 dummyByte) state
  (setParts 0 0 (answers.drop 3), following)

def afterWrite (device : Device δ) (address : BitVec 16) (data : BitVec 32) (state : δ) : δ :=
  (device.window
    [commSpiWrite, byte address 1, byte address 0, byte data 0, byte data 1, byte data 2, byte data 3] state).2

/-- Whether the first look at HW_CFG and BYTE_TEST calls for a reset. -/
def unready (device : Device δ) (state : δ) : Bool × δ :=
  let (config, following) := device.register hwCfg state
  if config &&& ready = 0 then (true, following)
  else
    let (test, final) := device.register byteTest following
    (test != testPattern, final)

/-- BYTE_TEST after two resets. -/
def retest (device : Device δ) (state : δ) : BitVec 32 :=
  (device.register byteTest
    (device.afterWrite resetCtl digitalRst (device.afterWrite resetCtl digitalRst state))).1

/-- The device calls for a reset and passes the byte test after it. -/
def Retested (device : Device δ) (state : δ) : Prop :=
  (device.unready state).1 = true ∧ device.retest (device.unready state).2 = testPattern

/-- The device needs no reset, or passes the byte test after it. -/
def Passes (device : Device δ) (state : δ) : Prop :=
  (device.unready state).1 = true → device.retest (device.unready state).2 = testPattern

end Device

/-- The SPI library comes up. -/
def Outcome.Powered (outcome : Outcome) : Prop := outcome.bcm2835Init ≠ 0 ∧ outcome.bcm2835SpiBegin ≠ 0

namespace Transaction

instance (address : BitVec 16) (count : Nat) (transaction : Transaction) :
    Decidable (transaction.Reads address count) :=
  inferInstanceAs (Decidable (_ ∧ _ ∧ _))

/-- The word a register write carries. -/
def written (transaction : Transaction) : BitVec 32 := setParts 0 0 transaction.sent

def resets (transaction : Transaction) : Bool :=
  transaction.command == commSpiWrite && transaction.address == resetCtl

/-- What a register showed when it was last read, if that was after the last reset. -/
def latest (address : BitVec 16) (made : List Transaction) : Option (BitVec 32) :=
  ((made.reverse.takeWhile fun transaction => !transaction.resets).find? fun transaction =>
    decide (transaction.Reads address 4)).map value

/-- READY and the test pattern were what HW_CFG and BYTE_TEST showed last, with no reset since. -/
def Shown (made : List Transaction) : Prop :=
  (∃ config, latest hwCfg made = some config ∧ config &&& ready ≠ 0) ∧ latest byteTest made = some testPattern

/-- The interrupt of the chip is touched. -/
def Enables (transaction : Transaction) : Prop :=
  transaction.command = commSpiWrite ∧ transaction.address = intEn

end Transaction

/-- `init` enables the interrupt of a chip that has shown itself ready, and refuses any other chip. -/
structure Gate (device : Device δ) (board : Board δ) (outcome : Outcome) : Prop where
  opened : ∀ after, Eval (Board.perform device.recorded outcome) Shield.init (observe board) 0 after →
    ∀ earlier enable later, completed after.machine.device.trace = earlier ++ enable :: later →
      enable.Enables → Transaction.Shown earlier
  refused : (∀ steps final, (session [.init] board).run (Board.perform device.recorded)
      (List.replicate steps ((), outcome)) = some final →
        ¬ Transaction.Shown (completed final.world.state.machine.device.trace)) →
    ∃ err after, Eval (Board.perform device.recorded outcome) Shield.init (observe board) err after ∧ err ≠ 0 ∧
      ∀ transaction ∈ completed after.machine.device.trace, ¬ transaction.Enables

/-- The registers of the chip that let its interrupt through. -/
structure InterruptEnables where
  alEventMask : BitVec 32 := 0
  irqCfg : BitVec 32 := 0
  intEn : BitVec 32 := 0
  deriving DecidableEq

/-- What a call of `init` that gets to `do_initirq` sets them to. -/
def InterruptEnables.set : InterruptEnables := ⟨0x00000100, 0x00000111, 0x00000001⟩

/-- They and the data register of the indirect access, through which one of them is written. -/
structure Registers where
  csrData : BitVec 32 := 0
  enables : InterruptEnables

/-- The core memory is written four bytes at a time. A reset clears everything. -/
def Registers.note (registers : Registers) (transaction : Transaction) : Registers :=
  if transaction.command ≠ commSpiWrite then registers
  else if transaction.address = resetCtl then { enables := {} }
  else if transaction.address = ecatCsrData then { registers with csrData := transaction.written }
  else if transaction.address = ecatCsrCmd then
    if transaction.written = csrCommand 0 alEventMaskReg0 4 escWrite then
      { registers with enables := { registers.enables with alEventMask := registers.csrData } }
    else registers
  else if transaction.address = irqCfg then
    { registers with enables := { registers.enables with irqCfg := transaction.written } }
  else if transaction.address = intEn then
    { registers with enables := { registers.enables with intEn := transaction.written } }
  else registers

/-- Their values after these transactions. -/
def enables (initial : InterruptEnables) (made : List Transaction) : InterruptEnables :=
  (made.foldl Registers.note { enables := initial }).enables

/-- One call of `init`. -/
structure Attempt (δ : Type) where
  outcome : Outcome
  before : Board (Recorded δ)
  err : Int
  after : Board (Recorded δ)

/-- Calls of `init` one after the other, however each of them turns out. -/
inductive Attempts (device : Device δ) (start : Board (Recorded δ)) :
    List (Attempt δ) → Board (Recorded δ) → Prop where
  | start : Attempts device start [] start
  | init {attempts : List (Attempt δ)} {outcome : Outcome} {before after : Board (Recorded δ)} {err : Int} :
      Attempts device start attempts before →
      Eval (Board.perform device.recorded outcome) Shield.init before err after →
      Attempts device start (attempts ++ [⟨outcome, before, err, after⟩]) after

namespace Board

/-- The handles a board with this `m_devhndl` should hold. -/
def owned (devhndl : Int) : List Int := if devhndl = -1 then [] else [devhndl]

def transactions (board : Board (Recorded δ)) : List Transaction := completed board.machine.device.trace

end Board

namespace Attempt

/-- The call leaves no stray handle, and when it fails neither a handle nor the
interrupt, unless a reset of its own cleared the latter. -/
structure AllOrNothing (initial : InterruptEnables) (attempt : Attempt δ) : Prop where
  handles : attempt.after.handles = Board.owned attempt.after.devhndl
  refused : attempt.err ≠ 0 → attempt.after.devhndl = attempt.before.devhndl ∧
    (enables initial attempt.after.transactions = enables initial attempt.before.transactions ∨
      enables initial attempt.after.transactions = {} ∧
        ∃ made, attempt.after.transactions = attempt.before.transactions ++ made ∧
          ∃ reset ∈ made, reset.resets = true)

/-- A call that gets to `do_initirq` finds no handle, and either opens one or
finds the interrupt already enabled. -/
def Clean (device : Device δ) (initial : InterruptEnables) (attempt : Attempt δ) : Prop :=
  attempt.outcome.Powered → device.Passes attempt.before.machine.device.device →
    attempt.before.devhndl = -1 ∧
      (attempt.outcome.opened ≠ none ∨ enables initial attempt.before.transactions = .set)

end Attempt

/-- Every call was all-or-nothing, and the destructor closes what is left. -/
structure Tidy (device : Device δ) (initial : InterruptEnables) (attempts : List (Attempt δ))
    (last : Board (Recorded δ)) : Prop where
  attempts : ∀ attempt ∈ attempts, attempt.AllOrNothing initial
  destroyed : ∀ outcome, ∃ final,
    Eval (Board.perform device.recorded outcome) Shield.destroy last () final ∧ final.handles = []

end EthercatSlave
