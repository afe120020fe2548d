import EthercatSlave.Interleaving
import EthercatSlave.Lan9252
import EthercatSlave.Shield

/-! The traffic on the SPI bus: what an observer of the pins records, and the
transactions it must consist of. -/

namespace EthercatSlave

inductive Wire where
  | select (level : Level)
  | exchange (sent received : Byte)
  deriving DecidableEq

/-- A device and what was seen on its pins so far. -/
structure Recorded (δ : Type) where
  device : δ
  trace : List Wire := []

def Device.recorded (device : Device δ) : Device (Recorded δ) where
  select level state := ⟨device.select level state.device, state.trace ++ [.select level]⟩
  transfer data state :=
    let (answer, following) := device.transfer data state.device
    (answer, ⟨following, state.trace ++ [.exchange data answer]⟩)

/-- One select window. What the device answers to the command and the address is
not used; `payload` holds the bytes sent and those received. -/
structure Transaction where
  command : Byte
  address : BitVec 16
  answers : Byte × Byte × Byte := (0, 0, 0)
  payload : List (Byte × Byte)
  deriving DecidableEq

namespace Transaction

def exchanges (transaction : Transaction) : List (Byte × Byte) :=
  (transaction.command, transaction.answers.1) :: (byte transaction.address 1, transaction.answers.2.1) ::
    (byte transaction.address 0, transaction.answers.2.2) :: transaction.payload

def wire (transaction : Transaction) : List Wire :=
  .select .low :: (transaction.exchanges.map fun (sent, received) => .exchange sent received) ++ [.select .high]

def sent (transaction : Transaction) : List Byte := transaction.payload.map Prod.fst
def received (transaction : Transaction) : List Byte := transaction.payload.map Prod.snd

def Writes (address : BitVec 16) (data : BitVec 32) (transaction : Transaction) : Prop :=
  transaction.command = Rpi.commSpiWrite ∧ transaction.address = address ∧
    transaction.sent = [byte data 0, byte data 1, byte data 2, byte data 3]

def Reads (address : BitVec 16) (count : Nat) (transaction : Transaction) : Prop :=
  transaction.command = Rpi.commSpiRead ∧ transaction.address = address ∧ transaction.payload.length = count

/-- The register a four-byte read delivers. -/
def value (transaction : Transaction) : BitVec 32 := setParts 0 0 transaction.received

/-- A process-data transfer moves 32 bytes. -/
def Burst (transaction : Transaction) : Prop := transaction.payload.length = 32

instance (transaction : Transaction) : Decidable transaction.Burst := inferInstanceAs (Decidable (_ = _))

/-- The FIFO command in `register` was started, no burst was made since, and a
poll of the register since then found it ready. -/
def Armed (register : BitVec 16) (ready : BitVec 32 → Bool) (earlier : List Transaction) : Prop :=
  ∃ before start since, earlier = before ++ start :: since ∧ start.Writes register 0x80000000 ∧
    (∀ other ∈ since, ¬ other.Writes register 0x80000000 ∧ ¬ other.Burst) ∧
    ∃ poll ∈ since, poll.Reads register 4 ∧ ready poll.value = true

/-- What a transaction after `earlier` must look like. -/
structure Sound (earlier : List Transaction) (transaction : Transaction) : Prop where
  command : transaction.command = Rpi.commSpiRead ∨ transaction.command = Rpi.commSpiWrite
  length : transaction.payload.length = 1 ∨ transaction.payload.length = 4 ∨ transaction.payload.length = 32
  burst : transaction.Burst →
    (transaction.command = Rpi.commSpiRead ∧ transaction.address = 0x0000 ∧
      Armed Rpi.ecatPramRdCmd Lan9252.readReady earlier) ∨
    (transaction.command = Rpi.commSpiWrite ∧ transaction.address = 0x0020 ∧
      Armed Rpi.ecatPramWrCmd Lan9252.writeReady earlier)

def Legal (transactions : List Transaction) : Prop :=
  ∀ earlier transaction later, transactions = earlier ++ transaction :: later → Sound earlier transaction

end Transaction

namespace Shield

/-- The board with its pins observed from now on. -/
def observe (board : Board δ) : Board (Recorded δ) :=
  ⟨⟨board.machine.object, ⟨board.machine.device, []⟩, board.machine.stack⟩, board.devhndl, board.handles⟩

/-- These calls, one after the other, on a bus whose chip select is high. -/
def session (calls : List Call) (board : Board δ) :
    Pool Unit ShieldOp ShieldOp.Reply (Board (Recorded δ)) fun _ => List Int where
  threads _ := performAll calls
  world := { state := observe board }

end Shield

/-- The trace is the beginning of a sequence of complete transactions. -/
def WellFormed (trace : List Wire) : Prop :=
  ∃ transactions, Transaction.Legal transactions ∧ trace <+: transactions.flatMap Transaction.wire

end EthercatSlave
