import GrinWallet.Lib.Effect
import GrinWallet.Lib.OrderedTable
import Mathlib.Algebra.Group.Nat.Defs
import Mathlib.Data.List.Lex

/-! # Wallet data

The records of the wallet database and the arguments of its API, with the fields
the modelled functions read or write. Machine words are naturals; the places
where a `u32` or `u64` can wrap say so with `u32` and `u64`. `E` is the type of
Pedersen commitments and public keys, `F` the type of scalars.
-/

namespace GrinWallet

/-- Truncation to a `u32`. -/
def u32 (n : Nat) : Nat := n % 2 ^ 32

/-- Truncation to a `u64`. -/
def u64 (n : Nat) : Nat := n % 2 ^ 64

/-- Wrapping subtraction of `u64` values. -/
def wrappingSub (a b : Nat) : Nat := u64 (a + 2 ^ 64 - b)

theorem u64_of_lt {n : Nat} (h : n < 2 ^ 64) : u64 n = n := Nat.mod_eq_of_lt h

theorem u32_of_lt {n : Nat} (h : n < 2 ^ 32) : u32 n = n := Nat.mod_eq_of_lt h

theorem u64_lt (n : Nat) : u64 n < 2 ^ 64 := Nat.mod_lt _ (by decide)

theorem wrappingSub_of_le {a b : Nat} (ha : a < 2 ^ 64) (h : b ≤ a) : wrappingSub a b = a - b := by
  have he : a + 2 ^ 64 - b = (a - b) + 2 ^ 64 := by omega
  rw [wrappingSub, u64, he, Nat.add_mod_right, Nat.mod_eq_of_lt (by omega)]

abbrev Uuid := Nat

abbrev Label := List Char

/-- The 32 bytes of a secret key or nonce. -/
abbrev SecretKey := BitVec 256

abbrev DalekPublicKey := Nat

abbrev DalekSignature := Nat

abbrev RangeProof := Nat

/-- A database key: the bytes of an identifier, child numbers read as one digit
each, with a numeric suffix where the table has one. -/
abbrev DbKey := List Nat

/-! ## Key identifiers -/

/-- A BIP32 path: its depth and four child numbers. -/
structure Identifier where
  depth : Nat
  path : List Nat
  path_length : path.length = 4
deriving DecidableEq

namespace Identifier

/-- `ExtKeychain::derive_key_id`. -/
def deriveKeyId (depth d1 d2 d3 d4 : Nat) : Identifier := ⟨depth, [d1, d2, d3, d4], rfl⟩

def toBytes (id : Identifier) : DbKey := id.depth :: id.path

/-- Write one child number of the path. -/
def setChild (id : Identifier) (i child : Nat) : Identifier :=
  ⟨id.depth, id.path.set i child, by rw [List.length_set, id.path_length]⟩

def childAt (id : Identifier) (i : Nat) : Nat := id.path.getD i 0

/-- The path one level down. -/
def child (id : Identifier) (n : Nat) : Identifier :=
  { id.setChild id.depth n with depth := id.depth + 1 }

/-- The path one level up, its last child number cleared. -/
def parentPath (id : Identifier) : Identifier :=
  match id.depth with
  | 0 => id
  | d + 1 => { id.setChild d 0 with depth := d }

/-- The last child number, 0 at the root. -/
def lastPathIndex (id : Identifier) : Nat :=
  match id.depth with
  | 0 => 0
  | d + 1 => id.childAt d

theorem toBytes_length (id : Identifier) : id.toBytes.length = 5 := by
  rw [toBytes, List.length_cons, id.path_length]

theorem toBytes_injective : Function.Injective toBytes := by
  rintro ⟨d, p, hp⟩ ⟨d', p', hp'⟩ h
  simp only [toBytes, List.cons.injEq] at h
  obtain ⟨rfl, rfl⟩ := h
  rfl

theorem toBytes_append_inj {a b : Identifier} {s t : DbKey}
    (h : a.toBytes ++ s = b.toBytes ++ t) : a = b ∧ s = t := by
  have hl : a.toBytes.length = b.toBytes.length := by rw [toBytes_length, toBytes_length]
  obtain ⟨hb, hs⟩ := List.append_inj h hl
  exact ⟨toBytes_injective hb, hs⟩

end Identifier

/-! ## Output records -/

inductive OutputStatus
  | Unconfirmed | Unspent | Locked | Spent | Reverted
deriving DecidableEq

/-- An output tracked by the wallet. -/
structure OutputData (E : Type) where
  rootKeyId : Identifier
  keyId : Identifier
  nChild : Nat
  commit : Option E
  mmrIndex : Option Nat
  value : Nat
  status : OutputStatus
  height : Nat
  lockHeight : Nat
  isCoinbase : Bool
  txLogEntry : Option Nat
deriving DecidableEq

/-- The key an output is stored under: its identifier, and its PMMR index when it has one. -/
def outputKey (id : Identifier) (mmrIndex : Option Nat) : DbKey := id.toBytes ++ mmrIndex.toList

theorem outputKey_inj {a b : Identifier} {i j : Option Nat} :
    outputKey a i = outputKey b j ↔ a = b ∧ i = j := by
  constructor
  · intro h
    obtain ⟨hab, hij⟩ := Identifier.toBytes_append_inj h
    refine ⟨hab, ?_⟩
    cases i <;> cases j <;> simp_all
  · rintro ⟨rfl, rfl⟩
    rfl

namespace OutputData

variable {E : Type}

def key (o : OutputData E) : DbKey := outputKey o.keyId o.mmrIndex

def lock (o : OutputData E) : OutputData E := { o with status := .Locked }

/-- Confirmations at a height; an output above it, or unconfirmed, has none. -/
def numConfirmations (o : OutputData E) (currentHeight : Nat) : Nat :=
  if o.height > currentHeight then 0
  else if o.status = .Unconfirmed then 0
  else 1 + (currentHeight - o.height)

def eligibleToSpend (o : OutputData E) (currentHeight minimumConfirmations : Nat) : Bool :=
  if o.status = .Spent ∨ o.status = .Locked ∨ (o.status = .Unconfirmed ∧ o.isCoinbase = true)
      ∨ o.lockHeight > currentHeight then false
  else
    decide ((o.status = .Unspent ∧ o.numConfirmations currentHeight ≥ minimumConfirmations)
      ∨ (o.status = .Unconfirmed ∧ minimumConfirmations = 0))

def markUnspent (o : OutputData E) : OutputData E :=
  match o.status with
  | .Unconfirmed | .Reverted => { o with status := .Unspent }
  | _ => o

def markSpent (o : OutputData E) : OutputData E :=
  match o.status with
  | .Unspent | .Locked => { o with status := .Spent }
  | _ => o

def markReverted (o : OutputData E) : OutputData E :=
  match o.status with
  | .Unspent => { o with status := .Reverted }
  | _ => o

end OutputData

/-! ## Fees -/

/-- A packed fee: 4 bits of shift above 40 bits of fee. -/
structure FeeFields where
  raw : Nat
deriving DecidableEq

namespace FeeFields

def zero : FeeFields := ⟨0⟩

def feeMask : Nat := 2 ^ 40 - 1

def fee (f : FeeFields) : Nat := f.raw % 2 ^ 40

def asOpt (f : FeeFields) : Option FeeFields := if f.raw = 0 then none else some f

end FeeFields

/-! ## Slate state -/

inductive SlateState
  | Unknown | Standard1 | Standard2 | Standard3 | Invoice1 | Invoice2 | Invoice3
deriving DecidableEq

/-! ## Transaction log -/

inductive TxLogEntryType
  | ConfirmedCoinbase | TxReceived | TxSent | TxReceivedCancelled | TxSentCancelled | TxReverted
deriving DecidableEq

structure StoredProofInfo where
  receiverAddress : DalekPublicKey
  receiverSignature : Option DalekSignature
  senderAddressPath : Nat
  senderAddress : DalekPublicKey
  senderSignature : Option DalekSignature
deriving DecidableEq

/-- A transaction log record. Timestamps are read from the clock of the run. -/
structure TxLogEntry (E : Type) where
  parentKeyId : Identifier
  id : Nat
  txSlateId : Option Uuid
  txSlateState : Option SlateState
  txType : TxLogEntryType
  creationTs : Nat
  confirmationTs : Option Nat
  confirmed : Bool
  numInputs : Nat
  numOutputs : Nat
  amountCredited : Nat
  amountDebited : Nat
  fee : Option FeeFields
  ttlCutoffHeight : Option Nat
  storedTx : Option Uuid
  kernelExcess : Option E
  kernelLookupMinHeight : Option Nat
  paymentProof : Option StoredProofInfo
  revertedAfter : Option Nat
deriving DecidableEq

namespace TxLogEntry

variable {E : Type}

/-- A blank record. -/
def new (parentKeyId : Identifier) (t : TxLogEntryType) (id now : Nat) : TxLogEntry E where
  parentKeyId := parentKeyId
  txType := t
  id := id
  txSlateId := none
  txSlateState := none
  creationTs := now
  confirmationTs := none
  confirmed := false
  amountCredited := 0
  amountDebited := 0
  numInputs := 0
  numOutputs := 0
  fee := none
  ttlCutoffHeight := none
  storedTx := none
  kernelExcess := none
  kernelLookupMinHeight := none
  paymentProof := none
  revertedAfter := none

def updateConfirmationTs (t : TxLogEntry E) (now : Nat) : TxLogEntry E :=
  { t with confirmationTs := some now }

/-- Not confirmed, and of a type that can still be confirmed. -/
def outstanding (t : TxLogEntry E) : Bool :=
  !t.confirmed && (t.txType = .TxReceived || t.txType = .TxSent || t.txType = .TxReverted)

end TxLogEntry

/-- The key of a log record: the account it is saved for, then its id. -/
def txLogKey (parentId : Identifier) (txId : Nat) : DbKey := parentId.toBytes ++ [txId]

theorem txLogKey_inj {p q : Identifier} {i j : Nat} : txLogKey p i = txLogKey q j ↔ p = q ∧ i = j := by
  constructor
  · intro h
    obtain ⟨hpq, hij⟩ := Identifier.toBytes_append_inj h
    exact ⟨hpq, by simpa using hij⟩
  · rintro ⟨rfl, rfl⟩
    rfl

/-! ## API arguments -/

/-- A Slatepack address: the network prefix and the public key. -/
structure SlatepackAddress where
  hrp : String
  pubKey : DalekPublicKey
deriving DecidableEq

structure InitTxSendArgs where
  dest : Label
  postTx : Bool
  fluff : Bool
  skipTor : Option Bool
deriving DecidableEq

structure InitTxArgs where
  srcAcctName : Option Label
  amount : Nat
  amountIncludesFee : Option Bool
  minimumConfirmations : Nat
  maxOutputs : Nat
  numChangeOutputs : Nat
  selectionStrategyIsUseAll : Bool
  refreshOutputsFromNode : Bool
  targetSlateVersion : Option Nat
  ttlBlocks : Option Nat
  paymentProofRecipientAddress : Option SlatepackAddress
  estimateOnly : Option Bool
  lateLock : Option Bool
  sendArgs : Option InitTxSendArgs := none
deriving DecidableEq

structure IssueInvoiceTxArgs where
  destAcctName : Option Label
  amount : Nat
  targetSlateVersion : Option Nat

structure BlockFees where
  fees : Nat
  height : Nat
  keyId : Option Identifier

/-! ## Private context -/

/-- The private data a party keeps between the steps of a transaction. -/
structure Context (E : Type) where
  parentKeyId : Identifier
  secKey : SecretKey
  secNonce : SecretKey
  initialSecKey : SecretKey
  initialSecNonce : SecretKey
  outputIds : List (Identifier × Option Nat × Nat)
  inputIds : List (Identifier × Option Nat × Nat)
  amount : Nat
  fee : Option FeeFields
  paymentProofDerivationIndex : Option Nat
  lateLockArgs : Option InitTxArgs
  calculatedExcess : Option E
deriving DecidableEq

namespace Context

variable {E : Type}

/-- A context over a fresh key and nonce. -/
def withExcess (secKey secNonce : SecretKey) (parentKeyId : Identifier) : Context E where
  parentKeyId := parentKeyId
  secKey := secKey
  secNonce := secNonce
  initialSecKey := secKey
  initialSecNonce := secNonce
  inputIds := []
  outputIds := []
  amount := 0
  fee := none
  paymentProofDerivationIndex := none
  lateLockArgs := none
  calculatedExcess := none

def addOutput (c : Context E) (id : Identifier) (mmrIndex : Option Nat) (amount : Nat) : Context E :=
  { c with outputIds := c.outputIds ++ [(id, mmrIndex, amount)] }

def addInput (c : Context E) (id : Identifier) (mmrIndex : Option Nat) (amount : Nat) : Context E :=
  { c with inputIds := c.inputIds ++ [(id, mmrIndex, amount)] }

end Context

/-! ## Bookkeeping records -/

structure AcctPathMapping where
  label : Label
  path : Identifier
deriving DecidableEq

structure ScannedBlockInfo where
  height : Nat
  hash : String
  startPmmrIndex : Nat
  lastPmmrIndex : Nat
deriving DecidableEq

inductive WalletInitStatus
  | InitNeedsScanning | InitNoScanning | InitComplete
deriving DecidableEq

/-! ## Errors -/

inductive Error
  | NotEnoughFunds (available needed : Nat)
  | BigAmountError (amount fee : Nat) (inputs : Nat)
  | Fee (reason : String)
  | GenericError (reason : String)
  | Backend (reason : String)
  | NotFound (what : String)
  | Node (reason : String)
  | Secp (reason : String)
  | Commit (reason : String)
  | Transaction (reason : String)
  | PaymentProof (reason : String)
  | PaymentProofRetrieval (reason : String)
  | TransactionDoesntExist (id : String)
  | TransactionNotCancellable (id : String)
  | TransactionAlreadyReceived (id : String)
  | TransactionWasCancelled (id : String)
  | TransactionExpired
  | SlateState
  | SlateTransactionRequired
  | InvalidFeeFields
  | InvalidKernelFeatures (n : Nat)
  | UnknownKernelFeatures (n : Nat)
  | KernelFeaturesMissing (what : String)
  | UnknownAccountLabel (label : Label)
  | AccountLabelAlreadyExists (label : Label)
  | TransactionCancellationError (reason : String)
  | StoredTx (reason : String)
  | Io (reason : String)
  | SlatepackSer
  | SlatepackDeser (reason : String)
  | InvalidSlatepackData (reason : String)
  | SlatepackAddress (reason : String)
  | ED25519Key (reason : String)
  | Age (reason : String)
  /-- A Rust panic: an `unwrap` of nothing, an index out of range, a division by zero. -/
  | Panic (reason : String)
deriving DecidableEq

end GrinWallet
