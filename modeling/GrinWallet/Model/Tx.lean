import GrinWallet.Model.Updater

/-! # Steps of a transaction

The building blocks the APIs call: creating a slate, adding one side's inputs or
outputs to it, completing it, cancelling it, and the payment proof that goes
with it.
-/

namespace GrinWallet

open Effect WalletBackend

namespace Tx

variable {F E : Type} [CommRing F] [AddCommGroup E] [Module F E] [DecidableEq E]

def newTxSlate (env : Env F E) (amount : Nat) (isInvoice : Bool) (numParticipants : Nat)
    (ttlBlocks : Option Nat) : WalletM F E (Slate F E) := do
  let (currentHeight, _) ← getChainTip env
  let id ← freshUuid env
  let slate : Slate F E := Slate.blank numParticipants isInvoice id
  let version := fun v n => if env.consensus.validHeaderVersion currentHeight n then n else v
  return { slate with
    ttlCutoffHeight := match ttlBlocks with
      | some b => u64 (currentHeight + b)
      | none => 0
    amount := amount
    blockHeaderVersion := version (version (version slate.blockHeaderVersion 1) 2) 3
    kernelFeatures := 0 }

/-- The total and the fee of a send, without creating one. -/
def estimateSendTx (env : Env F E) (args : InitTxArgs) (parentKeyId : Identifier) :
    WalletM F E (Nat × Nat) := do
  let (currentHeight, _) ← getChainTip env
  Eff.runIf args.refreshOutputsFromNode (Updater.refreshOutputs env parentKeyId false)
  let w ← Eff.read
  let (_, total, _, fee) ← Eff.ofExcept (Selection.selectCoinsAndFee env.consensus w.store
    args.amount (args.amountIncludesFee.getD false) currentHeight args.minimumConfirmations
    args.maxOutputs args.numChangeOutputs args.selectionStrategyIsUseAll parentKeyId)
  return (total, fee)

/-- Become the sender: select inputs and change, and add the public keys. A
payer who did not initiate the exchange signs at once. -/
def addInputsToSlate (env : Env F E) (slate : Slate F E) (currentHeight : Nat)
    (args : InitTxArgs) (parentKeyId : Identifier) (isInitiator amountIncludesFee : Bool) :
    WalletM F E (Slate F E × Context E) := do
  Eff.runIf args.refreshOutputsFromNode (Updater.refreshOutputs env parentKeyId false)
  let (slate, context) ← Selection.buildSendTx env slate currentHeight args.minimumConfirmations
    args.maxOutputs args.numChangeOutputs args.selectionStrategyIsUseAll none parentKeyId
    amountIncludesFee
  let slate := slate.fillRound1 env.keychain context
  let context := { context with initialSecKey := context.secKey }
  if isInitiator then
    return (slate, context)
  else
    let slate ← Eff.ofExcept (slate.fillRound2 env.keychain context.secKey context.secNonce)
    return (slate, context)

/-- Become the recipient: create the output and add the public keys. A payee who
did not initiate the exchange signs at once and records the excess. -/
def addOutputToSlate (env : Env F E) (slate : Slate F E) (currentHeight : Nat)
    (parentKeyId : Identifier) (isInitiator : Bool) : WalletM F E (Slate F E × Context E) := do
  let (slate, _, context, tx) ← Selection.buildRecipientOutput env slate currentHeight parentKeyId
  let slate := slate.fillRound1 env.keychain context
  let context := { context with initialSecKey := context.secKey }
  if isInitiator then
    return (slate, context)
  else
    let slate ← Eff.ofExcept (slate.fillRound2 env.keychain context.secKey context.secNonce)
    let excess ← Eff.ofExcept slate.calcExcess
    commit fun s => s.saveTxLogEntry { tx with kernelExcess := some excess } parentKeyId
    return (slate, context)

/-- Create a context without selecting inputs; only the fee is estimated. -/
def createLateLockContext (env : Env F E) (slate : Slate F E) (currentHeight : Nat)
    (args : InitTxArgs) (parentKeyId : Identifier) : WalletM F E (Slate F E × Context E) := do
  Eff.runIf args.refreshOutputsFromNode (Updater.refreshOutputs env parentKeyId false)
  let w ← Eff.read
  let (_, _, _, fee) ← Eff.ofExcept (Selection.selectCoinsAndFee env.consensus w.store
    args.amount (args.amountIncludesFee.getD false) currentHeight args.minimumConfirmations
    args.maxOutputs args.numChangeOutputs args.selectionStrategyIsUseAll parentKeyId)
  let feeFields ← Eff.ofExcept (Selection.feeFieldsOf fee)
  let slate := { slate with feeFields := feeFields }
  let context ← newContext env parentKeyId
  let context := { context with
    fee := some slate.feeFields
    amount := slate.amount
    lateLockArgs := some args }
  return (slate.fillRound1 env.keychain context, context)

/-- The keys a context signs with when the transaction is completed: those of the
initiator when a wallet pays its own invoice. -/
def completionKeys (context : Context E) : SecretKey × SecretKey :=
  if context.initialSecKey ≠ context.secKey ∧ context.initialSecNonce ≠ context.secNonce then
    (context.initialSecKey, context.initialSecNonce)
  else (context.secKey, context.secNonce)

def completeTx (K : Keychain F E) (C : Consensus F E) (slate : Slate F E) (context : Context E) :
    Except Error (Slate F E) := do
  let (secKey, secNonce) := completionKeys context
  let slate ← slate.fillRound2 K secKey secNonce
  slate.finalize K C

/-- The name an error reports for the transaction asked for. -/
def txIdString (txId : Option Nat) (txSlateId : Option Uuid) : String :=
  match txId, txSlateId with
  | some id, _ => toString id
  | none, some id => toString id
  | none, none => ""

/-- Rollback the outputs of one transaction of an account. -/
def cancelTx (K : Keychain F E) (parentKeyId : Identifier) (txId : Option Nat)
    (txSlateId : Option Uuid) (s : Store E) : Except Error (Unit × Store E) :=
  match Updater.retrieveTxs s txId txSlateId (some parentKeyId) false with
  | [tx] =>
      if (tx.txType ≠ .TxSent ∧ tx.txType ≠ .TxReceived ∧ tx.txType ≠ .TxReverted)
          ∨ tx.confirmed then
        .error (.TransactionNotCancellable (txIdString txId txSlateId))
      else
        let outputs := (Updater.retrieveOutputs K s false (some tx.id) (some parentKeyId)).map
          (·.output)
        .ok ((), Updater.cancelTxAndOutputs tx outputs parentKeyId s)
  | _ => .error (.TransactionDoesntExist (txIdString txId txSlateId))

/-- The log record a finalized slate completes. -/
def finalizedEntry (s : Store E) (slateId : Uuid) (isInvoiced : Bool) : Option (TxLogEntry E) :=
  (Updater.retrieveTxs s none (some slateId) none false).find? fun t =>
    (t.txType = .TxSent && !isInvoiced) || (t.txType = .TxReceived && isInvoiced)

/-- Sign the payment proof of a finalized transaction. -/
def completedProof (K : Keychain F E) (parentKeyId : Identifier) (context : Context E)
    (slate : Slate F E) (excess : E) (p : PaymentInfo) : StoredProofInfo :=
  let index := context.paymentProofDerivationIndex.getD 0
  let senderKey := K.addressKey parentKeyId index
  { receiverAddress := p.receiverAddress
    receiverSignature := p.receiverSignature
    senderAddressPath := index
    senderAddress := K.dalekPublicKey senderKey
    senderSignature := some (K.dalekSign senderKey ⟨slate.amount, excess, p.senderAddress⟩) }

/-- The log record of a finalized slate, completed with the excess and the signed proof. -/
def completedEntry (K : Keychain F E) (parentKeyId : Identifier) (context : Context E)
    (slate : Slate F E) (excess : E) (tx : TxLogEntry E) : TxLogEntry E :=
  { tx with
    kernelExcess := some excess
    paymentProof := match slate.paymentProof with
      | some p => some (completedProof K parentKeyId context slate excess p)
      | none => tx.paymentProof }

/-- Take a value that is there. -/
def unwrap {α : Type} : Option α → Except Error α
  | some a => .ok a
  | none => .error (.Panic "called Option::unwrap() on a None value")

/-- Complete the log record of a finalized transaction and store the transaction. -/
def updateStoredTx (env : Env F E) (context : Context E) (slate : Slate F E) (isInvoiced : Bool) :
    WalletM F E Unit := do
  let w ← Eff.read
  match finalizedEntry w.store slate.id isInvoiced with
  | none => throw (.TransactionDoesntExist (toString slate.id))
  | some tx =>
      let excess ← Eff.ofExcept slate.calcExcess
      let file ← Eff.ofExcept (unwrap tx.txSlateId)
      let transaction ← Eff.ofExcept slate.txOrErr
      storeTx file transaction
      commit fun s => s.saveTxLogEntry
        (completedEntry env.keychain w.parentKeyId context slate excess tx) tx.parentKeyId

/-- Check the recipient's payment proof against what the send asked for. -/
def verifySlatePaymentProof (K : Keychain F E) (s : Store E) (parentKeyId : Identifier)
    (context : Context E) (slate : Slate F E) : Except Error Unit :=
  match Updater.retrieveTxs s none (some slate.id) (some parentKeyId) false with
  | [] => .error (.PaymentProof
      "TxLogEntry with original proof info not found (is account correct?)")
  | tx :: _ =>
      match tx.paymentProof, slate.paymentProof with
      | some _, none =>
          .error (.PaymentProof "Expected Payment Proof for this Transaction is not present")
      | none, none => .ok ()
      | none, some _ => .error (.PaymentProof "Original proof info not stored in tx")
      | some orig, some p =>
          match context.paymentProofDerivationIndex with
          | none => .error (.PaymentProof "Payment proof derivation index required")
          | some index => do
              let origSenderAddress := K.dalekPublicKey (K.addressKey parentKeyId index)
              if p.senderAddress ≠ origSenderAddress then
                throw (.PaymentProof
                  "Sender address on slate does not match original sender address")
              if orig.receiverAddress ≠ p.receiverAddress then
                throw (.PaymentProof
                  "Recipient address on slate does not match original recipient address")
              let excess ← slate.calcExcess
              match p.receiverSignature with
              | none => throw (.PaymentProof "Recipient did not provide requested proof signature")
              | some sig =>
                  if K.dalekVerify p.receiverAddress
                      ⟨slate.amount, excess, origSenderAddress⟩ sig then
                    return ()
                  else throw (.PaymentProof "Invalid proof signature")

end Tx

/-! ## Accounts -/

namespace Keys

variable {F E : Type}

/-- The account with the highest first child number; of equal ones the last. -/
def highestAccount (accounts : List AcctPathMapping) : Option AcctPathMapping :=
  accounts.foldl
    (fun best a => match best with
      | none => some a
      | some b => if b.path.childAt 0 ≤ a.path.childAt 0 then some a else some b) none

/-- The path `m/k/0` after the highest one in use. -/
def nextAccountPath (accounts : List AcctPathMapping) : Identifier :=
  match highestAccount accounts with
  | some e => e.path.setChild 0 (u32 (e.path.childAt 0 + 1))
  | none => defaultPath

/-- Add an account under the next free path `m/k/0`. -/
def newAcctPath (label : Label) : WalletM F E Identifier := do
  let w ← Eff.read
  let accounts := w.store.acctPaths.rows
  Eff.throwIf (accounts.any (·.label = label)) (.AccountLabelAlreadyExists label)
  let path := nextAccountPath accounts
  commit fun s => s.saveAcctPath ⟨label, path⟩
  return path

def setAcctPath (label : Label) (path : Identifier) (s : Store E) : Store E :=
  s.saveAcctPath ⟨label, path⟩

end Keys

end GrinWallet
