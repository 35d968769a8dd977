import GrinWallet.Model.Tx

/-! # API calls

The calls of the owner and foreign APIs that exchange slates. Each holds the
wallet lock from beginning to end, so a call is one atomic computation; what it
committed before failing stays committed.
-/

namespace GrinWallet

open Effect WalletBackend

variable {F E : Type} [CommRing F] [AddCommGroup E] [Module F E] [DecidableEq E]

/-- Write the state of a slate into a log record with its id, the first in key
order, and save that record for the account given. -/
def updateTxSlateState (parentKeyId : Identifier) (slate : Slate F E) (s : Store E) :
    Except Error (Unit × Store E) :=
  match s.txLogIter.find? fun t => t.txSlateId = some slate.id with
  | some t => .ok ((), s.saveTxLogEntry { t with txSlateState := some slate.state } parentKeyId)
  | none => .error (.Backend "Tx log entry with slate id not found")

namespace Owner

/-- Refuse a slate whose time to live has passed. -/
def checkTtl (slate : Slate F E) : WalletM F E Unit := do
  let w ← Eff.read
  let lastConfirmedHeight := w.store.confirmedHeight w.parentKeyId
  Eff.throwIf (slate.ttlCutoffHeight ≠ 0 ∧ lastConfirmedHeight ≥ slate.ttlCutoffHeight)
    .TransactionExpired

def postTx (env : Env F E) (tx : Transaction F E) (fluff : Bool) : WalletM F E Unit :=
  ask fun t => (env.node t).postTx tx fluff

/-- The slate a lock records: repopulated from the context when it came compact. -/
def slateToLock (K : Keychain F E) (s : Store E) (slate : Slate F E) (context : Context E) :
    Except Error (Slate F E) :=
  if slate.tx.isNone then
    Selection.repopulateTx K s { slate with tx := some Slate.emptyTransaction } context true
  else .ok slate

/-- Lock the outputs of the context stored for a slate. -/
def txLockOutputs (env : Env F E) (slate : Slate F E) : WalletM F E Unit := do
  let w ← Eff.read
  let context ← Eff.ofExcept (w.store.getPrivateContext env.keychain slate.id)
  let sl ← Eff.ofExcept (slateToLock env.keychain w.store slate context)
  -- a payer of an invoice needs the excess it computed before the slate was stripped
  let excessOverride := if slate.participantData.length = 1 then context.calculatedExcess else none
  let (height, _) ← getChainTip env
  Selection.lockTxContext env sl height context excessOverride

/-- Ask the recipient for a payment proof. -/
def requestProof (K : Keychain F E) (parentKeyId : Identifier) (a : SlatepackAddress)
    (slate : Slate F E) (context : Context E) : Slate F E × Context E :=
  let proof : PaymentInfo :=
    { senderAddress := K.dalekPublicKey (K.addressKey parentKeyId 0)
      receiverAddress := a.pubKey
      receiverSignature := none }
  ({ slate with paymentProof := some proof },
    { context with paymentProofDerivationIndex := some 0 })

/-- Add the payment proof request of a send, if it makes one. -/
def withProofRequest (K : Keychain F E) (parentKeyId : Identifier)
    (address : Option SlatepackAddress) (slate : Slate F E) (context : Context E) :
    Slate F E × Context E :=
  match address with
  | some a => requestProof K parentKeyId a slate context
  | none => (slate, context)

/-- Answer an estimate: the total selected and the fee. -/
def estimate (env : Env F E) (args : InitTxArgs) (slate : Slate F E) (parentKeyId : Identifier) :
    WalletM F E (Slate F E) := do
  let (total, fee) ← Tx.estimateSendTx env args parentKeyId
  let feeFields ← Eff.ofExcept (Selection.feeFieldsUnwrap fee)
  return { slate with amount := total, feeFields := feeFields }

/-- Begin a send: select its inputs now, or at finalization. -/
def beginSend (env : Env F E) (slate : Slate F E) (height : Nat) (args : InitTxArgs)
    (parentKeyId : Identifier) : WalletM F E (Slate F E × Context E) :=
  if args.lateLock.getD false then Tx.createLateLockContext env slate height args parentKeyId
  else Tx.addInputsToSlate env slate height args parentKeyId true (args.amountIncludesFee.getD false)

/-- Initiate a transaction as the sender. -/
def initSendTx (env : Env F E) (args : InitTxArgs) : WalletM F E (Slate F E) := do
  Eff.throwIf (args.paymentProofRecipientAddress.any fun a => a.hrp ≠ env.addressHrp)
    (.PaymentProofRetrieval "Wrong network for address")
  let parentKeyId ← accountOrActive args.srcAcctName
  let slate ← Tx.newTxSlate env args.amount false 2 args.ttlBlocks
  let slate := { slate with version := args.targetSlateVersion.getD slate.version }
  if args.estimateOnly = some true then
    estimate env args slate parentKeyId
  else
    let (height, _) ← getChainTip env
    let (slate, context) ← beginSend env slate height args parentKeyId
    let (slate, context) := withProofRequest env.keychain parentKeyId
      args.paymentProofRecipientAddress slate context
    commit fun s => s.savePrivateContext env.keychain slate.id context
    return slate.compact

/-- Initiate a transaction as the recipient. -/
def issueInvoiceTx (env : Env F E) (args : IssueInvoiceTxArgs) : WalletM F E (Slate F E) := do
  let parentKeyId ← accountOrActive args.destAcctName
  let slate ← Tx.newTxSlate env args.amount true 2 none
  let (height, _) ← getChainTip env
  let (slate, context) ← Tx.addOutputToSlate env slate height parentKeyId true
  let slate := { slate with version := args.targetSlateVersion.getD slate.version }
  commit fun s => s.savePrivateContext env.keychain slate.id context
  return slate.compact

/-- Join the context of an invoice's payer with the one it issued the invoice
from: the initial keys and the amounts of the latter, the outputs of both. -/
def mergeContext (context c : Context E) : Context E :=
  { context with
    initialSecKey := c.initialSecKey
    initialSecNonce := c.initialSecNonce
    fee := c.fee
    amount := c.amount
    outputIds := context.outputIds ++ c.outputIds
    inputIds := context.inputIds ++ c.inputIds }

/-- Refuse an invoice the account has paid or cancelled before. -/
def checkNotPaid (s : Store E) (slateId : Uuid) (parentKeyId : Identifier) : Except Error Unit :=
  match (Updater.retrieveTxs s none (some slateId) (some parentKeyId) false).find? fun t =>
      t.txType = .TxSent ∨ t.txType = .TxSentCancelled with
  | some t =>
      if t.txType = .TxSent then .error (.TransactionAlreadyReceived (toString slateId))
      else .error (.TransactionWasCancelled (toString slateId))
  | none => .ok ()

/-- What the payer of an invoice adds to the offset at once: the inputs and
outputs of a wallet paying its own invoice are left to finalization. -/
def contribution (contextRes : Except Error (Context E)) (context : Context E) : Context E :=
  match contextRes with
  | .ok _ => { context with inputIds := [], outputIds := [] }
  | .error _ => context

/-- The context the payer of an invoice keeps. -/
def payerContext (contextRes : Except Error (Context E)) (context : Context E) (excess : E) :
    Context E :=
  let context := { context with calculatedExcess := some excess }
  match contextRes with
  | .ok c => mergeContext context c
  | .error _ => context

/-- Pay an invoice. -/
def processInvoiceTx (env : Env F E) (slate : Slate F E) (args : InitTxArgs) :
    WalletM F E (Slate F E) := do
  let K := env.keychain
  checkTtl slate
  let parentKeyId ← accountOrActive args.srcAcctName
  let w ← Eff.read
  Eff.ofExcept (checkNotPaid w.store slate.id parentKeyId)
  let (height, _) ← getChainTip env
  let retSlate := { slate with
    ttlCutoffHeight := match args.ttlBlocks with
      | some b => u64 (height + b)
      | none => slate.ttlCutoffHeight
    tx := some Slate.emptyTransaction }
  -- a context is there when the wallet pays its own invoice
  let contextRes := w.store.getPrivateContext K slate.id
  let (retSlate, context) ← Tx.addInputsToSlate env retSlate height args parentKeyId false false
  let retSlate := retSlate.adjustOffset K (contribution contextRes context)
  let excess ← Eff.ofExcept retSlate.calcExcess
  let context := payerContext contextRes context excess
  let w ← Eff.read
  let retSlate ← Eff.ofExcept (Selection.repopulateTx K w.store retSlate context false)
  commit fun s => s.savePrivateContext K slate.id context
  let retSlate := ({ retSlate with amount := 0 }).removeOtherSigdata K context.secNonce context.secKey
  return { retSlate with state := .Invoice2 }

/-- Make an account the active one, by its label. -/
def setActiveAccount (label : Label) : WalletM F E Unit := do
  let w ← Eff.read
  match w.store.acctPaths.rows.find? fun a => a.label = label with
  | some a => setParentKeyId a.path
  | none => throw (.UnknownAccountLabel label)

end Owner

namespace Foreign

/-- Sign the payment proof a slate requests. -/
def signProof (K : Keychain F E) (parentKeyId : Identifier) (excess : E) (slate : Slate F E) :
    Slate F E :=
  let sign := fun p : PaymentInfo =>
    K.dalekSign (K.addressKey parentKeyId 0) ⟨slate.amount, excess, p.senderAddress⟩
  { slate with
    paymentProof := slate.paymentProof.map fun p => { p with receiverSignature := some (sign p) } }

/-- Receive a payment: add the output, sign, and strip the sender's data. -/
def receiveTx (env : Env F E) (slate : Slate F E) (destAcctName : Option Label) :
    WalletM F E (Slate F E) := do
  let K := env.keychain
  Owner.checkTtl slate
  let parentKeyId ← accountOrActive destAcctName
  let w ← Eff.read
  Eff.throwIf ((Updater.retrieveTxs w.store none (some slate.id) (some parentKeyId) false).any
    fun t => t.txType = .TxReceived) (.TransactionAlreadyReceived (toString slate.id))
  let height := w.store.confirmedHeight parentKeyId
  let (retSlate, context) ← Tx.addOutputToSlate env
    { slate with tx := some Slate.emptyTransaction } height parentKeyId false
  let retSlate := retSlate.adjustOffset K context
  let excess ← Eff.ofExcept retSlate.calcExcess
  let retSlate := { signProof K parentKeyId excess retSlate with amount := 0, feeFields := .zero }
  let retSlate := retSlate.removeOtherSigdata K context.secNonce context.secKey
  let retSlate := { retSlate with state := .Standard2 }
  batch (updateTxSlateState parentKeyId retSlate)
  return retSlate

/-- Finalize an invoice that was paid. -/
def finalizeInvoice (env : Env F E) (slate : Slate F E) (context : Context E) :
    WalletM F E (Slate F E) := do
  let K := env.keychain
  let sl := slate.adjustOffset K context
  let tempCtx := { context with
    secKey := context.initialSecKey
    secNonce := context.initialSecNonce }
  let w ← Eff.read
  let sl ← Eff.ofExcept (Selection.repopulateTx K w.store sl tempCtx false)
  let sl ← Eff.ofExcept (Tx.completeTx K env.consensus sl context)
  Tx.updateStoredTx env context sl true
  commit fun s => s.deletePrivateContext sl.id
  let sl := { sl with state := .Invoice3, amount := 0 }
  let w ← Eff.read
  batch (updateTxSlateState w.parentKeyId sl)
  return sl

/-- Select and lock the inputs of a late-locked send now. -/
def lateLock (env : Env F E) (slate : Slate F E) (context : Context E) (args : InitTxArgs)
    (parentKeyId : Identifier) : WalletM F E (Context E) := do
  let (currentHeight, _) ← getChainTip env
  let tempSl ← Tx.newTxSlate env context.amount false 2 args.ttlBlocks
  let (_, tempContext) ← Selection.buildSendTx env tempSl currentHeight
    args.minimumConfirmations args.maxOutputs args.numChangeOutputs
    args.selectionStrategyIsUseAll (some ((context.fee.map (·.fee)).getD 0)) parentKeyId false
  let context := { context with
    inputIds := tempContext.inputIds
    outputIds := tempContext.outputIds }
  commit fun s => s.savePrivateContext env.keychain slate.id context
  Owner.txLockOutputs env slate
  return context

/-- The context a send is finalized with. -/
def lockedContext (env : Env F E) (slate : Slate F E) (context : Context E)
    (parentKeyId : Identifier) : WalletM F E (Context E) :=
  match context.lateLockArgs with
  | some args => lateLock env slate { context with lateLockArgs := none } args parentKeyId
  | none => pure context

/-- Finalize a send. -/
def finalizeStandard (env : Env F E) (slate : Slate F E) (context : Context E) :
    WalletM F E (Slate F E) := do
  let K := env.keychain
  let w ← Eff.read
  let parentKeyId := w.parentKeyId
  let context ← lockedContext env slate context parentKeyId
  let sl := slate.adjustOffset K context
  let w ← Eff.read
  let sl ← Eff.ofExcept (Selection.repopulateTx K w.store sl context true)
  let sl ← Eff.ofExcept (Tx.completeTx K env.consensus sl context)
  Eff.ofExcept (Tx.verifySlatePaymentProof K w.store parentKeyId context sl)
  Tx.updateStoredTx env context sl false
  commit fun s => s.deletePrivateContext sl.id
  let sl := { sl with state := .Standard3, amount := 0 }
  batch (updateTxSlateState parentKeyId sl)
  return sl

def finalizeByState (env : Env F E) (slate : Slate F E) (context : Context E) :
    WalletM F E (Slate F E) :=
  match slate.state with
  | .Invoice2 => finalizeInvoice env slate context
  | .Standard2 => finalizeStandard env slate context
  | _ => throw .SlateState

def postFinal (env : Env F E) (slate : Slate F E) : WalletM F E Unit := do
  let tx ← Eff.ofExcept slate.txOrErr
  Owner.postTx env tx true

/-- Finalize a slate this wallet initiated. -/
def finalizeTx (env : Env F E) (slate : Slate F E) (postAutomatically : Bool) :
    WalletM F E (Slate F E) := do
  let w ← Eff.read
  let context ← Eff.ofExcept (w.store.getPrivateContext env.keychain slate.id)
  Owner.checkTtl slate
  let sl ← finalizeByState env slate context
  Eff.runIf postAutomatically (postFinal env sl)
  return sl

end Foreign

/-! ## Stored transactions -/

/-- `WalletBackend::get_stored_tx`: the file of a slate. -/
def WalletBackend.getStoredTx {F E : Type} (w : WalletBackend F E) (id : Uuid) :
    Except Error (Transaction F E) :=
  match w.storedTxs id with
  | some tx => .ok tx
  | none => .error <| .Io "No such file or directory (os error 2)"

/-- `Transaction::aggregate_fee_fields`: the fees added up under the highest shift. -/
def Transaction.aggregateFeeFields {F E : Type} (tx : Transaction F E) : Except Error FeeFields :=
  let shift := (tx.kernels.map fun k => k.features.feeFields.raw / 2 ^ 40).foldl max 0
  if tx.fee = 0 ∨ FeeFields.feeMask < tx.fee then .error .InvalidFeeFields
  else .ok ⟨shift * 2 ^ 40 + tx.fee⟩

/-- The slate around a stored transaction. The fee is unwrapped. -/
def Owner.storedSlate (w : WalletBackend F E) (id : Uuid) : Except Error (Option (Slate F E)) := do
  let tx ← w.getStoredTx id
  match tx.aggregateFeeFields with
  | .error _ =>
      .error (.Panic "called `Result::unwrap()` on an `Err` value: InvalidFeeFields")
  | .ok feeFields =>
      return some { (Slate.blank 2 false id : Slate F E) with
        tx := some tx, feeFields := feeFields, offset := tx.offset, state := .Standard3 }

/-- The slate a lookup is about: that of the first entry with the log id, of any account, else
the one given. -/
def Owner.storedTxId (s : Store E) (txId : Option Nat) (slateId : Option Uuid) : Option Uuid :=
  match txId.bind fun i => (s.txLogIter.find? fun t => t.id = i).bind fun t => t.txSlateId with
  | some u => some u
  | none => slateId

def Owner.getStoredTx (w : WalletBackend F E) (txId : Option Nat) (slateId : Option Uuid) :
    Except Error (Option (Slate F E)) :=
  match Owner.storedTxId w.store txId slateId with
  | some id => Owner.storedSlate w id
  | none =>
      .error (.StoredTx "Both the provided Transaction Id and Slate UUID are invalid.")

/-- The owner's finalize: the foreign one, without posting. -/
def Owner.finalizeTx (env : Env F E) (slate : Slate F E) : WalletM F E (Slate F E) :=
  Foreign.finalizeTx env slate false

end GrinWallet
