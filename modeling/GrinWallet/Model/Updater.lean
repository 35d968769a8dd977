import GrinWallet.Model.Selection

/-! # Updating the wallet from the node

Reading records for the API, refreshing outputs from the node's UTXO set,
cancelling a transaction with its outputs, and building coinbase outputs. The
clock is read once for a batch.
-/

namespace GrinWallet

open Effect WalletBackend

namespace Updater

variable {F E : Type} [CommRing F] [AddCommGroup E] [Module F E] [DecidableEq E]

/-! ## Reading records -/

/-- An output record with its commitment. -/
structure OutputCommitMapping (E : Type) where
  output : OutputData E
  commit : E
deriving DecidableEq

/-- The commitment of a record: the cached one, else computed. -/
def commitOf (K : Keychain F E) (o : OutputData E) : E :=
  match o.commit with
  | some c => c
  | none => K.commit o.value o.keyId

def retrieveOutputs (K : Keychain F E) (s : Store E) (showSpent : Bool) (txId : Option Nat)
    (parentKeyId : Option Identifier) : List (OutputCommitMapping E) :=
  let outputs := s.iter.filter fun o =>
    (showSpent || o.status ≠ .Spent)
      && txId.all (fun id => o.txLogEntry = some id)
      && parentKeyId.all (fun k => o.rootKeyId = k)
  (sortByKey (·.nChild) outputs).map fun o => ⟨o, commitOf K o⟩

/-- The log records that match every criterion given, oldest first. -/
def retrieveTxs (s : Store E) (txId : Option Nat) (txSlateId : Option Uuid)
    (parentKeyId : Option Identifier) (outstandingOnly : Bool) : List (TxLogEntry E) :=
  sortByKey (·.creationTs) (s.txLogIter.filter fun t =>
    parentKeyId.all (fun k => t.parentKeyId = k)
      && txId.all (fun i => t.id = i)
      && txSlateId.all (fun u => t.txSlateId = some u)
      && (!outstandingOnly || t.outstanding))

omit [CommRing F] [AddCommGroup E] [Module F E] [DecidableEq E] in
@[simp] theorem mem_retrieveTxs {s : Store E} {txId : Option Nat} {txSlateId : Option Uuid}
    {parentKeyId : Option Identifier} {outstandingOnly : Bool} {t : TxLogEntry E} :
    t ∈ retrieveTxs s txId txSlateId parentKeyId outstandingOnly ↔ t ∈ s.txLogIter ∧
      (∀ k, parentKeyId = some k → t.parentKeyId = k) ∧ (∀ i, txId = some i → t.id = i) ∧
      (∀ u, txSlateId = some u → t.txSlateId = some u) ∧
      (outstandingOnly = true → t.outstanding = true) := by
  rw [retrieveTxs, mem_sortByKey, List.mem_filter]
  refine and_congr Iff.rfl ?_
  cases parentKeyId <;> cases txId <;> cases txSlateId <;> cases outstandingOnly <;>
    simp [and_assoc]

/-! ## Refreshing outputs -/

/-- Insert into a map keyed by commitment, replacing the value of a key it has. -/
def insertOutput (v : WalletOutput E) : List (WalletOutput E) → List (WalletOutput E)
  | [] => [v]
  | v' :: vs => if v'.1 = v.1 then v :: vs else v' :: insertOutput v vs

/-- The records of an account to ask the node about: those that are not spent
and, unless all are asked for, belong to an outstanding transaction or to none. -/
def recordsToRefresh (s : Store E) (parentKeyId : Identifier) (updateAll : Bool) :
    List (OutputData E) :=
  let unspents := s.iter.filter fun o => o.rootKeyId = parentKeyId && o.status ≠ .Spent
  let txEntries := retrieveTxs s none none (some parentKeyId) true
  if updateAll then unspents
  else unspents.filter fun o =>
    match o.txLogEntry with
    | some t => txEntries.any fun te => te.id = t
    | none => true

def mapWalletOutputs (K : Keychain F E) (s : Store E) (parentKeyId : Identifier)
    (updateAll : Bool) : List (WalletOutput E) :=
  (recordsToRefresh s parentKeyId updateAll).foldl
    (fun m o => insertOutput
      (commitOf K o, o.keyId, o.mmrIndex, o.txLogEntry, decide (o.status = .Unspent)) m) []

/-- The log ids of outputs that were unspent and are gone from the UTXO set. -/
def disappearedIds (walletOutputs : List (WalletOutput E)) (apiOutputs : E → Option (Nat × Nat)) :
    List Nat :=
  walletOutputs.filterMap fun (commit, _, _, txId, wasUnspent) =>
    if wasUnspent && (apiOutputs commit).isNone then txId else none

/-- Which of the given kernels the node does not have. -/
def missingKernels (env : Env F E) : List (Nat × E × Option Nat) → WalletM F E (List Nat)
  | [] => pure []
  | (id, excess, minHeight) :: ks => do
      let kernel ← ask fun t => (env.node t).getKernel excess minHeight none
      let rest ← missingKernels env ks
      return if kernel.isNone then id :: rest else rest

def findRevertedKernels (env : Env F E) (walletOutputs : List (WalletOutput E))
    (apiOutputs : E → Option (Nat × Nat)) (parentKeyId : Identifier) : WalletM F E (List Nat) := do
  let ids := disappearedIds walletOutputs apiOutputs
  let w ← Eff.read
  let kernels := (w.store.txLogIter.filter fun t =>
    decide (t.id ∈ ids) && t.parentKeyId = parentKeyId && t.txType = .TxReceived).filterMap
      fun t => t.kernelExcess.map fun e => (t.id, e, t.kernelLookupMinHeight)
  missingKernels env kernels

/-- The log record of a coinbase output seen on chain. -/
def coinbaseEntry (K : Keychain F E) (commit : E) (output : OutputData E)
    (height : Nat) (parentKeyId : Identifier) (logId now : Nat) : Except Error (TxLogEntry E) :=
  let excess := commit - output.value • K.H
  if excess = 0 then .error (.Secp "IncorrectCommitSum")
  else .ok
    { (TxLogEntry.new parentKeyId .ConfirmedCoinbase logId now : TxLogEntry E) with
      confirmed := true
      amountCredited := output.value
      amountDebited := 0
      numOutputs := 1
      kernelExcess := some excess
      kernelLookupMinHeight := some height
      confirmationTs := some now }

/-- Confirm a transaction by one of its outputs. -/
def confirmEntry (t : TxLogEntry E) (now : Nat) : TxLogEntry E :=
  let t := if t.txType = .TxReverted then { t with txType := .TxReceived, revertedAfter := none }
    else t
  { t.updateConfirmationTs now with confirmed := true }

/-- Refresh one record that is in the UTXO set at `apiHeight`. -/
def applyPresent (K : Keychain F E) (commit : E) (output : OutputData E) (apiHeight height : Nat)
    (parentKeyId : Identifier) (now : Nat) (s : Store E) : Except Error (Store E) := do
  let (output, s) ←
    if output.isCoinbase ∧ output.status = .Unconfirmed then do
      let (logId, s) := s.nextTxLogId parentKeyId
      let t ← coinbaseEntry K commit output height parentKeyId logId now
      pure ({ output with txLogEntry := some logId }, s.saveTxLogEntry t parentKeyId)
    else pure (output, s)
  let s :=
    if ¬ output.isCoinbase ∧ (output.status = .Unconfirmed ∨ output.status = .Reverted) then
      match s.txLogIter.find? fun t =>
        some t.id = output.txLogEntry ∧ t.parentKeyId = parentKeyId with
      | some t => s.saveTxLogEntry (confirmEntry t now) parentKeyId
      | none => s
    else s
  return s.save { output with height := apiHeight }.markUnspent

/-- Refresh one record that is not in the UTXO set. -/
def applyAbsent (output : OutputData E) (revertedKernels : List Nat) (s : Store E) : Store E :=
  if ¬ output.isCoinbase ∧ output.txLogEntry.any (· ∈ revertedKernels) then
    s.save output.markReverted
  else s.save output.markSpent

/-- Refresh the record behind one entry of the output map, if it is still there. -/
def applyApiOutput (K : Keychain F E) (apiOutputs : E → Option (Nat × Nat))
    (revertedKernels : List Nat) (height : Nat) (parentKeyId : Identifier) (now : Nat)
    (v : WalletOutput E) (s : Store E) : Except Error (Store E) :=
  let (commit, id, mmrIndex, _, _) := v
  match s.get id mmrIndex with
  | .error _ => .ok s
  | .ok output =>
      match apiOutputs commit with
      | some (apiHeight, _) => applyPresent K commit output apiHeight height parentKeyId now s
      | none => .ok (applyAbsent output revertedKernels s)

/-- A transaction whose kernel is gone. -/
def revertEntry (now : Nat) (t : TxLogEntry E) : TxLogEntry E :=
  { t with
    txType := .TxReverted
    revertedAfter := t.confirmationTs.bind fun c => if c ≤ now then some (now - c) else none
    confirmed := false }

def revertTxs (revertedKernels : List Nat) (parentKeyId : Identifier) (now : Nat) (s : Store E) :
    Store E :=
  (s.txLogIter.filter fun t =>
    decide (t.id ∈ revertedKernels) && t.parentKeyId = parentKeyId).foldl
    (fun s t => s.saveTxLogEntry (revertEntry now t) parentKeyId) s

/-- The batch of `apply_api_outputs`. A chain lower than the last refresh changes nothing. -/
def applyApiOutputs (K : Keychain F E) (walletOutputs : List (WalletOutput E))
    (apiOutputs : E → Option (Nat × Nat)) (revertedKernels : List Nat) (height : Nat)
    (parentKeyId : Identifier) (now : Nat) (s : Store E) : Except Error (Unit × Store E) := do
  if height < s.confirmedHeight parentKeyId then
    return ((), s)
  let s ← walletOutputs.foldlM
    (fun s v => applyApiOutput K apiOutputs revertedKernels height parentKeyId now v s) s
  let s := revertTxs revertedKernels parentKeyId now s
  return ((), s.saveLastConfirmedHeight parentKeyId height)

/-- Delete coinbase outputs that were never mined. -/
def cleanOldUnconfirmed (height : Nat) (s : Store E) : Store E :=
  if height < 50 then s
  else
    (s.iter.filter fun o =>
      o.status = .Unconfirmed && decide (o.height > 0) && decide (o.height < height - 50)
        && o.isCoinbase).foldl (fun s o => s.delete o.keyId none) s

def refreshOutputState (env : Env F E) (height : Nat) (parentKeyId : Identifier)
    (updateAll : Bool) : WalletM F E Unit := do
  let w ← Eff.read
  let walletOutputs := env.walletOutputOrder.apply
    (mapWalletOutputs env.keychain w.store parentKeyId updateAll)
  let apiOutputs ← ask fun t => (env.node t).getOutputsFromNode (walletOutputs.map Prod.fst)
  let revertedKernels ← findRevertedKernels env walletOutputs apiOutputs parentKeyId
  let now ← utcNow env
  batch (applyApiOutputs env.keychain walletOutputs apiOutputs revertedKernels height
    parentKeyId now)
  commit (cleanOldUnconfirmed height)

/-- Refresh the outputs of an account from the node. -/
def refreshOutputs (env : Env F E) (parentKeyId : Identifier) (updateAll : Bool) :
    WalletM F E Unit := do
  let (height, _) ← getChainTip env
  refreshOutputState env height parentKeyId updateAll

/-! ## Cancelling -/

/-- Delete the outputs not seen on chain, make locked ones spendable again. -/
def cancelOutput (s : Store E) (o : OutputData E) : Store E :=
  let s := if o.status = .Unconfirmed ∨ o.status = .Reverted then s.delete o.keyId o.mmrIndex else s
  if o.status = .Locked then s.save { o with status := .Unspent } else s

def cancelledType : TxLogEntryType → TxLogEntryType
  | .TxSent => .TxSentCancelled
  | .TxReceived | .TxReverted => .TxReceivedCancelled
  | t => t

def cancelTxAndOutputs (tx : TxLogEntry E) (outputs : List (OutputData E))
    (parentKeyId : Identifier) (s : Store E) : Store E :=
  (outputs.foldl cancelOutput s).saveTxLogEntry { tx with txType := cancelledType tx.txType }
    parentKeyId

/-! ## Totals -/

structure WalletInfo where
  lastConfirmedHeight : Nat
  minimumConfirmations : Nat
  total : Nat
  amountAwaitingFinalization : Nat
  amountAwaitingConfirmation : Nat
  amountImmature : Nat
  amountLocked : Nat
  amountCurrentlySpendable : Nat
  amountReverted : Nat
deriving DecidableEq

/-- The class of total a record counts towards. -/
inductive Bucket
  | unspent | immature | awaitingFinalization | unconfirmed | locked | reverted | none
deriving DecidableEq

def bucketOf (currentHeight minimumConfirmations : Nat) (o : OutputData E) : Bucket :=
  match o.status with
  | .Unspent =>
      if o.isCoinbase ∧ o.lockHeight > currentHeight then .immature
      else if o.numConfirmations currentHeight < minimumConfirmations then .unconfirmed
      else .unspent
  | .Unconfirmed =>
      if o.isCoinbase then .none
      else if minimumConfirmations = 0 then .unconfirmed
      else .awaitingFinalization
  | .Locked => .locked
  | .Reverted => .reverted
  | .Spent => .none

/-- Summary totals of an account at the height of its last refresh. -/
def retrieveInfo (s : Store E) (parentKeyId : Identifier) (minimumConfirmations : Nat) :
    WalletInfo :=
  let currentHeight := s.confirmedHeight parentKeyId
  let outputs := s.iter.filter fun o => o.rootKeyId = parentKeyId
  let sum := fun b => Selection.sumValues (outputs.filter fun o =>
    bucketOf currentHeight minimumConfirmations o = b)
  { lastConfirmedHeight := currentHeight
    minimumConfirmations := minimumConfirmations
    total := u64 (sum .unspent + sum .unconfirmed + sum .immature)
    amountAwaitingFinalization := sum .awaitingFinalization
    amountAwaitingConfirmation := sum .unconfirmed
    amountImmature := sum .immature
    amountLocked := sum .locked
    amountCurrentlySpendable := sum .unspent
    amountReverted := sum .reverted }

/-! ## Coinbase -/

/-- The key of a coinbase output: the one asked for if the wallet has a record
of it, else the next key of the active account. -/
def coinbaseKey (keyId : Option Identifier) : WalletM F E Identifier := do
  let w ← Eff.read
  match keyId with
  | some keyId =>
      match w.store.get keyId none with
      | .ok existing => return existing.keyId
      | .error _ => nextChild
  | none => nextChild

/-- Build a coinbase output and record it for the active account. -/
def buildCoinbase (env : Env F E) (blockFees : BlockFees) :
    WalletM F E (Output E × Identifier) := do
  let height := blockFees.height
  let lockHeight := u64 (height + env.consensus.coinbaseMaturity)
  let w ← Eff.read
  let parentKeyId := w.parentKeyId
  let keyId ← coinbaseKey blockFees.keyId
  let amount := env.consensus.reward blockFees.fees
  commit fun s => s.save
    (Selection.unconfirmedOutput env.keychain parentKeyId keyId amount height lockHeight true none)
  return (⟨.Coinbase, env.keychain.commit amount keyId, env.keychain.rangeProof amount keyId⟩, keyId)

end Updater

end GrinWallet
