import GrinWallet.Lib.Sections
import GrinWallet.Model.Api

/-! # Scanning the chain

`scan` reads the outputs of a height range from the node, compares those of this
seed with a snapshot of the wallet's records and repairs the records one by one.
It takes the wallet lock for each repair and releases it in between, so it is a
thread of labelled sections; node calls are made without the lock. The section
at its end makes several commits: it is a parameter, so that a run can be cut
there too.
-/

namespace GrinWallet

open Effect WalletBackend Sections

/-- A chain output that belongs to this seed. -/
structure OutputResult (E : Type) where
  commit : E
  keyId : Identifier
  nChild : Nat
  mmrIndex : Nat
  value : Nat
  height : Nat
  lockHeight : Nat
  isCoinbase : Bool
deriving DecidableEq

/-- A call that holds the wallet lock from beginning to end. -/
inductive ApiCall (F E : Type)
  | initSendTx (args : InitTxArgs)
  | issueInvoiceTx (args : IssueInvoiceTxArgs)
  | processInvoiceTx (slate : Slate F E) (args : InitTxArgs)
  | txLockOutputs (slate : Slate F E)
  | receiveTx (slate : Slate F E) (destAcctName : Option Label)
  | finalizeTx (slate : Slate F E) (postAutomatically : Bool)
  | buildCoinbase (blockFees : BlockFees)
  | createAccountPath (label : Label)
  | setActiveAccount (label : Label)
  | setParentKeyId (id : Identifier)

/-- What a thread takes the wallet lock for. A run that began with some account
active carries that account along. -/
inductive Hold (F E : Type)
  | call (c : ApiCall F E)
  | readActive
  | refresh (started : Option Identifier) (updateAll : Bool)
  | retrieve (started : Identifier)
  | kernelAccount (started : Identifier)
  /-- A question to the node, asked without the lock. -/
  | node
  | confirmByKernel (started account : Identifier) (t : TxLogEntry E)
  | readScanned
  | snapshot
  | cancelEntry (o : OutputData E)
  | saveOutput (o : OutputData E)
  | restoreOutputs (outputs : List (OutputResult E))
  | deleteOutput (o : OutputData E)
  | restorePaths (found : List (Identifier × Nat))
  | saveScanned
  | cancelExpired (started : Identifier) (t : TxLogEntry E)
  | cancelTx (txId : Option Nat) (txSlateId : Option Uuid)

abbrev WalletThread (F E α : Type) := Thread (Hold F E) (WalletBackend F E) Error α

namespace Scan

variable {F E : Type} [CommRing F] [AddCommGroup E] [Module F E] [DecidableEq E]

/-- Ask the node a question outside the lock. -/
def askNode {α : Type} (env : Env F E) (question : NodeClient F E → Except Error α) :
    WalletThread F E α :=
  Thread.atomic .node (ask fun t => question (env.node t))

/-! ## Reading the chain -/

def weekHeight : Nat := 7 * 24 * 60

/-- Recognise one output of the chain: with the legacy proof builder where it
may be old enough, then with the current one. -/
def identifyOutput (K : Keychain F E) (C : Consensus F E) (o : ChainOutput E) :
    Except Error (Option (OutputResult E)) := do
  let infoLegacy ←
    if C.validHeaderVersion (o.height - 2 * weekHeight) 1 then K.rewind true o.commit o.proof
    else pure none
  let info ←
    match infoLegacy with
    | none => K.rewind false o.commit o.proof
    | some i => pure (some i)
  return info.map fun (amount, keyId) =>
    { commit := o.commit
      keyId := keyId
      nChild := keyId.lastPathIndex
      value := amount
      height := o.height
      lockHeight := if o.isCoinbase then u64 (o.height + C.coinbaseMaturity) else o.height
      isCoinbase := o.isCoinbase
      mmrIndex := o.mmrIndex }

def identifyUtxoOutputs (K : Keychain F E) (C : Consensus F E) (outputs : List (ChainOutput E)) :
    Except Error (List (OutputResult E)) := do
  let identified ← outputs.mapM (identifyOutput K C)
  return identified.filterMap id

/-- Read the outputs of an index range page by page, each page from after the
last index of the one before. The node decides when the range ends. -/
def collectChainOutputs (env : Env F E) (batchEndIndex : Nat) :
    Nat → Nat → WalletThread F E (List (OutputResult E) × Nat)
  | 0, _ => Thread.ofExcept (.error (.Node "the range does not end"))
  | fuel + 1, startIndex => do
      let (highestIndex, lastRetrievedIndex, outputs) ←
        askNode env fun n => n.getOutputsByPmmrIndex startIndex (some batchEndIndex) 1000
      let found ← Thread.ofExcept (identifyUtxoOutputs env.keychain env.consensus outputs)
      if highestIndex ≤ lastRetrievedIndex then
        return (found, lastRetrievedIndex)
      let (rest, last) ← collectChainOutputs env batchEndIndex fuel (u64 (lastRetrievedIndex + 1))
      return (found ++ rest, last)

/-! ## Repairing records -/

/-- Cancel the log record an output points at, in the account its key lies in. -/
def cancelTxLogEntry (output : OutputData E) (s : Store E) : Store E :=
  let parentKeyId := output.keyId.parentPath
  match output.txLogEntry with
  | none => s
  | some id =>
      match Updater.retrieveTxs s (some id) none (some parentKeyId) false with
      | [] => s
      | entry :: _ =>
          let txType := match entry.txType with
            | .TxSent => .TxSentCancelled
            | .TxReceived => .TxReceivedCancelled
            | t => t
          s.saveTxLogEntry { entry with txType := txType } parentKeyId

/-- Record the highest child number restored under an account. -/
def noteParent (parent : Identifier) (nChild : Nat) :
    List (Identifier × Nat) → List (Identifier × Nat)
  | [] => [(parent, nChild)]
  | (p, m) :: ps =>
      if p = parent then (p, if nChild ≥ m then nChild else m) :: ps
      else (p, m) :: noteParent parent nChild ps

/-- Restore one output: a confirmed log record and an unspent output record. -/
def restoreOutput (now : Nat) (s : Store E) (output : OutputResult E) : Store E :=
  let parentKeyId := output.keyId.parentPath
  let (logId, s) := s.nextTxLogId parentKeyId
  let entryType := if output.isCoinbase then .ConfirmedCoinbase else .TxReceived
  let t : TxLogEntry E := { (TxLogEntry.new parentKeyId entryType logId now : TxLogEntry E) with
    confirmed := true
    amountCredited := output.value
    numOutputs := 1
    confirmationTs := some now }
  (s.saveTxLogEntry t parentKeyId).save
    { rootKeyId := parentKeyId
      keyId := output.keyId
      nChild := output.nChild
      mmrIndex := some output.mmrIndex
      commit := some output.commit
      value := output.value
      status := .Unspent
      height := output.height
      lockHeight := output.lockHeight
      isCoinbase := output.isCoinbase
      txLogEntry := some logId }

/-- Cut a list into pieces of length `n`. -/
def chunks {α : Type} (n : Nat) : Nat → List α → List (List α)
  | 0, _ => []
  | fuel + 1, l => if l.isEmpty then [] else l.take n :: chunks n fuel (l.drop n)

def missingOutputsBatchSize : Nat := 1000

/-- Restore the missing outputs, one batch a chunk. -/
def restoreMissingOutputs (env : Env F E) (outputs : List (OutputResult E)) :
    WalletThread F E (List (Identifier × Nat)) := do
  Thread.forEach (chunks missingOutputsBatchSize outputs.length outputs) fun chunk =>
    Thread.atomic (.restoreOutputs chunk) (do
      let now ← utcNow env
      commit fun s => chunk.foldl (restoreOutput now) s)
  return outputs.foldl (fun found o => noteParent o.keyId.parentPath o.nChild found) []

/-- Write a record of the snapshot back as unspent, after cancelling the
transaction it points at. -/
def unspendOutput (o : OutputData E) : WalletThread F E Unit := do
  let o := { o with status := .Unspent }
  Thread.atomic (.cancelEntry o) (commit (cancelTxLogEntry o))
  Thread.atomic (.saveOutput o) (commit fun s => s.save o)

/-- Delete a record of the snapshot, after cancelling the transaction it points at. -/
def deleteUnconfirmedOutput (o : OutputData E) : WalletThread F E Unit := do
  Thread.atomic (.cancelEntry o) (commit (cancelTxLogEntry o))
  Thread.atomic (.deleteOutput o) (commit fun s => s.delete o.keyId o.mmrIndex)

/-- The label of a restored account. -/
def accountLabel (index : Nat) : Label := "account_".toList ++ (toString index).toList

/-- Raise the child index of an account above a restored child number. -/
def raiseChildIndex (path : Identifier) (maxChildIndex : Nat) (s : Store E) : Store E :=
  if maxChildIndex ≥ s.childIndex path then s.saveChildIndex path (u32 (maxChildIndex + 1)) else s

/-- Label the accounts found that have no label, and raise their child indices,
one commit after the other. -/
def restoreFound (accounts : List Identifier) :
    Nat → List (Identifier × Nat) → WalletThread F E Unit
  | _, [] => pure ()
  | acctIndex, (path, maxChildIndex) :: found => do
      if path ∈ accounts then
        Thread.atomic (.restorePaths [(path, maxChildIndex)])
          (commit (raiseChildIndex path maxChildIndex))
        restoreFound accounts acctIndex found
      else
        Thread.atomic (.restorePaths [(path, maxChildIndex)])
          (commit (Keys.setAcctPath (accountLabel acctIndex) path))
        Thread.atomic (.restorePaths [(path, maxChildIndex)])
          (commit (raiseChildIndex path maxChildIndex))
        restoreFound accounts (acctIndex + 1) found

def restorePaths (found : List (Identifier × Nat)) : WalletThread F E Unit := do
  let w ← Thread.atomic (.restorePaths found) Eff.read
  let accounts := w.store.acctPaths.rows.map (·.path)
  restoreFound accounts accounts.length found

/-- Compare the chain outputs with the snapshot and repair the wallet. -/
def repair (env : Env F E) (lastPart : List (Identifier × Nat) → WalletThread F E Unit)
    (deleteUnconfirmed : Bool) (walletOutputs : List (Updater.OutputCommitMapping E))
    (chainOuts : List (OutputResult E)) : WalletThread F E Unit := do
  let matched := fun deffo : OutputResult E => walletOutputs.find? fun wo => wo.commit = deffo.commit
  let matchedAs := fun status => chainOuts.filterMap fun deffo =>
    ((matched deffo).map (·.output)).filter fun o => o.status = status
  let missing := chainOuts.filter fun deffo => (matched deffo).isNone
  Thread.forEach (matchedAs .Spent) unspendOutput
  let foundParents ← restoreMissingOutputs env missing
  if deleteUnconfirmed then
    Thread.forEach (matchedAs .Locked) unspendOutput
    Thread.forEach ((walletOutputs.map (·.output)).filter fun o => o.status = .Unconfirmed)
      deleteUnconfirmedOutput
  lastPart (env.foundParentOrder.apply foundParents)

/-- Scan a height range, the last part of the repair as given. -/
def scanWith (env : Env F E) (lastPart : List (Identifier × Nat) → WalletThread F E Unit)
    (fuel : Nat) (deleteUnconfirmed : Bool)
    (batchStartHeight batchEndHeight startHeight endHeight : Nat)
    (totalPmmrRange : Option (Nat × Nat)) :
    WalletThread F E (ScannedBlockInfo × Nat × Nat) := do
  let totalPmmrRange ←
    match totalPmmrRange with
    | some r => pure r
    | none => askNode env fun n => n.heightRangeToPmmrIndices startHeight (some endHeight)
  let pmmrRange ← askNode env fun n =>
    n.heightRangeToPmmrIndices batchStartHeight (some batchEndHeight)
  let (chainOuts, lastIndex) ← collectChainOutputs env pmmrRange.2 fuel pmmrRange.1
  let w ← Thread.atomic .snapshot Eff.read
  let walletOutputs := Updater.retrieveOutputs env.keychain w.store true none none
  repair env lastPart deleteUnconfirmed walletOutputs chainOuts
  return (⟨batchEndHeight, "", pmmrRange.1, lastIndex⟩, totalPmmrRange)

end Scan

end GrinWallet
