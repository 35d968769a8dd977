import GrinWallet.Model.Scan

/-! # Owner calls that release the lock

`update_wallet_state`, the owner's `scan` and `cancel_tx` take the wallet lock
several times, and read again at each time which account is active. They are
threads; `WalletProgram` lists everything a wallet process may start.
-/

namespace GrinWallet

open Effect WalletBackend Sections

namespace Owner

variable {F E : Type} [CommRing F] [AddCommGroup E] [Module F E] [DecidableEq E]

/-- Refresh the outputs of the active account, reporting whether that worked. -/
def updateOutputs (env : Env F E) (started : Option Identifier) (updateAll : Bool) :
    WalletThread F E Bool :=
  Thread.atomic (.refresh started updateAll) (do
    let w ← Eff.read
    let result ← Eff.attempt (Updater.refreshOutputs env w.parentKeyId updateAll)
    match result with
    | .ok _ => return true
    | .error _ => return false)

/-- Whether a record is looked up by its kernel, and by which. -/
def kernelToLookUp (tx : TxLogEntry E) : Option E :=
  if tx.confirmed then none
  else if tx.amountDebited ≠ 0 ∧ tx.amountCredited ≠ 0 then none
  else tx.kernelExcess

/-- Save a record as confirmed by its kernel. -/
def confirmByKernel (env : Env F E) (account : Identifier) (tx : TxLogEntry E) :
    WalletM F E (TxLogEntry E) := do
  let now ← utcNow env
  let tx := { tx with confirmed := true }.updateConfirmationTs now
  commit fun s => s.saveTxLogEntry tx account
  return tx

/-- Look the records up by kernel in order; nothing is returned when the node fails. -/
def lookUpKernels (env : Env F E) (started account : Identifier) (height : Nat) :
    List (TxLogEntry E) → WalletThread F E (Option (List (TxLogEntry E)))
  | [] => pure (some [])
  | tx :: txs =>
      match kernelToLookUp tx with
      | none => do
          let rest ← lookUpKernels env started account height txs
          return rest.map (tx :: ·)
      | some excess => do
          let kernel ← Thread.atomic .node (Eff.attempt
            (ask fun t => (env.node t).getKernel excess tx.kernelLookupMinHeight (some height)))
          match kernel with
          | .error _ => return none
          | .ok none => do
              let rest ← lookUpKernels env started account height txs
              return rest.map (tx :: ·)
          | .ok (some _) => do
              let tx ← Thread.atomic (.confirmByKernel started account tx)
                (confirmByKernel env account tx)
              let rest ← lookUpKernels env started account height txs
              return rest.map (tx :: ·)

/-- Update transactions that need to be validated via kernel lookup. -/
def updateTxsViaKernel (env : Env F E) (started : Identifier) (txs : List (TxLogEntry E)) :
    WalletThread F E (Option (List (TxLogEntry E))) := do
  let w ← Thread.atomic (.kernelAccount started) Eff.read
  let tip ← Thread.atomic .node (Eff.attempt (getChainTip env))
  match tip with
  | .error _ => return none
  | .ok (height, _) => lookUpKernels env started w.parentKeyId height txs

def reorgRescanWindow : Nat := 24 * 60 * 2

/-- The start heights of the batches of a scan, in steps of 10001 below `tip + 1`. -/
def heightBatches (startHeight tip : Nat) : List Nat :=
  (List.range ((u64 (tip + 1) - startHeight + 10000) / 10001)).map fun i => startHeight + i * 10001

/-- The last height of the batch that starts at `h`. -/
def batchEnd (tip h : Nat) : Nat := min tip (u64 (h + 10000))

/-- Scan batch after batch, saving the progress made after each. -/
def scanBatches (env : Env F E) (lastPart : List (Identifier × Nat) → WalletThread F E Unit)
    (fuel : Nat) (deleteUnconfirmed : Bool) (startHeight : Nat) (tip : Nat × String)
    (saveProgress : ScannedBlockInfo → Store E → Store E) :
    List Nat → Option (Nat × Nat) → WalletThread F E Unit
  | [], _ => pure ()
  | h :: hs, totalPmmrRange => do
      let batchEndHeight := batchEnd tip.1 h
      let (info, range) ← Scan.scanWith env lastPart fuel deleteUnconfirmed h batchEndHeight
        startHeight tip.1 totalPmmrRange
      let info := { info with hash := if batchEndHeight = tip.1 then tip.2 else "" }
      Thread.atomic .saveScanned (commit (saveProgress info))
      scanBatches env lastPart fuel deleteUnconfirmed startHeight tip saveProgress hs (some range)

/-- How a scan takes its last part: under one lock. -/
def lockedRestore (found : List (Identifier × Nat)) : WalletThread F E Unit :=
  Thread.atomic (.restorePaths found) (Scan.restorePaths found).run

/-- The owner's scan: refresh the active account, then scan up to the tip. -/
def scan (env : Env F E) (lastPart : List (Identifier × Nat) → WalletThread F E Unit)
    (fuel : Nat) (startHeight : Option Nat) (deleteUnconfirmed : Bool) :
    WalletThread F E Unit := do
  let _ ← updateOutputs env none true
  let tip ← Thread.atomic .node (getChainTip env)
  let startHeight := startHeight.getD 1
  scanBatches env lastPart fuel deleteUnconfirmed startHeight tip
    (fun info s => s.saveLastScannedBlock info) (heightBatches startHeight tip.1) none

/-- Cancel the transactions of a run whose time to live has passed. -/
def cancelExpired (env : Env F E) (started : Identifier) (tip : Nat) (txs : List (TxLogEntry E)) :
    WalletThread F E Unit :=
  Thread.forEach (txs.filter fun tx => tx.ttlCutoffHeight.any (tip ≥ ·)) fun tx =>
    Thread.atomic (.cancelExpired started tx) (do
      let w ← Eff.read
      batch (Tx.cancelTx env.keychain w.parentKeyId (some tx.id) none))

/-- The block a scan of this wallet has reached. -/
def scannedBlock (s : Store E) (tip : Nat × String) : ScannedBlockInfo :=
  match s.initStatus.getD .InitComplete with
  | .InitNoScanning => ⟨tip.1, tip.2, 0, 0⟩
  | _ => s.lastScannedBlock.getD ⟨0, "", 0, 0⟩

/-- Update outputs and transactions from the node, scan back a bit, and cancel
what has expired. False when the node could not be reached. -/
def updateWalletState (env : Env F E)
    (lastPart : List (Identifier × Nat) → WalletThread F E Unit) (fuel : Nat) (updateAll : Bool) :
    WalletThread F E Bool := do
  let w ← Thread.atomic .readActive Eff.read
  let parentKeyId := w.parentKeyId
  let updated ← updateOutputs env (some parentKeyId) updateAll
  if !updated then
    return false
  let w ← Thread.atomic (.retrieve parentKeyId) Eff.read
  let txs := Updater.retrieveTxs w.store none none (some parentKeyId) true
  let result ← updateTxsViaKernel env parentKeyId txs
  match result with
  | none => return false
  | some txs =>
      let tip ← Thread.atomic .node (Eff.attempt (getChainTip env))
      match tip with
      | .error _ => return false
      | .ok tip =>
          let w ← Thread.atomic .readScanned Eff.read
          let startHeight := (scannedBlock w.store tip).height - reorgRescanWindow
          scanBatches env lastPart fuel false startHeight tip
            (fun info s => (s.saveLastScannedBlock info).saveInitStatus .InitComplete)
            (heightBatches startHeight tip.1) none
          cancelExpired env parentKeyId tip.1 txs
          return true

/-- Cancel a transaction, once the wallet is up to date. -/
def cancelTx (env : Env F E) (lastPart : List (Identifier × Nat) → WalletThread F E Unit)
    (fuel : Nat) (txId : Option Nat) (txSlateId : Option Uuid) : WalletThread F E Unit := do
  let updated ← updateWalletState env lastPart fuel false
  if !updated then
    Thread.ofExcept (.error
      (.TransactionCancellationError "Can't contact running Grin node. Not Cancelling."))
  else
    Thread.atomic (.cancelTx txId txSlateId) (do
      let w ← Eff.read
      batch (Tx.cancelTx env.keychain w.parentKeyId txId txSlateId))

end Owner

section Programs

variable {F E : Type} [CommRing F] [AddCommGroup E] [Module F E] [DecidableEq E]

/-- Run a computation for its effect. -/
def discard {σ ε α : Type} (x : Eff σ ε α) : Eff σ ε Unit := x >>= fun _ => pure ()

/-- What an API call does to the wallet. -/
def ApiCall.run (env : Env F E) : ApiCall F E → WalletM F E Unit
  | initSendTx args => discard (Owner.initSendTx env args)
  | issueInvoiceTx args => discard (Owner.issueInvoiceTx env args)
  | processInvoiceTx slate args => discard (Owner.processInvoiceTx env slate args)
  | txLockOutputs slate => Owner.txLockOutputs env slate
  | receiveTx slate destAcctName => discard (Foreign.receiveTx env slate destAcctName)
  | finalizeTx slate post => discard (Foreign.finalizeTx env slate post)
  | buildCoinbase blockFees => discard (Updater.buildCoinbase env blockFees)
  | createAccountPath label => discard (Keys.newAcctPath label)
  | setActiveAccount label => Owner.setActiveAccount label
  | setParentKeyId id => WalletBackend.setParentKeyId id

/-- The threads a wallet process may start. -/
inductive WalletProgram (env : Env F E)
    (lastPart : List (Identifier × Nat) → WalletThread F E Unit) : WalletThread F E Unit → Prop
  | call (c : ApiCall F E) : WalletProgram env lastPart (Thread.atomic (.call c) (c.run env))
  | update (fuel : Nat) (updateAll : Bool) :
      WalletProgram env lastPart
        ((Owner.updateWalletState env lastPart fuel updateAll).andThen fun _ => pure ())
  | scan (fuel : Nat) (startHeight : Option Nat) (deleteUnconfirmed : Bool) :
      WalletProgram env lastPart (Owner.scan env lastPart fuel startHeight deleteUnconfirmed)
  | cancelTx (fuel : Nat) (txId : Option Nat) (txSlateId : Option Uuid) :
      WalletProgram env lastPart (Owner.cancelTx env lastPart fuel txId txSlateId)

end Programs

end GrinWallet
