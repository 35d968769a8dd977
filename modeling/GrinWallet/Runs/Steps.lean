import GrinWallet.Model.Sample

/-! # What a wallet process does under the lock

Every thread of a wallet process is made of the sections listed here, so an
invariant of all runs is a fact about each of them.
-/

namespace GrinWallet

open Effect WalletBackend Sections

variable {F E : Type} [CommRing F] [AddCommGroup E] [Module F E] [DecidableEq E]

/-- The labels of the sections that only read the tables. -/
inductive Hold.Reads : Hold F E → Prop
  | readActive : Reads .readActive
  | retrieve (started : Identifier) : Reads (.retrieve started)
  | kernelAccount (started : Identifier) : Reads (.kernelAccount started)
  | readScanned : Reads .readScanned
  | snapshot : Reads .snapshot

/-- A refresh of the active account, its failure taken as a value. -/
def refreshActive (env : Env F E) (updateAll : Bool) : WalletM F E Bool := do
  let w ← Eff.read
  let result ← Eff.attempt (Updater.refreshOutputs env w.parentKeyId updateAll)
  match result with
  | .ok _ => return true
  | .error _ => return false

omit [CommRing F] [AddCommGroup E] [Module F E] [DecidableEq E] in
theorem discard_state {α : Type} (x : WalletM F E α) (w : WalletBackend F E) :
    (discard x w).2 = (x w).2 := by
  rw [discard, Eff.run_bind]
  cases x w with
  | mk r m => cases r <;> rfl

/-- The cancellation of a transaction of the active account. -/
def cancelActive (env : Env F E) (txId : Option Nat) (txSlateId : Option Uuid) :
    WalletM F E Unit := do
  let w ← Eff.read
  batch (Tx.cancelTx env.keychain w.parentKeyId txId txSlateId)

/-- The sections of a wallet process. -/
inductive WalletSection (env : Env F E) : (β : Type) → Hold F E → WalletM F E β → Prop
  | call (c : ApiCall F E) : WalletSection env Unit (.call c) (c.run env)
  | read {label : Hold F E} (h : label.Reads) :
      WalletSection env (WalletBackend F E) label Eff.read
  | node {α : Type} (question : Nat → Except Error α) :
      WalletSection env α .node (ask question)
  | nodeAttempt {α : Type} (question : Nat → Except Error α) :
      WalletSection env (Except Error α) .node (Eff.attempt (ask question))
  | refresh (started : Option Identifier) (updateAll : Bool) :
      WalletSection env Bool (.refresh started updateAll) (refreshActive env updateAll)
  | confirmByKernel (started account : Identifier) (t : TxLogEntry E) (h : t.outstanding = true) :
      WalletSection env (TxLogEntry E) (.confirmByKernel started account t)
        (Owner.confirmByKernel env account t)
  | cancelEntry (o : OutputData E) :
      WalletSection env Unit (.cancelEntry o) (commit (Scan.cancelTxLogEntry o))
  | saveOutput (o : OutputData E) :
      WalletSection env Unit (.saveOutput o) (commit fun s => s.save o)
  | deleteOutput (o : OutputData E) :
      WalletSection env Unit (.deleteOutput o) (commit fun s => s.delete o.keyId o.mmrIndex)
  | restoreOutputs (chunk : List (OutputResult E)) :
      WalletSection env Unit (.restoreOutputs chunk) (do
        let now ← utcNow env
        commit fun s => chunk.foldl (Scan.restoreOutput now) s)
  | restorePaths (found : List (Identifier × Nat)) :
      WalletSection env Unit (.restorePaths found) (Scan.restorePaths found).run
  | saveScanned (info : ScannedBlockInfo) :
      WalletSection env Unit .saveScanned (commit fun s => s.saveLastScannedBlock info)
  | saveProgress (info : ScannedBlockInfo) :
      WalletSection env Unit .saveScanned
        (commit fun s => (s.saveLastScannedBlock info).saveInitStatus .InitComplete)
  | cancelExpired (started : Identifier) (t : TxLogEntry E) :
      WalletSection env Unit (.cancelExpired started t) (cancelActive env (some t.id) none)
  | cancelTx (txId : Option Nat) (txSlateId : Option Uuid) :
      WalletSection env Unit (.cancelTx txId txSlateId) (cancelActive env txId txSlateId)

/-- A thread of wallet sections. -/
abbrev WalletThread.Sectioned {α : Type} (env : Env F E) (t : WalletThread F E α) : Prop :=
  t.MadeOf (WalletSection env)

namespace Scan

variable {env : Env F E} {lastPart : List (Identifier × Nat) → WalletThread F E Unit}

omit [CommRing F] [AddCommGroup E] [Module F E] [DecidableEq E] in
/-- Reading the chain only asks the node. -/
theorem collectChainOutputs_made {S : (β : Type) → Hold F E → WalletM F E β → Prop}
    (hnode : ∀ (α : Type) (question : Nat → Except Error α), S α .node (ask question))
    (last fuel start : Nat) : (collectChainOutputs env last fuel start).MadeOf S := by
  induction fuel generalizing start with
  | zero => trivial
  | succ fuel ih =>
      refine (Thread.MadeOf.atomic (hnode _ _)).andThen fun page => ?_
      obtain ⟨highest, retrieved, outputs⟩ := page
      refine Thread.MadeOf.andThen (t := Thread.ofExcept _) ?_ fun found => ?_
      · cases identifyUtxoOutputs env.keychain env.consensus outputs <;> trivial
      · by_cases h : highest ≤ retrieved
        · simp only [if_pos h]
          trivial
        · simp only [if_neg h]
          exact (ih _).andThen fun r => trivial

section Repair

variable {S : (β : Type) → Hold F E → WalletM F E β → Prop}

omit [CommRing F] [AddCommGroup E] [Module F E] in
/-- A repair is made of its writes and its last part. -/
theorem repair_made
    (hcancel : ∀ o, S Unit (.cancelEntry o) (commit (cancelTxLogEntry o)))
    (hsave : ∀ o, S Unit (.saveOutput o) (commit fun s => s.save o))
    (hdelete : ∀ o, S Unit (.deleteOutput o) (commit fun s => s.delete o.keyId o.mmrIndex))
    (hrestore : ∀ chunk, S Unit (.restoreOutputs chunk) (do
      let now ← utcNow env
      commit fun s => chunk.foldl (restoreOutput now) s))
    (hlast : ∀ found, (lastPart found).MadeOf S) (all : Bool)
    (walletOutputs : List (Updater.OutputCommitMapping E)) (chainOuts : List (OutputResult E)) :
    (repair env lastPart all walletOutputs chainOuts).MadeOf S := by
  have hunspend : ∀ o, (unspendOutput (F := F) o).MadeOf S := fun o =>
    (Thread.MadeOf.atomic (hcancel _)).andThen fun _ => Thread.MadeOf.atomic (hsave _)
  have hmissing : ∀ os, (restoreMissingOutputs env os).MadeOf S := fun os =>
    (Thread.MadeOf.forEach fun chunk _ => Thread.MadeOf.atomic (hrestore chunk)).andThen
      fun _ => trivial
  refine (Thread.MadeOf.forEach fun o _ => hunspend o).andThen fun _ => ?_
  refine (hmissing _).andThen fun found => ?_
  cases all with
  | false => exact hlast _
  | true =>
      refine (Thread.MadeOf.forEach fun o _ => hunspend o).andThen fun _ => ?_
      refine Thread.MadeOf.andThen (Thread.MadeOf.forEach fun o _ => ?_) fun _ => hlast _
      exact (Thread.MadeOf.atomic (hcancel _)).andThen fun _ => Thread.MadeOf.atomic (hdelete _)

/-- A scan asks the node, reads the wallet once and repairs it. -/
theorem scanWith_made
    (hnode : ∀ (α : Type) (question : Nat → Except Error α), S α .node (ask question))
    (hread : S (WalletBackend F E) .snapshot Eff.read)
    (hrepair : ∀ all walletOutputs chainOuts,
      (repair env lastPart all walletOutputs chainOuts).MadeOf S) (fuel : Nat)
    (all : Bool) (batchStart batchEnd start stop : Nat) (range : Option (Nat × Nat)) :
    (scanWith env lastPart fuel all batchStart batchEnd start stop range).MadeOf S := by
  have htail : ∀ total : Nat × Nat,
      (do
        let pmmrRange ← askNode env fun n =>
          n.heightRangeToPmmrIndices batchStart (some batchEnd)
        let page ← collectChainOutputs env pmmrRange.2 fuel pmmrRange.1
        let w ← Thread.atomic .snapshot Eff.read
        let walletOutputs := Updater.retrieveOutputs env.keychain w.store true none none
        repair env lastPart all walletOutputs page.1
        return (⟨batchEnd, "", pmmrRange.1, page.2⟩, total) :
          WalletThread F E (ScannedBlockInfo × Nat × Nat)).MadeOf S := by
    intro total
    refine (Thread.MadeOf.atomic (hnode _ _)).andThen fun pmmr => ?_
    refine (collectChainOutputs_made hnode _ _ _).andThen fun page => ?_
    refine (Thread.MadeOf.atomic hread).andThen fun w => ?_
    exact (hrepair _ _ _).andThen fun _ => trivial
  cases range with
  | none => exact (Thread.MadeOf.atomic (hnode _ _)).andThen htail
  | some r => exact htail r

end Repair

theorem scanWith_sectioned (hlast : ∀ found, (lastPart found).Sectioned env) (fuel : Nat)
    (all : Bool) (batchStart batchEnd start stop : Nat) (range : Option (Nat × Nat)) :
    (scanWith env lastPart fuel all batchStart batchEnd start stop range).Sectioned env :=
  scanWith_made (fun _ question => .node question) (.read .snapshot)
    (repair_made (fun o => .cancelEntry o) (fun o => .saveOutput o) (fun o => .deleteOutput o)
      (fun chunk => .restoreOutputs chunk) hlast) fuel all batchStart batchEnd start stop range

end Scan

namespace Owner

variable {env : Env F E} {lastPart : List (Identifier × Nat) → WalletThread F E Unit}

section Update

variable {S : (β : Type) → Hold F E → WalletM F E β → Prop}

omit [CommRing F] [AddCommGroup E] [Module F E] [DecidableEq E] in
/-- Looking up records by kernel asks the node, and confirms records of the list. -/
theorem lookUpKernels_made
    (hattempt : ∀ (α : Type) (question : Nat → Except Error α),
      S (Except Error α) .node (Eff.attempt (ask question)))
    (started account : Identifier) (height : Nat) {txs : List (TxLogEntry E)}
    (h : ∀ t ∈ txs, S (TxLogEntry E) (.confirmByKernel started account t)
      (confirmByKernel env account t)) :
    (lookUpKernels env started account height txs).MadeOf S := by
  induction txs with
  | nil => trivial
  | cons tx txs ih =>
      have hrest := ih fun t ht => h t (List.mem_cons_of_mem _ ht)
      unfold lookUpKernels
      cases kernelToLookUp tx with
      | none => exact hrest.andThen fun _ => trivial
      | some excess =>
          refine (Thread.MadeOf.atomic (hattempt _ _)).andThen fun kernel => ?_
          cases kernel with
          | error e => trivial
          | ok found =>
              cases found with
              | none => exact hrest.andThen fun _ => trivial
              | some position =>
                  refine (Thread.MadeOf.atomic (h tx List.mem_cons_self)).andThen fun t => ?_
                  exact hrest.andThen fun _ => trivial

omit [CommRing F] [AddCommGroup E] [Module F E] [DecidableEq E] in
theorem updateTxsViaKernel_made (started : Identifier)
    (hread : S (WalletBackend F E) (.kernelAccount started) Eff.read)
    (hattempt : ∀ (α : Type) (question : Nat → Except Error α),
      S (Except Error α) .node (Eff.attempt (ask question)))
    {txs : List (TxLogEntry E)}
    (h : ∀ account, ∀ t ∈ txs, S (TxLogEntry E) (.confirmByKernel started account t)
      (confirmByKernel env account t)) : (updateTxsViaKernel env started txs).MadeOf S := by
  refine (Thread.MadeOf.atomic hread).andThen fun w => ?_
  refine (Thread.MadeOf.atomic (hattempt _ _)).andThen fun tip => ?_
  cases tip with
  | error e => trivial
  | ok tip => exact lookUpKernels_made hattempt _ _ _ (h _)

/-- Scanning batch after batch. -/
theorem scanBatches_made {fuel start : Nat} {all : Bool} {tip : Nat × String}
    {saveProgress : ScannedBlockInfo → Store E → Store E}
    (hscan : ∀ batchStart batchEnd range,
      (Scan.scanWith env lastPart fuel all batchStart batchEnd start tip.1 range).MadeOf S)
    (hsave : ∀ info, S Unit .saveScanned (commit (saveProgress info)))
    (hs : List Nat) (range : Option (Nat × Nat)) :
    (scanBatches env lastPart fuel all start tip saveProgress hs range).MadeOf S := by
  induction hs generalizing range with
  | nil => trivial
  | cons h hs ih =>
      refine (hscan _ _ _).andThen fun r => ?_
      obtain ⟨info, range⟩ := r
      exact (Thread.MadeOf.atomic (hsave _)).andThen fun _ => ih _

end Update

theorem updateWalletState_sectioned (hlast : ∀ found, (lastPart found).Sectioned env) (fuel : Nat)
    (all : Bool) : (updateWalletState env lastPart fuel all).Sectioned env := by
  refine (Thread.MadeOf.atomic (.read .readActive)).andThen fun w => ?_
  refine Thread.MadeOf.andThen (Thread.MadeOf.atomic (.refresh _ _)) fun updated => ?_
  cases updated with
  | false => trivial
  | true =>
      refine (Thread.MadeOf.atomic (.read (.retrieve _))).andThen fun w' => ?_
      refine (updateTxsViaKernel_made _ (.read (.kernelAccount _)) (fun _ question =>
        .nodeAttempt question) fun account t ht => ?_).andThen fun result => ?_
      · exact .confirmByKernel _ account t ((Updater.mem_retrieveTxs.mp ht).2.2.2.2 rfl)
      cases result with
      | none => trivial
      | some txs =>
          refine (Thread.MadeOf.atomic (.nodeAttempt _)).andThen fun tip => ?_
          cases tip with
          | error e => trivial
          | ok tip =>
              refine (Thread.MadeOf.atomic (.read .readScanned)).andThen fun w'' => ?_
              refine (scanBatches_made (fun _ _ _ => Scan.scanWith_sectioned hlast _ _ _ _ _ _ _)
                (fun info => .saveProgress info) _ _).andThen fun _ => ?_
              refine Thread.MadeOf.andThen (Thread.MadeOf.forEach fun t _ => ?_) fun _ => trivial
              exact Thread.MadeOf.atomic (.cancelExpired _ t)

end Owner

variable {env : Env F E} {lastPart : List (Identifier × Nat) → WalletThread F E Unit}

/-- Every program of a wallet process is made of the sections above. -/
theorem WalletProgram.sectioned (hlast : ∀ found, (lastPart found).Sectioned env)
    {t : WalletThread F E Unit} (h : WalletProgram env lastPart t) : t.Sectioned env := by
  cases h with
  | call c => exact Thread.MadeOf.atomic (.call c)
  | update fuel all =>
      exact (Owner.updateWalletState_sectioned hlast _ _).andThen fun _ => trivial
  | scan fuel start all =>
      refine Thread.MadeOf.andThen (Thread.MadeOf.atomic (.refresh none true)) fun _ => ?_
      refine (Thread.MadeOf.atomic (.node _)).andThen fun tip => ?_
      exact Owner.scanBatches_made (fun _ _ _ => Scan.scanWith_sectioned hlast _ _ _ _ _ _ _)
        (fun info => .saveScanned info) _ _
  | cancelTx fuel txId txSlateId =>
      refine (Owner.updateWalletState_sectioned hlast _ _).andThen fun updated => ?_
      cases updated with
      | false => trivial
      | true => exact Thread.MadeOf.atomic (.cancelTx txId txSlateId)

theorem lockedRestore_sectioned (found : List (Identifier × Nat)) :
    (Owner.lockedRestore (F := F) found).Sectioned env :=
  Thread.MadeOf.atomic (.restorePaths found)

/-- The configurations a wallet process reaches from a wallet, with its scans as
they take the lock, if every section taken is one allowed. -/
abbrev WalletReaches (env : Env F E) (allowed : Hold F E → WalletBackend F E → Prop)
    (w : WalletBackend F E) :=
  Reachable (WalletProgram env Owner.lockedRestore) allowed w

/-- An invariant each allowed section keeps holds in every run of a wallet process. -/
theorem WalletReaches.invariant {I : WalletBackend F E → Prop}
    {allowed : Hold F E → WalletBackend F E → Prop}
    (hstep : ∀ β label (body : WalletM F E β) w, WalletSection env β label body →
      allowed label w → I w → I (body w).2) {w : WalletBackend F E} (h₀ : I w)
    {c : Config (Hold F E) (WalletBackend F E) Error} (h : WalletReaches env allowed w c) :
    I c.state :=
  reachable_invariant (fun _ ht => ht.sectioned lockedRestore_sectioned) hstep h₀ h

end GrinWallet
