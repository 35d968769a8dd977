import GrinWallet.Model.PaymentProof
import GrinWallet.Runs.Coherence
import GrinWallet.Runs.Receipts

/-! # The sends in the log

What is said of the records of sends is kept by every section that writes a record
back, cancels it or confirms it, and by the calls that record something else. What is
left are the two calls that record a send or complete its record: the lock and the
finalization.
-/

namespace GrinWallet

open Effect WalletBackend OrderedTable Sections

variable {F E : Type}

namespace TxLogEntry

/-- A record of a send, whether it was cancelled or not. -/
def Sent (t : TxLogEntry E) : Prop := t.txType = .TxSent ∨ t.txType = .TxSentCancelled

instance (t : TxLogEntry E) : Decidable t.Sent := inferInstanceAs (Decidable (_ ∨ _))

/-- A record of the same send; it is of no send that was not one. -/
structure SameSend (t t' : TxLogEntry E) : Prop where
  sent : t'.Sent → t.Sent
  live : t'.txType = .TxSent → t.txType = .TxSent
  txSlateId : t'.txSlateId = t.txSlateId
  paymentProof : t'.paymentProof = t.paymentProof
  kernelExcess : t'.kernelExcess = t.kernelExcess
  amountCredited : t'.amountCredited = t.amountCredited
  amountDebited : t'.amountDebited = t.amountDebited
  fee : t'.fee = t.fee

/-- A property of sends: it does not change with the rest of a record, and asks nothing of
the record of a receipt. -/
structure OfSend (P : TxLogEntry E → Prop) : Prop where
  of_same : ∀ {t t'}, P t → t.SameSend t' → P t'
  of_not_sent : ∀ {t}, ¬ t.Sent → P t

end TxLogEntry

open TxLogEntry

variable {P : TxLogEntry E → Prop}

namespace Store

/-- Every record of the log has a property. -/
def Logs (P : TxLogEntry E → Prop) (s : Store E) : Prop := ∀ t ∈ s.txLogIter, P t

variable {s s' : Store E}

theorem Logs.save {t : TxLogEntry E} (hs : s.Logs P) (ht : P t) (p : Identifier) :
    (s.saveTxLogEntry t p).Logs P := by
  intro r hr
  rcases mem_txLogIter_save hr with rfl | hr
  · exact ht
  · exact hs r hr

theorem Logs.of_log (hs : s.Logs P) (h : s'.txLog = s.txLog) : s'.Logs P := by
  intro t ht
  apply hs
  rw [txLogIter, ← h]
  exact ht

theorem Logs.put {t : TxLogEntry E} {p : Identifier} (hs : s.Logs P) (ht : P t)
    (h : s'.txLog = s.txLog.put (p, t)) : s'.Logs P :=
  (hs.save ht p).of_log h

theorem logs_ofRecords : OfRecords (Logs (E := E) P) := fun _ _ _ hlog _ h => h.of_log hlog

end Store

/-- Whatever happens, the records of the log have the property if they did before. -/
abbrev KeepsLog {α : Type} (P : TxLogEntry E → Prop) (x : WalletM F E α) : Prop :=
  Eff.Moves (Eff.Keeps (Tables (Store.Logs P))) x

theorem OnlyKeys.keepsLog {α : Type} {x : WalletM F E α} (h : Eff.Moves OnlyKeys x) :
    KeepsLog P x :=
  h.mono (OnlyKeys.keeps fun _ _ hs => hs)

variable [CommRing F] [AddCommGroup E] [Module F E] [DecidableEq E]

/-! ## The calls -/

section Calls

variable {env : Env F E}

omit [CommRing F] [AddCommGroup E] [Module F E] [DecidableEq E] in
/-- The new state of a slate is filed with its record. -/
theorem updateTxSlateState_keepsLog (hP : OfSend P) (p : Identifier) (slate : Slate F E) :
    KeepsLog P (batch (F := F) (updateTxSlateState p slate)) := by
  refine batch_tables fun s u s' hs h => ?_
  obtain ⟨t, hfind, rfl⟩ := updateTxSlateState_eq_ok h
  have hsame : t.SameSend { t with txSlateState := some slate.state } :=
    ⟨fun h => h, fun h => h, rfl, rfl, rfl, rfl, rfl, rfl⟩
  exact hs.save (hP.of_same (hs t (List.mem_of_find?_eq_some hfind)) hsame) p

namespace Selection

/-- The record of a receipt is not of a send. -/
theorem buildRecipientOutput_keepsLog (hP : OfSend P) (slate : Slate F E) (height : Nat)
    (p : Identifier) :
    KeepsLog P (buildRecipientOutput env slate height p) ∧
      Eff.Yields (buildRecipientOutput env slate height p) fun r => ¬ r.2.2.2.Sent := by
  have hnot : ∀ (slate : Slate F E) (logId now : Nat),
      ¬ (receivedEntry slate height p logId now).Sent := by
    simp [TxLogEntry.Sent, receivedEntry, TxLogEntry.new]
  constructor
  · refine (OnlyKeys.keepsLog nextChild_onlyKeys).bind fun key => ?_
    refine (Eff.Moves.ofExcept _).bind fun slate' => ?_
    refine (OnlyKeys.keepsLog (newContext_onlyKeys env p)).bind fun c => ?_
    refine (OnlyKeys.keepsLog (ask_onlyKeys _)).bind fun now => ?_
    refine Eff.Moves.bind (batch_tables fun s t s' hs h => ?_) fun t => Eff.Moves.pure _
    cases h
    exact hs.put (hP.of_not_sent (hnot slate' _ now)) rfl
  · refine Eff.Yields.bind_of_forall fun key => Eff.Yields.bind_of_forall fun slate' =>
      Eff.Yields.bind_of_forall fun c => Eff.Yields.bind_of_forall fun now => ?_
    refine Eff.Yields.bind (P := fun t => ¬ t.Sent) ?_ fun t ht => Eff.Yields.pure ht
    intro m t m' h
    obtain ⟨s', hbatch, -⟩ := batch_eq_ok.mp h
    cases hbatch
    exact hnot slate' _ now

end Selection

namespace Tx

/-- Receiving records no send. -/
theorem addOutputToSlate_keepsLog (hP : OfSend P) (slate : Slate F E) (height : Nat)
    (p : Identifier) (isInitiator : Bool) :
    KeepsLog P (addOutputToSlate env slate height p isInitiator) := by
  obtain ⟨hkeeps, hyields⟩ := Selection.buildRecipientOutput_keepsLog hP slate
    height p
  refine hkeeps.bind_of_yields hyields fun r hr => ?_
  obtain ⟨slate', keyId, context, tx⟩ := r
  cases isInitiator with
  | true => exact Eff.Moves.pure _
  | false =>
      refine (Eff.Moves.ofExcept _).bind fun slate'' => (Eff.Moves.ofExcept _).bind fun excess => ?_
      refine (commit_tables fun s hs => ?_).bind fun _ => Eff.Moves.pure _
      exact hs.save (hP.of_not_sent
        (t := { tx with kernelExcess := some excess }) hr) p

end Tx

theorem Owner.issueInvoiceTx_keepsLog (hP : OfSend P) (args : IssueInvoiceTxArgs) :
    KeepsLog P (issueInvoiceTx env args) := by
  refine (OnlyKeys.keepsLog (accountOrActive_onlyKeys _)).bind fun p => ?_
  refine (OnlyKeys.keepsLog (Tx.newTxSlate_onlyKeys _ _ _ _ _)).bind fun slate => ?_
  refine (OnlyKeys.keepsLog (ask_onlyKeys _)).bind fun tip => ?_
  obtain ⟨height, hash⟩ := tip
  refine (Tx.addOutputToSlate_keepsLog hP _ _ _ _).bind fun r => ?_
  obtain ⟨slate', context⟩ := r
  exact (commit_tables fun s hs => hs.of_log rfl).bind fun _ => Eff.Moves.pure _

theorem Foreign.receiveTx_keepsLog (hP : OfSend P) (slate : Slate F E) (dest : Option Label) :
    KeepsLog P (receiveTx env slate dest) := by
  refine Eff.Moves.bind (Eff.Moves.read.bind fun w => Eff.Moves.throwIf _) fun _ => ?_
  refine (OnlyKeys.keepsLog (accountOrActive_onlyKeys _)).bind fun p => ?_
  refine Eff.Moves.read.bind fun w => (Eff.Moves.throwIf _).bind fun _ => ?_
  refine (Tx.addOutputToSlate_keepsLog hP _ _ _ _).bind fun r => ?_
  obtain ⟨slate', context⟩ := r
  refine (Eff.Moves.ofExcept _).bind fun excess => ?_
  exact (updateTxSlateState_keepsLog hP _ _).bind fun _ => Eff.Moves.pure _

namespace Foreign

/-- Finalizing an invoice completes no record of a send. -/
theorem finalizeInvoice_keepsLog (hP : OfSend P) (slate : Slate F E) (c : Context E) :
    KeepsLog P (finalizeInvoice env slate c) := by
  refine Eff.Moves.read.bind fun w => (Eff.Moves.ofExcept _).bind fun sl => ?_
  refine (Eff.Moves.ofExcept _).bind fun sl' => ?_
  refine Eff.Moves.bind (fun m hm => ?_) fun _ => ?_
  · cases hrun : Tx.updateStoredTx env c sl' true m with
    | mk r m' =>
        cases r with
        | error e =>
            obtain rfl := Tx.updateStoredTx_error hrun
            exact hm
        | ok u =>
            obtain ⟨t, tx, excess, hfind, -, -, rfl⟩ := Tx.updateStoredTx_eq_ok hrun
            obtain ⟨-, -, htype⟩ := Tx.finalizedEntry_slateId hfind
            have htype' : t.txType = .TxReceived := by simpa using htype
            exact Store.Logs.save hm
              (hP.of_not_sent (by simp [TxLogEntry.Sent, Tx.completedEntry, htype'])) _
  refine (commit_tables fun s hs => hs.of_log rfl).bind fun _ => Eff.Moves.read.bind fun w' => ?_
  exact (updateTxSlateState_keepsLog hP _ _).bind fun _ => Eff.Moves.pure _

end Foreign

end Calls

/-! ## Refreshing, cancelling and restoring -/

section Maintain

variable {env : Env F E} {s s' : Store E}

omit [CommRing F] [AddCommGroup E] [Module F E] [DecidableEq E] in
theorem Updater.confirmEntry_sameSend (t : TxLogEntry E) (now : Nat) :
    t.SameSend (confirmEntry t now) := by
  by_cases hr : t.txType = .TxReverted
  · refine ⟨fun hsent => ?_, fun hsent => ?_, ?_, ?_, ?_, ?_, ?_, ?_⟩ <;>
      simp_all [confirmEntry, TxLogEntry.updateConfirmationTs, TxLogEntry.Sent]
  · refine ⟨fun hsent => ?_, fun hsent => ?_, ?_, ?_, ?_, ?_, ?_, ?_⟩ <;>
      simp_all [confirmEntry, TxLogEntry.updateConfirmationTs, TxLogEntry.Sent]

omit [CommRing F] [Module F E] in
/-- Refreshing one record confirms a transaction, or records a coinbase output. -/
theorem Updater.applyApiOutput_keepsLog (hP : OfSend P) {chain : Keychain F E}
    {api : E → Option (Nat × Nat)} {reverted : List Nat} {height now : Nat} {account : Identifier} {v : WalletOutput E}
    (hs : s.Logs P) (h : applyApiOutput chain api reverted height account now v s = .ok s') :
    s'.Logs P := by
  obtain ⟨commit, vid, vmmr, logId, wasUnspent⟩ := v
  unfold applyApiOutput at h
  cases hget : s.get vid vmmr with
  | error e =>
      simp only [hget] at h
      cases h
      exact hs
  | ok output =>
      simp only [hget] at h
      cases hapi : api commit with
      | none =>
          simp only [hapi] at h
          obtain ⟨o, -, heq⟩ := applyAbsent_eq output reverted s
          rw [heq] at h
          cases h
          exact hs.of_log rfl
      | some position =>
          obtain ⟨apiHeight, index⟩ := position
          simp only [hapi] at h
          obtain ⟨o, s₂, -, -, rfl, hlog | ⟨-, id, t, ht, hlog⟩ | ⟨-, -, t, ht, hlog⟩⟩ :=
            applyPresent_eq_ok h
          · exact hs.of_log hlog
          · have htype : t.txType = .ConfirmedCoinbase := by
              unfold coinbaseEntry at ht
              by_cases hzero : commit - output.value • chain.H = 0
              · simp only [if_pos hzero] at ht
                cases ht
              · simp only [if_neg hzero] at ht
                cases ht
                rfl
            exact hs.put (hP.of_not_sent (by simp [TxLogEntry.Sent, htype])) hlog
          · exact hs.put (hP.of_same (hs t (List.mem_of_find?_eq_some ht)) (confirmEntry_sameSend t now))
              hlog

omit [CommRing F] [AddCommGroup E] [Module F E] [DecidableEq E] in
theorem Updater.revertTxs_keepsLog (hP : OfSend P) (hs : s.Logs P) (reverted : List Nat)
    (account : Identifier) (now : Nat) : (revertTxs reverted account now s).Logs P := by
  unfold revertTxs
  generalize (s.txLogIter.filter fun t =>
    decide (t.id ∈ reverted) && t.parentKeyId = account) = ts
  induction ts generalizing s with
  | nil => exact hs
  | cons t ts ih =>
      exact ih (hs.save (hP.of_not_sent
        (by simp [TxLogEntry.Sent, revertEntry])) account)

theorem Updater.refreshOutputs_keepsLog (hP : OfSend P) (env : Env F E) (account : Identifier)
    (all : Bool) : KeepsLog P (refreshOutputs env account all) := by
  refine (OnlyKeys.keepsLog (ask_onlyKeys _)).bind fun tip => ?_
  obtain ⟨height, hash⟩ := tip
  refine Eff.Moves.read.bind fun w => ?_
  refine (OnlyKeys.keepsLog (ask_onlyKeys _)).bind fun api => ?_
  refine Eff.Moves.bind (fun m hm => ?_) fun reverted => ?_
  · have hstore := findRevertedKernels_store env m.store (env.walletOutputOrder.apply
      (mapWalletOutputs env.keychain w.store account all)) api account m rfl
    exact Store.Logs.of_log hm (congrArg Store.txLog hstore)
  refine (OnlyKeys.keepsLog (ask_onlyKeys _)).bind fun now => ?_
  refine Eff.Moves.bind (batch_tables fun s u s' hs h => ?_) fun _ =>
    commit_tables fun s hs => hs.of_log (cleanOldUnconfirmed_txLog _ _)
  unfold applyApiOutputs at h
  by_cases hlow : height < s.confirmedHeight account
  · rw [if_pos hlow] at h
    cases h
    exact hs
  · rw [if_neg hlow] at h
    obtain ⟨-, -, h⟩ := except_bind_eq_ok.mp h
    obtain ⟨s₂, hloop, h⟩ := except_bind_eq_ok.mp h
    cases h
    have hkept : s₂.Logs P := foldlM_induction (J := fun _ s => s.Logs P)
      (fun _ _ _ _ hJ hrun => applyApiOutput_keepsLog hP hJ hrun) hs hloop
    exact (revertTxs_keepsLog hP hkept _ _ _).of_log rfl

omit [CommRing F] [AddCommGroup E] [Module F E] [DecidableEq E] in
theorem Scan.cancelTxLogEntry_keepsLog (hP : OfSend P) {o : OutputData E} (hs : s.Logs P) :
    (cancelTxLogEntry o s).Logs P := by
  unfold cancelTxLogEntry
  cases o.txLogEntry with
  | none => exact hs
  | some id =>
      simp only
      cases htxs : Updater.retrieveTxs s (some id) none (some o.keyId.parentPath) false with
      | nil => exact hs
      | cons t rest =>
          have hmem := (Updater.mem_retrieveTxs.mp (htxs ▸ List.mem_cons_self)).1
          refine hs.save ?_ _
          refine hP.of_same (hs t hmem) ⟨fun hsent => ?_, fun hsent => ?_, rfl, rfl, rfl, rfl, rfl, rfl⟩
          · cases htype : t.txType <;> simp_all [TxLogEntry.Sent]
          · cases htype : t.txType <;> simp_all

omit [CommRing F] [AddCommGroup E] [Module F E] [DecidableEq E] in
theorem Scan.restoreOutputs_keepsLog (hP : OfSend P) {now : Nat} (hs : s.Logs P)
    (os : List (OutputResult E)) : (os.foldl (restoreOutput now) s).Logs P := by
  induction os generalizing s with
  | nil => exact hs
  | cons o os ih =>
      refine ih (Store.Logs.of_log
        (s := (s.nextTxLogId o.keyId.parentPath).2.saveTxLogEntry _ _)
        (Store.Logs.save (hs.of_log rfl)
          (hP.of_not_sent ?_) o.keyId.parentPath) rfl)
      cases o.isCoinbase <;> simp [TxLogEntry.Sent, TxLogEntry.new]

omit [DecidableEq E] in
theorem cancelActive_keepsLog (hP : OfSend P) (env : Env F E) (txId : Option Nat)
    (txSlateId : Option Uuid) : KeepsLog P (cancelActive env txId txSlateId) := by
  refine Eff.Moves.read.bind fun w => batch_tables fun s u s' hs h => ?_
  obtain ⟨tx, htxs, htype, -, rfl⟩ := Tx.cancelTx_eq_ok h
  obtain ⟨outputs, hrest⟩ := Updater.foldl_cancelOutput_rest
    ((Updater.retrieveOutputs env.keychain s false (some tx.id) (some w.parentKeyId)).map
      (·.output)) s
  unfold Updater.cancelTxAndOutputs
  rw [hrest]
  have hmem := (Updater.mem_retrieveTxs.mp (htxs ▸ List.mem_cons_self)).1
  have hsame : tx.SameSend { tx with txType := Updater.cancelledType tx.txType } := by
    refine ⟨fun hsent => ?_, fun hsent => ?_, rfl, rfl, rfl, rfl, rfl, rfl⟩ <;>
      rcases htype with htype | htype | htype <;>
        simp_all [TxLogEntry.Sent, Updater.cancelledType]
  have hs' : ({ s with outputs := outputs } : Store E).Logs P := hs.of_log rfl
  exact hs'.save (hP.of_same (hs tx hmem) hsame) _

end Maintain

/-! ## Every section -/

section Sections

variable {env : Env F E} {w : WalletBackend F E} {slate : Slate F E} {post : Bool}

/-- A finalization does what the finalization of a send does, or records no send. -/
theorem Foreign.finalizeTx_keepsLog (hP : OfSend P) (hw : w.store.Logs P)
    (hsend : ∀ c, slate.state = .Standard2 →
      w.store.getPrivateContext env.keychain slate.id = .ok c →
        (finalizeStandard env slate c w).2.store.Logs P) :
    (finalizeTx env slate post w).2.store.Logs P := by
  refine Eff.Triple.final (P := fun m => m = w) (I := Tables (Store.Logs P)) ?_ rfl
  have hstay : ∀ m : WalletBackend F E, m = w → m.store.Logs P := by
    rintro m rfl
    exact hw
  refine Eff.Triple.read_bind_self fun w₀ hw₀ => ?_
  subst hw₀
  refine Eff.Triple.bind (Q := fun c m => m = w₀ ∧
      w₀.store.getPrivateContext env.keychain slate.id = .ok c)
    (Eff.Triple.ofExcept (fun c m h hm => ⟨hm, h⟩) hstay) fun c => ?_
  refine Eff.Triple.bind (Q := fun _ m => m = w₀ ∧
      w₀.store.getPrivateContext env.keychain slate.id = .ok c) ?_ fun _ => ?_
  · rintro m ⟨rfl, hget⟩
    by_cases hexpired : Owner.Expired m slate
    · rw [Owner.run_checkTtl_expired hexpired]
      exact hw
    · rw [Owner.run_checkTtl hexpired]
      exact ⟨rfl, hget⟩
  refine Eff.Triple.bind (Q := fun _ => Tables (Store.Logs P)) ?_ fun sl => ?_
  · rintro m ⟨rfl, hget⟩
    have hfinal : (finalizeByState env slate c m).2.store.Logs P := by
      cases hstate : slate.state with
      | Invoice2 =>
          simp only [finalizeByState, hstate]
          exact finalizeInvoice_keepsLog hP slate c m hw
      | Standard2 =>
          simp only [finalizeByState, hstate]
          exact hsend c hstate hget
      | _ =>
          simp only [finalizeByState, hstate]
          exact hw
    cases hrun : finalizeByState env slate c m with
    | mk r m' =>
        rw [hrun] at hfinal
        cases r <;> exact hfinal
  refine Eff.Moves.keepsTriple ((Eff.Moves.runIf ((Eff.Moves.ofExcept _).bind fun tx => ?_)).bind
    fun _ => Eff.Moves.pure _)
  exact OnlyKeys.keepsLog (ask_onlyKeys _)

/-- A call keeps the log, if it does so when it locks or finalizes a send. -/
theorem call_keepsLog {c : ApiCall F E} (hP : OfSend P)
    (hlock : ∀ slate, c = .txLockOutputs slate → (Owner.txLockOutputs env slate w).2.store.Logs P)
    (hsend : ∀ slate post c', c = .finalizeTx slate post → slate.state = .Standard2 →
      w.store.getPrivateContext env.keychain slate.id = .ok c' →
        (Foreign.finalizeStandard env slate c' w).2.store.Logs P)
    (hw : w.store.Logs P) : (c.run env w).2.store.Logs P := by
  have hmoves : ∀ {α : Type} {x : WalletM F E α}, KeepsLog P x →
      (discard x w).2.store.Logs P := by
    intro α x hx
    rw [discard_state]
    exact hx w hw
  have htriple : ∀ {α : Type} {x : WalletM F E α}, Eff.Triple (fun m => m = w) x
        (fun _ => Tables (Store.Logs P)) (Tables (Store.Logs P)) →
      (discard x w).2.store.Logs P := by
    intro α x hx
    rw [discard_state]
    exact hx.final rfl
  have hrefresh : ∀ account tick, Eff.Triple (At w.store tick)
      (Updater.refreshOutputs env account false)
      (fun _ => Tables (Store.Logs P)) (Tables (Store.Logs P)) := by
    intro account tick
    refine (Updater.refreshOutputs_keepsLog hP env account false).keepsTriple.consequence
      (fun m hm => ?_) (fun _ _ h => h) fun _ h => h
    change m.store.Logs P
    rw [hm.store]
    exact hw
  cases c with
  | initSendTx args =>
      exact htriple (Owner.initSendTx_tables Store.logs_ofRecords hw args fun _ => hrefresh _ _)
  | issueInvoiceTx args => exact hmoves (Owner.issueInvoiceTx_keepsLog hP args)
  | processInvoiceTx slate args =>
      exact htriple (Owner.processInvoiceTx_tables Store.logs_ofRecords hw slate args
        fun _ => hrefresh _ _)
  | txLockOutputs slate => exact hlock slate rfl
  | receiveTx slate dest => exact hmoves (Foreign.receiveTx_keepsLog hP slate dest)
  | finalizeTx slate post =>
      change (discard (Foreign.finalizeTx env slate post) w).2.store.Logs P
      rw [discard_state]
      exact Foreign.finalizeTx_keepsLog hP hw fun c' hstate hget =>
        hsend slate post c' rfl hstate hget
  | buildCoinbase blockFees =>
      have hkey := Updater.coinbaseKey_onlyKeys (F := F) (E := E) blockFees.keyId
      refine hmoves ?_
      refine Eff.Moves.read.bind fun w' => (OnlyKeys.keepsLog hkey).bind fun key => ?_
      exact (commit_tables fun s hs => hs.of_log rfl).bind fun _ => Eff.Moves.pure _
  | createAccountPath label =>
      refine hmoves ?_
      refine Eff.Moves.read.bind fun w' => (Eff.Moves.throwIf _).bind fun _ => ?_
      exact (commit_tables fun s hs => hs.of_log rfl).bind fun _ => Eff.Moves.pure _
  | setActiveAccount label =>
      refine Eff.Moves.read.bind (R := Eff.Keeps (Tables (Store.Logs P))) (fun w' => ?_) w hw
      cases w'.store.acctPaths.rows.find? fun a => decide (a.label = label) with
      | none => exact Eff.Moves.throw _
      | some a => exact fun m hm => hm
  | setParentKeyId id => exact hw

/-- The sections whose effect on the log does not depend on the wallet: all but
the calls, with records found right when they were read. -/
def Hold.ReadRight (P : TxLogEntry E → Prop) : Hold F E → Prop
  | .call _ => False
  | .confirmByKernel _ _ t => P t
  | _ => True

/-- A section of that kind. -/
def LogSection (env : Env F E) (P : TxLogEntry E → Prop) (β : Type) (label : Hold F E)
    (body : WalletM F E β) : Prop :=
  WalletSection env β label body ∧ label.ReadRight P

theorem section_keepsLog {β : Type} {label : Hold F E} {body : WalletM F E β} (hP : OfSend P)
    (hsection : LogSection env P β label body) (hw : w.store.Logs P) :
    (body w).2.store.Logs P := by
  obtain ⟨hsection, hread⟩ := hsection
  cases hsection with
  | call c => exact hread.elim
  | read h => exact hw
  | node question => exact hw
  | nodeAttempt question => exact hw
  | refresh started all =>
      refine Eff.Moves.read.bind (R := Eff.Keeps (Tables (Store.Logs P))) (fun w' => ?_) w hw
      refine (Updater.refreshOutputs_keepsLog hP env _ _).attempt.bind fun result => ?_
      cases result <;> exact Eff.Moves.pure _
  | confirmByKernel started account t h =>
      have hsame : t.SameSend ({ t with confirmed := true }.updateConfirmationTs (env.now w.tick)) :=
        ⟨fun h => h, fun h => h, rfl, rfl, rfl, rfl, rfl, rfl⟩
      exact hw.save (hP.of_same hread hsame) account
  | cancelEntry o => exact Scan.cancelTxLogEntry_keepsLog hP hw
  | saveOutput o => exact hw.of_log rfl
  | deleteOutput o => exact hw.of_log rfl
  | restoreOutputs chunk =>
      refine Eff.Moves.bind (R := Eff.Keeps (Tables (Store.Logs P)))
        (fun m hm => hm) (fun now => commit_tables fun s hs => ?_) w hw
      exact Scan.restoreOutputs_keepsLog hP hs chunk
  | restorePaths found =>
      exact Scan.restorePaths_tables Store.logs_ofRecords found w hw
  | saveScanned info => exact hw.of_log rfl
  | saveProgress info => exact hw.of_log rfl
  | cancelExpired started t => exact cancelActive_keepsLog hP env _ _ w hw
  | cancelTx txId txSlateId => exact cancelActive_keepsLog hP env _ _ w hw

end Sections

/-! ## Every program -/

section Programs

variable {env : Env F E} {allowed : Hold F E → WalletBackend F E → Prop} {w : WalletBackend F E}

/-- Whatever the others do while the log has the property, the thread keeps it so, and
returns what it should. -/
abbrev LogSafe {α : Type} (P : TxLogEntry E → Prop)
    (allowed : Hold F E → WalletBackend F E → Prop) (Q : α → WalletBackend F E → Prop)
    (t : WalletThread F E α) (w : WalletBackend F E) : Prop :=
  t.Safe (Tables (Store.Logs P)) (fun _ _ => True) allowed (fun _ _ _ => True) Q w

theorem logSafe_of_made {α : Type} {t : WalletThread F E α} (env : Env F E) (hP : OfSend P)
    (h : t.MadeOf (LogSection env P)) (w : WalletBackend F E) :
    LogSafe P allowed (fun _ _ => True) t w :=
  h.safe (fun _ _ _ _ hsection _ hw => section_keepsLog hP hsection hw) w

theorem Scan.scanWith_readRight (fuel : Nat) (all : Bool) (batchStart batchEnd start stop : Nat)
    (range : Option (Nat × Nat)) :
    (scanWith env Owner.lockedRestore fuel all batchStart batchEnd start stop range).MadeOf
      (LogSection env P) := by
  refine scanWith_made (fun _ question => ⟨.node question, trivial⟩) ⟨.read .snapshot, trivial⟩
    (repair_made (fun o => ⟨.cancelEntry o, trivial⟩) (fun o => ⟨.saveOutput o, trivial⟩)
      (fun o => ⟨.deleteOutput o, trivial⟩) (fun chunk => ⟨.restoreOutputs chunk, trivial⟩)
      fun found => ?_) fuel all batchStart batchEnd start stop range
  exact Thread.MadeOf.atomic ⟨.restorePaths found, trivial⟩

namespace Owner

/-- An update confirms records it has read, which had the property then. -/
theorem updateWalletState_logSafe (hP : OfSend P) (fuel : Nat) (all : Bool) :
    LogSafe P allowed (fun _ _ => True) (updateWalletState env lockedRestore fuel all) w := by
  refine (logSafe_of_made env hP (Thread.MadeOf.atomic ⟨.read .readActive, trivial⟩)
    _).andThen fun w _ _ => ?_
  refine (logSafe_of_made env hP (Thread.MadeOf.atomic ⟨.refresh _ all, trivial⟩) _).andThen
    fun updated _ _ => ?_
  cases updated with
  | false => trivial
  | true =>
      refine Thread.Safe.andThen (Q := fun w' _ => w'.store.Logs P)
        (Thread.Safe.atomic fun m _ hm _ => ⟨trivial, hm, fun w' hw' => ?_⟩) fun w' m hw' =>
        logSafe_of_made env hP ?_ m
      · cases hw'
        exact hm
      have hattempt : ∀ (α : Type) (question : Nat → Except Error α),
          LogSection env P (Except Error α) .node (Eff.attempt (ask question)) :=
        fun _ question => ⟨.nodeAttempt question, trivial⟩
      refine (updateTxsViaKernel_made _ ⟨.read (.kernelAccount _), trivial⟩ hattempt
        fun account t ht => ?_).andThen fun result => ?_
      · obtain ⟨hmem, -, -, -, houtstanding⟩ := Updater.mem_retrieveTxs.mp ht
        exact ⟨.confirmByKernel _ account t (houtstanding rfl), hw' t hmem⟩
      cases result with
      | none => trivial
      | some txs =>
          refine (Thread.MadeOf.atomic (hattempt _ _)).andThen fun tip => ?_
          cases tip with
          | error e => trivial
          | ok tip =>
              refine (Thread.MadeOf.atomic ⟨.read .readScanned, trivial⟩).andThen fun w'' => ?_
              refine (scanBatches_made (fun _ _ _ => Scan.scanWith_readRight _ _ _ _ _ _ _)
                (fun info => ⟨.saveProgress info, trivial⟩) _ _).andThen fun _ => ?_
              refine Thread.MadeOf.andThen (Thread.MadeOf.forEach fun t _ => ?_) fun _ => trivial
              exact Thread.MadeOf.atomic ⟨.cancelExpired _ t, trivial⟩

theorem refreshIf_logSafe (hP : OfSend P) (fuel : Nat) (refresh : Bool) :
    LogSafe P allowed (fun _ _ => True) (refreshIf env lockedRestore fuel refresh) w := by
  cases refresh with
  | false => trivial
  | true => exact updateWalletState_logSafe hP fuel false

end Owner

/-- Every program of a wallet process keeps the log, if the calls it may take do. -/
theorem WalletProgram.logSafe (hP : OfSend P)
    (hcall : ∀ (c : ApiCall F E) (m : WalletBackend F E), allowed (.call c) m → m.store.Logs P →
      (c.run env m).2.store.Logs P)
    {t : WalletThread F E Unit} (h : WalletProgram env Owner.lockedRestore t) :
    LogSafe P allowed (fun _ _ => True) t w := by
  cases h with
  | call c =>
      exact Thread.Safe.atomic fun m _ hm hallow =>
        ⟨trivial, hcall c m hallow hm, fun _ _ => trivial⟩
  | update fuel all =>
      exact (Owner.updateWalletState_logSafe hP fuel all).andThen fun _ _ _ => trivial
  | scan fuel start all =>
      refine logSafe_of_made env hP ?_ w
      refine Thread.MadeOf.andThen (Thread.MadeOf.atomic ⟨.refresh none true, trivial⟩) fun _ => ?_
      refine (Thread.MadeOf.atomic ⟨.node _, trivial⟩).andThen fun tip => ?_
      exact Owner.scanBatches_made (fun _ _ _ => Scan.scanWith_readRight _ _ _ _ _ _ _)
        (fun info => ⟨.saveScanned info, trivial⟩) _ _
  | cancelTx fuel txId txSlateId =>
      refine (Owner.updateWalletState_logSafe hP fuel false).andThen fun updated m _ => ?_
      cases updated with
      | false => trivial
      | true =>
          exact logSafe_of_made env hP
            (Thread.MadeOf.atomic ⟨.cancelTx txId txSlateId, trivial⟩) m

/-- A property of sends that the allowed calls keep holds of every record in every run. -/
theorem logs_of_reachable (hP : OfSend P)
    (hcall : ∀ (c : ApiCall F E) (m : WalletBackend F E), allowed (.call c) m → m.store.Logs P →
      (c.run env m).2.store.Logs P)
    (hw : w.store.Logs P) {c : Config (Hold F E) (WalletBackend F E) Error}
    (h : WalletReaches env allowed w c) : c.state.store.Logs P := by
  have hrefl : Std.Refl fun _ _ : WalletBackend F E => True := ⟨fun _ => trivial⟩
  have htrans : IsTrans (WalletBackend F E) fun _ _ => True := ⟨fun _ _ _ _ _ => trivial⟩
  have hsafe : PoolSafe (Tables (Store.Logs P)) (fun _ _ => True) allowed (fun _ _ _ => True) c :=
    reachable_safe (I := Tables (Store.Logs P)) (R := fun _ _ => True)
      (fun t ht m _ => WalletProgram.logSafe hP hcall ht) (fun _ _ _ _ _ => trivial) hw h
  exact hsafe.1

end Programs

end GrinWallet
