import GrinWallet.Exchange.Finalize
import GrinWallet.Exchange.Receive

/-! # Finalizing that fails

A finalization writes nothing before it has found the log record to complete,
unless it locks late. So a call that fails leaves the wallet as it was, and a
transaction whose log records are all cancelled stays as it is, however often it
is finalized.
-/

namespace GrinWallet

open Effect WalletBackend OrderedTable

variable {F E : Type} [CommRing F] [AddCommGroup E] [Module F E] [DecidableEq E]

namespace Tx

variable {env : Env F E} {c : Context E} {s : Slate F E} {invoiced : Bool}
  {w w' : WalletBackend F E}

omit [CommRing F] [AddCommGroup E] [Module F E] [DecidableEq E] in
theorem finalizedEntry_slateId {store : Store E} {slateId : Uuid} {t : TxLogEntry E}
    (h : finalizedEntry store slateId invoiced = some t) :
    t ∈ store.txLogIter ∧ t.txSlateId = some slateId ∧
      (t.txType = .TxSent ∧ invoiced = false ∨ t.txType = .TxReceived ∧ invoiced = true) := by
  have hmem := List.mem_of_find?_eq_some h
  obtain ⟨hlog, -, -, hid, -⟩ := Updater.mem_retrieveTxs.mp hmem
  have htype := List.find?_some h
  exact ⟨hlog, hid _ rfl, by simpa using htype⟩

omit [CommRing F] [Module F E] in
/-- The record of a finalized transaction is completed whole or not at all. -/
theorem updateStoredTx_error {e : Error} (h : updateStoredTx env c s invoiced w = (.error e, w')) :
    w' = w := by
  have hrun := Eff.read_bind_eq_error.mp h
  cases hfind : finalizedEntry w.store s.id invoiced with
  | none =>
      simp only [hfind] at hrun
      cases hrun
      rfl
  | some t =>
      simp only [hfind] at hrun
      obtain ⟨-, hw⟩ | ⟨excess, -, h₁⟩ := Eff.ofExcept_bind_eq_error.mp hrun
      · exact hw
      obtain ⟨-, hw⟩ | ⟨file, -, h₂⟩ := Eff.ofExcept_bind_eq_error.mp h₁
      · exact hw
      obtain ⟨-, hw⟩ | ⟨tx, -, h₃⟩ := Eff.ofExcept_bind_eq_error.mp h₂
      · exact hw
      cases h₃

omit [CommRing F] [Module F E] in
/-- A completed record keeps its slate. -/
theorem updateStoredTx_eq_ok {u : Unit} (h : updateStoredTx env c s invoiced w = (.ok u, w')) :
    ∃ t tx excess, finalizedEntry w.store s.id invoiced = some t ∧ s.tx = some tx ∧
      s.calcExcess = .ok excess ∧ w' = { w with
        storedTxs := Function.update w.storedTxs s.id (some tx)
        store := w.store.saveTxLogEntry
          (completedEntry env.keychain w.parentKeyId c s excess t) t.parentKeyId } := by
  obtain ⟨w₀, w₁, h₁, hrun⟩ := Eff.bind_eq_ok.mp h
  obtain ⟨rfl, rfl⟩ := Eff.read_eq_ok.mp h₁
  cases hfind : finalizedEntry w₁.store s.id invoiced with
  | none =>
      simp only [hfind] at hrun
      cases hrun
  | some t =>
      simp only [hfind] at hrun
      obtain ⟨excess, w₂, h₂, hr₂⟩ := Eff.bind_eq_ok.mp hrun
      obtain ⟨file, w₃, h₃, hr₃⟩ := Eff.bind_eq_ok.mp hr₂
      obtain ⟨tx, w₄, h₄, hr₄⟩ := Eff.bind_eq_ok.mp hr₃
      obtain ⟨hexcess, rfl⟩ := Eff.ofExcept_eq_ok.mp h₂
      obtain ⟨hfile, rfl⟩ := Eff.ofExcept_eq_ok.mp h₃
      obtain ⟨htx, rfl⟩ := Eff.ofExcept_eq_ok.mp h₄
      rw [(finalizedEntry_slateId hfind).2.1] at hfile
      cases hfile
      cases hr₄
      exact ⟨t, tx, excess, rfl, Slate.txOrErr_eq_ok.mp htx, hexcess, rfl⟩

omit [CommRing F] [Module F E] in
/-- Once its record is completed, a finalization ends well. -/
theorem close_ok (h : updateStoredTx env c s invoiced w = (.ok (), w')) (p : Identifier)
    (sl : Slate F E) (hid : sl.id = s.id) :
    ∃ store, updateTxSlateState p sl (w'.store.deletePrivateContext s.id) = .ok ((), store) := by
  obtain ⟨t, tx, excess, hfind, -, -, rfl⟩ := updateStoredTx_eq_ok h
  refine Foreign.updateTxSlateState_ok _ _ ⟨completedEntry env.keychain w.parentKeyId c s excess t, ?_, ?_⟩
  · exact List.mem_map.mpr ⟨(t.parentKeyId, _), Table.mem_put.mpr (.inl rfl), rfl⟩
  · rw [hid]
    exact (finalizedEntry_slateId hfind).2.1

end Tx

namespace Foreign

variable {env : Env F E} {s : Slate F E} {c : Context E} {w w' : WalletBackend F E} {e : Error}

omit [CommRing F] [Module F E] in
/-- What follows the completed record does not fail. -/
theorem finish_not_error {invoiced : Bool} {p : Identifier} {r : Slate F E}
    {m : WalletBackend F E} (h : Tx.updateStoredTx env c s invoiced w = (.ok (), w'))
    (hid : r.id = s.id)
    (hrun : (do
      batch (updateTxSlateState p r)
      return r : WalletM F E (Slate F E))
        { w' with store := w'.store.deletePrivateContext s.id } = (.error e, m)) : False := by
  obtain ⟨store, hstate⟩ := Tx.close_ok h p _ hid
  rw [Eff.run_bind_ok (batch_eq_ok.mpr ⟨store, hstate, rfl⟩)] at hrun
  cases hrun

theorem finalizeInvoice_error (h : finalizeInvoice env s c w = (.error e, w')) : w' = w := by
  have h₀ := Eff.read_bind_eq_error.mp h
  obtain ⟨-, hw⟩ | ⟨s₁, -, h₁⟩ := Eff.ofExcept_bind_eq_error.mp h₀
  · exact hw
  obtain ⟨-, hw⟩ | ⟨s₂, -, h₂⟩ := Eff.ofExcept_bind_eq_error.mp h₁
  · exact hw
  obtain h₃ | ⟨u, w₁, h₃, h₄⟩ := Eff.bind_eq_error.mp h₂
  · exact Tx.updateStoredTx_error h₃
  · exact (finish_not_error (r := { s₂ with state := .Invoice3, amount := 0 }) h₃ rfl h₄).elim

/-- A send that does not lock late leaves no trace of a failure. -/
theorem finalizeStandard_error (hlate : c.lateLockArgs = none)
    (h : finalizeStandard env s c w = (.error e, w')) : w' = w := by
  have h₀ := Eff.read_bind_eq_error.mp h
  rw [Eff.run_bind_ok (lockedContext_none hlate)] at h₀
  have h₁ := Eff.read_bind_eq_error.mp h₀
  obtain ⟨-, hw⟩ | ⟨s₁, -, h₂⟩ := Eff.ofExcept_bind_eq_error.mp h₁
  · exact hw
  obtain ⟨-, hw⟩ | ⟨s₂, -, h₃⟩ := Eff.ofExcept_bind_eq_error.mp h₂
  · exact hw
  obtain ⟨-, hw⟩ | ⟨u, -, h₄⟩ := Eff.ofExcept_bind_eq_error.mp h₃
  · exact hw
  obtain h₅ | ⟨u, w₁, h₅, h₆⟩ := Eff.bind_eq_error.mp h₄
  · exact Tx.updateStoredTx_error h₅
  · exact (finish_not_error (r := { s₂ with state := .Standard3, amount := 0 }) h₅ rfl h₆).elim

omit [CommRing F] [AddCommGroup E] [Module F E] [DecidableEq E] in
theorem restored_id [CommRing F] [AddCommGroup E] [Module F E] [DecidableEq E] {K : Keychain F E}
    {C : Consensus F E} {store : Store E} {s₁ s₂ : Slate F E} {c c' : Context E} {updateFee : Bool}
    (hrep : Selection.repopulateTx K store s c updateFee = .ok s₁)
    (hcomp : Tx.completeTx K C s₁ c' = .ok s₂) : s₂.id = s.id := by
  obtain ⟨_, _, _, -, -, -, rfl⟩ := Slate.repopulateTx_eq_ok hrep
  obtain ⟨_, _, _, _, _, -, -, -, rfl⟩ := Slate.completeTx_eq_ok hcomp
  rfl

/-- A finalized invoice has a received payment to complete. -/
theorem finalizeInvoice_found {s' : Slate F E} (h : finalizeInvoice env s c w = (.ok s', w')) :
    ∃ t, Tx.finalizedEntry w.store s.id true = some t := by
  obtain ⟨wr, w₁, h₁, h₂⟩ := Eff.bind_eq_ok.mp h
  obtain ⟨s₁, w₂, hrep, h₃⟩ := Eff.bind_eq_ok.mp h₂
  obtain ⟨s₂, w₃, hcomp, h₄⟩ := Eff.bind_eq_ok.mp h₃
  obtain ⟨_, w₄, h₅, h₆⟩ := Eff.bind_eq_ok.mp h₄
  obtain ⟨rfl, rfl⟩ := Eff.read_eq_ok.mp h₁
  obtain ⟨hrestored, rfl⟩ := Eff.ofExcept_eq_ok.mp hrep
  obtain ⟨hcompleted, rfl⟩ := Eff.ofExcept_eq_ok.mp hcomp
  obtain ⟨t, _, _, hfind, -⟩ := Tx.updateStoredTx_eq_ok h₅
  rw [restored_id hrestored hcompleted] at hfind
  exact ⟨t, hfind⟩

/-- A finalized send has a record to complete, once its inputs are locked. -/
theorem finalizeStandard_found {s' : Slate F E} (h : finalizeStandard env s c w = (.ok s', w')) :
    ∃ c' w₁ t, lockedContext env s c w.parentKeyId w = (.ok c', w₁) ∧
      Tx.finalizedEntry w₁.store s.id false = some t := by
  obtain ⟨wr, w₁, h₁, h₂⟩ := Eff.bind_eq_ok.mp h
  obtain ⟨c', w₂, hlock, h₃⟩ := Eff.bind_eq_ok.mp h₂
  obtain ⟨wr', w₃, h₄, h₅⟩ := Eff.bind_eq_ok.mp h₃
  obtain ⟨s₁, w₄, hrep, h₆⟩ := Eff.bind_eq_ok.mp h₅
  obtain ⟨s₂, w₅, hcomp, h₇⟩ := Eff.bind_eq_ok.mp h₆
  obtain ⟨_, w₆, h₈, h₉⟩ := Eff.bind_eq_ok.mp h₇
  obtain ⟨_, w₇, h₁₀, h₁₁⟩ := Eff.bind_eq_ok.mp h₉
  obtain ⟨rfl, rfl⟩ := Eff.read_eq_ok.mp h₁
  obtain ⟨rfl, rfl⟩ := Eff.read_eq_ok.mp h₄
  obtain ⟨hrestored, rfl⟩ := Eff.ofExcept_eq_ok.mp hrep
  obtain ⟨hcompleted, rfl⟩ := Eff.ofExcept_eq_ok.mp hcomp
  obtain ⟨-, rfl⟩ := Eff.ofExcept_eq_ok.mp h₈
  obtain ⟨t, _, _, hfind, -⟩ := Tx.updateStoredTx_eq_ok h₁₀
  rw [restored_id hrestored hcompleted] at hfind
  exact ⟨c', _, t, hlock, hfind⟩

end Foreign

/-! ## Cancelled transactions -/

/-- The wallet has records of the slate, and every one is cancelled. -/
structure AllCancelled (s : Store E) (slateId : Uuid) : Prop where
  recorded : ∃ t ∈ s.txLogIter, t.txSlateId = some slateId
  cancelled : ∀ t ∈ s.txLogIter, t.txSlateId = some slateId →
    t.txType = .TxSentCancelled ∨ t.txType = .TxReceivedCancelled

/-- The context stored for the slate, if any, selects no inputs at finalization. -/
def NotLateLocked (s : Store E) (slateId : Uuid) : Prop :=
  ∀ c, s.contexts slateId = some c → c.lateLockArgs = none

namespace Foreign

variable {env : Env F E} {s : Slate F E} {w : WalletBackend F E}

omit [CommRing F] [AddCommGroup E] [Module F E] [DecidableEq E] in
theorem finalizedEntry_cancelled {store : Store E} {slateId : Uuid} (h : AllCancelled store slateId)
    (invoiced : Bool) : Tx.finalizedEntry store slateId invoiced = none := by
  cases hfind : Tx.finalizedEntry store slateId invoiced with
  | none => rfl
  | some t =>
      obtain ⟨hmem, hid, htype⟩ := Tx.finalizedEntry_slateId hfind
      rcases h.cancelled t hmem hid with hc | hc <;> simp [hc] at htype

theorem finalizeByState_cancelled {c : Context E} (hc : AllCancelled w.store s.id)
    (hlate : c.lateLockArgs = none) : ∃ e, finalizeByState env s c w = (.error e, w) := by
  unfold finalizeByState
  cases hstate : s.state with
  | Invoice2 =>
      cases hrun : finalizeInvoice env s c w with
      | mk r w' =>
          cases r with
          | error e =>
              obtain rfl := finalizeInvoice_error hrun
              exact ⟨e, hrun⟩
          | ok s' =>
              obtain ⟨t, hfind⟩ := finalizeInvoice_found hrun
              rw [finalizedEntry_cancelled hc] at hfind
              cases hfind
  | Standard2 =>
      cases hrun : finalizeStandard env s c w with
      | mk r w' =>
          cases r with
          | error e =>
              obtain rfl := finalizeStandard_error hlate hrun
              exact ⟨e, hrun⟩
          | ok s' =>
              obtain ⟨c', w₁, t, hlock, hfind⟩ := finalizeStandard_found hrun
              rw [lockedContext_none hlate] at hlock
              cases hlock
              rw [finalizedEntry_cancelled hc] at hfind
              cases hfind
  | Unknown | Standard1 | Standard3 | Invoice1 | Invoice3 => exact ⟨.SlateState, rfl⟩

/-- A cancelled transaction is not finalized, and stays as it is. -/
theorem finalizeTx_cancelled (env : Env F E) (hc : AllCancelled w.store s.id)
    (hn : NotLateLocked w.store s.id) (post : Bool) :
    ∃ e, finalizeTx env s post w = (.error e, w) := by
  cases hget : w.store.getPrivateContext env.keychain s.id with
  | error e =>
      exact ⟨e, (Eff.run_bind_ok (Eff.run_read w)).trans
        (Eff.run_bind_error (congrArg (·, w) hget))⟩
  | ok c =>
      have hlate : c.lateLockArgs = none := by
        unfold Store.getPrivateContext at hget
        cases hstored : w.store.contexts s.id with
        | none =>
            rw [hstored] at hget
            cases hget
        | some c₀ =>
            rw [hstored] at hget
            cases hget
            exact hn c₀ hstored
      obtain ⟨e, hstep⟩ := finalizeByState_cancelled hc hlate
      by_cases httl : Owner.Expired w s
      · refine ⟨.TransactionExpired, (Eff.run_bind_ok (Eff.run_read w)).trans ?_⟩
        refine (Eff.run_bind_ok (Eff.ofExcept_eq_ok.mpr ⟨hget, rfl⟩)).trans ?_
        exact Eff.run_bind_error (Owner.run_checkTtl_expired httl)
      · refine ⟨e, (Eff.run_bind_ok (Eff.run_read w)).trans ?_⟩
        refine (Eff.run_bind_ok (Eff.ofExcept_eq_ok.mpr ⟨hget, rfl⟩)).trans ?_
        exact (Eff.run_bind_ok (Owner.run_checkTtl httl)).trans (Eff.run_bind_error hstep)

/-- Calls of `finalize_tx` one after the other: what each returned, and the wallet after all. -/
def finalizeAll (env : Env F E) : List (Slate F E × Bool) → WalletBackend F E →
    List (Except Error (Slate F E)) × WalletBackend F E
  | [], w => ([], w)
  | (s, post) :: calls, w =>
      let (r, w) := finalizeTx env s post w
      let (rs, w) := finalizeAll env calls w
      (r :: rs, w)

/-- A cancelled transaction is never finalized: every call fails, and the records
and the stored transaction stay as they were, unless a late lock is pending. -/
theorem cancelled_never_finalized (env : Env F E) (slateId : Uuid)
    (calls : List (Slate F E × Bool)) (w : WalletBackend F E)
    (hcalls : ∀ call ∈ calls, call.1.id = slateId) (hc : AllCancelled w.store slateId)
    (hn : NotLateLocked w.store slateId) :
    (∀ r ∈ (finalizeAll env calls w).1, r.isOk = false) ∧ (finalizeAll env calls w).2 = w := by
  induction calls with
  | nil => exact ⟨fun r hr => (List.not_mem_nil hr).elim, rfl⟩
  | cons call calls ih =>
      obtain ⟨s, post⟩ := call
      have hid : s.id = slateId := hcalls _ List.mem_cons_self
      subst hid
      obtain ⟨e, hrun⟩ := finalizeTx_cancelled env hc hn post
      obtain ⟨hrest, hsame⟩ := ih fun call hcall => hcalls call (List.mem_cons_of_mem _ hcall)
      simp only [finalizeAll, hrun]
      refine ⟨fun r hr => ?_, hsame⟩
      rcases List.mem_cons.mp hr with rfl | hr
      · rfl
      · exact hrest r hr

end Foreign

/-! ## A late-locked send to the same wallet -/

namespace SampleLateLock

open SampleSend (env)

/-- The wallet once it has cancelled the payment it received from itself. -/
def cancelled : WalletBackend ℤ (ℤ × ℤ) :=
  (batch (Tx.cancelTx sampleKeychain defaultPath (some 0) none) received.2).2

/-- The only record of the slate is cancelled, and the send is finalized after all:
its inputs are locked and a new record stands for it. -/
theorem cancelled_send_finalized :
    cancelled.store.txLogIter.map (fun t => (t.txSlateId, t.txType))
        = [(some offer.id, .TxReceivedCancelled)] ∧
      cancelled.store.iter.map (·.status) = [.Unspent] ∧
      (Foreign.finalizeTx env answer false cancelled).1.isOk = true ∧
      (Foreign.finalizeTx env answer false cancelled).2.store.txLogIter.map (fun t =>
          (t.txSlateId, t.txType)) = [(some offer.id, .TxReceivedCancelled), (some offer.id, .TxSent)] ∧
      (Foreign.finalizeTx env answer false cancelled).2.store.iter.map (·.status)
        = [.Locked, .Unconfirmed] := by
  refine ⟨?_, ?_, ?_, ?_, ?_⟩ <;> decide +kernel

end SampleLateLock

namespace SampleSend

/-- The sender's wallet once it has cancelled the send. -/
def cancelled : WalletBackend ℤ (ℤ × ℤ) :=
  (batch (Tx.cancelTx sampleKeychain defaultPath (some 0) none) locked).2

theorem cancelled_never_finalized_sample :
    (∀ r ∈ (Foreign.finalizeAll env [(answer (3, 4), true), (answer (3, 4), false)] cancelled).1,
        r.isOk = false) ∧
      (Foreign.finalizeAll env [(answer (3, 4), true), (answer (3, 4), false)] cancelled).2
        = cancelled := by
  have hlog : cancelled.store.txLogIter.map (fun t => (t.txSlateId, t.txType))
      = [(some offer.id, .TxSentCancelled)] := by decide +kernel
  have hids : ∀ call ∈ [(answer (3, 4), true), (answer (3, 4), false)], call.1.id = offer.id := by
    decide +kernel
  refine Foreign.cancelled_never_finalized env offer.id _ _ hids ⟨?_, ?_⟩ ?_
  · obtain ⟨t, ht⟩ := List.map_eq_singleton_iff.mp hlog
    exact ⟨t, by rw [ht.1]; exact List.mem_singleton_self t, (Prod.mk.inj ht.2).1⟩
  · intro t ht _
    have hmem := List.mem_map_of_mem (f := fun t => (t.txSlateId, t.txType)) ht
    rw [hlog, List.mem_singleton] at hmem
    exact .inl (Prod.mk.inj hmem).2
  · intro c hc
    have hnone : (cancelled.store.contexts offer.id).bind (·.lateLockArgs) = none := by
      decide +kernel
    rw [hc] at hnone
    exact hnone

end SampleSend

end GrinWallet
