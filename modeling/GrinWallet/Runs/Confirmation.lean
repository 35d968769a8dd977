import GrinWallet.Runs.Frame
import GrinWallet.Runs.Refresh

/-! # Cancelled and confirmed records

The type of a log record and its confirmed flag are written by different
sections, each of which looks at one of the two. Which of them can make a
cancelled or reverted record a confirmed one, and that in a run without such a
section no record is both.
-/

namespace GrinWallet

open Effect WalletBackend OrderedTable Sections

variable {F E : Type}

namespace TxLogEntry

/-- The record of a cancelled transaction. -/
def Cancelled (t : TxLogEntry E) : Prop :=
  t.txType = .TxSentCancelled ∨ t.txType = .TxReceivedCancelled

/-- A confirmed record is neither cancelled nor reverted. -/
def Coherent (t : TxLogEntry E) : Prop :=
  t.confirmed = true → ¬ t.Cancelled ∧ t.txType ≠ .TxReverted

theorem coherent_of_unconfirmed {t : TxLogEntry E} (h : t.confirmed = false) : t.Coherent := by
  intro hc
  rw [h] at hc
  cases hc

end TxLogEntry

namespace Store

/-- Every log record is coherent. -/
def LogCoherent (s : Store E) : Prop := ∀ t ∈ s.txLogIter, t.Coherent

theorem mem_txLogIter {s : Store E} {t : TxLogEntry E} :
    t ∈ s.txLogIter ↔ ∃ p, (p, t) ∈ s.txLog := by
  simp [txLogIter]

theorem mem_txLogIter_save {s : Store E} {t r : TxLogEntry E} {p : Identifier}
    (h : t ∈ (s.saveTxLogEntry r p).txLogIter) : t = r ∨ t ∈ s.txLogIter := by
  obtain ⟨q, hq⟩ := mem_txLogIter.mp h
  rcases Table.mem_put.mp hq with heq | ⟨hq, -⟩
  · exact .inl (Prod.mk.inj heq).2
  · exact .inr (mem_txLogIter.mpr ⟨q, hq⟩)

theorem LogCoherent.save {s : Store E} {t : TxLogEntry E} (hs : s.LogCoherent) (ht : t.Coherent)
    (p : Identifier) : (s.saveTxLogEntry t p).LogCoherent := by
  intro r hr
  rcases mem_txLogIter_save hr with rfl | hr
  · exact ht
  · exact hs r hr

theorem LogCoherent.of_log {s s' : Store E} (hs : s.LogCoherent) (h : s'.txLog = s.txLog) :
    s'.LogCoherent := by
  intro t ht
  rw [txLogIter, h] at ht
  exact hs t ht

/-- The log record of an account an output points at: the first in key order. -/
def entryOf (s : Store E) (account : Identifier) (logId : Option Nat) : Option (TxLogEntry E) :=
  s.txLogIter.find? fun t => some t.id = logId ∧ t.parentKeyId = account

/-- The record an output points at is not cancelled. -/
def PointsAtLive (s : Store E) (account : Identifier) (logId : Option Nat) : Prop :=
  ∀ t, s.entryOf account logId = some t → ¬ t.Cancelled

theorem entryOf_eq_some {s : Store E} {account : Identifier} {logId : Option Nat}
    {t : TxLogEntry E} (h : s.entryOf account logId = some t) :
    ∃ p, (p, t) ∈ s.txLog ∧ some t.id = logId ∧ t.parentKeyId = account ∧
      ∀ row ∈ s.txLog, some row.2.id = logId → row.2.parentKeyId = account →
        TxLogRow.key (p, t) ≤ TxLogRow.key row := by
  unfold entryOf txLogIter at h
  rw [List.find?_map, Option.map_eq_some_iff] at h
  obtain ⟨⟨p, t'⟩, hfind, rfl⟩ := h
  obtain ⟨hmem, hp, hleast⟩ := Table.find?_rows_eq_some.mp hfind
  have hp' : some t'.id = logId ∧ t'.parentKeyId = account := by simpa using hp
  exact ⟨p, hmem, hp'.1, hp'.2, fun row hrow hid haccount => hleast row hrow (by simp [hid, haccount])⟩

theorem entryOf_of_least {s : Store E} {account p : Identifier} {logId : Option Nat}
    {t : TxLogEntry E} (hmem : (p, t) ∈ s.txLog) (hid : some t.id = logId)
    (haccount : t.parentKeyId = account)
    (hleast : ∀ row ∈ s.txLog, some row.2.id = logId → row.2.parentKeyId = account →
      TxLogRow.key (p, t) ≤ TxLogRow.key row) : s.entryOf account logId = some t := by
  unfold entryOf txLogIter
  rw [List.find?_map, Option.map_eq_some_iff]
  refine ⟨(p, t), Table.find?_rows_eq_some.mpr ⟨hmem, by simp [hid, haccount], ?_⟩, rfl⟩
  intro row hrow hp
  have hp' : some row.2.id = logId ∧ row.2.parentKeyId = account := by simpa using hp
  exact hleast row hrow hp'.1 hp'.2

/-- Saving a live record of an account leaves what its outputs point at live. -/
theorem PointsAtLive.save {s : Store E} {account : Identifier} {logId : Option Nat}
    {r : TxLogEntry E} (h : s.PointsAtLive account logId) (hr : r.parentKeyId = account)
    (hlive : ¬ r.Cancelled) : (s.saveTxLogEntry r account).PointsAtLive account logId := by
  intro t ht
  obtain ⟨p, hmem, hid, haccount, hleast⟩ := entryOf_eq_some ht
  rcases Table.mem_put.mp hmem with heq | ⟨hold, hne⟩
  · rw [(Prod.mk.inj heq).2]
    exact hlive
  · refine h t (entryOf_of_least hold hid haccount fun row hrow hrid hraccount => ?_)
    by_cases hkey : TxLogRow.key row = TxLogRow.key (account, r)
    · have hsame : row.2.id = r.id := (txLogKey_inj.mp hkey).2
      rw [hkey]
      exact hleast (account, r) (Table.mem_put.mpr (.inl rfl)) (by rw [← hsame]; exact hrid) hr
    · exact hleast row (Table.mem_put.mpr (.inr ⟨hrow, hkey⟩)) hrid hraccount

theorem PointsAtLive.of_log {s s' : Store E} {account : Identifier} {logId : Option Nat}
    (hs : s.PointsAtLive account logId) (h : s'.txLog = s.txLog) :
    s'.PointsAtLive account logId := by
  intro t ht
  unfold entryOf txLogIter at ht
  rw [h] at ht
  exact hs t ht

end Store

variable [CommRing F] [AddCommGroup E] [Module F E] [DecidableEq E]

/-! ## Refreshing -/

namespace Updater

/-- An output that waits for its confirmation. -/
def Pending (o : OutputData E) : Prop :=
  o.isCoinbase = false ∧ (o.status = .Unconfirmed ∨ o.status = .Reverted)

/-- No entry of the map that the node has waits for the confirmation of a
cancelled record. -/
def ConfirmsLive (s : Store E) (account : Identifier) (api : E → Option (Nat × Nat))
    (vs : List (WalletOutput E)) : Prop :=
  ∀ v ∈ vs, (api v.1).isSome = true → ∀ o, s.get v.2.1 v.2.2.1 = .ok o → Pending o →
    s.PointsAtLive account o.txLogEntry

omit [CommRing F] [AddCommGroup E] [Module F E] [DecidableEq E] in
theorem confirmEntry_live {t : TxLogEntry E} (h : ¬ t.Cancelled) (now : Nat) :
    ¬ (confirmEntry t now).Cancelled ∧ (confirmEntry t now).Coherent := by
  by_cases hr : t.txType = .TxReverted
  · simp [confirmEntry, hr, TxLogEntry.Cancelled, TxLogEntry.Coherent,
      TxLogEntry.updateConfirmationTs]
  · simpa [confirmEntry, hr, TxLogEntry.Cancelled, TxLogEntry.Coherent,
      TxLogEntry.updateConfirmationTs] using h

omit [CommRing F] [AddCommGroup E] [Module F E] [DecidableEq E] in
theorem confirmEntry_account (t : TxLogEntry E) (now : Nat) :
    (confirmEntry t now).parentKeyId = t.parentKeyId := by
  by_cases hr : t.txType = .TxReverted
  · simp [confirmEntry, hr, TxLogEntry.updateConfirmationTs]
  · simp [confirmEntry, hr, TxLogEntry.updateConfirmationTs]

/-- What the loop over the output map keeps of the log. -/
structure LogKept (s : Store E) (account : Identifier) (vs : List (WalletOutput E)) (s' : Store E) :
    Prop where
  coherent : s'.LogCoherent
  live : ∀ logId, s.PointsAtLive account logId → s'.PointsAtLive account logId
  waiting : ∀ v ∈ vs, s'.get v.2.1 v.2.2.1 = s.get v.2.1 v.2.2.1
  keys : vs.Pairwise fun v v' => outputMapKey v ≠ outputMapKey v'

variable {K : Keychain F E} {api : E → Option (Nat × Nat)} {reverted : List Nat}
  {height now : Nat} {account : Identifier} {s s₁ s' : Store E} {v : WalletOutput E}
  {vs : List (WalletOutput E)}

omit [CommRing F] [Module F E] in
/-- Refreshing one record writes live, coherent log records only. -/
theorem applyApiOutput_log (hs : s₁.LogCoherent)
    (hlive : (api v.1).isSome = true → ∀ o, s₁.get v.2.1 v.2.2.1 = .ok o → Pending o →
      s₁.PointsAtLive account o.txLogEntry)
    (h : applyApiOutput K api reverted height account now v s₁ = .ok s') :
    s'.LogCoherent ∧
      ∀ logId, s₁.PointsAtLive account logId → s'.PointsAtLive account logId := by
  obtain ⟨commit, vid, vmmr, logId, wasUnspent⟩ := v
  unfold applyApiOutput at h
  have hsame : ∀ {o : OutputData E} {s₂ : Store E}, s₂.txLog = s₁.txLog →
      (s₂.save o).LogCoherent ∧
        ∀ logId, s₁.PointsAtLive account logId → (s₂.save o).PointsAtLive account logId :=
    fun hlog => ⟨hs.of_log hlog, fun _ hl => hl.of_log hlog⟩
  have hput : ∀ {o : OutputData E} {s₂ : Store E} {t : TxLogEntry E}, t.Coherent → ¬ t.Cancelled →
      t.parentKeyId = account → s₂.txLog = s₁.txLog.put (account, t) →
      (s₂.save o).LogCoherent ∧
        ∀ logId, s₁.PointsAtLive account logId → (s₂.save o).PointsAtLive account logId := by
    intro o s₂ t hc hn haccount hlog
    exact ⟨(hs.save hc account).of_log hlog, fun _ hl => (hl.save haccount hn).of_log hlog⟩
  cases hget : s₁.get vid vmmr with
  | error e =>
      simp only [hget] at h
      cases h
      exact ⟨hs, fun _ hl => hl⟩
  | ok output =>
      simp only [hget] at h
      cases hapi : api commit with
      | none =>
          simp only [hapi] at h
          obtain ⟨o, -, heq⟩ := applyAbsent_eq output reverted s₁
          rw [heq] at h
          cases h
          exact hsame rfl
      | some position =>
          obtain ⟨apiHeight, index⟩ := position
          simp only [hapi] at h
          obtain ⟨o, s₂, -, -, rfl, hlog | ⟨-, id, t, ht, hlog⟩ | ⟨hcb, hstatus, t, ht, hlog⟩⟩ :=
            applyPresent_eq_ok h
          · exact hsame hlog
          · have htype : t.txType = .ConfirmedCoinbase ∧ t.parentKeyId = account := by
              unfold coinbaseEntry at ht
              by_cases hzero : commit - output.value • K.H = 0
              · simp only [if_pos hzero] at ht
                cases ht
              · simp only [if_neg hzero] at ht
                cases ht
                exact ⟨rfl, rfl⟩
            refine hput (fun _ => ?_) ?_ htype.2 hlog
            · simp [TxLogEntry.Cancelled, htype.1]
            · simp [TxLogEntry.Cancelled, htype.1]
          · have hpoints := hlive (by rw [hapi]; rfl) output hget ⟨hcb, hstatus⟩ t ht
            obtain ⟨hn, hc⟩ := confirmEntry_live hpoints now
            have haccount : t.parentKeyId = account := by
              have hp := List.find?_some ht
              simp only [decide_eq_true_eq] at hp
              exact hp.2
            exact hput hc hn ((confirmEntry_account t now).trans haccount) hlog

omit [CommRing F] [Module F E] in
theorem LogKept.step (hlive : ConfirmsLive s account api (v :: vs))
    (h : LogKept s account (v :: vs) s₁)
    (hrun : applyApiOutput K api reverted height account now v s₁ = .ok s') :
    LogKept s account vs s' := by
  have hself : ∀ o, s₁.get v.2.1 v.2.2.1 = .ok o → s.get v.2.1 v.2.2.1 = .ok o := fun o ho =>
    (h.waiting v List.mem_cons_self).symm.trans ho
  obtain ⟨hne, hkeys⟩ := List.pairwise_cons.mp h.keys
  obtain ⟨hcoherent, hpoints⟩ := applyApiOutput_log h.coherent
    (fun hapi o ho hp => h.live _ (hlive v List.mem_cons_self hapi o (hself o ho) hp)) hrun
  refine ⟨hcoherent, fun logId hl => hpoints logId (h.live logId hl), fun v' hv' => ?_, hkeys⟩
  rw [applyApiOutput_other hrun (hne v' hv'), h.waiting v' (List.mem_cons_of_mem _ hv')]

omit [CommRing F] [AddCommGroup E] [Module F E] [DecidableEq E] in
theorem revertTxs_coherent (h : s.LogCoherent) :
    (revertTxs reverted account now s).LogCoherent := by
  unfold revertTxs
  generalize (s.txLogIter.filter fun t =>
    decide (t.id ∈ reverted) && t.parentKeyId = account) = ts
  induction ts generalizing s with
  | nil => exact h
  | cons t ts ih => exact ih (h.save (TxLogEntry.coherent_of_unconfirmed rfl) account)

omit [CommRing F] [Module F E] in
theorem applyApiOutputs_coherent {u : Unit} (hs : s.LogCoherent)
    (hkeys : vs.Pairwise fun v v' => outputMapKey v ≠ outputMapKey v')
    (hlive : s.confirmedHeight account ≤ height → ConfirmsLive s account api vs)
    (h : applyApiOutputs K vs api reverted height account now s = .ok (u, s')) :
    s'.LogCoherent := by
  unfold applyApiOutputs at h
  by_cases hlow : height < s.confirmedHeight account
  · rw [if_pos hlow] at h
    cases h
    exact hs
  · rw [if_neg hlow] at h
    obtain ⟨-, -, h⟩ := except_bind_eq_ok.mp h
    obtain ⟨s₂, hloop, h⟩ := except_bind_eq_ok.mp h
    cases h
    have hconfirms := hlive (by omega)
    have hkept : LogKept s account [] s₂ := by
      refine (foldlM_induction (J := fun vs' s' => ConfirmsLive s account api vs' ∧
        LogKept s account vs' s') ?_ ⟨hconfirms, ⟨hs, fun _ hl => hl, fun _ _ => rfl, hkeys⟩⟩ hloop).2
      intro v vs' s₁ s₁' hJ hrun
      exact ⟨fun v' hv' => hJ.1 v' (List.mem_cons_of_mem v hv'), LogKept.step hJ.1 hJ.2 hrun⟩
    exact (revertTxs_coherent hkept.coherent).of_log rfl

omit [CommRing F] [AddCommGroup E] [Module F E] [DecidableEq E] in
theorem cleanOldUnconfirmed_txLog (height : Nat) (s : Store E) :
    (cleanOldUnconfirmed height s).txLog = s.txLog := by
  unfold cleanOldUnconfirmed
  by_cases h : height < 50
  · rw [if_pos h]
  · rw [if_neg h]
    generalize (s.iter.filter _) = os
    induction os generalizing s with
    | nil => rfl
    | cons o os ih => exact (ih (s.delete o.keyId none)).trans rfl

/-! ## The refresh -/

/-- A refresh that asks its first question at a tick confirms live records only. -/
def RefreshConfirmsLive (env : Env F E) (s : Store E) (account : Identifier) (all : Bool)
    (tick : Nat) : Prop :=
  let vs := env.walletOutputOrder.apply (mapWalletOutputs env.keychain s account all)
  ∀ tip api, (env.node tick).getChainTip = .ok tip →
    (env.node (tick + 1)).getOutputsFromNode (vs.map Prod.fst) = .ok api →
    s.confirmedHeight account ≤ tip.1 → ConfirmsLive s account api vs

theorem mapWalletOutputs_keys_perm (env : Env F E) (s : Store E) (account : Identifier)
    (all : Bool) :
    (env.walletOutputOrder.apply (mapWalletOutputs env.keychain s account all)).Pairwise
      fun v v' => outputMapKey v ≠ outputMapKey v' :=
  ((env.walletOutputOrder.perm _).pairwise_iff fun h => h.symm).mpr mapWalletOutputs_keys

/-- A refresh that confirms live records only keeps the log coherent. -/
theorem refreshOutputs_coherent {env : Env F E} {tick : Nat} (hs : s.LogCoherent) {all : Bool}
    (hlive : RefreshConfirmsLive env s account all tick) :
    Eff.Triple (At s tick) (refreshOutputs env account all) (fun _ m => m.store.LogCoherent)
      (fun m => m.store.LogCoherent) := by
  have hstay : ∀ m : WalletBackend F E, m.store = s → m.store.LogCoherent := by
    rintro m rfl
    exact hs
  refine (ask_at hstay).bind fun tip => Eff.Triple.and_left fun htip => ?_
  refine Eff.Triple.read_bind fun w hw => ?_
  rw [hw.store]
  refine (ask_at hstay).bind fun api => Eff.Triple.and_left fun hapi => ?_
  have hconfirms := hlive tip api htip hapi
  have hreverted := (findRevertedKernels_store env s (env.walletOutputOrder.apply
    (mapWalletOutputs env.keychain s account all)) api account).keepsTriple
  refine (hreverted.consequence (fun m hm => hm.store) (fun _ m hm => hm) hstay).bind
    fun reverted => ?_
  have hnow : Eff.Moves (Eff.Keeps fun m => m.store = s) (utcNow env) := fun m hm => hm
  refine (hnow.keepsTriple.consequence (fun m hm => hm) (fun _ m hm => hm) hstay).bind
    fun now => ?_
  refine (batch_ends (J := Store.LogCoherent) hs fun _ s' happly => ?_).bind fun _ => ?_
  · exact applyApiOutputs_coherent hs (mapWalletOutputs_keys_perm env s account all) hconfirms
      happly
  · exact Eff.Triple.modify fun m hm => hm.of_log (cleanOldUnconfirmed_txLog _ _)

end Updater

end GrinWallet
