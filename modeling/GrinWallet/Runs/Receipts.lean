import GrinWallet.Runs.Coherence

/-! # One live receive a slate

A receipt is turned down when the account has a received record of its slate. A
record that was reverted since is not looked for, and the record that gets the
new slate state is looked for in every account. Where neither goes wrong, no
account has two records of a slate that can both be confirmed.
-/

namespace GrinWallet

open Effect WalletBackend OrderedTable Sections

variable {F E : Type}

namespace TxLogEntry

/-- A payment received, or one whose kernel is gone: a refresh makes one of the other. -/
def LiveReceive (t : TxLogEntry E) : Prop := t.txType = .TxReceived ∨ t.txType = .TxReverted

instance (t : TxLogEntry E) : Decidable t.LiveReceive := inferInstanceAs (Decidable (_ ∨ _))

/-- A live receive with the slate or the kernel of an exchange. -/
def Carries (t : TxLogEntry E) : Prop :=
  t.LiveReceive ∧ (t.txSlateId ≠ none ∨ t.kernelExcess ≠ none)

end TxLogEntry

namespace Store

/-- The live receives of a slate in an account. -/
def liveReceives (s : Store E) (account : Identifier) (slateId : Uuid) : List (TxLogEntry E) :=
  s.txLogIter.filter fun t =>
    t.parentKeyId = account && t.txSlateId = some slateId && decide t.LiveReceive

/-- Live receives of slates are filed under their own account, no two of an
account share a slate, and a record filed elsewhere stands for none of them. -/
structure OneReceive (s : Store E) : Prop where
  filed : ∀ row ∈ s.txLog, row.2.LiveReceive → row.2.txSlateId ≠ none → row.1 = row.2.parentKeyId
  single : ∀ row ∈ s.txLog, ∀ row' ∈ s.txLog, row.2.LiveReceive → row'.2.LiveReceive →
    row.2.parentKeyId = row'.2.parentKeyId → row.2.txSlateId = row'.2.txSlateId →
    row.2.txSlateId ≠ none → row = row'
  stray : ∀ row ∈ s.txLog, row.1 ≠ row.2.parentKeyId → row.2.txSlateId ≠ none ∧
    ∀ row' ∈ s.txLog, row'.2.Carries →
      ¬ (row'.2.parentKeyId = row.2.parentKeyId ∧ row'.2.id = row.2.id)

/-- A record may be filed under an account without a second live receive. -/
structure Admits (s : Store E) (p : Identifier) (t : TxLogEntry E) : Prop where
  filed : t.LiveReceive → t.txSlateId ≠ none → p = t.parentKeyId
  single : t.LiveReceive → t.txSlateId ≠ none → ∀ row ∈ s.txLog, row.2.LiveReceive →
    row.2.parentKeyId = t.parentKeyId → row.2.txSlateId = t.txSlateId →
    TxLogRow.key row = TxLogRow.key (p, t)
  stray : p ≠ t.parentKeyId → t.txSlateId ≠ none ∧ ∀ row ∈ s.txLog, row.2.Carries →
    ¬ (row.2.parentKeyId = t.parentKeyId ∧ row.2.id = t.id)
  place : t.Carries → ∀ row ∈ s.txLog, row.1 ≠ row.2.parentKeyId →
    ¬ (t.parentKeyId = row.2.parentKeyId ∧ t.id = row.2.id)

variable {s s' : Store E} {p : Identifier} {t : TxLogEntry E}

/-- No account has two live receives of a slate. -/
theorem OneReceive.length_le_one (hs : s.OneReceive) (account : Identifier) (slateId : Uuid) :
    (s.liveReceives account slateId).length ≤ 1 := by
  unfold liveReceives txLogIter
  rw [List.filter_map, List.length_map]
  have hpairwise := s.txLog.sorted.filter fun row =>
    row.2.parentKeyId = account && row.2.txSlateId = some slateId && decide row.2.LiveReceive
  cases hrows : s.txLog.rows.filter fun row =>
      row.2.parentKeyId = account && row.2.txSlateId = some slateId && decide row.2.LiveReceive with
  | nil => simp [Function.comp_def, hrows]
  | cons row rows =>
      cases rows with
      | nil => simp [Function.comp_def, hrows]
      | cons row' rows =>
          rw [hrows] at hpairwise
          have hlt := (List.pairwise_cons.mp hpairwise).1 row' List.mem_cons_self
          have hmem : ∀ r, r ∈ row :: row' :: rows → r ∈ s.txLog ∧ r.2.parentKeyId = account ∧
              r.2.txSlateId = some slateId ∧ r.2.LiveReceive := by
            intro r hr
            rw [← hrows] at hr
            simpa [and_assoc] using List.mem_filter.mp hr
          obtain ⟨hrow, hp, hu, hlive⟩ := hmem row List.mem_cons_self
          obtain ⟨hrow', hp', hu', hlive'⟩ := hmem row' (List.mem_cons_of_mem _ List.mem_cons_self)
          have heq := hs.single row hrow row' hrow' hlive hlive' (hp.trans hp'.symm)
            (hu.trans hu'.symm) (by rw [hu]; simp)
          rw [heq] at hlt
          exact (lt_irrefl _ hlt).elim

theorem OneReceive.of_log (hs : s.OneReceive) (h : s'.txLog = s.txLog) : s'.OneReceive := by
  obtain ⟨hfiled, hsingle, hstray⟩ := hs
  rw [← h] at hfiled hsingle hstray
  exact ⟨hfiled, hsingle, hstray⟩

theorem oneReceive_fresh : (fresh : Store E).OneReceive :=
  ⟨fun _ h => (nomatch h), fun _ h => (nomatch h), fun _ h => (nomatch h)⟩

theorem oneReceive_ofRecords : OfRecords (OneReceive (E := E)) :=
  fun _ _ _ hlog _ h => h.of_log hlog

/-- A record that carries an exchange is filed under its own account. -/
theorem OneReceive.filed_of_carries (hs : s.OneReceive) {row : TxLogRow E} (hrow : row ∈ s.txLog)
    (h : row.2.Carries) : row.1 = row.2.parentKeyId := by
  by_contra hne
  exact hne (hs.filed row hrow h.1 (hs.stray row hrow hne).1)

/-- Saving a record the log admits. -/
theorem OneReceive.save (hs : s.OneReceive) (h : s.Admits p t) :
    (s.saveTxLogEntry t p).OneReceive := by
  have hmem : ∀ row ∈ (s.saveTxLogEntry t p).txLog,
      row = (p, t) ∨ row ∈ s.txLog ∧ TxLogRow.key row ≠ TxLogRow.key (p, t) :=
    fun row hrow => Table.mem_put.mp hrow
  refine ⟨fun row hrow hlive hslate => ?_, fun row hrow row' hrow' hlive hlive' hp hu hslate => ?_,
    fun row hrow hne => ?_⟩
  · rcases hmem row hrow with rfl | ⟨hold, -⟩
    · exact h.filed hlive hslate
    · exact hs.filed row hold hlive hslate
  · rcases hmem row hrow with rfl | ⟨hold, hkey⟩
    · rcases hmem row' hrow' with rfl | ⟨hold', hkey'⟩
      · rfl
      · exact (hkey' (h.single hlive hslate row' hold' hlive' hp.symm hu.symm)).elim
    · rcases hmem row' hrow' with rfl | ⟨hold', hkey'⟩
      · rw [hu] at hslate
        exact (hkey (h.single hlive' hslate row hold hlive hp hu)).elim
      · exact hs.single row hold row' hold' hlive hlive' hp hu hslate
  · have hplace : ∀ row' ∈ (s.saveTxLogEntry t p).txLog, row'.2.Carries →
        row'.1 = row'.2.parentKeyId := by
      intro row' hrow' hcarries
      rcases hmem row' hrow' with rfl | ⟨hold', -⟩
      · by_contra hne'
        exact hne' (h.filed hcarries.1 (h.stray hne').1)
      · exact hs.filed_of_carries hold' hcarries
    rcases hmem row hrow with rfl | ⟨hold, -⟩
    · obtain ⟨hslate, hnone⟩ := h.stray hne
      refine ⟨hslate, fun row' hrow' hcarries hat => ?_⟩
      rcases hmem row' hrow' with rfl | ⟨hold', -⟩
      · exact hne (hplace _ hrow' hcarries)
      · exact hnone row' hold' hcarries hat
    · obtain ⟨hslate, hnone⟩ := hs.stray row hold hne
      refine ⟨hslate, fun row' hrow' hcarries hat => ?_⟩
      rcases hmem row' hrow' with rfl | ⟨hold', -⟩
      · exact h.place hcarries row hold hne hat
      · exact hnone row' hold' hcarries hat

/-- A record that carries no exchange may be filed under its own account. -/
theorem admits_of_not_carries (h : ¬ t.Carries) (hp : p = t.parentKeyId) : s.Admits p t := by
  have hslate : t.LiveReceive → t.txSlateId = none := fun hlive => by
    by_contra hne
    exact h ⟨hlive, .inl hne⟩
  refine ⟨fun _ _ => hp, fun hlive hne => (hne (hslate hlive)).elim, fun hne => (hne hp).elim,
    fun hc => (h hc).elim⟩

/-- A record of the log may be written back to its own account, changed or not,
while it is no live receive where it was none. -/
theorem OneReceive.admits_of_mem (hs : s.OneReceive) {q : Identifier} {r : TxLogEntry E}
    (hmem : (q, t) ∈ s.txLog) (haccount : t.parentKeyId = p) (hp : r.parentKeyId = t.parentKeyId)
    (hid : r.id = t.id) (hslate : r.txSlateId = t.txSlateId)
    (hlive : r.LiveReceive → r.txSlateId ≠ none → t.LiveReceive)
    (hplace : r.Carries → ∀ row ∈ s.txLog, row.1 ≠ row.2.parentKeyId →
      ¬ (t.parentKeyId = row.2.parentKeyId ∧ t.id = row.2.id)) : s.Admits p r := by
  subst haccount
  refine ⟨fun _ _ => hp.symm, fun hr hne row hrow hrlive hrp hru => ?_,
    fun hne => (hne hp.symm).elim, ?_⟩
  · have ht := hlive hr hne
    rw [hslate] at hne
    have hq : q = t.parentKeyId := hs.filed (q, t) hmem ht hne
    have heq := hs.single row hrow (q, t) hmem hrlive ht (hrp.trans hp) (hru.trans hslate)
      (by rw [hru, hslate]; exact hne)
    rw [heq, hq]
    exact txLogKey_inj.mpr ⟨rfl, hid.symm⟩
  · rw [hp, hid]
    exact hplace

/-- The same of a record that carries what it carried. -/
theorem OneReceive.admits_writeBack (hs : s.OneReceive) {q : Identifier} {r : TxLogEntry E}
    (hmem : (q, t) ∈ s.txLog) (haccount : t.parentKeyId = p) (hp : r.parentKeyId = t.parentKeyId)
    (hid : r.id = t.id) (hslate : r.txSlateId = t.txSlateId)
    (hcarries : r.Carries → t.Carries) : s.Admits p r := by
  refine hs.admits_of_mem hmem haccount hp hid hslate (fun hr hne => (hcarries ⟨hr, .inl hne⟩).1)
    fun hr row hrow hne hat => ?_
  exact (hs.stray row hrow hne).2 (q, t) hmem (hcarries hr) hat

/-- A record that carries no exchange stands where no carrying record does. -/
theorem OneReceive.alone_of_not_carries (hs : s.OneReceive) {q : Identifier}
    (hmem : (q, t) ∈ s.txLog) (h : ¬ t.Carries) :
    ∀ row ∈ s.txLog, row.2.Carries → ¬ (row.2.parentKeyId = t.parentKeyId ∧ row.2.id = t.id) := by
  intro row hrow hcarries hat
  by_cases hq : q = t.parentKeyId
  · have hfiled := hs.filed_of_carries hrow hcarries
    have hkey : TxLogRow.key row = TxLogRow.key (q, t) :=
      txLogKey_inj.mpr ⟨by rw [hfiled, hat.1, hq], hat.2⟩
    have heq := Table.eq_of_key_eq hrow hmem hkey
    rw [heq] at hcarries
    exact h hcarries
  · exact (hs.stray (q, t) hmem hq).2 row hrow hcarries hat

/-- Every record of an account with one of the log ids is filed there, and is a
live receive if it has a slate. -/
def RevertsLive (s : Store E) (account : Identifier) (ids : List Nat) : Prop :=
  ∀ row ∈ s.txLog, row.2.parentKeyId = account → row.2.id ∈ ids →
    row.1 = account ∧ (row.2.txSlateId ≠ none → row.2.LiveReceive)

variable {account : Identifier} {ids : List Nat}

theorem RevertsLive.save (hs : s.RevertsLive account ids)
    (ht : t.id ∈ ids → t.txSlateId ≠ none → t.LiveReceive) :
    (s.saveTxLogEntry t account).RevertsLive account ids := by
  intro row hrow hp hid
  rcases Table.mem_put.mp hrow with rfl | ⟨hold, -⟩
  · exact ⟨rfl, ht hid⟩
  · exact hs row hold hp hid

theorem RevertsLive.of_log (hs : s.RevertsLive account ids) (h : s'.txLog = s.txLog) :
    s'.RevertsLive account ids := by
  unfold RevertsLive at hs
  rw [← h] at hs
  exact hs

/-- The log ids of received records with a kernel are of this kind. -/
theorem OneReceive.revertsLive (hs : s.OneReceive) (h : ∀ i ∈ ids, ∃ t ∈ s.txLogIter, t.id = i ∧
    t.parentKeyId = account ∧ t.txType = .TxReceived ∧ t.kernelExcess ≠ none) :
    s.RevertsLive account ids := by
  intro row hrow hp hid
  obtain ⟨t, ht, hti, htp, htype, hexcess⟩ := h _ hid
  obtain ⟨q, hq⟩ := mem_txLogIter.mp ht
  have hcarries : t.Carries := ⟨.inl htype, .inr hexcess⟩
  have hfiled : row.1 = row.2.parentKeyId := by
    by_contra hne
    exact (hs.stray row hrow hne).2 (q, t) hq hcarries ⟨htp.trans hp.symm, hti⟩
  have hkey : TxLogRow.key row = TxLogRow.key (q, t) := by
    have hqp : q = t.parentKeyId := hs.filed_of_carries hq hcarries
    exact txLogKey_inj.mpr ⟨by rw [hfiled, hp, hqp, htp], hti.symm⟩
  have heq := Table.eq_of_key_eq hrow hq hkey
  exact ⟨hfiled.trans hp, fun _ => by rw [heq]; exact hcarries.1⟩

end Store

variable [CommRing F] [AddCommGroup E] [Module F E] [DecidableEq E]

namespace Updater

variable {K : Keychain F E} {api : E → Option (Nat × Nat)} {reverted : List Nat}
  {height now : Nat} {account : Identifier} {s s' : Store E} {v : WalletOutput E}
  {vs : List (WalletOutput E)}

omit [CommRing F] [AddCommGroup E] [Module F E] [DecidableEq E] in
theorem confirmEntry_liveReceive {t : TxLogEntry E} :
    (confirmEntry t now).LiveReceive ↔ t.LiveReceive := by
  by_cases hr : t.txType = .TxReverted
  · simp [confirmEntry, hr, TxLogEntry.LiveReceive, TxLogEntry.updateConfirmationTs]
  · simp [confirmEntry, hr, TxLogEntry.LiveReceive, TxLogEntry.updateConfirmationTs]

omit [CommRing F] [AddCommGroup E] [Module F E] [DecidableEq E] in
theorem confirmEntry_kept (t : TxLogEntry E) (now : Nat) :
    (confirmEntry t now).id = t.id ∧ (confirmEntry t now).txSlateId = t.txSlateId ∧
      (confirmEntry t now).kernelExcess = t.kernelExcess := by
  by_cases hr : t.txType = .TxReverted
  · simp [confirmEntry, hr, TxLogEntry.updateConfirmationTs]
  · simp [confirmEntry, hr, TxLogEntry.updateConfirmationTs]

omit [CommRing F] [Module F E] in
/-- Refreshing one record confirms a receive in its place. -/
theorem applyApiOutput_oneReceive (hs : s.OneReceive) (hids : s.RevertsLive account reverted)
    (h : applyApiOutput K api reverted height account now v s = .ok s') :
    s'.OneReceive ∧ s'.RevertsLive account reverted := by
  obtain ⟨commit, vid, vmmr, logId, wasUnspent⟩ := v
  unfold applyApiOutput at h
  have hput : ∀ {o : OutputData E} {s₂ : Store E} {t : TxLogEntry E}, s.Admits account t →
      (t.id ∈ reverted → t.txSlateId ≠ none → t.LiveReceive) →
      s₂.txLog = s.txLog.put (account, t) →
      (s₂.save o).OneReceive ∧ (s₂.save o).RevertsLive account reverted :=
    fun hadmits hlive hlog => ⟨(hs.save hadmits).of_log hlog, (hids.save hlive).of_log hlog⟩
  cases hget : s.get vid vmmr with
  | error e =>
      simp only [hget] at h
      cases h
      exact ⟨hs, hids⟩
  | ok output =>
      simp only [hget] at h
      cases hapi : api commit with
      | none =>
          simp only [hapi] at h
          obtain ⟨o, -, heq⟩ := applyAbsent_eq output reverted s
          rw [heq] at h
          cases h
          exact ⟨hs.of_log rfl, hids.of_log rfl⟩
      | some position =>
          obtain ⟨apiHeight, index⟩ := position
          simp only [hapi] at h
          obtain ⟨o, s₂, -, -, rfl, hlog | ⟨-, id, t, ht, hlog⟩ | ⟨hcb, hstatus, t, ht, hlog⟩⟩ :=
            applyPresent_eq_ok h
          · exact ⟨hs.of_log hlog, hids.of_log hlog⟩
          · have hentry : t.txType = .ConfirmedCoinbase ∧ t.parentKeyId = account ∧
                t.txSlateId = none := by
              unfold coinbaseEntry at ht
              by_cases hzero : commit - output.value • K.H = 0
              · simp only [if_pos hzero] at ht
                cases ht
              · simp only [if_neg hzero] at ht
                cases ht
                exact ⟨rfl, rfl, rfl⟩
            obtain ⟨htype, haccount, hslate⟩ := hentry
            refine hput (Store.admits_of_not_carries ?_ haccount.symm) ?_ hlog
            · simp [TxLogEntry.Carries, TxLogEntry.LiveReceive, htype]
            · exact fun _ hne => (hne hslate).elim
          · obtain ⟨q, hq, -, haccount, -⟩ := Store.entryOf_eq_some ht
            obtain ⟨hid, hslate, hexcess⟩ := confirmEntry_kept t now
            have hadmits := hs.admits_writeBack hq haccount (confirmEntry_account t now) hid hslate
              fun hc => ⟨confirmEntry_liveReceive.mp hc.1, by rw [← hslate, ← hexcess]; exact hc.2⟩
            refine hput hadmits (fun hmem hne => ?_) hlog
            rw [hid] at hmem
            rw [hslate] at hne
            exact confirmEntry_liveReceive.mpr ((hids (q, t) hq haccount hmem).2 hne)

omit [CommRing F] [AddCommGroup E] [Module F E] [DecidableEq E] in
/-- Reverting live receives in their places. -/
theorem revertTxs_oneReceive (hs : s.OneReceive) (hids : s.RevertsLive account reverted) :
    (revertTxs reverted account now s).OneReceive := by
  unfold revertTxs
  have hts : ∀ t ∈ s.txLogIter.filter fun t =>
      decide (t.id ∈ reverted) && t.parentKeyId = account,
      t.id ∈ reverted ∧ ∃ r, (account, r) ∈ s.txLog ∧ r.parentKeyId = account ∧ r.id = t.id ∧
        t.parentKeyId = account ∧ r.txSlateId = t.txSlateId := by
    intro t ht
    obtain ⟨hmem, hcond⟩ := List.mem_filter.mp ht
    have hcond' : t.id ∈ reverted ∧ t.parentKeyId = account := by simpa using hcond
    obtain ⟨q, hq⟩ := Store.mem_txLogIter.mp hmem
    have hfiled : q = account := (hids (q, t) hq hcond'.2 hcond'.1).1
    rw [hfiled] at hq
    exact ⟨hcond'.1, t, hq, hcond'.2, rfl, hcond'.2, rfl⟩
  generalize (s.txLogIter.filter fun t =>
    decide (t.id ∈ reverted) && t.parentKeyId = account) = ts at hts ⊢
  induction ts generalizing s with
  | nil => exact hs
  | cons t ts ih =>
      obtain ⟨hid, r, hr, hrp, hrid, htp, hslate⟩ := hts t List.mem_cons_self
      have hrow := hids (account, r) hr hrp (by rw [hrid]; exact hid)
      have hadmits := hs.admits_of_mem (r := revertEntry now t) hr hrp (htp.trans hrp.symm) hrid.symm
        hslate.symm (fun _ hne => hrow.2 (by rw [hslate]; exact hne)) fun _ row hmem hne hat => by
          have hfiled := hids row hmem (hat.1.symm.trans hrp)
            (by rw [← hat.2, hrid]; exact hid)
          exact hne (hfiled.1.trans (hrp.symm.trans hat.1))
      refine ih (hs.save hadmits) (hids.save fun _ _ => .inr rfl) fun t' ht' => ?_
      obtain ⟨hid', r', hr', hrp', hrid', htp', hslate'⟩ := hts t' (List.mem_cons_of_mem t ht')
      refine ⟨hid', ?_⟩
      by_cases hsame : t'.id = t.id
      · have heq : r' = r := by
          have hkey : TxLogRow.key (account, r') = TxLogRow.key (account, r) :=
            txLogKey_inj.mpr ⟨rfl, by rw [hrid', hrid, hsame]⟩
          exact (Prod.mk.inj (Table.eq_of_key_eq hr' hr hkey)).2
        refine ⟨revertEntry now t, Table.mem_put.mpr (.inl rfl), htp, hsame.symm, htp', ?_⟩
        rw [← hslate', heq, hslate]
        rfl
      · refine ⟨r', Table.mem_put.mpr (.inr ⟨hr', fun hkey => hsame ?_⟩), hrp', hrid', htp', hslate'⟩
        have hids' : r'.id = t.id := (txLogKey_inj.mp hkey).2
        rw [← hrid', hids']

omit [CommRing F] [Module F E] in
theorem applyApiOutputs_oneReceive {u : Unit} (hs : s.OneReceive)
    (hids : s.RevertsLive account reverted)
    (h : applyApiOutputs K vs api reverted height account now s = .ok (u, s')) :
    s'.OneReceive := by
  unfold applyApiOutputs at h
  by_cases hlow : height < s.confirmedHeight account
  · rw [if_pos hlow] at h
    cases h
    exact hs
  · rw [if_neg hlow] at h
    obtain ⟨-, -, h⟩ := except_bind_eq_ok.mp h
    obtain ⟨s₂, hloop, h⟩ := except_bind_eq_ok.mp h
    cases h
    have hkept : s₂.OneReceive ∧ s₂.RevertsLive account reverted :=
      foldlM_induction (J := fun _ s => s.OneReceive ∧ s.RevertsLive account reverted)
        (fun _ _ _ _ hJ hrun => applyApiOutput_oneReceive hJ.1 hJ.2 hrun) ⟨hs, hids⟩ hloop
    exact (revertTxs_oneReceive hkept.1 hkept.2).of_log rfl

omit [CommRing F] [AddCommGroup E] [Module F E] [DecidableEq E] in
theorem missingKernels_subset (env : Env F E) (ks : List (Nat × E × Option Nat)) :
    Eff.Yields (missingKernels env ks) fun ids => ∀ i ∈ ids, i ∈ ks.map Prod.fst := by
  induction ks with
  | nil => exact Eff.Yields.pure fun i hi => nomatch hi
  | cons k ks ih =>
      obtain ⟨id, excess, minHeight⟩ := k
      refine Eff.Yields.bind_of_forall fun kernel => ih.bind fun rest hrest => ?_
      refine Eff.Yields.pure fun i hi => ?_
      cases kernel with
      | none =>
          rcases List.mem_cons.mp hi with rfl | hi
          · exact List.mem_cons_self
          · exact List.mem_cons_of_mem _ (hrest i hi)
      | some position => exact List.mem_cons_of_mem _ (hrest i hi)

omit [CommRing F] [AddCommGroup E] [Module F E] [DecidableEq E] in
/-- The kernels found gone are of received records of the account. -/
theorem findRevertedKernels_revertsLive {env : Env F E} (hs : s.OneReceive)
    (vs : List (WalletOutput E)) (api : E → Option (Nat × Nat)) (account : Identifier) :
    Eff.Triple (fun m => m.store = s) (findRevertedKernels env vs api account)
      (fun ids m => m.store = s ∧ s.RevertsLive account ids) (Tables Store.OneReceive) := by
  intro m hm
  have hstore : (findRevertedKernels env vs api account m).2.store = s :=
    findRevertedKernels_store env s vs api account m hm
  cases hrun : findRevertedKernels env vs api account m with
  | mk r m' =>
      rw [hrun] at hstore
      cases r with
      | error e =>
          change m'.store.OneReceive
          rw [hstore]
          exact hs
      | ok ids =>
          refine ⟨hstore, hs.revertsLive fun i hi => ?_⟩
          have hmem := missingKernels_subset env _ m ids m' hrun i hi
          obtain ⟨k, hk, rfl⟩ := List.mem_map.mp hmem
          obtain ⟨t, ht, hmap⟩ := List.mem_filterMap.mp hk
          obtain ⟨hlog, hcond⟩ := List.mem_filter.mp ht
          rw [hm] at hlog
          have hcond' : (t.id ∈ disappearedIds vs api ∧ t.parentKeyId = account) ∧
              t.txType = .TxReceived := by simpa using hcond
          obtain ⟨e, he, rfl⟩ := Option.map_eq_some_iff.mp hmap
          exact ⟨t, hlog, rfl, hcond'.1.2, hcond'.2, by rw [he]; simp⟩

/-- A refresh leaves one live receive a slate. -/
theorem refreshOutputs_oneReceive (env : Env F E) (account : Identifier) (all : Bool) :
    Eff.Moves (Eff.Keeps (Tables Store.OneReceive)) (refreshOutputs env account all) := by
  refine Eff.Moves.bind (fun m hm => hm) fun tip => ?_
  obtain ⟨height, hash⟩ := tip
  refine fun w hw => Eff.Triple.final (P := fun m => m = w) (I := Tables Store.OneReceive) ?_ rfl
  have hstay : ∀ m : WalletBackend F E, m.store = w.store → m.store.OneReceive := by
    intro m hm
    rw [hm]
    exact hw
  refine Eff.Triple.read_bind fun m hm => ?_
  refine Eff.Triple.bind (Q := fun _ m => m.store = w.store) ?_ fun api => ?_
  · rintro m' rfl
    cases hask : ask (fun t => (env.node t).getOutputsFromNode _) m' with
    | mk r m'' =>
        obtain rfl : m'' = { m' with tick := m'.tick + 1 } := (Prod.mk.inj hask).2.symm
        cases r with
        | ok a => rfl
        | error e => exact hw
  refine (findRevertedKernels_revertsLive hw _ api account).bind fun reverted => ?_
  refine Eff.Triple.bind
    (Q := fun _ m => m.store = w.store ∧ w.store.RevertsLive account reverted) ?_ fun now => ?_
  · intro m' hm'
    exact hm'
  refine Eff.Triple.bind (Q := fun _ => Tables Store.OneReceive) ?_ fun _ => ?_
  · intro m' hm'
    exact batch_ends hw (fun _ s' happly => applyApiOutputs_oneReceive hw hm'.2 happly) m' hm'.1
  · exact Eff.Triple.modify fun m' hm' => hm'.of_log (cleanOldUnconfirmed_txLog _ _)

end Updater

/-! ## Receiving -/

namespace Store

omit [CommRing F] [AddCommGroup E] [Module F E] [DecidableEq E] in
/-- The first record of a slate in key order. -/
theorem find_slate_eq_some {s : Store E} {slateId : Uuid} {t : TxLogEntry E} :
    (s.txLogIter.find? fun t => decide (t.txSlateId = some slateId)) = some t ↔
      ∃ q, (q, t) ∈ s.txLog ∧ t.txSlateId = some slateId ∧
        ∀ row ∈ s.txLog, row.2.txSlateId = some slateId → TxLogRow.key (q, t) ≤ TxLogRow.key row := by
  unfold txLogIter
  rw [List.find?_map, Option.map_eq_some_iff]
  constructor
  · intro h
    obtain ⟨⟨q, t'⟩, hfind, rfl⟩ := h
    obtain ⟨hmem, hslate, hleast⟩ := Table.find?_rows_eq_some.mp hfind
    exact ⟨q, hmem, of_decide_eq_true hslate,
      fun row hrow hu => hleast row hrow (decide_eq_true (p := row.2.txSlateId = some slateId) hu)⟩
  · intro h
    obtain ⟨q, hmem, hslate, hleast⟩ := h
    exact ⟨(q, t), Table.find?_rows_eq_some.mpr ⟨hmem, decide_eq_true hslate,
      fun row hrow hu => hleast row hrow (of_decide_eq_true hu)⟩, rfl⟩

end Store

omit [CommRing F] [AddCommGroup E] [Module F E] [DecidableEq E] in
theorem updateTxSlateState_eq_ok {p : Identifier} {sl : Slate F E} {s s' : Store E} {u : Unit}
    (h : updateTxSlateState p sl s = .ok (u, s')) :
    ∃ t, (s.txLogIter.find? fun t => decide (t.txSlateId = some sl.id)) = some t ∧
      s' = s.saveTxLogEntry { t with txSlateState := some sl.state } p := by
  unfold updateTxSlateState at h
  cases hfind : s.txLogIter.find? fun t => decide (t.txSlateId = some sl.id) with
  | none =>
      rw [hfind] at h
      cases h
  | some t =>
      rw [hfind] at h
      cases h
      exact ⟨t, rfl, rfl⟩

namespace Foreign

variable {env : Env F E} {slate : Slate F E} {dest : Option Label} {w : WalletBackend F E}

/-- A receipt makes no second live receive: the account has no reverted record of
the slate, but for one the new record replaces; no record filed elsewhere has the
account and the log id it takes; and the first record of the slate, which gets the
new slate state and is filed again, is no live receive of another account. -/
structure ReceivesOnce (env : Env F E) (slate : Slate F E) (dest : Option Label)
    (w : WalletBackend F E) : Prop where
  reverted : ∀ t ∈ w.store.txLogIter, t.parentKeyId = w.accountNamed dest →
    t.txSlateId = some slate.id → t.txType = .TxReverted →
    t.id = w.store.txLogId (w.accountNamed dest)
  place : ∀ row ∈ w.store.txLog, row.1 ≠ row.2.parentKeyId →
    ¬ (w.accountNamed dest = row.2.parentKeyId ∧
      w.store.txLogId (w.accountNamed dest) = row.2.id)
  first : (joined env slate w).Signable env.keychain → ∀ t,
    (w.store.txLogIter.find? fun t => t.txSlateId = some slate.id) = some t → t.LiveReceive →
    t.parentKeyId ≠ w.accountNamed dest →
    txLogKey (w.accountNamed dest) (w.store.txLogId (w.accountNamed dest)) <
      txLogKey t.parentKeyId t.id

/-- The record a receipt makes is admitted. -/
theorem receipt_admitted (hw : w.store.OneReceive) (h : ReceivesOnce env slate dest w)
    (hnew : ¬ ReceivedBefore w slate dest) :
    w.store.Admits (w.accountNamed dest) (receiptBatch env slate dest w).1 := by
  refine ⟨fun _ _ => rfl, fun _ _ row hrow hlive hp hu => ?_, fun hne => (hne rfl).elim,
    fun _ => h.place⟩
  have hmem : row.2 ∈ w.store.txLogIter := Store.mem_txLogIter.mpr ⟨row.1, hrow⟩
  have hu' : row.2.txSlateId = some slate.id := hu
  rcases hlive with htype | htype
  · exact (hnew ⟨row.2, hmem, hp, hu', htype⟩).elim
  · have hfiled : row.1 = row.2.parentKeyId :=
      hw.filed row hrow (.inr htype) (by rw [hu']; simp)
    exact txLogKey_inj.mpr ⟨hfiled.trans hp, h.reverted row.2 hmem hp hu' htype⟩

/-- The first record of the slate may be filed again with its new state. -/
theorem stateWrite_admitted {s : Store E} {r t : TxLogEntry E} (hs : s.OneReceive)
    (hlog : s.txLog = w.store.txLog.put (w.accountNamed dest, r))
    (hid : r.id = w.store.txLogId (w.accountNamed dest)) (hp : r.parentKeyId = w.accountNamed dest)
    (hu : r.txSlateId = some slate.id) (h : ReceivesOnce env slate dest w)
    (hsign : (joined env slate w).Signable env.keychain)
    (hfind : (s.txLogIter.find? fun t => decide (t.txSlateId = some slate.id)) = some t)
    (state : SlateState) :
    s.Admits (w.accountNamed dest) { t with txSlateState := some state } := by
  obtain ⟨q, hq, hslate, hleast⟩ := Store.find_slate_eq_some.mp hfind
  by_cases haccount : t.parentKeyId = w.accountNamed dest
  · exact hs.admits_writeBack hq haccount rfl rfl rfl fun hc => hc
  have hnew : TxLogRow.key (w.accountNamed dest, r) =
      txLogKey (w.accountNamed dest) (w.store.txLogId (w.accountNamed dest)) :=
    txLogKey_inj.mpr ⟨rfl, hid⟩
  have hmem : ∀ row, row ∈ s.txLog ↔ row = (w.accountNamed dest, r) ∨ row ∈ w.store.txLog ∧
      TxLogRow.key row ≠ TxLogRow.key (w.accountNamed dest, r) := by
    intro row
    rw [hlog]
    exact Table.mem_put
  have hold : (q, t) ∈ w.store.txLog ∧
      TxLogRow.key (q, t) ≠ TxLogRow.key (w.accountNamed dest, r) := by
    rcases (hmem (q, t)).mp hq with heq | hold
    · rw [(Prod.mk.inj heq).2] at haccount
      exact (haccount hp).elim
    · exact hold
  have hbefore : TxLogRow.key (q, t) ≤ TxLogRow.key (w.accountNamed dest, r) :=
    hleast _ ((hmem _).mpr (.inl rfl)) hu
  -- the record is the first of the slate before the receipt as well
  have hfirst : (w.store.txLogIter.find? fun t => decide (t.txSlateId = some slate.id)) = some t := by
    refine Store.find_slate_eq_some.mpr ⟨q, hold.1, hslate, fun row hrow hru => ?_⟩
    by_cases hkey : TxLogRow.key row = TxLogRow.key (w.accountNamed dest, r)
    · rw [hkey]
      exact hbefore
    · exact hleast row ((hmem row).mpr (.inr ⟨hrow, hkey⟩)) hru
  have hdead : ¬ t.LiveReceive := by
    intro hlive
    have hfiled : q = t.parentKeyId := hs.filed (q, t) hq hlive (by rw [hslate]; simp)
    have hlt := h.first hsign t hfirst hlive haccount
    rw [← hnew, ← hfiled] at hlt
    exact (not_lt_of_ge hbefore hlt).elim
  have hcarries : ¬ t.Carries := fun hc => hdead hc.1
  refine ⟨fun hlive => (hdead hlive).elim, fun hlive => (hdead hlive).elim, fun _ => ⟨?_, ?_⟩,
    fun hc => (hcarries hc).elim⟩
  · rw [hslate]
    simp
  · exact fun row hrow => hs.alone_of_not_carries hq hcarries row hrow

/-- A receipt that makes no second live receive leaves at most one a slate. -/
theorem receiveTx_oneReceive (hw : w.store.OneReceive)
    (h : ¬ Refused w slate dest → ReceivesOnce env slate dest w) :
    (receiveTx env slate dest w).2.store.OneReceive := by
  by_cases hrefused : Refused w slate dest
  · obtain ⟨e, w', hrun, hsame⟩ :
        ∃ e w', receiveTx env slate dest w = (.error e, w') ∧ Unchanged w w' :=
      receiveTx_refused hrefused
    rw [hrun]
    exact hw.of_log hsame.txLog
  have hnew := (not_refused hrefused).2.1
  have honce := h hrefused
  have hadmits := receipt_admitted hw honce hnew
  have hwritten : (written env slate dest w).store.OneReceive := (hw.save hadmits).of_log rfl
  by_cases hsign : (joined env slate w).Signable env.keychain
  · obtain ⟨sl, excess, s₃, hid, hstate, hrun⟩ := receiveTx_signed hrefused hsign
    rw [hrun]
    change s₃.OneReceive
    obtain ⟨t, hfind, rfl⟩ := updateTxSlateState_eq_ok hstate
    rw [hid] at hfind
    have hplace : (w.accountNamed dest, (receiptBatch env slate dest w).1) ∈
        (written env slate dest w).store.txLog := Table.mem_put.mpr (.inl rfl)
    have hamend := hwritten.admits_writeBack
      (r := { (receiptBatch env slate dest w).1 with kernelExcess := some excess }) hplace rfl rfl
      rfl rfl fun hc => ⟨hc.1, .inl (by simp [receiptBatch, Selection.recipientBatch,
        Selection.receivedEntry])⟩
    have hamended := hwritten.save hamend
    refine hamended.save ?_
    refine stateWrite_admitted (r := { (receiptBatch env slate dest w).1 with
      kernelExcess := some excess }) hamended ?_ rfl rfl rfl honce hsign hfind _
    exact Table.put_put _ rfl
  · obtain ⟨e, hrun⟩ := receiveTx_unsigned hrefused hsign
    rw [hrun]
    exact hwritten

end Foreign

/-! ## Every section -/

/-- What a section of a run of receipts, cancellations, refreshes and scans must
meet: a receipt makes no second live receive, and a kernel confirms a record the
log admits where it is written. -/
def KeepsOneReceive (env : Env F E) : Hold F E → WalletBackend F E → Prop
  | .call (.receiveTx slate dest), w =>
      ¬ Foreign.Refused w slate dest → Foreign.ReceivesOnce env slate dest w
  | .call (.createAccountPath _), _ => True
  | .call (.setActiveAccount _), _ => True
  | .call (.setParentKeyId _), _ => True
  | .call _, _ => False
  | .confirmByKernel _ account t, w => w.store.Admits account t
  | _, _ => True

section Keep

variable {env : Env F E} {w : WalletBackend F E}

omit [CommRing F] [AddCommGroup E] [Module F E] [DecidableEq E] in
theorem cancelTxLogEntry_oneReceive {o : OutputData E} {s : Store E} (hs : s.OneReceive) :
    (Scan.cancelTxLogEntry o s).OneReceive := by
  unfold Scan.cancelTxLogEntry
  cases o.txLogEntry with
  | none => exact hs
  | some id =>
      simp only
      cases htxs : Updater.retrieveTxs s (some id) none (some o.keyId.parentPath) false with
      | nil => exact hs
      | cons t rest =>
          obtain ⟨hmem, haccount, -⟩ := Updater.mem_retrieveTxs.mp (htxs ▸ List.mem_cons_self)
          obtain ⟨q, hq⟩ := Store.mem_txLogIter.mp hmem
          refine hs.save (hs.admits_writeBack hq (haccount _ rfl) rfl rfl rfl fun hc => ⟨?_, hc.2⟩)
          have hlive := hc.1
          cases htype : t.txType <;> simp_all [TxLogEntry.LiveReceive]

omit [CommRing F] [AddCommGroup E] [Module F E] [DecidableEq E] in
theorem restoreOutputs_oneReceive {now : Nat} {s : Store E} (hs : s.OneReceive)
    (os : List (OutputResult E)) : (os.foldl (Scan.restoreOutput now) s).OneReceive := by
  induction os generalizing s with
  | nil => exact hs
  | cons o os ih =>
      refine ih ?_
      unfold Scan.restoreOutput
      refine Store.OneReceive.of_log (s := (s.nextTxLogId o.keyId.parentPath).2.saveTxLogEntry _ _)
        (Store.OneReceive.save (hs.of_log rfl) (Store.admits_of_not_carries ?_ ?_)) rfl
      · simp [TxLogEntry.Carries, TxLogEntry.new]
      · rfl

omit [DecidableEq E] in
theorem cancelTx_oneReceive {K : Keychain F E} {p : Identifier} {txId : Option Nat}
    {txSlateId : Option Uuid} {s s' : Store E} {u : Unit} (hs : s.OneReceive)
    (h : Tx.cancelTx K p txId txSlateId s = .ok (u, s')) : s'.OneReceive := by
  obtain ⟨tx, htxs, htype, -, rfl⟩ := Tx.cancelTx_eq_ok h
  obtain ⟨outputs, hrest⟩ := Updater.foldl_cancelOutput_rest
    ((Updater.retrieveOutputs K s false (some tx.id) (some p)).map (·.output)) s
  unfold Updater.cancelTxAndOutputs
  rw [hrest]
  obtain ⟨-, haccount, -⟩ := Updater.mem_retrieveTxs.mp (htxs ▸ List.mem_cons_self)
  have hcancelled : ¬ ({ tx with txType := Updater.cancelledType tx.txType } :
      TxLogEntry E).Carries := by
    rintro ⟨hlive, -⟩
    rcases htype with htype | htype | htype <;>
      simp [TxLogEntry.LiveReceive, Updater.cancelledType, htype] at hlive
  have hs' : ({ s with outputs := outputs } : Store E).OneReceive := hs.of_log rfl
  exact hs'.save (Store.admits_of_not_carries hcancelled (haccount _ rfl).symm)

omit [DecidableEq E] in
theorem cancelActive_oneReceive (env : Env F E) (txId : Option Nat) (txSlateId : Option Uuid) :
    Eff.Moves (Eff.Keeps (Tables Store.OneReceive)) (cancelActive env txId txSlateId) :=
  Eff.Moves.read.bind fun _ => batch_tables fun _ _ _ hs h => cancelTx_oneReceive hs h

/-- A section that meets its condition keeps one live receive a slate. -/
theorem section_oneReceive {β : Type} {label : Hold F E} {body : WalletM F E β}
    (hsection : WalletSection env β label body) (hkeeps : KeepsOneReceive env label w)
    (hw : w.store.OneReceive) : (body w).2.store.OneReceive := by
  cases hsection with
  | call c =>
      cases c with
      | receiveTx slate dest =>
          change (discard (Foreign.receiveTx env slate dest) w).2.store.OneReceive
          rw [discard_state]
          exact Foreign.receiveTx_oneReceive hw hkeeps
      | createAccountPath label =>
          refine Eff.Moves.bind (R := Eff.Keeps (Tables Store.OneReceive)) ?_
            (fun _ => Eff.Moves.pure ()) w hw
          refine Eff.Moves.read.bind fun w' => (Eff.Moves.throwIf _).bind fun _ => ?_
          exact (commit_tables fun s hs => hs.of_log rfl).bind fun _ => Eff.Moves.pure _
      | setActiveAccount label =>
          refine Eff.Moves.read.bind (R := Eff.Keeps (Tables Store.OneReceive)) (fun w' => ?_) w hw
          cases w'.store.acctPaths.rows.find? fun a => decide (a.label = label) with
          | none => exact Eff.Moves.throw _
          | some a => exact fun m hm => hm
      | setParentKeyId id => exact hw
      | _ => exact hkeeps.elim
  | read h => exact hw
  | node question => exact hw
  | nodeAttempt question => exact hw
  | refresh started all =>
      refine Eff.Moves.read.bind (R := Eff.Keeps (Tables Store.OneReceive)) (fun w' => ?_) w hw
      refine (Updater.refreshOutputs_oneReceive env _ _).attempt.bind fun result => ?_
      cases result <;> exact Eff.Moves.pure _
  | confirmByKernel started account t h =>
      have hadmits : w.store.Admits account t := hkeeps
      exact hw.save (t := { t with confirmed := true }.updateConfirmationTs (env.now w.tick))
        ⟨hadmits.filed, hadmits.single, hadmits.stray, hadmits.place⟩
  | cancelEntry o => exact cancelTxLogEntry_oneReceive hw
  | saveOutput o => exact hw.of_log rfl
  | deleteOutput o => exact hw.of_log rfl
  | restoreOutputs chunk =>
      refine Eff.Moves.bind (R := Eff.Keeps (Tables Store.OneReceive)) (fun m hm => hm)
        (fun now => commit_tables fun s hs => ?_) w hw
      exact restoreOutputs_oneReceive hs chunk
  | restorePaths found => exact Scan.restorePaths_tables Store.oneReceive_ofRecords found w hw
  | saveScanned info => exact hw.of_log rfl
  | saveProgress info => exact hw.of_log rfl
  | cancelExpired started t => exact cancelActive_oneReceive env _ _ w hw
  | cancelTx txId txSlateId => exact cancelActive_oneReceive env _ _ w hw

/-- In a run of receipts, cancellations, refreshes and scans whose sections all meet
their condition, no account has two live receives of a slate. -/
theorem one_live_receive {c : Config (Hold F E) (WalletBackend F E) Error}
    (hw : w.store.OneReceive) (h : WalletReaches env (KeepsOneReceive env) w c)
    (account : Identifier) (slateId : Uuid) :
    (c.state.store.liveReceives account slateId).length ≤ 1 := by
  have hreached : Tables Store.OneReceive c.state :=
    h.invariant (I := Tables Store.OneReceive)
      (fun _ _ _ _ hsection hkeeps => section_oneReceive hsection hkeeps) hw
  exact hreached.length_le_one account slateId

end Keep

/-! ## A slate replayed after a reorganisation -/

namespace SampleReplay

/-- A node that has the output of a payment at one question, and has neither it
nor its kernel later. -/
def env : Env ℤ (ℤ × ℤ) := sampleEnv fun t =>
  sampleNode (if t = 3 then [SampleReorg.paid] else []) []

def receipt : WalletThread ℤ (ℤ × ℤ) Unit :=
  Thread.atomic (.call (.receiveTx SampleSend.offer none))
    ((ApiCall.receiveTx SampleSend.offer none).run env)

/-- Two receipts of one slate and two scans. -/
def start : Config (Hold ℤ (ℤ × ℤ)) (WalletBackend ℤ (ℤ × ℤ)) Error where
  threads := [receipt, Owner.scan env Owner.lockedRestore 2 none false,
    Owner.scan env Owner.lockedRestore 2 none false, receipt]
  state := .new

theorem start_reachable {allowed : Hold ℤ (ℤ × ℤ) → WalletBackend ℤ (ℤ × ℤ) → Prop} :
    WalletReaches env allowed .new start := by
  refine reachable_pool fun t ht => ?_
  simp only [List.mem_cons, List.not_mem_nil, or_false] at ht
  rcases ht with rfl | rfl | rfl | rfl
  · exact .call _
  · exact .scan _ _ _
  · exact .scan _ _ _
  · exact .call _

/-- The payment is received, confirmed and reverted, and its slate received again. -/
theorem replay_makes_two : ∃ c, WalletReaches env (fun _ _ => True) .new c ∧
    (c.state.store.liveReceives defaultPath SampleSend.offer.id).map (·.txType) =
      [.TxReverted, .TxReceived] := by
  refine ⟨start.follow [(0, 1), (1, 1), (2, 1), (3, 1)],
    reachable_follow start_reachable (Config.allows_of_forall (fun _ _ => trivial) _ _), ?_⟩
  decide +kernel

theorem receipt_allowed : start.Allows (KeepsOneReceive env) [(0, 1), (1, 1), (2, 1)] := by
  refine ⟨fun t ht => ?_, fun t ht => ?_, fun t ht => ?_, trivial⟩
  · obtain rfl := Option.some.inj ht
    exact ⟨fun _ => ⟨fun t ht => (nomatch ht), fun row hrow => (nomatch hrow),
      fun _ t ht => (nomatch ht)⟩, trivial⟩
  · obtain rfl := Option.some.inj ht
    exact ⟨trivial, trivial⟩
  · obtain rfl := Option.some.inj ht
    exact ⟨trivial, trivial⟩

theorem one_live_receive_sample :
    ((start.follow [(0, 1), (1, 1), (2, 1)]).state.store.liveReceives defaultPath
      SampleSend.offer.id).length ≤ 1 :=
  one_live_receive (w := .new) Store.oneReceive_fresh (reachable_follow start_reachable
    receipt_allowed) _ _

end SampleReplay

end GrinWallet
