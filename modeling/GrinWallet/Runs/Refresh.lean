import GrinWallet.Runs.Steps

/-! # Refreshing the outputs of an account

The map a refresh builds has one entry for each commitment, made from one
record, and each record of it is visited once: until then it is as it was when
the refresh began.
-/

namespace GrinWallet

open Effect WalletBackend OrderedTable

variable {F E : Type}

/-! ## What a refresh writes -/

/-- Only outputs, log records, log ids and refresh heights were written. -/
def Store.Refreshes (s s' : Store E) : Prop :=
  ∃ outputs txLog txLogId confirmedHeight, s' = { s with
    outputs := outputs
    txLog := txLog
    txLogId := txLogId
    confirmedHeight := confirmedHeight }

theorem Store.Refreshes.refl (s : Store E) : s.Refreshes s := ⟨_, _, _, _, rfl⟩

theorem Store.Refreshes.trans {s s' s'' : Store E} (h : s.Refreshes s') (h' : s'.Refreshes s'') :
    s.Refreshes s'' := by
  obtain ⟨o, l, i, c, rfl⟩ := h
  obtain ⟨o', l', i', c', rfl⟩ := h'
  exact ⟨o', l', i', c', rfl⟩

/-- The same of a wallet, which may have asked questions. -/
def WalletBackend.Refreshes (w w' : WalletBackend F E) : Prop :=
  ∃ s tick, w.store.Refreshes s ∧ w' = { w with store := s, tick := tick }

instance : Std.Refl (WalletBackend.Refreshes (F := F) (E := E)) :=
  ⟨fun w => ⟨w.store, w.tick, .refl _, rfl⟩⟩

instance : IsTrans (WalletBackend F E) WalletBackend.Refreshes := by
  refine ⟨fun w w' w'' h h' => ?_⟩
  obtain ⟨s, tick, hs, rfl⟩ := h
  obtain ⟨s', tick', hs', rfl⟩ := h'
  exact ⟨s', tick', hs.trans hs', rfl⟩

/-- A record of the same output, under the same account. -/
def OutputData.Same (o o' : OutputData E) : Prop :=
  o'.rootKeyId = o.rootKeyId ∧ o'.keyId = o.keyId ∧ o'.nChild = o.nChild ∧
    o'.mmrIndex = o.mmrIndex ∧ o'.isCoinbase = o.isCoinbase

theorem OutputData.Same.refl (o : OutputData E) : o.Same o := ⟨rfl, rfl, rfl, rfl, rfl⟩

theorem OutputData.Same.trans {o o' o'' : OutputData E} (h : o.Same o') (h' : o'.Same o'') :
    o.Same o'' :=
  ⟨h'.1.trans h.1, h'.2.1.trans h.2.1, h'.2.2.1.trans h.2.2.1, h'.2.2.2.1.trans h.2.2.2.1,
    h'.2.2.2.2.trans h.2.2.2.2⟩

theorem OutputData.Same.key_eq {o o' : OutputData E} (h : o.Same o') : o'.key = o.key := by
  rw [key, key, h.2.1, h.2.2.2.1]

variable [CommRing F] [AddCommGroup E] [Module F E] [DecidableEq E]

namespace Updater

section OutputMap

omit [CommRing F] [AddCommGroup E] [Module F E] in
theorem mem_insertOutput {v x : WalletOutput E} {vs : List (WalletOutput E)}
    (h : x ∈ insertOutput v vs) : x = v ∨ x ∈ vs := by
  induction vs with
  | nil => exact .inl (List.mem_singleton.mp h)
  | cons v' vs ih =>
      unfold insertOutput at h
      by_cases hc : v'.1 = v.1
      · rw [if_pos hc] at h
        rcases List.mem_cons.mp h with rfl | h
        · exact .inl rfl
        · exact .inr (List.mem_cons_of_mem _ h)
      · rw [if_neg hc] at h
        rcases List.mem_cons.mp h with rfl | h
        · exact .inr List.mem_cons_self
        · rcases ih h with rfl | h
          · exact .inl rfl
          · exact .inr (List.mem_cons_of_mem _ h)

omit [CommRing F] [AddCommGroup E] [Module F E] in
theorem insertOutput_nodup {v : WalletOutput E} {vs : List (WalletOutput E)}
    (h : (vs.map Prod.fst).Nodup) : ((insertOutput v vs).map Prod.fst).Nodup := by
  induction vs with
  | nil => exact List.nodup_singleton _
  | cons v' vs ih =>
      obtain ⟨hnot, hrest⟩ := List.nodup_cons.mp h
      unfold insertOutput
      by_cases hc : v'.1 = v.1
      · rw [if_pos hc, List.map_cons, List.nodup_cons, ← hc]
        exact ⟨hnot, hrest⟩
      · rw [if_neg hc, List.map_cons, List.nodup_cons]
        refine ⟨fun hmem => ?_, ih hrest⟩
        obtain ⟨x, hx, heq⟩ := List.mem_map.mp hmem
        rcases mem_insertOutput hx with rfl | hx
        · exact hc heq.symm
        · exact hnot (heq ▸ List.mem_map_of_mem hx)

/-- The entry of the output map made from a record. -/
def walletOutputOf (K : Keychain F E) (o : OutputData E) : WalletOutput E :=
  (commitOf K o, o.keyId, o.mmrIndex, o.txLogEntry, decide (o.status = .Unspent))

/-- The database key of the record behind an entry. -/
def outputMapKey (v : WalletOutput E) : DbKey := outputKey v.2.1 v.2.2.1

theorem foldl_insertOutput (K : Keychain F E) (os : List (OutputData E))
    (vs : List (WalletOutput E)) (h : (vs.map Prod.fst).Nodup) :
    let r := os.foldl (fun m o => insertOutput (walletOutputOf K o) m) vs
    (r.map Prod.fst).Nodup ∧ ∀ v ∈ r, v ∈ vs ∨ ∃ o ∈ os, v = walletOutputOf K o := by
  induction os generalizing vs with
  | nil => exact ⟨h, fun v hv => .inl hv⟩
  | cons o os ih =>
      obtain ⟨hnodup, hsource⟩ := ih _ (insertOutput_nodup (v := walletOutputOf K o) h)
      refine ⟨hnodup, fun v hv => ?_⟩
      rcases hsource v hv with hv | ⟨o', ho', rfl⟩
      · rcases mem_insertOutput hv with rfl | hv
        · exact .inr ⟨o, List.mem_cons_self, rfl⟩
        · exact .inl hv
      · exact .inr ⟨o', List.mem_cons_of_mem _ ho', rfl⟩

variable {K : Keychain F E} {s : Store E} {account : Identifier} {all : Bool}

/-- An entry of the output map is made from a record of the account. -/
theorem mapWalletOutputs_source {v : WalletOutput E} (h : v ∈ mapWalletOutputs K s account all) :
    ∃ o ∈ recordsToRefresh s account all, v = walletOutputOf K o := by
  obtain ⟨-, hsource⟩ := foldl_insertOutput K (recordsToRefresh s account all)
    [] List.nodup_nil
  rcases hsource v h with hv | hv
  · cases hv
  · exact hv

omit [CommRing F] [AddCommGroup E] [Module F E] [DecidableEq E] in
theorem recordsToRefresh_subset {o : OutputData E} (h : o ∈ recordsToRefresh s account all) :
    o ∈ s.outputs ∧ o.rootKeyId = account ∧ o.status ≠ .Spent := by
  have hmem : o ∈ s.iter.filter fun o => o.rootKeyId = account && o.status ≠ .Spent := by
    unfold recordsToRefresh at h
    cases all with
    | true => exact h
    | false => exact List.mem_of_mem_filter h
  obtain ⟨hiter, hcond⟩ := List.mem_filter.mp hmem
  have hcond' : o.rootKeyId = account ∧ o.status ≠ .Spent := by simpa using hcond
  exact ⟨hiter, hcond'⟩

/-- Two entries of the output map are made from records under different keys. -/
theorem mapWalletOutputs_keys :
    (mapWalletOutputs K s account all).Pairwise fun v v' => outputMapKey v ≠ outputMapKey v' := by
  obtain ⟨hnodup, -⟩ := foldl_insertOutput K (recordsToRefresh s account all)
    [] List.nodup_nil
  have hcommits : (mapWalletOutputs K s account all).Pairwise fun v v' => v.1 ≠ v'.1 :=
    List.pairwise_map.mp hnodup
  refine hcommits.imp_of_mem fun hv hv' hne hkey => ?_
  obtain ⟨o, ho, rfl⟩ := mapWalletOutputs_source hv
  obtain ⟨o', ho', rfl⟩ := mapWalletOutputs_source hv'
  have heq : o = o' := Table.eq_of_key_eq (recordsToRefresh_subset ho).1
    (recordsToRefresh_subset ho').1 hkey
  exact hne (by rw [heq])

end OutputMap

/-- A loop over results keeps what each step keeps of the elements still to come. -/
theorem foldlM_induction {α σ ε : Type} {f : σ → α → Except ε σ} {J : List α → σ → Prop}
    (hstep : ∀ a as s s', J (a :: as) s → f s a = .ok s' → J as s') {as : List α} {s s' : σ}
    (h₀ : J as s) (h : as.foldlM f s = .ok s') : J [] s' := by
  induction as generalizing s with
  | nil =>
      cases h
      exact h₀
  | cons a as ih =>
      rw [List.foldlM_cons] at h
      obtain ⟨s₁, hs₁, h⟩ := except_bind_eq_ok.mp h
      exact ih (hstep a as s s₁ h₀ hs₁) h

section Step

variable {K : Keychain F E} {api : E → Option (Nat × Nat)} {reverted : List Nat}
  {height now : Nat} {account : Identifier} {s s' : Store E} {v : WalletOutput E}

omit [CommRing F] [Module F E] in
/-- The record a refresh saves is one of the same output. -/
theorem applyPresent_eq_ok {commit : E} {output : OutputData E} {apiHeight : Nat}
    (h : applyPresent K commit output apiHeight height account now s = .ok s') :
    ∃ (o : OutputData E) (s₁ : Store E), output.Same o ∧
      s₁ = { s with txLog := s₁.txLog, txLogId := s₁.txLogId } ∧ s' = s₁.save o ∧
      (s₁.txLog = s.txLog ∨
        (output.isCoinbase = true ∧ ∃ logId t, coinbaseEntry K commit output height account logId now
          = .ok t ∧ s₁.txLog = s.txLog.put (account, t)) ∨
        (output.isCoinbase = false ∧ (output.status = .Unconfirmed ∨ output.status = .Reverted) ∧
          ∃ t, s.txLogIter.find? (fun t => some t.id = output.txLogEntry ∧ t.parentKeyId = account)
              = some t ∧ s₁.txLog = s.txLog.put (account, confirmEntry t now))) := by
  have hsame : ∀ o : OutputData E, o.Same { o with height := apiHeight }.markUnspent := by
    intro o
    unfold OutputData.markUnspent
    cases o.status <;> exact ⟨rfl, rfl, rfl, rfl, rfl⟩
  unfold applyPresent at h
  by_cases hcb : output.isCoinbase = true ∧ output.status = .Unconfirmed
  · rw [if_pos hcb] at h
    obtain ⟨t, ht, h₁⟩ := except_bind_eq_ok.mp h
    obtain ⟨⟨o, s₁⟩, hpure, h₂⟩ := except_bind_eq_ok.mp h₁
    cases hpure
    have hnot : ¬ (¬ output.isCoinbase = true ∧
        (output.status = .Unconfirmed ∨ output.status = .Reverted)) := fun hn => hn.1 hcb.1
    dsimp only at h₂
    rw [if_neg hnot] at h₂
    cases h₂
    exact ⟨_, (s.nextTxLogId account).2.saveTxLogEntry t account,
      hsame { output with txLogEntry := some (s.txLogId account) }, rfl, rfl,
      .inr (.inl ⟨hcb.1, _, t, ht, rfl⟩)⟩
  · rw [if_neg hcb] at h
    obtain ⟨⟨o, s₁⟩, hpure, h₂⟩ := except_bind_eq_ok.mp h
    cases hpure
    by_cases hp : ¬ output.isCoinbase = true ∧
        (output.status = .Unconfirmed ∨ output.status = .Reverted)
    · simp only [if_pos hp] at h₂
      cases hfind : s.txLogIter.find? fun t =>
          decide (some t.id = output.txLogEntry ∧ t.parentKeyId = account) with
      | none =>
          simp only [hfind] at h₂
          cases h₂
          exact ⟨_, s, hsame _, rfl, rfl, .inl rfl⟩
      | some t =>
          simp only [hfind] at h₂
          cases h₂
          refine ⟨_, s.saveTxLogEntry (confirmEntry t now) account, hsame _, rfl, rfl,
            .inr (.inr ⟨by simpa using hp.1, hp.2, t, rfl, rfl⟩)⟩
    · simp only [if_neg hp] at h₂
      cases h₂
      exact ⟨_, s, hsame _, rfl, rfl, .inl rfl⟩

omit [CommRing F] [AddCommGroup E] [Module F E] [DecidableEq E] in
theorem applyAbsent_eq (output : OutputData E) (reverted : List Nat) (s : Store E) :
    ∃ o, output.Same o ∧ applyAbsent output reverted s = s.save o := by
  unfold applyAbsent
  by_cases h : ¬ output.isCoinbase = true ∧ output.txLogEntry.any (· ∈ reverted) = true
  · refine ⟨output.markReverted, ?_, if_pos h⟩
    unfold OutputData.markReverted
    cases output.status <;> exact ⟨rfl, rfl, rfl, rfl, rfl⟩
  · refine ⟨output.markSpent, ?_, if_neg h⟩
    unfold OutputData.markSpent
    cases output.status <;> exact ⟨rfl, rfl, rfl, rfl, rfl⟩

omit [CommRing F] [AddCommGroup E] [Module F E] [DecidableEq E] in
theorem get_eq_ok {id : Identifier} {mmrIndex : Option Nat} {o : OutputData E} :
    s.get id mmrIndex = .ok o ↔ o ∈ s.outputs ∧ o.key = outputKey id mmrIndex := by
  rw [← Table.find_eq_some, Store.get]
  cases s.outputs.find (outputKey id mmrIndex) with
  | none => simp
  | some o' => simp

omit [CommRing F] [Module F E] in
/-- Refreshing one record leaves the records under other keys. -/
theorem applyApiOutput_other (h : applyApiOutput K api reverted height account now v s = .ok s')
    {id : Identifier} {mmrIndex : Option Nat} (hne : outputMapKey v ≠ outputKey id mmrIndex) :
    s'.get id mmrIndex = s.get id mmrIndex := by
  obtain ⟨commit, vid, vmmr, logId, wasUnspent⟩ := v
  unfold applyApiOutput at h
  have hsave : ∀ {o : OutputData E} {s₁ : Store E}, o.key = outputKey vid vmmr →
      s₁.outputs = s.outputs → (s₁.save o).get id mmrIndex = s.get id mmrIndex := by
    intro o s₁ hkey hout
    have hk : o.key ≠ outputKey id mmrIndex := by
      rw [hkey]
      exact hne
    unfold Store.get Store.save
    rw [Table.find_put_of_ne _ hk, hout]
  cases hget : s.get vid vmmr with
  | error e =>
      simp only [hget] at h
      cases h
      rfl
  | ok output =>
      have hkey := (get_eq_ok.mp hget).2
      simp only [hget] at h
      cases hapi : api commit with
      | none =>
          simp only [hapi] at h
          obtain ⟨o, hok, heq⟩ := applyAbsent_eq output reverted s
          rw [heq] at h
          cases h
          exact hsave (hok.key_eq.trans hkey) rfl
      | some position =>
          obtain ⟨apiHeight, index⟩ := position
          simp only [hapi] at h
          obtain ⟨o, s₁, hok, hout, rfl, -⟩ := applyPresent_eq_ok h
          have hsame : s₁.outputs = s.outputs := by rw [hout]
          exact hsave (hok.key_eq.trans hkey) hsame

omit [CommRing F] [Module F E] in
theorem applyApiOutput_refreshes
    (h : applyApiOutput K api reverted height account now v s = .ok s') : s.Refreshes s' := by
  obtain ⟨commit, vid, vmmr, logId, wasUnspent⟩ := v
  unfold applyApiOutput at h
  cases hget : s.get vid vmmr with
  | error e =>
      simp only [hget] at h
      cases h
      exact .refl _
  | ok output =>
      simp only [hget] at h
      cases hapi : api commit with
      | none =>
          simp only [hapi] at h
          obtain ⟨o, -, heq⟩ := applyAbsent_eq output reverted s
          rw [heq] at h
          cases h
          exact ⟨_, _, _, _, rfl⟩
      | some position =>
          obtain ⟨apiHeight, index⟩ := position
          simp only [hapi] at h
          obtain ⟨o, s₁, -, hs₁, rfl, -⟩ := applyPresent_eq_ok h
          rw [hs₁]
          exact ⟨_, _, _, _, rfl⟩

omit [CommRing F] [AddCommGroup E] [Module F E] [DecidableEq E] in
theorem revertTxs_refreshes (reverted : List Nat) (account : Identifier) (now : Nat)
    (s : Store E) : s.Refreshes (revertTxs reverted account now s) := by
  unfold revertTxs
  generalize (s.txLogIter.filter fun t =>
    decide (t.id ∈ reverted) && t.parentKeyId = account) = ts
  induction ts generalizing s with
  | nil => exact .refl s
  | cons t ts ih =>
      exact Store.Refreshes.trans ⟨_, _, _, _, rfl⟩ (ih (s.saveTxLogEntry (revertEntry now t) account))

omit [CommRing F] [Module F E] in
theorem applyApiOutputs_refreshes {vs : List (WalletOutput E)} {u : Unit}
    (h : applyApiOutputs K vs api reverted height account now s = .ok (u, s')) :
    s.Refreshes s' := by
  unfold applyApiOutputs at h
  by_cases hlow : height < s.confirmedHeight account
  · rw [if_pos hlow] at h
    cases h
    exact .refl s
  · rw [if_neg hlow] at h
    obtain ⟨-, -, h⟩ := except_bind_eq_ok.mp h
    obtain ⟨s₂, hloop, h⟩ := except_bind_eq_ok.mp h
    cases h
    have hs₂ : s.Refreshes s₂ :=
      foldlM_induction (J := fun _ s' => s.Refreshes s')
        (fun _ _ _ _ hJ hrun => hJ.trans (applyApiOutput_refreshes hrun)) (.refl s) hloop
    exact (hs₂.trans (revertTxs_refreshes _ _ _ _)).trans ⟨_, _, _, _, rfl⟩

omit [CommRing F] [AddCommGroup E] [Module F E] [DecidableEq E] in
theorem revertTxs_outputs (reverted : List Nat) (account : Identifier) (now : Nat) (s : Store E) :
    (revertTxs reverted account now s).outputs = s.outputs := by
  unfold revertTxs
  generalize (s.txLogIter.filter fun t =>
    decide (t.id ∈ reverted) && t.parentKeyId = account) = ts
  induction ts generalizing s with
  | nil => rfl
  | cons t ts ih => exact ih (s.saveTxLogEntry (revertEntry now t) account)

omit [CommRing F] [AddCommGroup E] [Module F E] [DecidableEq E] in
theorem cleanOldUnconfirmed_refreshes (height : Nat) (s : Store E) :
    s.Refreshes (cleanOldUnconfirmed height s) := by
  unfold cleanOldUnconfirmed
  by_cases h : height < 50
  · rw [if_pos h]
    exact .refl s
  · rw [if_neg h]
    generalize (s.iter.filter _) = os
    induction os generalizing s with
    | nil => exact .refl s
    | cons o os ih => exact Store.Refreshes.trans ⟨_, _, _, _, rfl⟩ (ih (s.delete o.keyId none))

end Step

omit [CommRing F] [AddCommGroup E] [Module F E] [DecidableEq E] in
theorem ask_refreshes {α : Type} (answer : Nat → Except Error α) :
    Eff.Moves (WalletBackend.Refreshes (F := F) (E := E)) (ask answer) :=
  fun w => ⟨w.store, w.tick + 1, .refl _, rfl⟩

omit [CommRing F] [AddCommGroup E] [Module F E] [DecidableEq E] in
theorem missingKernels_refreshes (env : Env F E) (ks : List (Nat × E × Option Nat)) :
    Eff.Moves WalletBackend.Refreshes (missingKernels env ks) := by
  induction ks with
  | nil => exact Eff.Moves.pure _
  | cons k ks ih =>
      obtain ⟨id, excess, minHeight⟩ := k
      exact (ask_refreshes _).bind fun kernel => ih.bind fun rest => Eff.Moves.pure _

omit [CommRing F] [AddCommGroup E] [Module F E] [DecidableEq E] in
theorem missingKernels_store (env : Env F E) (s : Store E) (ks : List (Nat × E × Option Nat)) :
    Eff.Moves (Eff.Keeps fun m => m.store = s) (missingKernels env ks) := by
  induction ks with
  | nil => exact Eff.Moves.pure _
  | cons k ks ih =>
      obtain ⟨id, excess, minHeight⟩ := k
      exact Eff.Moves.bind (fun m hm => hm) fun kernel => ih.bind fun rest => Eff.Moves.pure _

omit [CommRing F] [AddCommGroup E] [Module F E] [DecidableEq E] in
theorem findRevertedKernels_store (env : Env F E) (s : Store E) (vs : List (WalletOutput E))
    (api : E → Option (Nat × Nat)) (account : Identifier) :
    Eff.Moves (Eff.Keeps fun m => m.store = s) (findRevertedKernels env vs api account) :=
  Eff.Moves.read.bind fun _ => missingKernels_store env s _

/-- A refresh writes nothing else, whether it ends or fails. -/
theorem refreshOutputs_refreshes (env : Env F E) (account : Identifier) (all : Bool) :
    Eff.Moves WalletBackend.Refreshes (refreshOutputs env account all) := by
  refine (ask_refreshes _).bind fun tip => ?_
  obtain ⟨height, hash⟩ := tip
  refine Eff.Moves.read.bind fun w => (ask_refreshes _).bind fun api => ?_
  refine Eff.Moves.bind (Eff.Moves.read.bind fun _ => missingKernels_refreshes env _)
    fun reverted => ?_
  refine Eff.Moves.bind (fun m => ⟨m.store, m.tick + 1, .refl _, rfl⟩) fun now => ?_
  refine Eff.Moves.bind (fun m => ?_) fun _ =>
    fun m => ⟨_, m.tick, cleanOldUnconfirmed_refreshes height m.store, rfl⟩
  cases hbatch : batch (applyApiOutputs env.keychain (env.walletOutputOrder.apply
      (mapWalletOutputs env.keychain w.store account all)) api reverted height account now) m with
  | mk r m' =>
      cases r with
      | error e =>
          obtain ⟨-, rfl⟩ := Eff.transact_eq_error.mp hbatch
          exact Std.Refl.refl _
      | ok u =>
          obtain ⟨s, happly, rfl⟩ := batch_eq_ok.mp hbatch
          exact ⟨s, m.tick, applyApiOutputs_refreshes happly, rfl⟩

end Updater

end GrinWallet
