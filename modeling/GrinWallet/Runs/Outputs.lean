import GrinWallet.Runs.Receipts

/-! # The outputs a section leaves

Refreshing, cancelling and confirming write output records back under their own
key, with the account and the key path they had; the account map is not touched.
-/

namespace GrinWallet

open Effect WalletBackend OrderedTable Sections

variable {F E : Type}

namespace Store

/-- Every output record is one of an output that had a record before. -/
def OutputsFrom (s s' : Store E) : Prop := ∀ o' ∈ s'.outputs, ∃ o ∈ s.outputs, o.Same o'

variable {s s' s'' : Store E}

theorem OutputsFrom.of_outputs (h : s'.outputs = s.outputs) : s.OutputsFrom s' := by
  intro o ho
  rw [h] at ho
  exact ⟨o, ho, .refl o⟩

theorem OutputsFrom.trans (h : s.OutputsFrom s') (h' : s'.OutputsFrom s'') : s.OutputsFrom s'' := by
  intro o'' ho''
  obtain ⟨o', ho', hsame'⟩ := h' o'' ho''
  obtain ⟨o, ho, hsame⟩ := h o' ho'
  exact ⟨o, ho, hsame.trans hsame'⟩

/-- Saving a record of an output of the first tables. -/
theorem OutputsFrom.save (h : s.OutputsFrom s') {o o' : OutputData E} (ho : o ∈ s.outputs)
    (hsame : o.Same o') : s.OutputsFrom (s'.save o') := by
  intro r hr
  rcases Table.mem_put.mp hr with rfl | ⟨hr, -⟩
  · exact ⟨o, ho, hsame⟩
  · exact h r hr

theorem OutputsFrom.delete (h : s.OutputsFrom s') (id : Identifier) (mmrIndex : Option Nat) :
    s.OutputsFrom (s'.delete id mmrIndex) :=
  fun o ho => h o (Table.mem_erase.mp ho).1

/-- The accounts are the same, and every output is one recorded before. -/
def SamePlaces (s s' : Store E) : Prop := s'.acctPaths = s.acctPaths ∧ s.OutputsFrom s'

theorem SamePlaces.of_eq (hpaths : s'.acctPaths = s.acctPaths) (houtputs : s'.outputs = s.outputs) :
    s.SamePlaces s' :=
  ⟨hpaths, .of_outputs houtputs⟩

theorem SamePlaces.trans (h : s.SamePlaces s') (h' : s'.SamePlaces s'') : s.SamePlaces s'' :=
  ⟨h'.1.trans h.1, h.2.trans h'.2⟩

end Store

/-- The same of a wallet. -/
abbrev WalletBackend.SamePlaces (w w' : WalletBackend F E) : Prop := w.store.SamePlaces w'.store

instance : Std.Refl (WalletBackend.SamePlaces (F := F) (E := E)) := ⟨fun _ => .of_eq rfl rfl⟩

instance : IsTrans (WalletBackend F E) WalletBackend.SamePlaces := ⟨fun _ _ _ h h' => h.trans h'⟩

namespace WalletBackend

theorem batch_places {α : Type} {f : Store E → Except Error (α × Store E)}
    (h : ∀ (s : Store E) a s', f s = .ok (a, s') → s.SamePlaces s') :
    Eff.Moves (SamePlaces (F := F)) (batch f) := by
  intro m
  have hends := batch_ends (F := F) (f := f) (s := m.store) (J := m.store.SamePlaces)
    (.of_eq rfl rfl) (fun a s' hf => h m.store a s' hf) m rfl
  cases hr : batch f m with
  | mk r m' => cases r <;> simpa [hr] using hends

theorem commit_places {f : Store E → Store E} (h : ∀ s : Store E, s.SamePlaces (f s)) :
    Eff.Moves (SamePlaces (F := F)) (commit f) := fun m => h m.store

theorem ask_places {α : Type} (answer : Nat → Except Error α) :
    Eff.Moves (SamePlaces (F := F) (E := E)) (ask answer) := fun _ => .of_eq rfl rfl

end WalletBackend

/-- What keeps the places keeps an invariant that depends on them alone. -/
theorem Store.SamePlaces.keeps {I : Store E → Prop}
    (hI : ∀ s s' : Store E, s.SamePlaces s' → I s → I s') (w w' : WalletBackend F E)
    (h : WalletBackend.SamePlaces w w') : Eff.Keeps (Tables I) w w' :=
  hI w.store w'.store h

/-! ## Refreshing -/

section Refresh

variable [CommRing F] [AddCommGroup E] [Module F E] [DecidableEq E]

namespace Updater

variable {K : Keychain F E} {api : E → Option (Nat × Nat)} {reverted : List Nat}
  {height now : Nat} {account : Identifier} {s s' : Store E} {v : WalletOutput E}
  {vs : List (WalletOutput E)}

omit [CommRing F] [Module F E] in
theorem applyApiOutput_outputs
    (h : applyApiOutput K api reverted height account now v s = .ok s') : s.OutputsFrom s' := by
  obtain ⟨commit, vid, vmmr, logId, wasUnspent⟩ := v
  unfold applyApiOutput at h
  cases hget : s.get vid vmmr with
  | error e =>
      simp only [hget] at h
      cases h
      exact .of_outputs rfl
  | ok output =>
      have hmem := (get_eq_ok.mp hget).1
      simp only [hget] at h
      cases hapi : api commit with
      | none =>
          simp only [hapi] at h
          obtain ⟨o, hsame, heq⟩ := applyAbsent_eq output reverted s
          rw [heq] at h
          cases h
          exact Store.OutputsFrom.save (.of_outputs rfl) hmem hsame
      | some position =>
          obtain ⟨apiHeight, index⟩ := position
          simp only [hapi] at h
          obtain ⟨o, s₁, hsame, hs₁, rfl, -⟩ := applyPresent_eq_ok h
          have houtputs : s₁.outputs = s.outputs := by rw [hs₁]
          exact Store.OutputsFrom.save (.of_outputs houtputs) hmem hsame

omit [CommRing F] [Module F E] in
theorem applyApiOutputs_places {u : Unit}
    (h : applyApiOutputs K vs api reverted height account now s = .ok (u, s')) :
    s.SamePlaces s' := by
  have hpaths : s'.acctPaths = s.acctPaths := by
    obtain ⟨_, _, _, _, rfl⟩ := applyApiOutputs_refreshes h
    rfl
  refine ⟨hpaths, ?_⟩
  unfold applyApiOutputs at h
  by_cases hlow : height < s.confirmedHeight account
  · rw [if_pos hlow] at h
    cases h
    exact .of_outputs rfl
  · rw [if_neg hlow] at h
    obtain ⟨-, -, h⟩ := except_bind_eq_ok.mp h
    obtain ⟨s₂, hloop, h⟩ := except_bind_eq_ok.mp h
    cases h
    have hfrom : s.OutputsFrom s₂ :=
      foldlM_induction (J := fun _ s' => s.OutputsFrom s')
        (fun _ _ _ _ hJ hrun => hJ.trans (applyApiOutput_outputs hrun)) (.of_outputs rfl) hloop
    exact hfrom.trans (.of_outputs (revertTxs_outputs reverted account now s₂))

omit [CommRing F] [AddCommGroup E] [Module F E] [DecidableEq E] in
theorem cleanOldUnconfirmed_places (height : Nat) (s : Store E) :
    s.SamePlaces (cleanOldUnconfirmed height s) := by
  refine ⟨?_, ?_⟩
  · obtain ⟨_, _, _, _, h⟩ := cleanOldUnconfirmed_refreshes height s
    rw [h]
  · unfold cleanOldUnconfirmed
    by_cases h : height < 50
    · rw [if_pos h]
      exact .of_outputs rfl
    · rw [if_neg h]
      generalize (s.iter.filter _) = os
      have hfold : ∀ s', s.OutputsFrom s' →
          s.OutputsFrom (os.foldl (fun s o => s.delete o.keyId none) s') := by
        induction os with
        | nil => exact fun s' hs' => hs'
        | cons o os ih => exact fun s' hs' => ih _ (hs'.delete o.keyId none)
      exact hfold s (.of_outputs rfl)

/-- A refresh leaves the outputs where they are. -/
theorem refreshOutputs_places (env : Env F E) (account : Identifier) (all : Bool) :
    Eff.Moves WalletBackend.SamePlaces (refreshOutputs env account all) := by
  refine (ask_places _).bind fun tip => ?_
  obtain ⟨height, hash⟩ := tip
  refine Eff.Moves.read.bind fun w => (ask_places _).bind fun api => ?_
  refine Eff.Moves.bind (Eff.Moves.read.bind fun w' => ?_) fun reverted => ?_
  · exact fun m => .of_eq (by rw [missingKernels_store env m.store _ m rfl])
      (by rw [missingKernels_store env m.store _ m rfl])
  refine (ask_places _).bind fun now => ?_
  refine Eff.Moves.bind ?_ fun _ => commit_places fun s => cleanOldUnconfirmed_places height s
  exact batch_places fun s u s' happly => applyApiOutputs_places happly

end Updater

omit [CommRing F] [AddCommGroup E] [Module F E] [DecidableEq E] in
theorem cancelTxLogEntry_places (o : OutputData E) (s : Store E) :
    s.SamePlaces (Scan.cancelTxLogEntry o s) := by
  unfold Scan.cancelTxLogEntry
  cases o.txLogEntry with
  | none => exact .of_eq rfl rfl
  | some id =>
      simp only
      cases Updater.retrieveTxs s (some id) none (some o.keyId.parentPath) false with
      | nil => exact .of_eq rfl rfl
      | cons t rest => exact .of_eq rfl rfl

theorem refreshActive_places (env : Env F E) (all : Bool) :
    Eff.Moves WalletBackend.SamePlaces (refreshActive env all) := by
  refine Eff.Moves.read.bind fun w => ?_
  refine (Updater.refreshOutputs_places env _ all).attempt.bind fun result => ?_
  cases result <;> exact Eff.Moves.pure _

end Refresh

end GrinWallet
