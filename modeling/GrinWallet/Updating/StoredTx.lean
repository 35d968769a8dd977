import GrinWallet.Model.Sample

/-! # Looking up a stored transaction

The log ids are numbered in each account, the lookup of a stored transaction takes
the first entry of any account. It returns the transaction of the entry the user
sees under an id exactly when that first entry is about the same slate, or when
neither of the two transactions can be read.
-/

namespace GrinWallet

open Effect

namespace Owner

variable {F E : Type} [CommRing F]

/-- A slate whose stored transaction can be read back. -/
def Retrievable (w : WalletBackend F E) (id : Uuid) : Prop :=
  ∃ slate, storedSlate w id = .ok (some slate)

theorem storedSlate_id {w : WalletBackend F E} {id : Uuid} {r : Option (Slate F E)}
    (h : storedSlate w id = .ok r) : ∃ slate, r = some slate ∧ slate.id = id := by
  obtain ⟨tx, -, h⟩ := except_bind_eq_ok.mp h
  cases hfee : tx.aggregateFeeFields with
  | error e =>
      rw [hfee] at h
      cases h
  | ok feeFields =>
      rw [hfee] at h
      cases h
      exact ⟨_, rfl, rfl⟩

/-- Lookups of two slates return the same only for one slate, or when neither is stored. -/
theorem storedSlate_same_iff {w : WalletBackend F E} {u v : Uuid} :
    (∀ r, storedSlate w u = .ok r ↔ storedSlate w v = .ok r) ↔
      u = v ∨ ¬ Retrievable w u ∧ ¬ Retrievable w v := by
  constructor
  · intro h
    by_cases hu : Retrievable w u
    · obtain ⟨slate, hslate⟩ := hu
      obtain ⟨s, hs, hid⟩ := storedSlate_id hslate
      obtain ⟨s', hs', hid'⟩ := storedSlate_id ((h _).mp hslate)
      cases hs
      cases hs'
      exact .inl (hid.symm.trans hid')
    · exact .inr ⟨hu, fun ⟨slate, hslate⟩ => hu ⟨slate, (h _).mpr hslate⟩⟩
  · rintro (rfl | ⟨hu, hv⟩) r
    · exact Iff.rfl
    · have hnone : ∀ {id}, ¬ Retrievable w id → storedSlate w id ≠ .ok r := by
        intro id hid hr
        obtain ⟨slate, rfl, -⟩ := storedSlate_id hr
        exact hid ⟨slate, hr⟩
      exact iff_of_false (hnone hu) (hnone hv)

/-- The first log entry with the id, of whatever account, is about the slate; or it is about one
that, like the slate, has no transaction that can be read. -/
def FirstEntryAbout (w : WalletBackend F E) (i : Nat) (u : Uuid) : Prop :=
  let first := (w.store.txLogIter.find? fun t => t.id = i).bind fun t => t.txSlateId
  first = some u ∨ ¬ Retrievable w u ∧ ∀ v ∈ first, ¬ Retrievable w v

/-- A lookup by id finds what a lookup by slate finds. -/
theorem getStoredTx_same_iff (w : WalletBackend F E) (i : Nat) (u : Uuid) :
    (∀ r, getStoredTx w (some i) none = .ok r ↔ getStoredTx w none (some u) = .ok r) ↔
      FirstEntryAbout w i u := by
  have hslate : getStoredTx w none (some u) = storedSlate w u := rfl
  have hid : getStoredTx w (some i) none
      = ((w.store.txLogIter.find? fun t => t.id = i).bind fun t => t.txSlateId).elim
          (.error (.StoredTx "Both the provided Transaction Id and Slate UUID are invalid."))
          (storedSlate w) := by
    unfold getStoredTx storedTxId
    rw [Option.bind_some]
    cases (w.store.txLogIter.find? fun t => t.id = i).bind fun t => t.txSlateId <;> rfl
  rw [hslate, hid]
  unfold FirstEntryAbout
  cases (w.store.txLogIter.find? fun t => t.id = i).bind fun t => t.txSlateId with
  | some v =>
      show (∀ r, storedSlate w v = .ok r ↔ storedSlate w u = .ok r) ↔ _
      rw [storedSlate_same_iff]
      simp [and_comm]
  | none =>
      constructor
      · intro h
        refine .inr ⟨fun hu => ?_, fun v hv => by cases hv⟩
        obtain ⟨slate, hslate⟩ := hu
        cases (h _).mpr hslate
      · rintro (h | ⟨hu, -⟩) r
        · cases h
        · refine iff_of_false (fun h => by cases h) fun h => ?_
          obtain ⟨slate, rfl, -⟩ := storedSlate_id h
          exact hu ⟨slate, h⟩

/-- Looking up the stored transaction of an entry the active account shows returns that of its
slate exactly when the first entry with the id is about it. -/
theorem stored_tx_lookup_respects_accounts_iff (w : WalletBackend F E) :
    (∀ i t u, t ∈ Updater.retrieveTxs w.store (some i) none (some w.parentKeyId) false →
        t.txSlateId = some u →
        ∀ r, getStoredTx w (some i) none = .ok r ↔ getStoredTx w none (some u) = .ok r) ↔
      ∀ i t u, t ∈ Updater.retrieveTxs w.store (some i) none (some w.parentKeyId) false →
        t.txSlateId = some u → FirstEntryAbout w i u := by
  simp only [getStoredTx_same_iff]

/-! ## Two accounts -/

/-- A wallet with a coin in each of two accounts, where the second is the active one. -/
def twoAccounts : WalletBackend ℤ (ℤ × ℤ) :=
  let savings : Identifier := .deriveKeyId 2 1 0 0 0
  let coin := { sampleCoin 40000000 0 with rootKeyId := savings, keyId := savings.child 0 }
  let w := sampleWallet [sampleCoin 30000000 0]
  let store := ((w.store.save coin).saveChildIndex savings 1).saveAcctPath
    ⟨"savings".toList, savings⟩
  { w with store := store }

/-- One send from each account, each numbered 0. -/
def sendFromEach : WalletM ℤ (ℤ × ℤ) (Uuid × Uuid) := do
  let env := SampleSend.env
  let first ← initSendTx env (sampleSend 5)
  txLockOutputs env first
  setActiveAccount "savings".toList
  let second ← initSendTx env (sampleSend 7)
  txLockOutputs env second
  return (first.id, second.id)

def afterSends : Except Error (Uuid × Uuid) × WalletBackend ℤ (ℤ × ℤ) := sendFromEach twoAccounts

/-- The slates of the first and of the second send. -/
def sentSlates : Uuid × Uuid := returned afterSends (0, 0)

/-- The second account shows its own send under the id 0, the lookup returns that of the first. -/
theorem lookup_returns_another_accounts_tx :
    sendFromEach twoAccounts = (.ok sentSlates, afterSends.2) ∧ sentSlates.1 ≠ sentSlates.2 ∧
      (Updater.retrieveTxs afterSends.2.store (some 0) none (some afterSends.2.parentKeyId)
        false).map (fun t => t.txSlateId) = [some sentSlates.2] ∧
      (getStoredTx afterSends.2 (some 0) none).map (fun r => r.map fun s => s.id)
        = .ok (some sentSlates.1) := by
  have hrun : afterSends = (.ok sentSlates, afterSends.2) :=
    eq_returned (0, 0) (by decide +kernel)
  exact ⟨hrun, by decide +kernel, by decide +kernel, by decide +kernel⟩

end Owner

end GrinWallet
