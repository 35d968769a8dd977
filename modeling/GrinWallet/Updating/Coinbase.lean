import GrinWallet.Model.Sample

/-! # Building a coinbase output

A miner asks for a coinbase output, and may name the key of the candidate it got
before. The new record is written under the key without looking at the record
that is there.
-/

namespace GrinWallet

open Effect WalletBackend OrderedTable

variable {F E : Type}

/-- A coinbase output offered to a miner and not seen on chain. -/
def OutputData.Candidate (o : OutputData E) : Prop :=
  o.status = .Unconfirmed ∧ o.isCoinbase = true

/-- The record of an output is gone or changed. -/
def Store.Loses (s s' : Store E) (o : OutputData E) : Prop := o ∈ s.outputs ∧ o ∉ s'.outputs

/-- At most one record is changed, and that of a candidate. -/
def Store.ReplacesCandidate (s s' : Store E) : Prop :=
  (∀ o, s.Loses s' o → o.Candidate) ∧ ∀ o o', s.Loses s' o → s.Loses s' o' → o = o'

theorem Store.replacesCandidate_self {s s' : Store E} (h : s'.outputs = s.outputs) :
    s.ReplacesCandidate s' := by
  have hnone : ∀ o, ¬ s.Loses s' o := by
    rintro o ⟨ho, hnot⟩
    rw [h] at hnot
    exact hnot ho
  exact ⟨fun o ho => (hnone o ho).elim, fun o _ ho => (hnone o ho).elim⟩

/-- Saving a candidate replaces at most the record under its key. -/
theorem Store.save_replacesCandidate_iff {s : Store E} {r : OutputData E} (hr : r.Candidate) :
    s.ReplacesCandidate (s.save r) ↔
      ∀ o, s.outputs.find r.key = some o → o.Candidate := by
  have hkey : ∀ o, s.Loses (s.save r) o → o.key = r.key := by
    rintro o ⟨ho, hnot⟩
    by_contra hne
    exact hnot (Table.mem_put.mpr (.inr ⟨ho, hne⟩))
  constructor
  · rintro ⟨hcandidate, -⟩ o hfind
    obtain ⟨ho, hk⟩ := Table.find_eq_some.mp hfind
    by_cases heq : o = r
    · rw [heq]
      exact hr
    · refine hcandidate o ⟨ho, fun hmem => ?_⟩
      rcases Table.mem_put.mp hmem with h | ⟨-, hne⟩
      · exact heq h
      · exact hne hk
  · intro h
    refine ⟨fun o ho => h o (Table.find_eq_some.mpr ⟨ho.1, hkey o ho⟩), fun o o' ho ho' => ?_⟩
    exact Table.eq_of_key_eq ho.1 ho'.1 ((hkey o ho).trans (hkey o' ho').symm)

namespace Updater

/-- The key a coinbase output is built under: the one named if there is a record
without PMMR index under it, else the next child of the active account, if it has one. -/
def coinbaseTarget (w : WalletBackend F E) (keyId : Option Identifier) : Option Identifier :=
  match keyId.filter fun id => (w.store.outputs.find (outputKey id none)).isSome with
  | some id => some id
  | none =>
      if 4 ≤ w.parentKeyId.depth then none
      else some (w.parentKeyId.child (w.store.childIndex w.parentKeyId))

/-- Taking the next child. -/
theorem nextChild_target (w : WalletBackend F E) :
    (4 ≤ w.parentKeyId.depth ∧ ∃ e, nextChild w = (.error e, w)) ∨
      ¬ 4 ≤ w.parentKeyId.depth ∧
        nextChild w = (.ok (w.parentKeyId.child (w.store.childIndex w.parentKeyId)),
          afterNextChild w) := by
  by_cases h : 4 ≤ w.parentKeyId.depth
  · exact .inl ⟨h, _, run_nextChild_deep h⟩
  · exact .inr ⟨h, run_nextChild (by omega)⟩

/-- The key of a coinbase output is the target; the records stay as they are. -/
theorem coinbaseKey_target (w : WalletBackend F E) (keyId : Option Identifier) :
    (coinbaseTarget w keyId = none ∧ ∃ e, coinbaseKey keyId w = (.error e, w)) ∨
      ∃ k w', coinbaseTarget w keyId = some k ∧ coinbaseKey keyId w = (.ok k, w') ∧
        w'.store.outputs = w.store.outputs := by
  have hchild : (coinbaseTarget w none = none ∧ ∃ e, nextChild w = (.error e, w)) ∨
      ∃ k w', coinbaseTarget w none = some k ∧ nextChild w = (.ok k, w') ∧
        w'.store.outputs = w.store.outputs := by
    rcases nextChild_target w with ⟨hdeep, e, hrun⟩ | ⟨hdepth, hrun⟩
    · exact .inl ⟨by simp [coinbaseTarget, hdeep], e, hrun⟩
    · exact .inr ⟨_, _, by simp [coinbaseTarget, hdepth], hrun, rfl⟩
  cases keyId with
  | none => exact hchild
  | some id =>
      cases hfind : w.store.outputs.find (outputKey id none) with
      | none =>
          have htarget : coinbaseTarget w (some id) = coinbaseTarget w none := by
            simp [coinbaseTarget, Option.filter, hfind]
          have hrun : coinbaseKey (some id) w = nextChild w := by
            simp [coinbaseKey, Eff.run_bind, Store.get, hfind]
          rw [htarget, hrun]
          exact hchild
      | some o =>
          obtain ⟨-, hkey⟩ := Table.find_eq_some.mp hfind
          have hid : o.keyId = id := (outputKey_inj.mp hkey).1
          refine .inr ⟨id, w, by simp [coinbaseTarget, Option.filter, hfind], ?_, rfl⟩
          simp [coinbaseKey, Eff.run_bind, Store.get, hfind, hid]

variable [CommRing F] [AddCommGroup E] [Module F E]

/-- Building a coinbase output changes no record but that of a candidate exactly
when the record under the key it is built for, if there is one, is a candidate's. -/
theorem buildCoinbase_replacesCandidate_iff (env : Env F E) (blockFees : BlockFees)
    (w : WalletBackend F E) :
    w.store.ReplacesCandidate (buildCoinbase env blockFees w).2.store ↔
      ∀ k, coinbaseTarget w blockFees.keyId = some k →
        ∀ o, w.store.outputs.find (outputKey k none) = some o → o.Candidate := by
  rcases coinbaseKey_target w blockFees.keyId with ⟨htarget, e, hrun⟩ | ⟨k, w', htarget, hrun, hsame⟩
  · have hfail : buildCoinbase env blockFees w = (.error e, w) := by
      unfold buildCoinbase
      rw [Eff.run_bind_ok (Eff.run_read w)]
      exact Eff.run_bind_error hrun
    rw [hfail, htarget]
    exact iff_of_true (Store.replacesCandidate_self rfl) fun k hk => nomatch hk
  · let r : OutputData E := Selection.unconfirmedOutput env.keychain w.parentKeyId k
      (env.consensus.reward blockFees.fees) blockFees.height
      (u64 (blockFees.height + env.consensus.coinbaseMaturity)) true none
    have hbuilt : (buildCoinbase env blockFees w).2.store = w'.store.save r := by
      unfold buildCoinbase
      rw [Eff.run_bind_ok (Eff.run_read w), Eff.run_bind_ok hrun]
      rfl
    have hr : r.Candidate := ⟨rfl, rfl⟩
    have houtputs : (w'.store.save r).outputs = (w.store.save r).outputs := by
      simp [Store.save, hsame]
    have hloses : w.store.ReplacesCandidate (w'.store.save r) ↔
        w.store.ReplacesCandidate (w.store.save r) := by
      unfold Store.ReplacesCandidate Store.Loses
      rw [houtputs]
    rw [hbuilt, hloses, Store.save_replacesCandidate_iff hr, htarget]
    simp only [Option.some.injEq, forall_eq']
    rfl

end Updater

/-! ## A miner names the key of a payment -/

namespace SampleCoinbase

def wallet : WalletBackend ℤ (ℤ × ℤ) := sampleWallet [sampleCoin 30000000 0]

/-- A request for the block at height 101 under the key of the wallet's only coin. -/
def request : BlockFees := ⟨0, 101, some (defaultPath.child 0)⟩

def built : WalletBackend ℤ (ℤ × ℤ) := (Updater.buildCoinbase SampleSend.env request wallet).2

/-- The unspent coin is replaced by the candidate. -/
theorem coin_replaced : ¬ wallet.store.ReplacesCandidate built.store := by
  rintro ⟨hcandidate, -⟩
  have hlost : wallet.store.Loses built.store (sampleCoin 30000000 0) := by
    have hin : sampleCoin 30000000 0 ∈ wallet.store.outputs.rows := by decide +kernel
    have hout : sampleCoin 30000000 0 ∉ built.store.outputs.rows := by decide +kernel
    exact ⟨hin, hout⟩
  cases (hcandidate _ hlost).1

end SampleCoinbase

end GrinWallet
