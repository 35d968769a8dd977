import GrinWallet.Model.Tx

/-! # What a cancellation writes

A cancellation changes the records that point at its log record, key by key, and
the log record itself.
-/

namespace GrinWallet

open Effect OrderedTable

variable {F E : Type}

namespace Updater

theorem foldl_cancelOutput_rest (os : List (OutputData E)) (s : Store E) :
    ∃ outputs, os.foldl cancelOutput s = { s with outputs := outputs } := by
  induction os generalizing s with
  | nil => exact ⟨s.outputs, rfl⟩
  | cons o os ih =>
      have hone : ∃ outputs, cancelOutput s o = { s with outputs := outputs } := by
        unfold cancelOutput
        by_cases h : o.status = .Unconfirmed ∨ o.status = .Reverted
        · by_cases h' : o.status = .Locked
          · simp only [if_pos h, if_pos h']
            exact ⟨_, rfl⟩
          · simp only [if_pos h, if_neg h']
            exact ⟨_, rfl⟩
        · by_cases h' : o.status = .Locked
          · simp only [if_neg h, if_pos h']
            exact ⟨_, rfl⟩
          · simp only [if_neg h, if_neg h']
            exact ⟨_, rfl⟩
      obtain ⟨outputs, hs⟩ := hone
      obtain ⟨outputs', hs'⟩ := ih (cancelOutput s o)
      refine ⟨outputs', ?_⟩
      rw [List.foldl_cons, hs', hs]

/-- A lookup by log id and account that finds one record. -/
theorem retrieveTxs_eq_singleton {s : Store E} {id : Nat} {p : Identifier} {t : TxLogEntry E} :
    retrieveTxs s (some id) none (some p) false = [t] ↔
      ∃ row ∈ s.txLog, row.2 = t ∧ t.parentKeyId = p ∧ t.id = id ∧
        ∀ row' ∈ s.txLog, row'.2.parentKeyId = p → row'.2.id = id → row' = row := by
  unfold retrieveTxs Store.txLogIter
  rw [sortByKey_eq_singleton, List.filter_map, List.map_eq_singleton_iff]
  constructor
  · intro h
    obtain ⟨row, hfilter, rfl⟩ := h
    obtain ⟨hmem, hcond, honly⟩ := Table.filter_rows_eq_singleton.mp hfilter
    have hcond' : row.2.parentKeyId = p ∧ row.2.id = id := by simpa using hcond
    exact ⟨row, hmem, rfl, hcond'.1, hcond'.2, fun row' hrow' hp hid =>
      honly row' hrow' (by simp [hp, hid])⟩
  · intro h
    obtain ⟨row, hmem, rfl, hp, hid, honly⟩ := h
    refine ⟨row, Table.filter_rows_eq_singleton.mpr ⟨hmem, by simp [hp, hid], ?_⟩, rfl⟩
    intro row' hrow' hcond
    have hcond' : row'.2.parentKeyId = p ∧ row'.2.id = id := by simpa using hcond
    exact honly row' hrow' hcond'.1 hcond'.2

/-- What a cancellation makes of a record of its transaction. -/
def afterCancel (o : OutputData E) : Option (OutputData E) :=
  match o.status with
  | .Unconfirmed | .Reverted => none
  | .Locked => some { o with status := .Unspent }
  | .Unspent | .Spent => some o

theorem cancelOutput_find {s : Store E} {o : OutputData E} (ho : o ∈ s.outputs) (k : DbKey) :
    (cancelOutput s o).outputs.find k = if o.key = k then afterCancel o else s.outputs.find k := by
  have hfind : s.outputs.find o.key = some o := Table.find_eq_some.mpr ⟨ho, rfl⟩
  have hdelete : (s.delete o.keyId o.mmrIndex).outputs.find k =
      if o.key = k then none else s.outputs.find k := by
    by_cases hk : o.key = k
    · rw [if_pos hk, ← hk]
      exact Table.find_erase_self _ _
    · rw [if_neg hk]
      exact Table.find_erase_of_ne _ (Ne.symm hk)
  have hsave : (s.save { o with status := .Unspent }).outputs.find k =
      if o.key = k then some { o with status := .Unspent } else s.outputs.find k := by
    by_cases hk : o.key = k
    · rw [if_pos hk, ← hk]
      exact Table.find_put_self s.outputs { o with status := .Unspent }
    · rw [if_neg hk]
      exact Table.find_put_of_ne (a := { o with status := .Unspent }) s.outputs hk
  have hsame : s.outputs.find k = if o.key = k then some o else s.outputs.find k := by
    by_cases hk : o.key = k
    · rw [if_pos hk, ← hk, hfind]
    · rw [if_neg hk]
  unfold cancelOutput afterCancel
  cases hstatus : o.status with
  | Unconfirmed => simpa [hstatus] using hdelete
  | Reverted => simpa [hstatus] using hdelete
  | Locked => simpa [hstatus] using hsave
  | Unspent => simpa [hstatus] using hsame
  | Spent => simpa [hstatus] using hsame

/-- Cancelling records under different keys changes these keys alone. -/
theorem foldl_cancelOutput_find {os : List (OutputData E)} {s : Store E}
    (hmem : ∀ o ∈ os, o ∈ s.outputs) (hkeys : os.Pairwise fun a b => a.key ≠ b.key) :
    (∀ o ∈ os, (os.foldl cancelOutput s).outputs.find o.key = afterCancel o) ∧
      ∀ k, (∀ o ∈ os, o.key ≠ k) →
        (os.foldl cancelOutput s).outputs.find k = s.outputs.find k := by
  induction os generalizing s with
  | nil => exact ⟨fun _ h => (List.not_mem_nil h).elim, fun _ _ => rfl⟩
  | cons o os ih =>
      obtain ⟨hne, hkeys⟩ := List.pairwise_cons.mp hkeys
      have hone := cancelOutput_find (hmem o List.mem_cons_self)
      have hstay : ∀ o' ∈ os, o' ∈ (cancelOutput s o).outputs := by
        intro o' ho'
        have hfind := Table.find_eq_some.mpr ⟨hmem o' (List.mem_cons_of_mem o ho'), rfl⟩
        have hkept := hone o'.key
        rw [if_neg (hne o' ho'), hfind] at hkept
        exact (Table.find_eq_some.mp hkept).1
      obtain ⟨hwritten, hother⟩ := ih hstay hkeys
      refine ⟨fun o' ho' => ?_, fun k hk => ?_⟩
      · rcases List.mem_cons.mp ho' with rfl | ho'
        · rw [List.foldl_cons, hother _ fun b hb => (hne b hb).symm, hone, if_pos rfl]
        · exact hwritten o' ho'
      · rw [List.foldl_cons, hother k fun b hb => hk b (List.mem_cons_of_mem o hb), hone,
          if_neg (hk o List.mem_cons_self)]

/-- Whether a cancellation of the transaction under a log id of an account reaches a record. -/
def OfTransaction (logId : Nat) (p : Identifier) (o : OutputData E) : Prop :=
  o.txLogEntry = some logId ∧ o.rootKeyId = p

instance (logId : Nat) (p : Identifier) (o : OutputData E) : Decidable (OfTransaction logId p o) :=
  inferInstanceAs (Decidable (_ ∧ _))

end Updater

namespace Tx

variable [CommRing F] [AddCommGroup E] [Module F E] [DecidableEq E]

omit [DecidableEq E] in
/-- A cancellation that succeeds has found one record, of a transaction that is
not confirmed. -/
theorem cancelTx_eq_ok {K : Keychain F E} {p : Identifier} {txId : Option Nat}
    {txSlateId : Option Uuid} {s s' : Store E} {u : Unit}
    (h : cancelTx K p txId txSlateId s = .ok (u, s')) :
    ∃ tx, Updater.retrieveTxs s txId txSlateId (some p) false = [tx] ∧
      (tx.txType = .TxSent ∨ tx.txType = .TxReceived ∨ tx.txType = .TxReverted) ∧
      tx.confirmed = false ∧
      s' = Updater.cancelTxAndOutputs tx
        ((Updater.retrieveOutputs K s false (some tx.id) (some p)).map (·.output)) p s := by
  unfold cancelTx at h
  split at h
  · rename_i tx htxs
    by_cases hc : (tx.txType ≠ .TxSent ∧ tx.txType ≠ .TxReceived ∧ tx.txType ≠ .TxReverted)
        ∨ tx.confirmed = true
    · rw [if_pos hc] at h
      cases h
    · rw [if_neg hc] at h
      cases h
      rw [not_or, Bool.not_eq_true] at hc
      refine ⟨tx, htxs, ?_, hc.2, rfl⟩
      by_contra hne
      exact hc.1 (by tauto)
  · cases h

omit [DecidableEq E] in
/-- The records a cancellation goes through. -/
theorem mem_cancelled {K : Keychain F E} {s : Store E} {logId : Nat} {p : Identifier}
    {o : OutputData E} :
    o ∈ (Updater.retrieveOutputs K s false (some logId) (some p)).map (·.output) ↔
      o ∈ s.outputs ∧ o.status ≠ .Spent ∧ Updater.OfTransaction logId p o := by
  simp [Updater.retrieveOutputs, Updater.OfTransaction, Store.iter, and_assoc]

omit [DecidableEq E] in
theorem cancelled_keys (K : Keychain F E) (s : Store E) (logId : Nat) (p : Identifier) :
    ((Updater.retrieveOutputs K s false (some logId) (some p)).map (·.output)).Pairwise
      fun a b => a.key ≠ b.key := by
  have hsorted : s.outputs.rows.Pairwise fun a b => a.key ≠ b.key :=
    s.outputs.sorted.imp fun hlt => ne_of_lt hlt
  have hid : ((fun x : Updater.OutputCommitMapping E => x.output) ∘
      fun o => ⟨o, Updater.commitOf K o⟩) = id := rfl
  unfold Updater.retrieveOutputs
  rw [List.map_map, hid, List.map_id]
  exact ((List.perm_insertionSort _ _).pairwise_iff fun h => Ne.symm h).mpr (hsorted.filter _)

omit [DecidableEq E] in
/-- The output table after a cancellation. -/
theorem cancelTxAndOutputs_find (K : Keychain F E) (s : Store E) (tx : TxLogEntry E)
    (p : Identifier) (k : DbKey) :
    (Updater.cancelTxAndOutputs tx
      ((Updater.retrieveOutputs K s false (some tx.id) (some p)).map (·.output)) p s).outputs.find k =
        (s.outputs.find k).bind fun o =>
          if Updater.OfTransaction tx.id p o then Updater.afterCancel o else some o := by
  obtain ⟨hwritten, hother⟩ := Updater.foldl_cancelOutput_find
    (fun o ho => (mem_cancelled.mp ho).1) (cancelled_keys K s tx.id p)
  unfold Updater.cancelTxAndOutputs
  cases hfind : s.outputs.find k with
  | none =>
      refine (hother k fun o ho hkey => ?_).trans hfind
      exact Table.find_eq_none.mp hfind o (mem_cancelled.mp ho).1 hkey
  | some o =>
      obtain ⟨ho, rfl⟩ := Table.find_eq_some.mp hfind
      rw [Option.bind_some]
      by_cases hof : Updater.OfTransaction tx.id p o
      · rw [if_pos hof]
        by_cases hspent : o.status = .Spent
        · have hnot := hother o.key fun o' ho' hkey => by
            obtain ⟨hmem, hne, -⟩ := mem_cancelled.mp ho'
            rw [Table.eq_of_key_eq hmem ho hkey] at hne
            exact hne hspent
          refine hnot.trans (hfind.trans ?_)
          simp [Updater.afterCancel, hspent]
        · exact hwritten o (mem_cancelled.mpr ⟨ho, hspent, hof⟩)
      · rw [if_neg hof]
        refine (hother o.key fun o' ho' hkey => ?_).trans hfind
        obtain ⟨hmem, -, hof'⟩ := mem_cancelled.mp ho'
        rw [Table.eq_of_key_eq hmem ho hkey] at hof'
        exact hof hof'

end Tx

end GrinWallet
