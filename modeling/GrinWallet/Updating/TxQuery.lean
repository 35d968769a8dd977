import GrinWallet.Model.TxQuery

/-! # What a query over the log returns

The documented query keeps the entries of the account within every bound and
flag given, sorts them by the requested field, and cuts the list to the limit.
The code bounds the creation from above by the lower bound of the confirmation.
-/

namespace GrinWallet

open StableSort

namespace Updater

variable {E : Type}

/-! ## The documented query -/

/-- A value within the bounds that are given. -/
def within {κ : Type} [LE κ] [DecidableLE κ] (lo hi : Option κ) (x : κ) : Bool :=
  lo.all (· ≤ x) && hi.all (x ≤ ·)

/-- The seven flags. -/
def flagsHold (q : RetrieveTxQueryArgs) (t : TxLogEntry E) : Bool :=
  whenSet q.excludeCancelled (t.txType ≠ .TxReceivedCancelled ∧ t.txType ≠ .TxSentCancelled)
    && whenSet q.includeOutstandingOnly (t.confirmed = false)
    && whenSet q.includeConfirmedOnly (t.confirmed = true)
    && whenSet q.includeSentOnly (t.txType = .TxSent ∨ t.txType = .TxSentCancelled)
    && whenSet q.includeReceivedOnly (t.txType = .TxReceived ∨ t.txType = .TxReceivedCancelled)
    && whenSet q.includeCoinbaseOnly (t.txType = .ConfirmedCoinbase)
    && whenSet q.includeRevertedOnly (t.txType = .TxReverted)

/-- Created no later than a bound. -/
def createdBy (bound : Option Nat) (t : TxLogEntry E) : Bool := bound.all (t.creationTs ≤ ·)

/-- An entry of the account that meets every condition, the upper bound on its creation aside. -/
def admitted (parentKeyId : Option Identifier) (q : RetrieveTxQueryArgs) (t : TxLogEntry E) : Bool :=
  parentKeyId.all (fun k => t.parentKeyId = k)
    && flagsHold q t
    && within q.minId q.maxId t.id
    && within (q.minAmount.map Int.ofNat) (q.maxAmount.map Int.ofNat) (signedAmount t)
    && q.minCreationTimestamp.all (· ≤ t.creationTs)
    && t.confirmationTs.all (within q.minConfirmedTimestamp q.maxConfirmedTimestamp)

/-- The entries in the requested order: of those with the same key the first in the log comes
first, or last in descending order. -/
def arranged (q : RetrieveTxQueryArgs) (txs : List (TxLogEntry E)) : List (TxLogEntry E) :=
  orderTxs q.sortOrder (sortTxs q.sortField txs)

/-- What the documentation of the query asks for. -/
def specifiedTxs (s : Store E) (parentKeyId : Option Identifier) (q : RetrieveTxQueryArgs) :
    List (TxLogEntry E) :=
  takeUpTo q.limit (arranged q (s.txLogIter.filter fun t =>
    admitted parentKeyId q t && createdBy q.maxCreationTimestamp t))

theorem filter_arranged (q : RetrieveTxQueryArgs) (p : TxLogEntry E → Bool)
    (txs : List (TxLogEntry E)) : (arranged q txs).filter p = arranged q (txs.filter p) := by
  have hsort : (sortTxs q.sortField txs).filter p = sortTxs q.sortField (txs.filter p) := by
    unfold sortTxs
    split <;> exact filter_sortOn _ p txs
  unfold arranged orderTxs
  split
  · rw [List.filter_reverse, hsort]
  · exact hsort

@[simp] theorem mem_arranged {q : RetrieveTxQueryArgs} {txs : List (TxLogEntry E)}
    {t : TxLogEntry E} : t ∈ arranged q txs ↔ t ∈ txs := by
  have hsort : t ∈ sortTxs q.sortField txs ↔ t ∈ txs := by
    unfold sortTxs
    split <;> exact mem_sortOn
  unfold arranged orderTxs
  split
  · rw [List.mem_reverse, hsort]
  · exact hsort

/-- Without a limit the query returns every entry it admits. -/
theorem mem_specifiedTxs {s : Store E} {parentKeyId : Option Identifier} {q : RetrieveTxQueryArgs}
    (hlimit : q.limit = none) {t : TxLogEntry E} :
    t ∈ specifiedTxs s parentKeyId q ↔ t ∈ s.txLogIter ∧
      admitted parentKeyId q t = true ∧ createdBy q.maxCreationTimestamp t = true := by
  rw [specifiedTxs, hlimit]
  show t ∈ arranged q _ ↔ _
  rw [mem_arranged, List.mem_filter, Bool.and_eq_true]

/-! ## The query of the code -/

/-- The code takes another bound for the creation. -/
theorem applyAdvancedTxListFiltering_eq (s : Store E) (parentKeyId : Option Identifier)
    (q : RetrieveTxQueryArgs) :
    applyAdvancedTxListFiltering s parentKeyId q
      = takeUpTo q.limit (arranged q (s.txLogIter.filter fun t =>
          admitted parentKeyId q t && createdBy q.minConfirmedTimestamp t)) := by
  refine congrArg (fun l => takeUpTo q.limit (arranged q l)) ?_
  simp only [List.filter_filter]
  refine List.filter_congr fun t _ => ?_
  have hamount : within (q.minAmount.map Int.ofNat) (q.maxAmount.map Int.ofNat) (signedAmount t)
      = ((q.minAmount.all fun v : Nat => (v : Int) ≤ signedAmount t) &&
        q.maxAmount.all fun v : Nat => signedAmount t ≤ (v : Int)) := by
    rw [within, Option.all_map, Option.all_map]
    rfl
  have hconfirmed : t.confirmationTs.all (within q.minConfirmedTimestamp q.maxConfirmedTimestamp)
      = ((q.minConfirmedTimestamp.all fun v => t.confirmationTs.all (v ≤ ·)) &&
        q.maxConfirmedTimestamp.all fun v => t.confirmationTs.all (· ≤ v)) := by
    cases t.confirmationTs with
    | none => cases q.minConfirmedTimestamp <;> cases q.maxConfirmedTimestamp <;> rfl
    | some ts => rfl
  unfold admitted flagsHold createdBy
  rw [hamount, hconfirmed, within]
  ac_rfl

/-- Every entry the conditions leave that is created by one of the two bounds only comes after
as many of the others as the limit asks for. -/
def BoundsAgree (s : Store E) (parentKeyId : Option Identifier) (q : RetrieveTxQueryArgs) : Prop :=
  AgreeUpTo q.limit (createdBy q.maxCreationTimestamp) (createdBy q.minConfirmedTimestamp)
    (arranged q (s.txLogIter.filter (admitted parentKeyId q)))

/-- The query returns what it documents exactly when the two bounds agree. -/
theorem filtering_meets_documentation_iff (s : Store E) (parentKeyId : Option Identifier)
    (q : RetrieveTxQueryArgs) :
    applyAdvancedTxListFiltering s parentKeyId q = specifiedTxs s parentKeyId q ↔
      BoundsAgree s parentKeyId q := by
  have hselect : ∀ bound, arranged q (s.txLogIter.filter fun t =>
      admitted parentKeyId q t && createdBy bound t)
      = (arranged q (s.txLogIter.filter (admitted parentKeyId q))).filter (createdBy bound) := by
    intro bound
    rw [filter_arranged, List.filter_filter]
    refine congrArg (arranged q) (List.filter_congr fun t _ => Bool.and_comm _ _)
  rw [applyAdvancedTxListFiltering_eq, specifiedTxs, hselect, hselect, eq_comm,
    takeUpTo_filter_eq_iff]
  rfl

/-- An entry created at 10 is returned for creations up to 5. -/
theorem upper_bound_on_creation_is_ignored :
    let entry : TxLogEntry Nat := .new defaultPath .TxReceived 0 10
    let s : Store Nat := Store.fresh.saveTxLogEntry entry defaultPath
    let q : RetrieveTxQueryArgs := { maxCreationTimestamp := some 5 }
    applyAdvancedTxListFiltering s (some defaultPath) q = [entry] ∧
      specifiedTxs s (some defaultPath) q = [] := by
  decide

end Updater

end GrinWallet
