import GrinWallet.Lib.StableSort
import GrinWallet.Model.Backend
import Mathlib.Order.WithBot

/-! # Queries over the transaction log

The filters `apply_advanced_tx_list_filtering` applies to the log, one after the
other, then its sorting and its limit. Timestamps are numbers.
-/

namespace GrinWallet

open StableSort

inductive RetrieveTxQuerySortOrder
  | Asc | Desc
deriving DecidableEq

inductive RetrieveTxQuerySortField
  | Id | CreationTimestamp | ConfirmationTimestamp | TotalAmount | AmountCredited | AmountDebited
deriving DecidableEq

structure RetrieveTxQueryArgs where
  minId : Option Nat := none
  maxId : Option Nat := none
  limit : Option Nat := none
  excludeCancelled : Option Bool := some false
  includeOutstandingOnly : Option Bool := some false
  includeConfirmedOnly : Option Bool := some false
  includeSentOnly : Option Bool := some false
  includeReceivedOnly : Option Bool := some false
  includeCoinbaseOnly : Option Bool := some false
  includeRevertedOnly : Option Bool := some false
  minAmount : Option Nat := none
  maxAmount : Option Nat := none
  minCreationTimestamp : Option Nat := none
  maxCreationTimestamp : Option Nat := none
  minConfirmedTimestamp : Option Nat := none
  maxConfirmedTimestamp : Option Nat := none
  sortField : Option RetrieveTxQuerySortField := some .Id
  sortOrder : Option RetrieveTxQuerySortOrder := some .Asc
deriving DecidableEq

namespace Updater

variable {E : Type}

/-- What an entry that sends took from the account, and what any other brought. -/
def signedAmount (t : TxLogEntry E) : Int :=
  if t.txType = .TxSent ∨ t.txType = .TxSentCancelled then t.amountDebited - t.amountCredited
  else t.amountCredited - t.amountDebited

/-- Entries without a confirmation come first. -/
def confirmationKey (t : TxLogEntry E) : WithBot Nat := t.confirmationTs

/-- A condition a flag asks for. -/
def whenSet (flag : Option Bool) (p : Prop) [Decidable p] : Bool := flag ≠ some true || decide p

def sortTxs (field : Option RetrieveTxQuerySortField) (txs : List (TxLogEntry E)) :
    List (TxLogEntry E) :=
  match field with
  | some .Id => sortOn (fun tx => tx.id) txs
  | some .CreationTimestamp => sortOn (fun tx => tx.creationTs) txs
  | some .ConfirmationTimestamp => sortOn confirmationKey txs
  | some .TotalAmount => sortOn signedAmount txs
  | some .AmountCredited => sortOn (fun tx => tx.amountCredited) txs
  | some .AmountDebited => sortOn (fun tx => tx.amountDebited) txs
  | none => sortOn (fun tx => tx.id) txs

def orderTxs (order : Option RetrieveTxQuerySortOrder) (txs : List (TxLogEntry E)) :
    List (TxLogEntry E) :=
  match order with
  | some .Desc => txs.reverse
  | _ => txs

def applyAdvancedTxListFiltering (s : Store E) (parentKeyId : Option Identifier)
    (q : RetrieveTxQueryArgs) : List (TxLogEntry E) :=
  let txs := s.txLogIter
    |>.filter (fun tx => parentKeyId.all fun k => tx.parentKeyId = k)
    |>.filter (fun tx => whenSet q.excludeCancelled
        (tx.txType ≠ .TxReceivedCancelled ∧ tx.txType ≠ .TxSentCancelled))
    |>.filter (fun tx => whenSet q.includeOutstandingOnly (tx.confirmed = false))
    |>.filter (fun tx => whenSet q.includeConfirmedOnly (tx.confirmed = true))
    |>.filter (fun tx => whenSet q.includeSentOnly
        (tx.txType = .TxSent ∨ tx.txType = .TxSentCancelled))
    |>.filter (fun tx => whenSet q.includeReceivedOnly
        (tx.txType = .TxReceived ∨ tx.txType = .TxReceivedCancelled))
    |>.filter (fun tx => whenSet q.includeCoinbaseOnly (tx.txType = .ConfirmedCoinbase))
    |>.filter (fun tx => whenSet q.includeRevertedOnly (tx.txType = .TxReverted))
    |>.filter (fun tx => q.minId.all fun v => v ≤ tx.id)
    |>.filter (fun tx => q.maxId.all fun v => tx.id ≤ v)
    |>.filter (fun tx => q.minAmount.all fun v : Nat => (v : Int) ≤ signedAmount tx)
    |>.filter (fun tx => q.maxAmount.all fun v : Nat => signedAmount tx ≤ (v : Int))
    |>.filter (fun tx => q.minCreationTimestamp.all fun v => v ≤ tx.creationTs)
    -- the source reads the lower bound of the confirmation here
    |>.filter (fun tx => q.minConfirmedTimestamp.all fun v => tx.creationTs ≤ v)
    |>.filter (fun tx => q.minConfirmedTimestamp.all fun v => tx.confirmationTs.all (v ≤ ·))
    |>.filter (fun tx => q.maxConfirmedTimestamp.all fun v => tx.confirmationTs.all (· ≤ v))
  takeUpTo q.limit (orderTxs q.sortOrder (sortTxs q.sortField txs))

end Updater

end GrinWallet
