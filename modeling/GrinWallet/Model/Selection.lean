import GrinWallet.Model.Backend
import Mathlib.Data.List.Sort

/-! # Coin selection and transaction building

Which outputs a send spends, what fee it pays, how the change is split, and the
steps that write the result: building a slate, locking its inputs, creating the
recipient's output. Sums of values are `u64` sums and wrap.
-/

namespace GrinWallet

open Effect WalletBackend

/-- Sort by a numeric key, keeping the order of equal keys. -/
def sortByKey {α : Type} (key : α → Nat) (l : List α) : List α :=
  l.insertionSort fun a b => key a ≤ key b

@[simp] theorem mem_sortByKey {α : Type} {key : α → Nat} {l : List α} {a : α} :
    a ∈ sortByKey key l ↔ a ∈ l :=
  (List.perm_insertionSort _ l).mem_iff

theorem sortByKey_eq_singleton {α : Type} {key : α → Nat} {l : List α} {a : α} :
    sortByKey key l = [a] ↔ l = [a] := by
  constructor
  · intro h
    have hperm := List.perm_insertionSort (fun a b => key a ≤ key b) l
    rw [show l.insertionSort (fun a b => key a ≤ key b) = [a] from h] at hperm
    exact List.perm_singleton.mp hperm.symm
  · rintro rfl
    rfl

namespace Selection

variable {F E : Type}

/-- The `u64` sum of the values. -/
def sumValues (coins : List (OutputData E)) : Nat :=
  coins.foldl (fun acc c => u64 (acc + c.value)) 0

/-! ## Selecting coins -/

def eligibleOutputs (s : Store E) (currentHeight minimumConfirmations : Nat)
    (parentKeyId : Identifier) : List (OutputData E) :=
  s.iter.filter fun o =>
    o.rootKeyId = parentKeyId && o.eligibleToSpend currentHeight minimumConfirmations

/-- Take outputs while the amount selected before them is below the target. -/
def takeWhileBelow (amount : Nat) : Nat → List (OutputData E) → List (OutputData E)
  | _, [] => []
  | selected, o :: os =>
      if selected < amount then o :: takeWhileBelow amount (u64 (selected + o.value)) os else []

def selectFrom (amount : Nat) (selectAll : Bool) (outputs : List (OutputData E)) :
    Option (List (OutputData E)) :=
  if sumValues outputs ≥ amount then
    if selectAll then some outputs else some (takeWhileBelow amount 0 outputs)
  else none

/-- The contiguous sublists of length `n`, in order. -/
def windows (n : Nat) (l : List (OutputData E)) : List (List (OutputData E)) :=
  (List.range (l.length + 1 - n)).map fun i => (l.drop i).take n

/-- How many outputs are eligible, and the coins to spend. -/
def selectCoins (s : Store E) (amount currentHeight minimumConfirmations maxOutputs : Nat)
    (selectAll : Bool) (parentKeyId : Identifier) : Except Error (Nat × List (OutputData E)) := do
  let eligible := eligibleOutputs s currentHeight minimumConfirmations parentKeyId
  let maxAvailable := eligible.length
  let eligible := sortByKey (·.value) eligible
  let guidance := eligible.reverse.take maxOutputs
  if eligible.length > maxOutputs then
    if maxOutputs = 0 then
      throw (.Panic "window size must be non-zero")
    match (windows maxOutputs eligible).findSome? (selectFrom amount selectAll) with
    | some outputs => return (maxAvailable, outputs)
    | none =>
        -- no window suffices: go over the soft limit, smallest outputs first
        match selectFrom amount false eligible with
        | some outputs => return (maxAvailable, outputs)
        | none => return (maxAvailable, guidance)
  else
    match selectFrom amount selectAll eligible with
    | some outputs => return (maxAvailable, outputs)
    | none => return (maxAvailable, guidance)

/-! ## The fee -/

def amountWithFee (amountIncludesFee : Bool) (amount fee : Nat) : Nat :=
  if amountIncludesFee then amount else u64 (amount + fee)

/-- The best amount a transaction of limited weight can send, and its input count. -/
def maxSpendableAmount (C : Consensus F E) (outputs : List (OutputData E))
    (outputLen maxTxWeight : Nat) (amountIncludesFee : Bool) : Nat × Nat :=
  let values := (outputs.zipIdx.takeWhile fun (_, i) =>
    weightByIok (i + 1) outputLen 1 ≤ maxTxWeight).map fun (o, _) => o.value
  let values := (sortByKey id values).reverse
  let (_, amount, inputs) := values.zipIdx.foldl
    (fun (total, amount, inputs) (value, i) =>
      let total := u64 (total + value)
      if total > txFee C (i + 1) 1 1 then (total, total, u32 (i + 1)) else (total, amount, inputs))
    (0, 0, 0)
  (if amountIncludesFee then amount else amount - txFee C inputs 1 1, inputs)

/-- The re-selection loop: while the coins do not cover the amount with the fee
for their own number, select again for that amount. -/
def reselect (C : Consensus F E) (s : Store E) (amount : Nat) (amountIncludesFee : Bool)
    (currentHeight minimumConfirmations maxOutputs numOutputs : Nat) (selectAll : Bool)
    (parentKeyId : Identifier) :
    Nat → List (OutputData E) → Nat → Nat → Nat →
      Except Error (List (OutputData E) × Nat × Nat × Nat)
  | 0, _, _, _, _ => .error (.Panic "selection does not end")
  | fuel + 1, coins, fee, total, withFee =>
      if total < withFee then
        if coins.length = maxOutputs then .error (.NotEnoughFunds total withFee)
        else do
          let (_, coins) ← selectCoins s withFee currentHeight minimumConfirmations maxOutputs
            selectAll parentKeyId
          let fee := txFee C coins.length numOutputs 1
          reselect C s amount amountIncludesFee currentHeight minimumConfirmations maxOutputs
            numOutputs selectAll parentKeyId fuel coins fee (sumValues coins)
            (amountWithFee amountIncludesFee amount fee)
      else .ok (coins, fee, total, withFee)

/-- The coins, the fee, the total, and the amount with the fee: without change if
the first choice fits exactly, else for the number of change outputs asked for.
The loop's fuel covers every count of eligible outputs once. -/
def coinsAndFee (C : Consensus F E) (s : Store E) (amount : Nat) (amountIncludesFee : Bool)
    (currentHeight minimumConfirmations maxOutputs changeOutputs : Nat) (selectAll : Bool)
    (parentKeyId : Identifier) : Except Error (List (OutputData E) × Nat × Nat × Nat) := do
  let (maxOutputs, coins) ← selectCoins s amount currentHeight minimumConfirmations maxOutputs
    selectAll parentKeyId
  -- first attempt to spend without change
  let fee := txFee C coins.length 1 1
  let total := sumValues coins
  let withFee := amountWithFee amountIncludesFee amount fee
  if total = 0 then
    .error (.NotEnoughFunds 0 withFee)
  else if total < withFee ∧ coins.length = maxOutputs then
    .error (.NotEnoughFunds total withFee)
  else if total = withFee then
    .ok (coins, fee, total, withFee)
  else
    let numOutputs := u64 (changeOutputs + 1)
    let fee := txFee C coins.length numOutputs 1
    reselect C s amount amountIncludesFee currentHeight minimumConfirmations maxOutputs
      numOutputs selectAll parentKeyId (maxOutputs + 2) coins fee total
      (amountWithFee amountIncludesFee amount fee)

/-- Refuse coins that make the transaction too heavy. -/
def checkWeight (C : Consensus F E) (amountIncludesFee : Bool) (coins : List (OutputData E))
    (outputLen : Nat) : Except Error Unit :=
  if weightByIok coins.length outputLen 1 > C.maxTxWeight then
    let (maxAmount, maxInputs) := maxSpendableAmount C coins outputLen C.maxTxWeight
      amountIncludesFee
    .error (.BigAmountError maxAmount (txFee C maxInputs 1 1) maxInputs)
  else .ok ()

/-- The coins, their total, the amount the recipient gets, and the fee. -/
def selectCoinsAndFee (C : Consensus F E) (s : Store E) (amount : Nat) (amountIncludesFee : Bool)
    (currentHeight minimumConfirmations maxOutputs changeOutputs : Nat) (selectAll : Bool)
    (parentKeyId : Identifier) : Except Error (List (OutputData E) × Nat × Nat × Nat) := do
  let (coins, fee, total, withFee) ← coinsAndFee C s amount amountIncludesFee currentHeight
    minimumConfirmations maxOutputs changeOutputs selectAll parentKeyId
  checkWeight C amountIncludesFee coins (if total = withFee then 1 else u64 (changeOutputs + 1))
  if amountIncludesFee then
    if amount < fee then
      .error (.GenericError "Transaction amount is too small to include fee")
    else .ok (coins, total, amount - fee, fee)
  else .ok (coins, total, amount, fee)

/-! ## Inputs and change -/

def appendInput (coin : OutputData E) : Append :=
  if coin.isCoinbase then .coinbaseInput coin.value coin.keyId else .input coin.value coin.keyId

/-- The `x`-th of `n` change outputs: equal parts, the last with the remainder. -/
def changeAmount (change n x : Nat) : Nat :=
  let partChange := change / n
  let remainderChange := change % partChange
  if x = n - 1 then u64 (partChange + remainderChange) else partChange

/-- Derive a key for each change amount. -/
def deriveChange : List Nat → WalletM F E (List (Nat × Identifier × Option Nat))
  | [] => pure []
  | changeAmount :: amounts => do
      let changeKey ← nextChild
      let rest ← deriveChange amounts
      return (changeAmount, changeKey, none) :: rest

/-- The elements of the transaction, and the change amounts with their keys. -/
def inputsAndChange (coins : List (OutputData E)) (amount fee numChangeOutputs : Nat)
    (includeInputsInSum : Bool) :
    WalletM F E (List Append × List (Nat × Identifier × Option Nat)) := do
  let total := sumValues coins
  let change := wrappingSub (wrappingSub total amount) fee
  let inputs := if includeInputsInSum then coins.map appendInput else []
  if change = 0 then
    return (inputs, [])
  if numChangeOutputs = 0 then
    throw (.Panic "attempt to divide by zero")
  if change / numChangeOutputs = 0 then
    throw (.Panic "attempt to calculate the remainder with a divisor of zero")
  let derivations ← deriveChange
    ((List.range numChangeOutputs).map (changeAmount change numChangeOutputs))
  return (inputs ++ derivations.map fun (a, id, _) => Append.output a id, derivations)

def selectSendTx (C : Consensus F E) (amount : Nat) (amountIncludesFee : Bool)
    (currentHeight minimumConfirmations maxOutputs changeOutputs : Nat) (selectAll : Bool)
    (parentKeyId : Identifier) (includeInputsInSum : Bool) :
    WalletM F E
      (List Append × List (OutputData E) × List (Nat × Identifier × Option Nat) × Nat) := do
  let w ← Eff.read
  let (coins, _, amount, fee) ← Eff.ofExcept (selectCoinsAndFee C w.store amount
    amountIncludesFee currentHeight minimumConfirmations maxOutputs changeOutputs selectAll
    parentKeyId)
  let (parts, change) ← inputsAndChange coins amount fee changeOutputs includeInputsInSum
  return (parts, coins, change, fee)

/-! ## Building and locking a transaction -/

/-- `FeeFields::try_from(fee)`: no fee of 0 and none above 40 bits. -/
def feeFieldsOf (fee : Nat) : Except Error FeeFields :=
  if fee = 0 ∨ FeeFields.feeMask < fee then .error .InvalidFeeFields else .ok ⟨fee⟩

/-- `fee.try_into().unwrap()`. -/
def feeFieldsUnwrap (fee : Nat) : Except Error FeeFields :=
  match feeFieldsOf fee with
  | .ok f => .ok f
  | .error _ => .error (.Panic "called `Result::unwrap()` on an `Err` value: InvalidFeeFields")

/-- Record the fee, the amount, the inputs and the change of a send in its context. -/
def sendContext (context : Context E) (slate : Slate F E) (inputs : List (OutputData E))
    (change : List (Nat × Identifier × Option Nat)) : Context E :=
  let context := { context with fee := some slate.feeFields, amount := slate.amount }
  let context := inputs.foldl (fun c i => c.addInput i.keyId i.mmrIndex i.value) context
  change.foldl (fun c (amount, id, mmrIndex) => c.addOutput id mmrIndex amount) context

theorem foldl_addInput (inputs : List (OutputData E)) (c : Context E) :
    inputs.foldl (fun c i => c.addInput i.keyId i.mmrIndex i.value) c =
      { c with inputIds := c.inputIds ++ inputs.map fun i => (i.keyId, i.mmrIndex, i.value) } := by
  induction inputs generalizing c with
  | nil => simp
  | cons i is ih =>
      rw [List.foldl_cons, ih]
      simp [Context.addInput]

theorem foldl_addOutput (change : List (Nat × Identifier × Option Nat)) (c : Context E) :
    change.foldl (fun c (amount, id, mmrIndex) => c.addOutput id mmrIndex amount) c =
      { c with outputIds := c.outputIds ++ change.map fun (amount, id, mmrIndex) =>
          (id, mmrIndex, amount) } := by
  induction change generalizing c with
  | nil => simp
  | cons o os ih =>
      rw [List.foldl_cons, ih]
      simp [Context.addOutput]

theorem sendContext_eq (c : Context E) (slate : Slate F E) (inputs : List (OutputData E))
    (change : List (Nat × Identifier × Option Nat)) :
    sendContext c slate inputs change =
      { c with
        fee := some slate.feeFields
        amount := slate.amount
        inputIds := c.inputIds ++ inputs.map fun i => (i.keyId, i.mmrIndex, i.value)
        outputIds := c.outputIds ++ change.map fun (amount, id, mmrIndex) =>
          (id, mmrIndex, amount) } := by
  rw [sendContext, foldl_addInput, foldl_addOutput]

section Build

variable [CommRing F] [AddCommGroup E] [Module F E] [DecidableEq E]

/-- Select inputs and change for a slate. Returns the slate with the change
outputs, and the private context that records inputs and change. -/
def buildSendTx (env : Env F E) (slate : Slate F E)
    (currentHeight minimumConfirmations maxOutputs changeOutputs : Nat) (selectAll : Bool)
    (fixedFee : Option Nat) (parentKeyId : Identifier) (amountIncludesFee : Bool) :
    WalletM F E (Slate F E × Context E) := do
  let (elems, inputs, change, fee) ← selectSendTx env.consensus slate.amount amountIncludesFee
    currentHeight minimumConfirmations maxOutputs changeOutputs selectAll parentKeyId false
  Eff.throwIf (amountIncludesFee ∧ slate.amount < fee)
    (.GenericError "Transaction amount is too small to include fee")
  let slate := { slate with amount := if amountIncludesFee then slate.amount - fee else slate.amount }
  Eff.throwIf (fixedFee.any (fee ≠ ·)) (.Fee "The initially selected fee is not sufficient")
  let feeFields ← Eff.ofExcept (feeFieldsUnwrap fee)
  let slate := { slate with feeFields := feeFields }
  let slate ← Eff.ofExcept (slate.addTransactionElements env.keychain elems)
  let context ← newContext env parentKeyId
  return (slate, sendContext context slate inputs change)

/-- Lock each input and point it at the log record; the `u64` sum of their values. -/
def lockInputs (logId : Nat) : List (Identifier × Option Nat × Nat) → Nat → Store E →
    Except Error (Nat × Store E)
  | [], debited, s => .ok (debited, s)
  | (id, mmrIndex, _) :: ids, debited, s => do
      let coin ← s.get id mmrIndex
      lockInputs logId ids (u64 (debited + coin.value))
        (s.lockOutput { coin with txLogEntry := some logId })

/-- The amount cached for an output key: that of its last entry in the context. -/
def cachedChange (outputs : List (Identifier × Option Nat × Nat)) (id : Identifier) : Nat :=
  match outputs.reverse.find? fun (i, _, _) => i = id with
  | some (_, _, amount) => amount
  | none => 0

/-- An output the wallet expects but has not seen on chain. -/
def unconfirmedOutput (K : Keychain F E) (parentKeyId keyId : Identifier) (value height : Nat)
    (lockHeight : Nat) (isCoinbase : Bool) (txLogEntry : Option Nat) : OutputData E where
  rootKeyId := parentKeyId
  keyId := keyId
  nChild := keyId.lastPathIndex
  commit := some (K.commit value keyId)
  mmrIndex := none
  value := value
  status := .Unconfirmed
  height := height
  lockHeight := lockHeight
  isCoinbase := isCoinbase
  txLogEntry := txLogEntry

def ttlOf (slate : Slate F E) : Option Nat :=
  match slate.ttlCutoffHeight with
  | 0 => none
  | n => some n

/-- The log record of a send, before its inputs are locked. -/
def sentEntry (slate : Slate F E) (currentHeight : Nat) (context : Context E)
    (excessOverride : Option E) (logId now : Nat) : TxLogEntry E :=
  { (TxLogEntry.new context.parentKeyId .TxSent logId now : TxLogEntry E) with
    txSlateId := some slate.id
    txSlateState := some slate.state
    storedTx := some slate.id
    fee := context.fee
    ttlCutoffHeight := ttlOf slate
    kernelExcess := excessOverride <|> slate.calcExcess.toOption
    kernelLookupMinHeight := some currentHeight
    numInputs := context.inputIds.length }

/-- What a send keeps of the payment proof it requested. -/
def sentProof (K : Keychain F E) (slate : Slate F E) (context : Context E) :
    Except Error (Option StoredProofInfo) :=
  match slate.paymentProof with
  | none => .ok none
  | some p =>
      match context.paymentProofDerivationIndex with
      | none => .error (.PaymentProof "Payment proof derivation index required")
      | some index => .ok (some
          { receiverAddress := p.receiverAddress
            receiverSignature := p.receiverSignature
            senderAddress := K.dalekPublicKey (K.addressKey context.parentKeyId index)
            senderAddressPath := index
            senderSignature := none })

/-- The batch of `lock_tx_context`. -/
def lockBatch (K : Keychain F E) (slate : Slate F E) (currentHeight : Nat) (context : Context E)
    (excessOverride : Option E) (now : Nat) (s : Store E) : Except Error (Unit × Store E) := do
  let parentKeyId := context.parentKeyId
  let (logId, s) := s.nextTxLogId parentKeyId
  let t := sentEntry slate currentHeight context excessOverride logId now
  let (debited, s) ← lockInputs logId context.inputIds 0 s
  let proof ← sentProof K slate context
  let change := context.outputIds.map fun (id, _, _) => (id, cachedChange context.outputIds id)
  let s := change.foldl (fun s (id, amount) =>
    s.save (unconfirmedOutput K parentKeyId id amount currentHeight 0 false (some logId))) s
  let t := { t with
    amountDebited := debited
    paymentProof := proof
    numOutputs := context.outputIds.length
    amountCredited := u64 (change.map Prod.snd).sum }
  return ((), s.saveTxLogEntry t parentKeyId)

/-- Lock the inputs of a context, record its change outputs and a log entry, and
store the transaction. -/
def lockTxContext (env : Env F E) (slate : Slate F E) (currentHeight : Nat) (context : Context E)
    (excessOverride : Option E) : WalletM F E Unit := do
  let now ← utcNow env
  batch (lockBatch env.keychain slate currentHeight context excessOverride now)
  let tx ← Eff.ofExcept slate.txOrErr
  storeTx slate.id tx

/-- The log record of a payment to receive. -/
def receivedEntry (slate : Slate F E) (currentHeight : Nat) (parentKeyId : Identifier)
    (logId now : Nat) : TxLogEntry E :=
  { (TxLogEntry.new parentKeyId .TxReceived logId now : TxLogEntry E) with
    txSlateId := some slate.id
    txSlateState := some slate.state
    amountCredited := slate.amount
    numOutputs := 1
    ttlCutoffHeight := ttlOf slate
    kernelExcess := slate.calcExcess.toOption
    kernelLookupMinHeight := some currentHeight }

/-- The batch of `build_recipient_output`. -/
def recipientBatch (K : Keychain F E) (slate : Slate F E) (currentHeight : Nat)
    (parentKeyId keyId : Identifier) (now : Nat) (s : Store E) : TxLogEntry E × Store E :=
  let (logId, s) := s.nextTxLogId parentKeyId
  let t := receivedEntry slate currentHeight parentKeyId logId now
  let s := s.save (unconfirmedOutput K parentKeyId keyId slate.amount currentHeight 0 false
    (some logId))
  (t, s.saveTxLogEntry t parentKeyId)

/-- Create an output for the recipient. The key comes from the active account,
the records belong to the account given. -/
def buildRecipientOutput (env : Env F E) (slate : Slate F E) (currentHeight : Nat)
    (parentKeyId : Identifier) :
    WalletM F E (Slate F E × Identifier × Context E × TxLogEntry E) := do
  let keyId ← nextChild
  let amount := slate.amount
  let slate ← Eff.ofExcept (slate.addTransactionElements env.keychain [.output amount keyId])
  let context ← newContext env parentKeyId
  let context := { context.addOutput keyId none amount with
    amount := amount
    fee := slate.feeFields.asOpt }
  let now ← utcNow env
  let t ← batch fun s =>
    .ok (recipientBatch env.keychain slate currentHeight parentKeyId keyId now s)
  return (slate, keyId, context, t)

/-! ## Restoring a transaction -/

/-- The elements of a context the wallet still has records of. -/
def repopulateParts (s : Store E) (context : Context E) : List Append :=
  (context.inputIds.filterMap fun (id, mmrIndex, value) =>
    let input := match s.get id mmrIndex with
      | .ok o => some o
      | .error _ => s.iter.find? fun out => out.keyId = id
    input.map fun i =>
      if i.isCoinbase then Append.coinbaseInput value i.keyId else Append.input value i.keyId)
  ++ context.outputIds.filterMap fun (id, _, value) =>
    (s.iter.find? fun out => out.keyId = id).map fun i => Append.output value i.keyId

/-- The fee a slate is restored with. -/
def restoredFee (slate : Slate F E) (context : Context E) (updateFee : Bool) :
    Except Error FeeFields :=
  if updateFee then
    match context.fee with
    | some fee => .ok fee
    | none => .error (.Fee "Missing fee fields")
  else .ok slate.feeFields

/-- Fill a slate again with the elements, amount and keys of a stored context. -/
def repopulateTx (K : Keychain F E) (s : Store E) (slate : Slate F E) (context : Context E)
    (updateFee : Bool) : Except Error (Slate F E) := do
  let feeFields ← restoredFee slate context updateFee
  let slate := { slate with amount := context.amount, feeFields := feeFields }
  let slate := slate.addParticipantInfo K context none
  let slate ← slate.addTransactionElements K (repopulateParts s context)
  let tx ← slate.txOrErr
  return { slate with tx := some { tx with offset := slate.offset } }

end Build

end Selection

end GrinWallet
