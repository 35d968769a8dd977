import GrinWallet.Selection.Funds

/-! # Selection with checked arithmetic

The same selection as a build with overflow checks runs it: every sum, difference
and product that leaves the range of a `u64` panics. Where none does, the wrapping
selection computes the same.
-/

namespace GrinWallet

open Effect WalletBackend SmallestFirst

/-- A computation that returns `Ok` or `Err`. -/
def NoPanic {α : Type} (x : Except Error α) : Prop := ∀ text, x ≠ .error (.Panic text)

theorem noPanic_ok {α : Type} (a : α) : NoPanic (.ok a : Except Error α) := fun _ h => (nomatch h)

theorem not_noPanic {α : Type} (text : String) :
    ¬ NoPanic (.error (.Panic text) : Except Error α) := fun h => h text rfl

theorem noPanic_error {α : Type} {e : Error} :
    NoPanic (.error e : Except Error α) ↔ ∀ text, e ≠ .Panic text :=
  ⟨fun h text heq => h text (heq ▸ rfl), fun h text heq => h text (Except.error.inj heq)⟩

theorem noPanic_bind {α β : Type} {x : Except Error α} {f : α → Except Error β} :
    NoPanic (x >>= f) ↔ NoPanic x ∧ ∀ a, x = .ok a → NoPanic (f a) := by
  cases x with
  | error e =>
      refine ⟨fun h => ⟨fun text heq => ?_, fun a heq => (nomatch heq)⟩, fun h text heq => ?_⟩
      · cases heq
        exact h text rfl
      · cases heq
        exact h.1 text rfl
  | ok a =>
      refine ⟨fun h => ⟨noPanic_ok a, fun b heq => ?_⟩, fun h => h.2 a rfl⟩
      cases heq
      exact h

/-- A slate without features the wallet knows gets an error. -/
theorem Slate.kernelFeaturesOf_noPanic {F E : Type} (s : Slate F E) :
    NoPanic s.kernelFeaturesOf := by
  intro text h
  unfold kernelFeaturesOf at h
  split at h
  · cases h
  · cases h
  · split at h <;> cases h
  · split at h
    · split at h <;> cases h
    · cases h
  · cases h

theorem Slate.txOrErr_noPanic {F E : Type} (s : Slate F E) : NoPanic s.txOrErr := by
  unfold txOrErr
  cases s.tx with
  | some tx => exact noPanic_ok tx
  | none => exact fun text h => by cases h

namespace Checked

open Selection (windows takeWhileBelow)

variable {F E : Type}

def add (a b : Nat) : Except Error Nat :=
  if a + b < 2 ^ 64 then .ok (a + b) else .error (.Panic "attempt to add with overflow")

def sub (a b : Nat) : Except Error Nat :=
  if b ≤ a then .ok (a - b) else .error (.Panic "attempt to subtract with overflow")

def mul (a b : Nat) : Except Error Nat :=
  if a * b < 2 ^ 64 then .ok (a * b) else .error (.Panic "attempt to multiply with overflow")

def add32 (a b : Nat) : Except Error Nat :=
  if a + b < 2 ^ 32 then .ok (a + b) else .error (.Panic "attempt to add with overflow")

def numConfirmations (o : OutputData E) (currentHeight : Nat) : Except Error Nat :=
  if o.height > currentHeight then .ok 0
  else if o.status = .Unconfirmed then .ok 0
  else add 1 (currentHeight - o.height)

/-- Only for an unspent output are the confirmations counted. -/
def eligibleToSpend (o : OutputData E) (currentHeight minimumConfirmations : Nat) :
    Except Error Bool :=
  if o.status = .Spent ∨ o.status = .Locked ∨ (o.status = .Unconfirmed ∧ o.isCoinbase = true)
      ∨ o.lockHeight > currentHeight then .ok false
  else if o.status = .Unspent then do
    let confirmations ← numConfirmations o currentHeight
    return decide (confirmations ≥ minimumConfirmations)
  else .ok (decide (o.status = .Unconfirmed ∧ minimumConfirmations = 0))

def eligibleAmong (currentHeight minimumConfirmations : Nat) (parentKeyId : Identifier) :
    List (OutputData E) → Except Error (List (OutputData E))
  | [] => .ok []
  | o :: os => do
      let eligible ← if o.rootKeyId = parentKeyId then
          eligibleToSpend o currentHeight minimumConfirmations
        else .ok false
      let rest ← eligibleAmong currentHeight minimumConfirmations parentKeyId os
      return if eligible then o :: rest else rest

def eligibleOutputs (s : Store E) (currentHeight minimumConfirmations : Nat)
    (parentKeyId : Identifier) : Except Error (List (OutputData E)) :=
  eligibleAmong currentHeight minimumConfirmations parentKeyId s.iter

def txFee (C : Consensus F E) (inputs outputs kernels : Nat) : Except Error Nat :=
  mul (weightByIok inputs outputs kernels) C.acceptFeeBase

def sumValues (coins : List (OutputData E)) : Except Error Nat :=
  coins.foldlM (fun acc c => add acc c.value) 0

/-- The sums the prefix is taken by are part of the total summed first. -/
def selectFrom (amount : Nat) (selectAll : Bool) (outputs : List (OutputData E)) :
    Except Error (Option (List (OutputData E))) := do
  let total ← sumValues outputs
  return if total ≥ amount then
    if selectAll then some outputs else some (takeWhileBelow amount 0 outputs)
  else none

/-- The first window worth the amount. -/
def selectWindow (amount : Nat) (selectAll : Bool) :
    List (List (OutputData E)) → Except Error (Option (List (OutputData E)))
  | [] => .ok none
  | window :: rest => do
      match ← selectFrom amount selectAll window with
      | some outputs => return some outputs
      | none => selectWindow amount selectAll rest

def selectCoins (s : Store E) (amount currentHeight minimumConfirmations maxOutputs : Nat)
    (selectAll : Bool) (parentKeyId : Identifier) : Except Error (Nat × List (OutputData E)) := do
  let eligible ← eligibleOutputs s currentHeight minimumConfirmations parentKeyId
  let maxAvailable := eligible.length
  let eligible := sortByKey (·.value) eligible
  let guidance := eligible.reverse.take maxOutputs
  if eligible.length > maxOutputs then
    if maxOutputs = 0 then .error (.Panic "window size must be non-zero")
    else
      match ← selectWindow amount selectAll (windows maxOutputs eligible) with
      | some outputs => return (maxAvailable, outputs)
      | none =>
          let found ← selectFrom amount false eligible
          return (maxAvailable, found.getD guidance)
  else
    let found ← selectFrom amount selectAll eligible
    return (maxAvailable, found.getD guidance)

def amountWithFee (amountIncludesFee : Bool) (amount fee : Nat) : Except Error Nat :=
  if amountIncludesFee then .ok amount else add amount fee

def reselect (C : Consensus F E) (s : Store E) (amount : Nat) (amountIncludesFee : Bool)
    (currentHeight minimumConfirmations maxOutputs numOutputs : Nat) (selectAll : Bool)
    (parentKeyId : Identifier) :
    Nat → List (OutputData E) → Nat → Nat → Nat →
      Except Error (List (OutputData E) × Nat × Nat × Nat)
  | 0, _, _, _, _ => .error (.Panic "selection does not end")
  | fuel + 1, coins, fee, total, withFee =>
      if total < withFee then
        if coins.length = maxOutputs then .error (.NotEnoughFunds total withFee)
        else do
          let (_, coins) ← selectCoins s withFee currentHeight minimumConfirmations maxOutputs
            selectAll parentKeyId
          let fee ← txFee C coins.length numOutputs 1
          let total ← sumValues coins
          let withFee ← amountWithFee amountIncludesFee amount fee
          reselect C s amount amountIncludesFee currentHeight minimumConfirmations maxOutputs
            numOutputs selectAll parentKeyId fuel coins fee total withFee
      else .ok (coins, fee, total, withFee)

def coinsAndFee (C : Consensus F E) (s : Store E) (amount : Nat) (amountIncludesFee : Bool)
    (currentHeight minimumConfirmations maxOutputs changeOutputs : Nat) (selectAll : Bool)
    (parentKeyId : Identifier) : Except Error (List (OutputData E) × Nat × Nat × Nat) := do
  let (maxOutputs, coins) ← selectCoins s amount currentHeight minimumConfirmations maxOutputs
    selectAll parentKeyId
  let fee ← txFee C coins.length 1 1
  let total ← sumValues coins
  let withFee ← amountWithFee amountIncludesFee amount fee
  if total = 0 then
    .error (.NotEnoughFunds 0 withFee)
  else if total < withFee ∧ coins.length = maxOutputs then
    .error (.NotEnoughFunds total withFee)
  else if total = withFee then
    .ok (coins, fee, total, withFee)
  else do
    let numOutputs ← add changeOutputs 1
    let fee ← txFee C coins.length numOutputs 1
    let withFee ← amountWithFee amountIncludesFee amount fee
    reselect C s amount amountIncludesFee currentHeight minimumConfirmations maxOutputs
      numOutputs selectAll parentKeyId (maxOutputs + 2) coins fee total withFee

/-- One more value in the best amount so far: the total, the amount and its inputs. -/
def spendStep (C : Consensus F E) (best : Nat × Nat × Nat) (next : Nat × Nat) :
    Except Error (Nat × Nat × Nat) := do
  let total ← add best.1 next.1
  let fee ← txFee C (next.2 + 1) 1 1
  return if total > fee then (total, total, u32 (next.2 + 1)) else (total, best.2.1, best.2.2)

def maxSpendableAmount (C : Consensus F E) (outputs : List (OutputData E))
    (outputLen maxTxWeight : Nat) (amountIncludesFee : Bool) : Except Error (Nat × Nat) := do
  let values := (outputs.zipIdx.takeWhile fun (_, i) =>
    weightByIok (i + 1) outputLen 1 ≤ maxTxWeight).map fun (o, _) => o.value
  let values := (sortByKey id values).reverse
  let (_, amount, inputs) ← values.zipIdx.foldlM (spendStep C) (0, 0, 0)
  if amountIncludesFee then return (amount, inputs)
  let fee ← txFee C inputs 1 1
  -- the difference saturates
  return (amount - fee, inputs)

def checkWeight (C : Consensus F E) (amountIncludesFee : Bool) (coins : List (OutputData E))
    (outputLen : Nat) : Except Error Unit :=
  if weightByIok coins.length outputLen 1 > C.maxTxWeight then do
    let (maxAmount, maxInputs) ← maxSpendableAmount C coins outputLen C.maxTxWeight
      amountIncludesFee
    let fee ← txFee C maxInputs 1 1
    .error (.BigAmountError maxAmount fee maxInputs)
  else .ok ()

def selectCoinsAndFee (C : Consensus F E) (s : Store E) (amount : Nat) (amountIncludesFee : Bool)
    (currentHeight minimumConfirmations maxOutputs changeOutputs : Nat) (selectAll : Bool)
    (parentKeyId : Identifier) : Except Error (List (OutputData E) × Nat × Nat × Nat) := do
  let (coins, fee, total, withFee) ← coinsAndFee C s amount amountIncludesFee currentHeight
    minimumConfirmations maxOutputs changeOutputs selectAll parentKeyId
  let numOutputs ← add changeOutputs 1
  checkWeight C amountIncludesFee coins (if total = withFee then 1 else numOutputs)
  if amountIncludesFee then
    if amount < fee then
      .error (.GenericError "Transaction amount is too small to include fee")
    else .ok (coins, total, amount - fee, fee)
  else .ok (coins, total, amount, fee)

/-- The amounts of the change outputs of `inputs_and_change`. -/
def changeAmounts (coins : List (OutputData E)) (amount fee numChangeOutputs : Nat) :
    Except Error (List Nat) := do
  let total ← sumValues coins
  let rest ← sub total amount
  let change ← sub rest fee
  if change = 0 then .ok []
  else if numChangeOutputs = 0 then .error (.Panic "attempt to divide by zero")
  else
    let partChange := change / numChangeOutputs
    if partChange = 0 then
      .error (.Panic "attempt to calculate the remainder with a divisor of zero")
    else do
      let last ← add partChange (change % partChange)
      return (List.range numChangeOutputs).map fun x =>
        if x = numChangeOutputs - 1 then last else partChange

/-! ## Checked arithmetic that does not panic agrees with wrapping arithmetic -/

/-- What returns checked returns the same unchecked. -/
def Agrees {α : Type} (x y : Except Error α) : Prop := NoPanic x → x = y

theorem Agrees.refl {α : Type} (x : Except Error α) : Agrees x x := fun _ => rfl

theorem Agrees.bind {α β : Type} {x y : Except Error α} {f g : α → Except Error β}
    (hx : Agrees x y) (hf : ∀ a, Agrees (f a) (g a)) : Agrees (x >>= f) (y >>= g) := by
  intro h
  obtain ⟨hleft, hright⟩ := noPanic_bind.mp h
  have heq := hx hleft
  cases hy : y with
  | error e => rw [heq, hy]; rfl
  | ok a => rw [heq, hy]; exact hf a (hright a (heq.trans hy))

/-- A checked step before one that takes its value for granted. -/
theorem Agrees.value {α β : Type} {x : Except Error α} {v : α} {f : α → Except Error β}
    {y : Except Error β} (hx : Agrees x (.ok v)) (hf : Agrees (f v) y) : Agrees (x >>= f) y := by
  intro h
  obtain ⟨hleft, hright⟩ := noPanic_bind.mp h
  rw [hx hleft]
  exact hf (hright v (hx hleft))

theorem Agrees.ite {α : Type} {c : Prop} [Decidable c] {x x' y y' : Except Error α}
    (h : Agrees x y) (h' : Agrees x' y') :
    Agrees (if c then x else x') (if c then y else y') := by
  by_cases hc : c
  · rw [if_pos hc, if_pos hc]
    exact h
  · rw [if_neg hc, if_neg hc]
    exact h'

theorem add_agrees (a b : Nat) : Agrees (add a b) (.ok (u64 (a + b))) := by
  unfold add
  by_cases h : a + b < 2 ^ 64
  · rw [if_pos h, u64_of_lt h]
    exact Agrees.refl _
  · rw [if_neg h]
    exact fun hno => absurd hno (not_noPanic _)

theorem txFee_agrees (C : Consensus F E) (i o k : Nat) :
    Agrees (txFee C i o k) (.ok (GrinWallet.txFee C i o k)) := by
  unfold txFee mul GrinWallet.txFee
  by_cases h : weightByIok i o k * C.acceptFeeBase < 2 ^ 64
  · rw [if_pos h, u64_of_lt h]
    exact Agrees.refl _
  · rw [if_neg h]
    exact fun hno => absurd hno (not_noPanic _)

theorem sumValues_agrees (coins : List (OutputData E)) :
    Agrees (sumValues coins) (.ok (Selection.sumValues coins)) := by
  unfold sumValues Selection.sumValues
  generalize 0 = acc
  induction coins generalizing acc with
  | nil => exact Agrees.refl _
  | cons c coins ih => exact (add_agrees acc c.value).value (ih _)

theorem amountWithFee_agrees (amountIncludesFee : Bool) (amount fee : Nat) :
    Agrees (amountWithFee amountIncludesFee amount fee)
      (.ok (Selection.amountWithFee amountIncludesFee amount fee)) := by
  cases amountIncludesFee with
  | true => exact Agrees.refl _
  | false => exact add_agrees amount fee

theorem selectFrom_agrees (amount : Nat) (selectAll : Bool) (outputs : List (OutputData E)) :
    Agrees (selectFrom amount selectAll outputs)
      (.ok (Selection.selectFrom amount selectAll outputs)) :=
  (sumValues_agrees outputs).value (Agrees.refl _)

theorem selectWindow_agrees (amount : Nat) (selectAll : Bool) (l : List (List (OutputData E))) :
    Agrees (selectWindow amount selectAll l)
      (.ok (l.findSome? (Selection.selectFrom amount selectAll))) := by
  induction l with
  | nil => exact Agrees.refl _
  | cons window rest ih =>
      refine (selectFrom_agrees amount selectAll window).value ?_
      cases h : Selection.selectFrom amount selectAll window with
      | some outputs =>
          rw [List.findSome?_cons, h]
          exact Agrees.refl _
      | none =>
          rw [List.findSome?_cons, h]
          exact ih

/-- The own block of a mature unspent output and the blocks above it are counted in
a `u64`. -/
def CountFits (o : OutputData E) (currentHeight : Nat) : Prop :=
  o.status = .Unspent → o.lockHeight ≤ currentHeight → o.height ≤ currentHeight →
    1 + (currentHeight - o.height) < 2 ^ 64

def CountsFit (s : Store E) (currentHeight : Nat) (parentKeyId : Identifier) : Prop :=
  ∀ o ∈ s.iter, o.rootKeyId = parentKeyId → CountFits o currentHeight

theorem eligibleToSpend_cases (o : OutputData E) (currentHeight minimumConfirmations : Nat) :
    (CountFits o currentHeight ∧ eligibleToSpend o currentHeight minimumConfirmations
      = .ok (o.eligibleToSpend currentHeight minimumConfirmations)) ∨
    (¬ CountFits o currentHeight ∧ eligibleToSpend o currentHeight minimumConfirmations
      = .error (.Panic "attempt to add with overflow")) := by
  unfold eligibleToSpend OutputData.eligibleToSpend CountFits
  by_cases hnever : o.status = .Spent ∨ o.status = .Locked ∨
      (o.status = .Unconfirmed ∧ o.isCoinbase = true) ∨ o.lockHeight > currentHeight
  · rw [if_pos hnever, if_pos hnever]
    refine .inl ⟨fun hunspent hmature => ?_, rfl⟩
    rw [hunspent] at hnever
    rcases hnever with h | h | ⟨h, -⟩ | h
    · cases h
    · cases h
    · cases h
    · omega
  rw [if_neg hnever, if_neg hnever]
  by_cases hunspent : o.status = .Unspent
  case neg =>
    rw [if_neg hunspent]
    exact .inl ⟨fun h => absurd h hunspent, by simp [hunspent]⟩
  have hother : o.status ≠ .Unconfirmed := by
    rw [hunspent]
    decide
  have hmature : o.lockHeight ≤ currentHeight := by
    by_contra h
    exact hnever (.inr (.inr (.inr (not_le.mp h))))
  rw [if_pos hunspent, numConfirmations, OutputData.numConfirmations, if_neg hother, if_neg hother]
  by_cases habove : o.height > currentHeight
  · rw [if_pos habove, if_pos habove]
    refine .inl ⟨fun _ _ h => by omega, ?_⟩
    simp [hunspent, bind, Except.bind, pure, Except.pure]
  rw [if_neg habove, if_neg habove, add]
  by_cases hfit : 1 + (currentHeight - o.height) < 2 ^ 64
  · rw [if_pos hfit]
    refine .inl ⟨fun _ _ _ => hfit, ?_⟩
    simp [hunspent, bind, Except.bind, pure, Except.pure]
  · rw [if_neg hfit]
    exact .inr ⟨fun h => hfit (h hunspent hmature (by omega)), rfl⟩

/-- The eligible outputs are those of the unchecked count when all counts fit. -/
theorem eligibleOutputs_cases (s : Store E) (currentHeight minimumConfirmations : Nat)
    (parentKeyId : Identifier) :
    (CountsFit s currentHeight parentKeyId ∧
      eligibleOutputs s currentHeight minimumConfirmations parentKeyId
        = .ok (Selection.eligibleOutputs s currentHeight minimumConfirmations parentKeyId)) ∨
    (¬ CountsFit s currentHeight parentKeyId ∧
      eligibleOutputs s currentHeight minimumConfirmations parentKeyId
        = .error (.Panic "attempt to add with overflow")) := by
  unfold CountsFit eligibleOutputs Selection.eligibleOutputs
  induction s.iter with
  | nil => exact .inl ⟨fun o ho => absurd ho List.not_mem_nil, rfl⟩
  | cons o os ih =>
      rw [eligibleAmong, List.forall_mem_cons]
      by_cases hroot : o.rootKeyId = parentKeyId
      · rw [if_pos hroot]
        rcases eligibleToSpend_cases o currentHeight minimumConfirmations with
          ⟨hfit, heq⟩ | ⟨hfit, heq⟩
        case inr => exact .inr ⟨fun h => hfit (h.1 hroot), by rw [heq]; rfl⟩
        rw [heq]
        rcases ih with ⟨hfits, hrest⟩ | ⟨hfits, hrest⟩
        · refine .inl ⟨⟨fun _ => hfit, hfits⟩, ?_⟩
          rw [hrest, List.filter_cons]
          simp [hroot, bind, Except.bind, pure, Except.pure]
        · exact .inr ⟨fun h => hfits h.2, by rw [hrest]; rfl⟩
      · rw [if_neg hroot]
        rcases ih with ⟨hfits, hrest⟩ | ⟨hfits, hrest⟩
        · refine .inl ⟨⟨fun h => absurd h hroot, hfits⟩, ?_⟩
          rw [hrest, List.filter_cons]
          simp [hroot, bind, Except.bind, pure, Except.pure]
        · exact .inr ⟨fun h => hfits h.2, by rw [hrest]; rfl⟩

theorem eligibleOutputs_of_fit {s : Store E} {currentHeight minimumConfirmations : Nat}
    {parentKeyId : Identifier} (h : CountsFit s currentHeight parentKeyId) :
    eligibleOutputs s currentHeight minimumConfirmations parentKeyId
      = .ok (Selection.eligibleOutputs s currentHeight minimumConfirmations parentKeyId) := by
  rcases eligibleOutputs_cases s currentHeight minimumConfirmations parentKeyId with
    ⟨-, heq⟩ | ⟨hno, -⟩
  · exact heq
  · exact absurd h hno

theorem eligibleOutputs_agrees (s : Store E) (currentHeight minimumConfirmations : Nat)
    (parentKeyId : Identifier) :
    Agrees (eligibleOutputs s currentHeight minimumConfirmations parentKeyId)
      (.ok (Selection.eligibleOutputs s currentHeight minimumConfirmations parentKeyId)) := by
  rcases eligibleOutputs_cases s currentHeight minimumConfirmations parentKeyId with
    ⟨-, heq⟩ | ⟨-, heq⟩
  · rw [heq]
    exact Agrees.refl _
  · rw [heq]
    exact fun hno => absurd hno (not_noPanic _)

theorem spendStep_agrees (C : Consensus F E) (best : Nat × Nat × Nat) (next : Nat × Nat) :
    Agrees (spendStep C best next)
      (.ok (let total := u64 (best.1 + next.1)
        if total > GrinWallet.txFee C (next.2 + 1) 1 1 then (total, total, u32 (next.2 + 1))
        else (total, best.2.1, best.2.2))) :=
  (add_agrees _ _).value ((txFee_agrees _ _ _ _).value (Agrees.refl _))

theorem maxSpendableAmount_agrees (C : Consensus F E) (outputs : List (OutputData E))
    (outputLen maxTxWeight : Nat) (amountIncludesFee : Bool) :
    Agrees (maxSpendableAmount C outputs outputLen maxTxWeight amountIncludesFee)
      (.ok (Selection.maxSpendableAmount C outputs outputLen maxTxWeight amountIncludesFee)) := by
  have hfold : ∀ (l : List (Nat × Nat)) (best : Nat × Nat × Nat),
      Agrees (l.foldlM (spendStep C) best) (.ok (l.foldl (fun (total, amount, inputs) (value, i) =>
        let total := u64 (total + value)
        if total > GrinWallet.txFee C (i + 1) 1 1 then (total, total, u32 (i + 1))
        else (total, amount, inputs)) best)) := by
    intro l
    induction l with
    | nil => exact fun best => Agrees.refl _
    | cons next l ih => exact fun best => (spendStep_agrees C best next).value (ih _)
  refine (hfold _ _).value ?_
  cases amountIncludesFee with
  | true => exact Agrees.refl _
  | false => exact (txFee_agrees _ _ _ _).value (Agrees.refl _)

theorem checkWeight_agrees (C : Consensus F E) (amountIncludesFee : Bool)
    (coins : List (OutputData E)) (outputLen : Nat) :
    Agrees (checkWeight C amountIncludesFee coins outputLen)
      (Selection.checkWeight C amountIncludesFee coins outputLen) := by
  refine Agrees.ite ((maxSpendableAmount_agrees _ _ _ _ _).value ?_) (Agrees.refl _)
  exact (txFee_agrees _ _ _ _).value (Agrees.refl _)

section Select

variable (C : Consensus F E) (s : Store E) (amount : Nat) (amountIncludesFee : Bool)
  (currentHeight minimumConfirmations maxOutputs changeOutputs : Nat) (selectAll : Bool)
  (parentKeyId : Identifier)

theorem selectCoins_agrees :
    Agrees (selectCoins s amount currentHeight minimumConfirmations maxOutputs selectAll
        parentKeyId)
      (Selection.selectCoins s amount currentHeight minimumConfirmations maxOutputs selectAll
        parentKeyId) := by
  refine (eligibleOutputs_agrees s currentHeight minimumConfirmations parentKeyId).value ?_
  unfold Selection.selectCoins
  simp only
  generalize sortByKey (·.value) (Selection.eligibleOutputs s currentHeight minimumConfirmations
    parentKeyId) = sorted
  refine Agrees.ite ?_ ?_
  · refine Agrees.ite (Agrees.refl _) ((selectWindow_agrees _ _ _).value ?_)
    cases (windows maxOutputs sorted).findSome? (Selection.selectFrom amount selectAll) with
    | some outputs => exact Agrees.refl _
    | none =>
        refine (selectFrom_agrees _ _ _).value ?_
        cases Selection.selectFrom amount false sorted <;> exact Agrees.refl _
  · refine (selectFrom_agrees _ _ _).value ?_
    cases Selection.selectFrom amount selectAll sorted <;> exact Agrees.refl _

theorem reselect_agrees (numOutputs fuel : Nat) (coins : List (OutputData E))
    (fee total withFee : Nat) :
    Agrees
      (reselect C s amount amountIncludesFee currentHeight minimumConfirmations maxOutputs
        numOutputs selectAll parentKeyId fuel coins fee total withFee)
      (Selection.reselect C s amount amountIncludesFee currentHeight minimumConfirmations
        maxOutputs numOutputs selectAll parentKeyId fuel coins fee total withFee) := by
  induction fuel generalizing coins fee total withFee with
  | zero => exact Agrees.refl _
  | succ fuel ih =>
      unfold reselect Selection.reselect
      refine Agrees.ite (Agrees.ite (Agrees.refl _) ?_) (Agrees.refl _)
      refine (selectCoins_agrees _ _ _ _ _ _ _).bind fun r => ?_
      exact (txFee_agrees _ _ _ _).value ((sumValues_agrees _).value
        ((amountWithFee_agrees _ _ _).value (ih _ _ _ _)))

theorem coinsAndFee_agrees :
    Agrees
      (coinsAndFee C s amount amountIncludesFee currentHeight minimumConfirmations maxOutputs
        changeOutputs selectAll parentKeyId)
      (Selection.coinsAndFee C s amount amountIncludesFee currentHeight minimumConfirmations
        maxOutputs changeOutputs selectAll parentKeyId) := by
  unfold coinsAndFee Selection.coinsAndFee
  refine (selectCoins_agrees _ _ _ _ _ _ _).bind fun r => ?_
  refine (txFee_agrees _ _ _ _).value ((sumValues_agrees _).value
    ((amountWithFee_agrees _ _ _).value ?_))
  refine Agrees.ite (Agrees.refl _) (Agrees.ite (Agrees.refl _) (Agrees.ite (Agrees.refl _) ?_))
  exact (add_agrees _ _).value ((txFee_agrees _ _ _ _).value
    ((amountWithFee_agrees _ _ _).value (reselect_agrees _ _ _ _ _ _ _ _ _ _ _ _ _ _ _)))

/-- Selection that returns `Ok` or `Err` under overflow checks returns the same
when its arithmetic wraps. -/
theorem selectCoinsAndFee_agrees :
    Agrees
      (selectCoinsAndFee C s amount amountIncludesFee currentHeight minimumConfirmations
        maxOutputs changeOutputs selectAll parentKeyId)
      (Selection.selectCoinsAndFee C s amount amountIncludesFee currentHeight
        minimumConfirmations maxOutputs changeOutputs selectAll parentKeyId) := by
  unfold selectCoinsAndFee Selection.selectCoinsAndFee
  refine (coinsAndFee_agrees _ _ _ _ _ _ _ _ _ _).bind fun r => ?_
  exact (add_agrees _ _).value ((checkWeight_agrees _ _ _ _).bind fun _ => Agrees.refl _)

end Select

end Checked

end GrinWallet
