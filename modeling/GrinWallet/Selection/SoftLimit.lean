import GrinWallet.Selection.Funds

/-! # The soft limit on inputs

`max_outputs` is meant to be exceeded only when that many outputs are not enough.
The first choice keeps to it, but the loop looks for the fee among all outputs
with the limit replaced by their number. It is overrun exactly when the first run
worth the amount does not pay for the fee as well, and the shortest longer prefix
that does is over the limit.
-/

namespace GrinWallet

open Effect WalletBackend SmallestFirst

namespace Selection

variable {F E : Type}

/-- Some `m` outputs that stand together by value cover the amount and the fee
for spending them. -/
def LimitSuffices (C : Consensus F E) (amount m changeOutputs : Nat) (l : List (OutputData E)) :
    Prop :=
  ∃ i, i + m ≤ l.length ∧ amount + txFee C m (changeOutputs + 1) 1 ≤ worth (run m i l)

/-- The selection has at most `m` inputs, and is not refused as too heavy while
`m` inputs are light enough. -/
def RespectsLimit (C : Consensus F E) (m changeOutputs : Nat)
    (r : Except Error (List (OutputData E) × Nat × Nat × Nat)) : Prop :=
  (∀ coins total sent fee, r = .ok (coins, total, sent, fee) → coins.length ≤ m) ∧
    (weightByIok m (changeOutputs + 1) 1 ≤ C.maxTxWeight →
      ∀ maxAmount fee inputs, r ≠ .error (.BigAmountError maxAmount fee inputs))

/-- The weight of the shortest prefix the loop can end on. -/
def prefixWeight (C : Consensus F E) (amount changeOutputs K : Nat) (l : List (OutputData E)) :
    Nat :=
  weightByIok K (if worth (l.take K) = priceOf C amount false (changeOutputs + 1) K then 1
    else changeOutputs + 1) 1

/-- The first run worth the amount, cut to what the strategy takes of it, pays
neither exactly for a transaction without change nor for one with change; and the
shortest longer prefix that pays for itself is over the limit, though light enough
to be returned, or refused though `m` inputs would not be. -/
def Overruns (C : Consensus F E) (amount : Nat) (amountIncludesFee : Bool)
    (m changeOutputs : Nat) (selectAll : Bool) (l : List (OutputData E)) : Prop :=
  amountIncludesFee = false ∧ LimitSuffices C amount m changeOutputs l ∧
    ∃ i K, FirstRun amount m l i ∧
      let first := takeFrom amount selectAll (run m i l)
      worth first ≠ priceOf C amount false 1 first.length ∧
      worth first < priceOf C amount false (changeOutputs + 1) first.length ∧
      Pays C amount false (changeOutputs + 1) selectAll l first.length K ∧
      (∀ k, Pays C amount false (changeOutputs + 1) selectAll l first.length k → K ≤ k) ∧
      m < K ∧
      (weightByIok m (changeOutputs + 1) 1 ≤ C.maxTxWeight ∨
        prefixWeight C amount changeOutputs K l ≤ C.maxTxWeight)

theorem FirstRun.unique {amount m i j : Nat} {l : List (OutputData E)}
    (hi : FirstRun amount m l i) (hj : FirstRun amount m l j) : i = j := by
  rcases Nat.lt_trichotomy i j with hlt | heq | hlt
  · have h1 := hj.2.2 i hlt
    have h2 := hi.2.1
    omega
  · exact heq
  · have h1 := hi.2.2 j hlt
    have h2 := hj.2.1
    omega

section Limit

variable {C : Consensus F E} {s : Store E} {amount currentHeight minimumConfirmations : Nat}
  {amountIncludesFee selectAll : Bool} {parentKeyId : Identifier}
  {maxOutputs changeOutputs : Nat}

theorem takeFrom_run_length_le (amount : Nat) (selectAll : Bool) (m i : Nat)
    (l : List (OutputData E)) : (takeFrom amount selectAll (run m i l)).length ≤ m := by
  have hle := (takeFrom_sublist amount selectAll (run m i l)).length_le
  have hrun : (run m i l).length ≤ m := List.length_take_le m _
  omega

/-- What follows once coins and fee are found. -/
theorem selectCoinsAndFee_eq {coins : List (OutputData E)} {fee total withFee : Nat}
    (hc : coinsAndFee C s amount amountIncludesFee currentHeight minimumConfirmations maxOutputs
      changeOutputs selectAll parentKeyId = .ok (coins, fee, total, withFee))
    (hchange : changeOutputs + 1 < 2 ^ 64) :
    selectCoinsAndFee C s amount amountIncludesFee currentHeight minimumConfirmations maxOutputs
        changeOutputs selectAll parentKeyId =
      if weightByIok coins.length (if total = withFee then 1 else changeOutputs + 1) 1
          > C.maxTxWeight then
        .error (.BigAmountError
          (maxSpendableAmount C coins (if total = withFee then 1 else changeOutputs + 1)
            C.maxTxWeight amountIncludesFee).1
          (txFee C (maxSpendableAmount C coins (if total = withFee then 1 else changeOutputs + 1)
            C.maxTxWeight amountIncludesFee).2 1 1)
          (maxSpendableAmount C coins (if total = withFee then 1 else changeOutputs + 1)
            C.maxTxWeight amountIncludesFee).2)
      else if amountIncludesFee then
        if amount < fee then .error (.GenericError "Transaction amount is too small to include fee")
        else .ok (coins, total, amount - fee, fee)
      else .ok (coins, total, amount, fee) := by
  rw [selectCoinsAndFee, hc]
  simp only [bind, Except.bind, checkWeight, u64_of_lt hchange]
  by_cases hheavy : weightByIok coins.length (if total = withFee then 1 else changeOutputs + 1) 1
      > C.maxTxWeight
  · rw [if_pos hheavy, if_pos hheavy]
  · rw [if_neg hheavy, if_neg hheavy]

theorem selectCoinsAndFee_of_error {e : Error}
    (hc : coinsAndFee C s amount amountIncludesFee currentHeight minimumConfirmations maxOutputs
      changeOutputs selectAll parentKeyId = .error e) :
    selectCoinsAndFee C s amount amountIncludesFee currentHeight minimumConfirmations maxOutputs
      changeOutputs selectAll parentKeyId = .error e := by
  rw [selectCoinsAndFee, hc]
  rfl

/-- No more coins than the limit are no heavier than the limit. -/
theorem respectsLimit_of_length_le {m : Nat} (hchange : changeOutputs + 1 < 2 ^ 64)
    (h : ∀ coins fee total withFee, coinsAndFee C s amount amountIncludesFee currentHeight
      minimumConfirmations maxOutputs changeOutputs selectAll parentKeyId
        = .ok (coins, fee, total, withFee) → coins.length ≤ m) :
    RespectsLimit C m changeOutputs (selectCoinsAndFee C s amount amountIncludesFee currentHeight
      minimumConfirmations maxOutputs changeOutputs selectAll parentKeyId) := by
  cases hc : coinsAndFee C s amount amountIncludesFee currentHeight minimumConfirmations maxOutputs
      changeOutputs selectAll parentKeyId with
  | error e =>
      rw [selectCoinsAndFee_of_error hc]
      refine ⟨fun _ _ _ _ h' => (nomatch h'), fun _ a f k heq => ?_⟩
      rw [Except.error.inj heq] at hc
      rcases coinsAndFee_error hc with ⟨_, _, h'⟩ | ⟨_, h'⟩ <;> cases h'
  | ok r =>
      obtain ⟨coins, fee, total, withFee⟩ := r
      have hlen := h _ _ _ _ hc
      have houtputs : (if total = withFee then 1 else changeOutputs + 1) ≤ changeOutputs + 1 := by
        split <;> omega
      have hweight := weightByIok_mono 1 hlen houtputs
      rw [selectCoinsAndFee_eq hc hchange]
      generalize (if total = withFee then 1 else changeOutputs + 1) = outputs at hweight ⊢
      constructor
      · intro coins' total' sent' fee' heq
        split at heq
        · cases heq
        split at heq
        · split at heq
          · cases heq
          · cases heq
            exact hlen
        · cases heq
          exact hlen
      · intro hlight a f k heq
        rw [if_neg (by omega)] at heq
        split at heq
        · split at heq <;> cases heq
        · cases heq

/-- Where the limit suffices, the first choice is of the first run worth the amount. -/
theorem first_of_limitSuffices {m : Nat} {l : List (OutputData E)} (selectAll : Bool)
    (hranked : ranked s currentHeight minimumConfirmations parentKeyId = l)
    (hworth : worth l < 2 ^ 64) (hm : 1 ≤ m) (hmore : m < l.length)
    (hsuffices : LimitSuffices C amount m changeOutputs l) :
    ∃ i, FirstRun amount m l i ∧
      selectCoins s amount currentHeight minimumConfirmations m selectAll parentKeyId
        = .ok (l.length, takeFrom amount selectAll (run m i l)) := by
  rcases selectCoins_limited hranked hworth hm hmore with hfirst | ⟨hnone, -⟩
  · exact hfirst
  · obtain ⟨i, hi, hcover⟩ := hsuffices
    have hshort := hnone i hi
    omega

/-- The loop's prefix respects the limit when it is no longer, or when both it and
`m` inputs are too heavy. -/
theorem respectsLimit_take_iff {m K : Nat} {l : List (OutputData E)} (hK : K ≤ l.length)
    (hchange : changeOutputs + 1 < 2 ^ 64)
    (hc : coinsAndFee C s amount false currentHeight minimumConfirmations maxOutputs changeOutputs
      selectAll parentKeyId = .ok (l.take K, txFee C K (changeOutputs + 1) 1, worth (l.take K),
        priceOf C amount false (changeOutputs + 1) K)) :
    RespectsLimit C m changeOutputs (selectCoinsAndFee C s amount false currentHeight
        minimumConfirmations maxOutputs changeOutputs selectAll parentKeyId) ↔
      ¬ (m < K ∧ (weightByIok m (changeOutputs + 1) 1 ≤ C.maxTxWeight ∨
        prefixWeight C amount changeOutputs K l ≤ C.maxTxWeight)) := by
  have hlen : (l.take K).length = K := by rw [List.length_take]; omega
  by_cases hover : m < K
  · rw [selectCoinsAndFee_eq hc hchange, hlen]
    rw [show weightByIok K (if worth (l.take K) = priceOf C amount false (changeOutputs + 1) K then 1
      else changeOutputs + 1) 1 = prefixWeight C amount changeOutputs K l from rfl]
    by_cases hheavy : prefixWeight C amount changeOutputs K l > C.maxTxWeight
    · rw [if_pos hheavy]
      constructor
      · intro hrespects hboth
        rcases hboth.2 with hlight | hlight
        · exact hrespects.2 hlight _ _ _ rfl
        · omega
      · intro hno
        exact ⟨fun _ _ _ _ h => (nomatch h), fun hlight => absurd ⟨hover, .inl hlight⟩ hno⟩
    · rw [if_neg hheavy]
      simp only [Bool.false_eq_true, if_false]
      constructor
      · intro hrespects
        have hle := hrespects.1 _ _ _ _ rfl
        omega
      · intro hno
        exact absurd ⟨hover, .inr (by omega)⟩ hno
  · refine iff_of_true (respectsLimit_of_length_le hchange fun coins fee total withFee h => ?_)
      fun hboth => hover hboth.1
    rw [hc] at h
    cases h
    omega

end Limit

/-- Where `m` outputs are enough, the limit is respected exactly when the loop does
not overrun it. -/
theorem soft_limit_respected_iff (C : Consensus F E) (s : Store E) (amount : Nat)
    (amountIncludesFee : Bool) (currentHeight minimumConfirmations m changeOutputs : Nat)
    (selectAll : Bool) (parentKeyId : Identifier) (l : List (OutputData E))
    (hranked : ranked s currentHeight minimumConfirmations parentKeyId = l)
    (hamount : 0 < amount) (hm : 1 ≤ m) (hworth : worth l < 2 ^ 64)
    (hchange : changeOutputs + 1 < 2 ^ 64)
    (hfit : amount + weightByIok l.length (changeOutputs + 1) 1 * C.acceptFeeBase < 2 ^ 64) :
    (LimitSuffices C amount m changeOutputs l →
        RespectsLimit C m changeOutputs (selectCoinsAndFee C s amount amountIncludesFee
          currentHeight minimumConfirmations m changeOutputs selectAll parentKeyId)) ↔
      ¬ Overruns C amount amountIncludesFee m changeOutputs selectAll l := by
  by_cases hsuffices : LimitSuffices C amount m changeOutputs l
  case neg => exact iff_of_true (fun h => absurd h hsuffices) fun hover => hsuffices hover.2.1
  rw [forall_prop_of_true hsuffices]
  by_cases hmore : m < l.length
  case neg =>
    -- as many outputs as the limit or fewer
    refine iff_of_true (respectsLimit_of_length_le hchange fun coins fee total withFee hc => ?_) ?_
    · have hlen := (coinsAndFee_selects hc).1.length_le
      rw [← (ranked_perm _ _ _ _).length_eq, hranked] at hlen
      omega
    · rintro ⟨-, -, i, K, -, -, -, hpays, -, hover, -⟩
      have hK := hpays.2.1
      omega
  obtain ⟨i, hrun, hsel⟩ := first_of_limitSuffices selectAll hranked hworth hm hmore hsuffices
  have hlen := takeFrom_run_length_le amount selectAll m i l
  have hfirst : (takeFrom amount selectAll (run m i l)).Subperm l :=
    ((takeFrom_sublist _ _ _).trans (run_sublist m i l)).subperm
  have hcovers : amount ≤ worth (takeFrom amount selectAll (run m i l)) := le_worth_takeFrom hrun.2.1
  have hsum := sumValues_of_subperm hworth hfirst
  have hunique : ∀ j, FirstRun amount m l j → j = i := fun j hj => hj.unique hrun
  generalize hcoins : takeFrom amount selectAll (run m i l) = first at *
  have hc : coinsAndFee C s amount amountIncludesFee currentHeight minimumConfirmations m changeOutputs
      selectAll parentKeyId = _ := coinsAndFee_eq hsel
  rw [hsum, u64_of_lt hchange, if_neg (by omega), if_neg (by omega)] at hc
  by_cases hpaid : worth first = priceOf C amount amountIncludesFee 1 first.length ∨
      priceOf C amount amountIncludesFee (changeOutputs + 1) first.length ≤ worth first
  case pos =>
    refine iff_of_true (respectsLimit_of_length_le hchange fun coins fee total withFee h => ?_) ?_
    · rw [hc] at h
      split at h
      · cases h
        exact hlen
      · rename_i hne
        rw [loopFrom_enough (l.length + 1) (by rw [hsum]; exact hpaid.resolve_left hne)] at h
        cases h
        exact hlen
    · rintro ⟨hfalse, -, j, K, hj, hne, hshort, -⟩
      rw [hunique j hj, hcoins] at hne hshort
      rw [hfalse] at hpaid
      omega
  rw [not_or, not_le] at hpaid
  rw [if_neg hpaid.1] at hc
  obtain rfl : amountIncludesFee = false := by
    cases amountIncludesFee with
    | false => rfl
    | true => exact absurd hcovers (not_le.mpr hpaid.2)
  have hmono : ∀ j k, j ≤ k → k ≤ l.length →
      priceOf C amount false (changeOutputs + 1) j ≤ priceOf C amount false (changeOutputs + 1) k := by
    intro j k hjk hk
    have hweight : weightByIok k (changeOutputs + 1) 1 * C.acceptFeeBase
        ≤ weightByIok l.length (changeOutputs + 1) 1 * C.acceptFeeBase :=
      Nat.mul_le_mul_right _ (weightByIok_mono 1 hk (le_refl _))
    exact priceOf_mono hjk (le_refl _) (by omega)
  rcases loopFrom_short hranked hworth hmono hfirst
    (show l.length < l.length + 1 + first.length by omega) hpaid.2 with ⟨K, hK, hleast, hok⟩ | ⟨hnone, a, b, herror⟩
  · rw [hok] at hc
    rw [respectsLimit_take_iff hK.2.1 hchange hc]
    refine not_congr ⟨fun hover => ⟨rfl, hsuffices, i, K, hrun, ?_⟩, ?_⟩
    · rw [hcoins]
      exact ⟨hpaid.1, hpaid.2, hK, hleast, hover.1, hover.2⟩
    · rintro ⟨-, -, j, K', hj, -, -, hK', hleast', hover⟩
      rw [hunique j hj, hcoins] at hK' hleast'
      have hle := hleast K' hK'
      have hge := hleast' K hK
      rw [show K = K' by omega]
      exact hover
  · rw [herror] at hc
    refine iff_of_true ?_ ?_
    · rw [selectCoinsAndFee_of_error hc]
      exact ⟨fun _ _ _ _ h => (nomatch h), fun _ _ _ _ h => (nomatch h)⟩
    · rintro ⟨-, -, j, K, hj, -, -, hK, -⟩
      rw [hunique j hj, hcoins] at hK
      exact hnone K hK

/-- One input of two grins pays for a grin. The coin of one grin and a nanogrin is
worth the amount too, but not the fee, and the loop then spends both. -/
theorem limit_of_one_spends_two :
    LimitSuffices (mainnet : Consensus ℕ ℕ) 1000000000 1 1 (ranked twoCoins 10 1 defaultPath) ∧
      ¬ RespectsLimit (mainnet : Consensus ℕ ℕ) 1 1
        (selectCoinsAndFee (F := ℕ) mainnet twoCoins 1000000000 false 10 1 1 1 true defaultPath) := by
  refine ⟨⟨1, by decide +kernel, by decide +kernel⟩, fun hrespects => ?_⟩
  have hrun : selectCoinsAndFee (mainnet : Consensus ℕ ℕ) twoCoins 1000000000 false 10 1 1 1 true
      defaultPath
        = .ok ([coinOf 0 1000000001, coinOf 1 2000000000], 3000000001, 1000000000, 23500000) := by
    decide +kernel
  have hle := hrespects.1 _ _ _ _ hrun
  exact absurd hle (by decide)

theorem soft_limit_respected_iff_two_coins :
    (LimitSuffices (mainnet : Consensus ℕ ℕ) 900000000 1 1 [coinOf 0 1000000001, coinOf 1 2000000000]
      → RespectsLimit (mainnet : Consensus ℕ ℕ) 1 1
        (selectCoinsAndFee (F := ℕ) mainnet twoCoins 900000000 false 10 1 1 1 true defaultPath)) ↔
      ¬ Overruns (mainnet : Consensus ℕ ℕ) 900000000 false 1 1 true
        [coinOf 0 1000000001, coinOf 1 2000000000] :=
  soft_limit_respected_iff mainnet twoCoins 900000000 false 10 1 1 1 true defaultPath _
    (by decide +kernel) (by decide) (by decide) (by decide +kernel) (by decide) (by decide +kernel)

end Selection

end GrinWallet
