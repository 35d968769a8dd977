import GrinWallet.Selection.Choice

/-! # Selection ends and finds the funds

Each round of the loop selects more outputs than the one before, so there are no
more rounds than eligible outputs. When all of them pay for the amount and for a
transaction that spends them all, no exit of the selection reports missing funds.
-/

namespace GrinWallet

open Effect WalletBackend SmallestFirst

namespace Selection

variable {F E : Type} {C : Consensus F E} {s : Store E}
  {amount currentHeight minimumConfirmations : Nat} {amountIncludesFee selectAll : Bool}
  {parentKeyId : Identifier}

/-- The selection once the first coins are chosen: for them without change, and
else from the loop. -/
theorem coinsAndFee_eq {maxOutputs changeOutputs maxAvailable : Nat}
    {first : List (OutputData E)}
    (h : selectCoins s amount currentHeight minimumConfirmations maxOutputs selectAll parentKeyId
      = .ok (maxAvailable, first)) :
    coinsAndFee C s amount amountIncludesFee currentHeight minimumConfirmations maxOutputs
        changeOutputs selectAll parentKeyId =
      if sumValues first = 0 then
        .error (.NotEnoughFunds 0 (priceOf C amount amountIncludesFee 1 first.length))
      else if sumValues first < priceOf C amount amountIncludesFee 1 first.length ∧
          first.length = maxAvailable then
        .error (.NotEnoughFunds (sumValues first)
          (priceOf C amount amountIncludesFee 1 first.length))
      else if sumValues first = priceOf C amount amountIncludesFee 1 first.length then
        .ok (first, txFee C first.length 1 1, sumValues first,
          priceOf C amount amountIncludesFee 1 first.length)
      else
        loopFrom C s amount amountIncludesFee currentHeight minimumConfirmations maxAvailable
          (u64 (changeOutputs + 1)) selectAll parentKeyId (maxAvailable + 2) first := by
  rw [coinsAndFee, h]
  rfl

/-- The only error of a selection is a limit of no outputs at all. -/
theorem selectCoins_error {maxOutputs : Nat} {e : Error}
    (h : selectCoins s amount currentHeight minimumConfirmations maxOutputs selectAll parentKeyId
      = .error e) : e = .Panic "window size must be non-zero" := by
  unfold selectCoins at h
  simp only at h
  split at h
  · split at h
    · cases h
      rfl
    · split at h
      · cases h
      · split at h <;> cases h
  · split at h <;> cases h

/-- The errors of finding coins and fee: missing funds, or a limit of no outputs
at all. No weight is checked yet. -/
theorem coinsAndFee_error {maxOutputs changeOutputs : Nat} {e : Error}
    (h : coinsAndFee C s amount amountIncludesFee currentHeight minimumConfirmations maxOutputs
      changeOutputs selectAll parentKeyId = .error e) :
    (∃ available needed, e = .NotEnoughFunds available needed) ∨ ∃ text, e = .Panic text := by
  have hloop : ∀ maxAvailable numOutputs fuel coins,
      loopFrom C s amount amountIncludesFee currentHeight minimumConfirmations maxAvailable
          numOutputs selectAll parentKeyId fuel coins = .error e →
        (∃ available needed, e = .NotEnoughFunds available needed) ∨ ∃ text, e = .Panic text := by
    intro maxAvailable numOutputs fuel coins hloop
    induction fuel generalizing coins with
    | zero =>
        cases hloop
        exact .inr ⟨_, rfl⟩
    | succ fuel ih =>
        rw [loopFrom, reselect] at hloop
        split at hloop
        · split at hloop
          · cases hloop
            exact .inl ⟨_, _, rfl⟩
          · cases hsel : selectCoins s (priceOf C amount amountIncludesFee numOutputs coins.length)
                currentHeight minimumConfirmations maxAvailable selectAll parentKeyId with
            | error e' =>
                rw [hsel] at hloop
                cases hloop
                exact .inr ⟨_, selectCoins_error hsel⟩
            | ok r =>
                rw [hsel] at hloop
                exact ih _ hloop
        · cases hloop
  cases hsel : selectCoins s amount currentHeight minimumConfirmations maxOutputs selectAll
      parentKeyId with
  | error e' =>
      rw [coinsAndFee, hsel] at h
      cases h
      exact .inr ⟨_, selectCoins_error hsel⟩
  | ok r =>
      obtain ⟨maxAvailable, first⟩ := r
      rw [coinsAndFee_eq hsel] at h
      split at h
      · cases h
        exact .inl ⟨_, _, rfl⟩
      split at h
      · cases h
        exact .inl ⟨_, _, rfl⟩
      split at h
      · cases h
      exact hloop _ _ _ _ h

/-- Among outputs worth the amount, the first choice is worth it. -/
theorem le_worth_first {l first : List (OutputData E)} {maxOutputs maxAvailable : Nat}
    (hranked : ranked s currentHeight minimumConfirmations parentKeyId = l)
    (hworth : worth l < 2 ^ 64) (hamount : amount ≤ worth l)
    (h : selectCoins s amount currentHeight minimumConfirmations maxOutputs selectAll parentKeyId
      = .ok (maxAvailable, first)) : amount ≤ worth first := by
  by_cases hmore : maxOutputs < l.length
  · by_cases hzero : maxOutputs = 0
    · have hlen : (eligibleOutputs s currentHeight minimumConfirmations parentKeyId).length
          = l.length := by
        rw [← hranked]
        exact (ranked_perm _ _ _ _).length_eq.symm
      have hsort : sortByKey (·.value) (eligibleOutputs s currentHeight minimumConfirmations
          parentKeyId) = l := hranked
      unfold selectCoins at h
      simp only [hlen, hsort] at h
      rw [if_pos hmore, if_pos hzero] at h
      cases h
    · rcases selectCoins_limited hranked hworth
        (by omega) hmore with ⟨i, hrun, hsel⟩ | ⟨-, hsel⟩
      · rw [hsel] at h
        cases h
        exact le_worth_takeFrom hrun.2.1
      · rw [hsel, if_pos hamount] at h
        cases h
        exact le_total_reach hamount
  · rw [selectCoins_all hranked hworth (by omega), if_pos hamount] at h
    cases h
    exact le_worth_takeFrom hamount

/-- Rounds that follow one another select more and more of the ranking. -/
theorem rounds_increase {l first : List (OutputData E)} {numOutputs : Nat}
    (hranked : ranked s currentHeight minimumConfirmations parentKeyId = l)
    (hworth : worth l < 2 ^ 64) (hfirst : first.Subperm l) {later : List (List (OutputData E))}
    (h : List.IsChain (Round C s amount amountIncludesFee currentHeight minimumConfirmations
      l.length numOutputs selectAll parentKeyId) (first :: later)) :
    first.length + later.length ≤ l.length ∧
      ((first :: later).map List.length).Pairwise (· < ·) := by
  have hincreasing : List.IsChain (· < ·) ((first :: later).map List.length) ∧
      first.length + later.length ≤ l.length := by
    induction later generalizing first with
    | nil => exact ⟨.singleton _, by simpa using hfirst.length_le⟩
    | cons next later ih =>
        obtain ⟨hround, hrest⟩ := List.isChain_cons_cons.mp h
        obtain ⟨hlt, hnext⟩ := hround.longer hranked hworth hfirst
        obtain ⟨hchain, hlen⟩ := ih hnext hrest
        refine ⟨List.isChain_cons_cons.mpr ⟨hlt, hchain⟩, ?_⟩
        rw [List.length_cons]
        omega
  exact ⟨hincreasing.2, List.isChain_iff_pairwise.mp hincreasing.1⟩

/-- Neither the fuel runs out nor, when the eligible outputs pay for spending all
of them, the funds. -/
theorem coinsAndFee_ends {l : List (OutputData E)} {maxOutputs changeOutputs : Nat} {e : Error}
    (hranked : ranked s currentHeight minimumConfirmations parentKeyId = l)
    (hworth : worth l < 2 ^ 64) (hchange : changeOutputs + 1 < 2 ^ 64)
    (hfit : amount + weightByIok l.length (changeOutputs + 1) 1 * C.acceptFeeBase < 2 ^ 64)
    (h : coinsAndFee C s amount amountIncludesFee currentHeight minimumConfirmations maxOutputs
      changeOutputs selectAll parentKeyId = .error e) :
    e ≠ .Panic "selection does not end" ∧
      (0 < amount →
        priceOf C amount amountIncludesFee (changeOutputs + 1) l.length ≤ worth l →
          ∀ available needed, e ≠ .NotEnoughFunds available needed) := by
  have hmono : ∀ o j k, o ≤ changeOutputs + 1 → j ≤ k → k ≤ l.length →
      priceOf C amount amountIncludesFee o j
        ≤ priceOf C amount amountIncludesFee (changeOutputs + 1) k := by
    intro o j k ho hjk hk
    have hweight : weightByIok k (changeOutputs + 1) 1 * C.acceptFeeBase
        ≤ weightByIok l.length (changeOutputs + 1) 1 * C.acceptFeeBase :=
      Nat.mul_le_mul_right _ (weightByIok_mono 1 hk (le_refl _))
    exact priceOf_mono hjk ho (by omega)
  cases hsel : selectCoins s amount currentHeight minimumConfirmations maxOutputs selectAll
      parentKeyId with
  | error e' =>
      rw [coinsAndFee, hsel] at h
      cases h
      rw [selectCoins_error hsel]
      exact ⟨by simp, fun _ _ _ _ => by simp⟩
  | ok r =>
      obtain ⟨maxAvailable, first⟩ := r
      obtain rfl : maxAvailable = l.length := by
        rw [selectCoins_available hsel, ← hranked]
        exact (ranked_perm _ _ _ _).length_eq.symm
      have hfirst : first.Subperm l := by
        rw [← hranked]
        exact (selectCoins_subperm hsel).trans (ranked_perm _ _ _ _).symm.subperm
      have hsum := sumValues_of_subperm hworth hfirst
      -- a price the whole ranking pays is one for as many coins or fewer
      have hcovered : 0 < amount →
          priceOf C amount amountIncludesFee (changeOutputs + 1) l.length ≤ worth l →
            amount ≤ worth first := by
        intro hpos hpaid
        refine le_worth_first hranked hworth ?_ hsel
        have hprice : amount ≤ priceOf C amount amountIncludesFee (changeOutputs + 1) l.length := by
          cases amountIncludesFee with
          | true => exact le_refl amount
          | false =>
              rw [priceOf_eq hfit]
              omega
        omega
      have hwhole : first.length = l.length → worth first = worth l := fun heq =>
        total_perm (hfirst.perm_of_length_le (by omega))
      rw [coinsAndFee_eq hsel, hsum, u64_of_lt hchange] at h
      split at h
      · rename_i hzero
        cases h
        exact ⟨by simp, fun hpos hpaid _ _ => by have hle := hcovered hpos hpaid; omega⟩
      split at h
      · rename_i hall
        cases h
        refine ⟨by simp, fun _ hpaid _ _ => ?_⟩
        have hless := hmono 1 first.length l.length (by omega) (by omega) (le_refl _)
        rw [hwhole hall.2] at hall
        omega
      split at h
      · cases h
      by_cases hshort : worth first
          < priceOf C amount amountIncludesFee (changeOutputs + 1) first.length
      · rcases loopFrom_short hranked hworth
          (hmono _ · · (le_refl _)) hfirst
          (show l.length < l.length + 1 + first.length by omega) hshort with
          ⟨K, -, -, hok⟩ | ⟨hnone, a, b, herror⟩
        · rw [hok] at h
          cases h
        · rw [herror] at h
          cases h
          refine ⟨by simp, fun _ hpaid _ _ _ => ?_⟩
          by_cases heq : first.length = l.length
          · rw [hwhole heq, heq] at hshort
            omega
          · have hlen := hfirst.length_le
            refine hnone l.length ⟨by omega, le_refl _, fun _ => rfl, ?_⟩
            rw [List.take_length]
            exact hpaid
      · rw [loopFrom_enough (l.length + 1) (by rw [hsum]; omega)] at h
        cases h

/-- The rounds of a selection are at most as many as the eligible outputs, each
selects more than the last, and funds that pay for spending all of them are found. -/
theorem selection_finds_funds (C : Consensus F E) (s : Store E)
    (amount currentHeight minimumConfirmations maxOutputs changeOutputs : Nat) (selectAll : Bool)
    (parentKeyId : Identifier) (eligible : List (OutputData E))
    (heligible : eligibleOutputs s currentHeight minimumConfirmations parentKeyId = eligible)
    (hamount : 0 < amount) (hworth : worth eligible < 2 ^ 64) (hchange : changeOutputs + 1 < 2 ^ 64)
    (hfit : amount + weightByIok eligible.length (changeOutputs + 1) 1 * C.acceptFeeBase < 2 ^ 64) :
    (∀ maxAvailable first,
      selectCoins s amount currentHeight minimumConfirmations maxOutputs selectAll parentKeyId
          = .ok (maxAvailable, first) →
        ∀ later, List.IsChain (Round C s amount false currentHeight minimumConfirmations
            maxAvailable (u64 (changeOutputs + 1)) selectAll parentKeyId) (first :: later) →
          later.length ≤ eligible.length ∧
            ((first :: later).map List.length).Pairwise (· < ·)) ∧
    selectCoinsAndFee C s amount false currentHeight minimumConfirmations maxOutputs changeOutputs
        selectAll parentKeyId ≠ .error (.Panic "selection does not end") ∧
    (amount + txFee C eligible.length (changeOutputs + 1) 1 ≤ worth eligible →
      ∀ available needed,
        selectCoinsAndFee C s amount false currentHeight minimumConfirmations maxOutputs
          changeOutputs selectAll parentKeyId ≠ .error (.NotEnoughFunds available needed)) := by
  have hperm := ranked_perm s currentHeight minimumConfirmations parentKeyId
  rw [heligible] at hperm
  have hsame : worth (ranked s currentHeight minimumConfirmations parentKeyId) = worth eligible :=
    total_perm hperm
  rw [← hsame] at hworth ⊢
  rw [← hperm.length_eq] at hfit ⊢
  refine ⟨fun maxAvailable first hsel later hchain => ?_, ?_⟩
  · obtain rfl : maxAvailable
        = (ranked s currentHeight minimumConfirmations parentKeyId).length := by
      rw [selectCoins_available hsel, heligible, hperm.length_eq]
    have hfirst : first.Subperm (ranked s currentHeight minimumConfirmations parentKeyId) :=
      (selectCoins_subperm hsel).trans (ranked_perm _ _ _ _).symm.subperm
    obtain ⟨hcount, hincreasing⟩ := rounds_increase rfl hworth hfirst hchain
    exact ⟨by omega, hincreasing⟩
  · have hends : ∀ e, selectCoinsAndFee C s amount false currentHeight minimumConfirmations
        maxOutputs changeOutputs selectAll parentKeyId = .error e →
        e ≠ .Panic "selection does not end" ∧
          (amount + txFee C (ranked s currentHeight minimumConfirmations parentKeyId).length
              (changeOutputs + 1) 1
            ≤ worth (ranked s currentHeight minimumConfirmations parentKeyId) →
            ∀ available needed, e ≠ .NotEnoughFunds available needed) := by
      intro e h
      rw [selectCoinsAndFee] at h
      cases hc : coinsAndFee C s amount false currentHeight minimumConfirmations maxOutputs
          changeOutputs selectAll parentKeyId with
      | error e' =>
          rw [hc] at h
          cases h
          have hend := coinsAndFee_ends rfl hworth hchange hfit hc
          rw [priceOf_eq hfit] at hend
          exact ⟨hend.1, hend.2 hamount⟩
      | ok r =>
          rw [hc] at h
          obtain ⟨coins, fee, total, withFee⟩ := r
          simp only [bind, Except.bind, checkWeight] at h
          by_cases hheavy : weightByIok coins.length
              (if total = withFee then 1 else u64 (changeOutputs + 1)) 1 > C.maxTxWeight
          · rw [if_pos hheavy] at h
            cases h
            exact ⟨by simp, fun _ _ _ => by simp⟩
          · rw [if_neg hheavy] at h
            cases h
    exact ⟨fun h => (hends _ h).1 rfl, fun hpaid a b h => (hends _ h).2 hpaid a b rfl⟩

/-- Two coins of a nanogrin, a third worth the fee for spending the two, and a
fourth worth more. -/
def fourCoins : Store ℕ :=
  (((Store.fresh.save (coinOf 0 1)).save (coinOf 1 1)).save (coinOf 2 23600000)).save
    (coinOf 3 100000000)

/-- What the two rounds that pay for two nanogrins select: the coins worth the
amount do not pay the fee for spending them, and the third coin that does not that
for spending itself as well. -/
def fourCoinsLater : List (List (OutputData ℕ)) :=
  [[coinOf 0 1, coinOf 1 1, coinOf 2 23600000],
    [coinOf 0 1, coinOf 1 1, coinOf 2 23600000, coinOf 3 100000000]]

theorem fourCoins_rounds :
    List.IsChain (Round (mainnet : Consensus ℕ ℕ) fourCoins 2 false 10 1 4 (u64 (1 + 1)) false
        defaultPath) ([coinOf 0 1, coinOf 1 1] :: fourCoinsLater) := by
  refine .cons_cons ⟨by decide +kernel, by decide, 4, by decide +kernel⟩ ?_
  refine .cons_cons ⟨by decide +kernel, by decide, 4, by decide +kernel⟩ ?_
  exact .singleton _

theorem selection_finds_funds_four :
    selectCoins fourCoins 2 10 1 500 false defaultPath = .ok (4, [coinOf 0 1, coinOf 1 1]) ∧
    (fourCoinsLater.length ≤ 4 ∧
      (([coinOf 0 1, coinOf 1 1] :: fourCoinsLater).map List.length).Pairwise (· < ·)) ∧
    selectCoinsAndFee (mainnet : Consensus ℕ ℕ) fourCoins 2 false 10 1 500 1 false defaultPath
      ≠ .error (.Panic "selection does not end") ∧
    2 + txFee (mainnet : Consensus ℕ ℕ) 4 (1 + 1) 1 ≤ 123600002 ∧
    ∀ available needed,
      selectCoinsAndFee (mainnet : Consensus ℕ ℕ) fourCoins 2 false 10 1 500 1 false defaultPath
        ≠ .error (.NotEnoughFunds available needed) := by
  have hsel : selectCoins fourCoins 2 10 1 500 false defaultPath
      = .ok (4, [coinOf 0 1, coinOf 1 1]) := by decide +kernel
  have hpaid : 2 + txFee (mainnet : Consensus ℕ ℕ) 4 (1 + 1) 1 ≤ 123600002 := by decide +kernel
  obtain ⟨hrounds, hends, hfunds⟩ := selection_finds_funds (mainnet : Consensus ℕ ℕ) fourCoins 2
    10 1 500 1 false defaultPath
    [coinOf 0 1, coinOf 1 1, coinOf 2 23600000, coinOf 3 100000000]
    (by decide +kernel) (by decide) (by decide +kernel) (by decide) (by decide +kernel)
  exact ⟨hsel, hrounds 4 _ hsel _ fourCoins_rounds, hends, hpaid, hfunds hpaid⟩

end Selection

end GrinWallet
