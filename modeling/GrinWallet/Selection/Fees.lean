import GrinWallet.Selection.Distinct

/-! # What a send pays

The fee is computed for the coins at hand up to three times: without change, with
the change asked for, and again in each round of the loop. Whatever the exit, the
fee returned covers the change that is really made, since a total that fits the
amount and the fee exactly makes none.
-/

namespace GrinWallet

open Effect WalletBackend

/-! ## Fees and weights grow with the counts -/

theorem weightByIok_mono {i i' o o' : Nat} (k : Nat) (hi : i ≤ i') (ho : o ≤ o') :
    weightByIok i o k ≤ weightByIok i' o' k := by
  unfold weightByIok
  omega

theorem txFee_of_lt {F E : Type} {C : Consensus F E} {i o k : Nat}
    (h : weightByIok i o k * C.acceptFeeBase < 2 ^ 64) :
    txFee C i o k = weightByIok i o k * C.acceptFeeBase := u64_of_lt h

/-- Fewer inputs and outputs never cost more, while the larger fee fits a `u64`. -/
theorem txFee_mono {F E : Type} {C : Consensus F E} {i i' o o' k : Nat} (hi : i ≤ i')
    (ho : o ≤ o') (hfit : weightByIok i' o' k * C.acceptFeeBase < 2 ^ 64) :
    txFee C i o k ≤ txFee C i' o' k := by
  have hle : weightByIok i o k * C.acceptFeeBase ≤ weightByIok i' o' k * C.acceptFeeBase :=
    Nat.mul_le_mul_right _ (weightByIok_mono k hi ho)
  rw [txFee_of_lt hfit, txFee_of_lt (by omega)]
  exact hle

namespace Selection

variable {F E : Type}

/-! ## The fee of a selection -/

section Select

variable {C : Consensus F E} {s : Store E} {amount currentHeight minimumConfirmations : Nat}
  {amountIncludesFee selectAll : Bool} {parentKeyId : Identifier}

/-- Every round of the loop leaves the fee for the coins it selected. -/
theorem reselect_fee {maxOutputs numOutputs fuel : Nat} {coins coins' : List (OutputData E)}
    {fee fee' total total' withFee withFee' : Nat}
    (hfee : fee = txFee C coins.length numOutputs 1)
    (hwith : withFee = amountWithFee amountIncludesFee amount fee)
    (h : reselect C s amount amountIncludesFee currentHeight minimumConfirmations maxOutputs
      numOutputs selectAll parentKeyId fuel coins fee total withFee
        = .ok (coins', fee', total', withFee')) :
    fee' = txFee C coins'.length numOutputs 1 ∧
      withFee' = amountWithFee amountIncludesFee amount fee' := by
  induction fuel generalizing coins fee total withFee with
  | zero => simp [reselect] at h
  | succ fuel ih =>
      unfold reselect at h
      by_cases hlt : total < withFee
      · rw [if_pos hlt] at h
        by_cases hlen : coins.length = maxOutputs
        · rw [if_pos hlen] at h
          cases h
        · rw [if_neg hlen] at h
          obtain ⟨⟨maxAvailable, next⟩, hsel, h⟩ := except_bind_eq_ok.mp h
          exact ih rfl rfl h
      · rw [if_neg hlt] at h
        cases h
        exact ⟨hfee, hwith⟩

/-- The fee is that of the coins without change when the first choice fits
exactly, and that of the coins with the change asked for otherwise. -/
theorem coinsAndFee_fee {maxOutputs changeOutputs fee total withFee : Nat}
    {coins : List (OutputData E)}
    (h : coinsAndFee C s amount amountIncludesFee currentHeight minimumConfirmations maxOutputs
      changeOutputs selectAll parentKeyId = .ok (coins, fee, total, withFee)) :
    withFee = amountWithFee amountIncludesFee amount fee ∧
      (fee = txFee C coins.length 1 1 ∧ total = withFee ∨
        fee = txFee C coins.length (u64 (changeOutputs + 1)) 1) := by
  unfold coinsAndFee at h
  obtain ⟨⟨maxAvailable, first⟩, hsel, h⟩ := except_bind_eq_ok.mp h
  simp only at h
  by_cases hzero : sumValues first = 0
  · rw [if_pos hzero] at h
    cases h
  rw [if_neg hzero] at h
  split at h
  · cases h
  · split at h
    · rename_i hexact
      cases h
      exact ⟨rfl, .inl ⟨rfl, hexact⟩⟩
    · have hlast := reselect_fee rfl rfl h
      exact ⟨hlast.2, .inr hlast.1⟩

/-- What `select_coins_and_fee` says of the coins, fee and amounts it returns. -/
structure Priced (C : Consensus F E) (changeOutputs : Nat) (coins : List (OutputData E))
    (total sent fee : Nat) : Prop where
  total_eq : total = sumValues coins
  covers : sent + fee ≤ total
  fee_eq : fee = txFee C coins.length 1 1 ∧ total = sent + fee ∨
    fee = txFee C coins.length (changeOutputs + 1) 1
  weight : weightByIok coins.length (if total = sent + fee then 1 else changeOutputs + 1) 1
    ≤ C.maxTxWeight

theorem checkWeight_eq_ok {coins : List (OutputData E)} {outputLen : Nat}
    (h : checkWeight C amountIncludesFee coins outputLen = .ok ()) :
    weightByIok coins.length outputLen 1 ≤ C.maxTxWeight := by
  unfold checkWeight at h
  by_cases hheavy : weightByIok coins.length outputLen 1 > C.maxTxWeight
  · rw [if_pos hheavy] at h
    cases h
  · omega

/-- The amount with the fee is what the recipient gets and the fee. -/
theorem selectCoinsAndFee_priced {maxOutputs changeOutputs total sent fee : Nat}
    {coins : List (OutputData E)} (hchange : changeOutputs + 1 < 2 ^ 64)
    (hsum : sent + fee < 2 ^ 64)
    (h : selectCoinsAndFee C s amount amountIncludesFee currentHeight minimumConfirmations
      maxOutputs changeOutputs selectAll parentKeyId = .ok (coins, total, sent, fee)) :
    Priced C changeOutputs coins total sent fee := by
  obtain ⟨htotal, hcover⟩ := selectCoinsAndFee_covers h
  rw [u64_of_lt hsum] at hcover
  unfold selectCoinsAndFee at h
  obtain ⟨⟨coins₁, fee₁, total₁, withFee⟩, hc, h⟩ := except_bind_eq_ok.mp h
  obtain ⟨⟨⟩, hcheck, h⟩ := except_bind_eq_ok.mp h
  obtain ⟨hwith, hfee⟩ := coinsAndFee_fee hc
  have hweight := checkWeight_eq_ok hcheck
  rw [u64_of_lt hchange] at hfee hweight
  have hparts : coins₁ = coins ∧ fee₁ = fee ∧ total₁ = total ∧ withFee = sent + fee := by
    cases amountIncludesFee with
    | false =>
        simp only [Bool.false_eq_true, if_false] at h
        cases h
        exact ⟨rfl, rfl, rfl, by rw [hwith]; exact u64_of_lt hsum⟩
    | true =>
        simp only [if_true] at h
        by_cases hlt : amount < fee₁
        · rw [if_pos hlt] at h
          cases h
        · rw [if_neg hlt] at h
          cases h
          exact ⟨rfl, rfl, rfl, by rw [hwith]; simp only [amountWithFee, if_true]; omega⟩
  obtain ⟨rfl, rfl, rfl, rfl⟩ := hparts
  exact ⟨htotal, hcover, hfee, hweight⟩

end Select

/-! ## The change really made -/

theorem childIndices_length (k n : Nat) : (childIndices k n).length = n := by
  induction n generalizing k with
  | zero => rfl
  | succ n ih => rw [childIndices, List.length_cons, ih]

theorem deriveChange_length {amounts : List Nat} {change : List (Nat × Identifier × Option Nat)}
    {w w' : WalletBackend F E} (h : deriveChange amounts w = (.ok change, w')) :
    change.length = amounts.length := by
  have hkeys := congrArg List.length (deriveChange_keys h)
  rw [List.length_map, List.length_map, childIndices_length] at hkeys
  exact hkeys

/-- A total that the amount and the fee use up makes no change output, any other
total makes the outputs asked for. -/
theorem inputsAndChange_length {coins : List (OutputData E)} {sent fee n : Nat} {b : Bool}
    {w w' : WalletBackend F E} {parts : List Append}
    {change : List (Nat × Identifier × Option Nat)} (hcover : sent + fee ≤ sumValues coins)
    (h : inputsAndChange coins sent fee n b w = (.ok (parts, change), w')) :
    change.length = if sumValues coins = sent + fee then 0 else n := by
  by_cases hexact : sumValues coins = sent + fee
  · obtain ⟨parts', hrun⟩ := inputsAndChange_exact w b n hexact
    rw [hrun] at h
    cases h
    rw [if_pos hexact]
    rfl
  · rw [if_neg hexact]
    have hchange := wrappingSub_change (sumValues_lt coins) hcover
    have hne : sumValues coins - (sent + fee) ≠ 0 := by omega
    by_cases hn : n = 0
    · simp only [inputsAndChange, hchange, if_neg hne, if_pos hn] at h
      cases h
    · by_cases hpart : (sumValues coins - (sent + fee)) / n = 0
      · obtain ⟨e, hrun⟩ := inputsAndChange_panics w b (by omega) (by omega) hpart
        rw [hrun] at h
        cases h
      · have hpos := Nat.pos_of_ne_zero hpart
        obtain ⟨inputs, hrun⟩ := inputsAndChange_split w b (by omega) (by omega) hpos
        rw [hrun] at h
        obtain ⟨derived, w₁, hderive, hend⟩ := Eff.bind_eq_ok.mp h
        cases hend
        rw [deriveChange_length hderive, changeAmounts, List.length_map, List.length_range]

/-- The transaction of a send once the recipient's output is in: its counts, the
fee of its one kernel, and the amount and fee of the slate that carries it. -/
structure Completes (slate : Slate F E) (inputs outputs sent fee : Nat) : Prop where
  amount_eq : slate.amount = sent
  feeFields_eq : slate.feeFields = ⟨fee⟩
  tx_eq : ∃ tx kernel, slate.tx = some tx ∧ tx.inputs.length = inputs ∧
    tx.outputs.length = outputs ∧ tx.kernels = [kernel] ∧ kernel.features.feeFields = ⟨fee⟩

/-- A fee that is enough for the counts of the transaction is not disputed. -/
theorem checkFees_ok {C : Consensus F E} {slate : Slate F E} {inputs outputs sent fee : Nat}
    (hdone : Completes slate inputs outputs sent fee) (hfee : fee < 2 ^ 40)
    (hsum : sent + fee < 2 ^ 64) (henough : txFee C inputs outputs 1 ≤ fee) :
    slate.checkFees C = .ok () := by
  obtain ⟨hamount, hfields, tx, kernel, htx, hin, hout, hkernel, hkfee⟩ := hdone
  have hslateFee : slate.feeFields.fee = fee := by
    rw [hfields]
    exact Nat.mod_eq_of_lt hfee
  have htxFee : tx.fee = fee := by
    rw [Transaction.fee, hkernel, List.map_singleton, List.sum_singleton, hkfee]
    exact Nat.mod_eq_of_lt hfee
  have hok : slate.txOrErr = .ok tx := by rw [Slate.txOrErr, htx]
  have hcounts : txFee C tx.inputs.length tx.outputs.length tx.kernels.length ≤ fee := by
    rw [hin, hout, hkernel]
    exact henough
  have hsumFee : u64 (slate.amount + slate.feeFields.fee) = sent + fee := by
    rw [hamount, hslateFee, u64_of_lt hsum]
  rw [Slate.checkFees, hok]
  show (if _ > tx.fee then _ else if _ > u64 (slate.amount + slate.feeFields.fee) then _ else _) = _
  rw [if_neg (by omega), if_neg (by omega)]

/-- A selection that succeeds pays for the transaction it leads to, is light
enough, and leaves the completed transaction a fee that is accepted. -/
theorem selection_pays_for_transaction (C : Consensus F E) (s : Store E) (amount : Nat)
    (amountIncludesFee : Bool) (currentHeight minimumConfirmations maxOutputs changeOutputs : Nat)
    (selectAll : Bool) (parentKeyId : Identifier) (coins : List (OutputData E))
    (total sent fee : Nat) (hcount : changeOutputs < 2 ^ 32) (hsum : sent + fee < 2 ^ 64)
    (hfee : fee < 2 ^ 40)
    (hfit : weightByIok coins.length (changeOutputs + 1) 1 * C.acceptFeeBase < 2 ^ 64)
    (hselect : selectCoinsAndFee C s amount amountIncludesFee currentHeight minimumConfirmations
      maxOutputs changeOutputs selectAll parentKeyId = .ok (coins, total, sent, fee)) :
    sent + fee ≤ total ∧ total = sumValues coins ∧
      ∀ (w w' : WalletBackend F E) (includeInputsInSum : Bool) (parts : List Append)
        (change : List (Nat × Identifier × Option Nat)),
        inputsAndChange coins sent fee changeOutputs includeInputsInSum w
            = (.ok (parts, change), w') →
          txFee C coins.length (1 + change.length) 1 ≤ fee ∧
            weightByIok coins.length (1 + change.length) 1 ≤ C.maxTxWeight ∧
            ∀ slate : Slate F E,
              Completes slate coins.length (1 + change.length) sent fee →
                slate.checkFees C = .ok () := by
  have hpriced := selectCoinsAndFee_priced (by omega) hsum hselect
  have hwide : txFee C coins.length (changeOutputs + 1) 1
      = weightByIok coins.length (changeOutputs + 1) 1 * C.acceptFeeBase :=
    txFee_of_lt (by omega)
  have hless : txFee C coins.length 1 1 ≤ txFee C coins.length (changeOutputs + 1) 1 :=
    txFee_mono (le_refl _) (by omega) (by omega)
  refine ⟨hpriced.covers, hpriced.total_eq, fun w w' b parts change hrun => ?_⟩
  have hlength := inputsAndChange_length (hpriced.total_eq ▸ hpriced.covers) hrun
  rw [← hpriced.total_eq] at hlength
  have hmade : txFee C coins.length (1 + change.length) 1 ≤ fee ∧
      weightByIok coins.length (1 + change.length) 1 ≤ C.maxTxWeight := by
    have hweight := hpriced.weight
    by_cases hexact : total = sent + fee
    · -- no change: the fee is at least the one without change
      rw [if_pos hexact] at hlength hweight
      rw [hlength, Nat.add_zero]
      exact ⟨by rcases hpriced.fee_eq with ⟨heq, -⟩ | heq <;> omega, hweight⟩
    · rw [if_neg hexact] at hlength hweight
      rw [hlength, Nat.add_comm 1]
      refine ⟨?_, hweight⟩
      rcases hpriced.fee_eq with ⟨-, heq⟩ | heq
      · exact absurd heq hexact
      · omega
  exact ⟨hmade.1, hmade.2, fun slate hdone => checkFees_ok hdone hfee hsum hmade.1⟩

/-- A grin and a nanogrin in one coin, two grins in the other. -/
def twoCoins : Store ℕ :=
  (Store.fresh.save (coinOf 0 1000000001)).save (coinOf 1 2000000000)

/-- Two coins, one change output: the fee of 23.5 million nanogrin covers both. -/
theorem selection_pays_for_transaction_two :
    1000000000 + 23500000 ≤ 3000000001 ∧
      3000000001 = sumValues [coinOf 0 1000000001, coinOf 1 2000000000] ∧
      ∀ (w w' : WalletBackend ℕ ℕ) (includeInputsInSum : Bool) (parts : List Append)
        (change : List (Nat × Identifier × Option Nat)),
        inputsAndChange [coinOf 0 1000000001, coinOf 1 2000000000] 1000000000 23500000 1
            includeInputsInSum w = (.ok (parts, change), w') →
          txFee (mainnet : Consensus ℕ ℕ) 2 (1 + change.length) 1 ≤ 23500000 ∧
            weightByIok 2 (1 + change.length) 1 ≤ (mainnet : Consensus ℕ ℕ).maxTxWeight ∧
            ∀ slate : Slate ℕ ℕ, Completes slate 2 (1 + change.length) 1000000000 23500000 →
              slate.checkFees (mainnet : Consensus ℕ ℕ) = .ok () :=
  selection_pays_for_transaction mainnet twoCoins 1000000000 false 10 1 500 1 true defaultPath
    [coinOf 0 1000000001, coinOf 1 2000000000] 3000000001 1000000000 23500000 (by decide)
    (by decide) (by decide) (by decide) (by decide +kernel)

end Selection

end GrinWallet
