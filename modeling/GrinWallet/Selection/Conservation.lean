import GrinWallet.Model.Sample

/-! # Value conservation of a send

What selection promises about the coins it returns, and when the split of the
change keeps the sum: `inputs_and_change` takes `change / n` for each part but
`change % part` for the remainder, which is the remainder of the division by `n`
only while that is smaller than a part.
-/

namespace GrinWallet

open Effect WalletBackend

namespace Selection

variable {F E : Type}

/-! ## Sums -/

theorem sumValues_eq (coins : List (OutputData E)) :
    sumValues coins = u64 (coins.map (·.value)).sum := by
  have hfold : ∀ a : Nat, a < 2 ^ 64 → ∀ coins : List (OutputData E),
      coins.foldl (fun acc c => u64 (acc + c.value)) a = u64 (a + (coins.map (·.value)).sum) := by
    intro a ha coins
    induction coins generalizing a with
    | nil => simp [u64_of_lt ha]
    | cons c cs ih =>
        rw [List.foldl_cons, ih _ (u64_lt _), List.map_cons, List.sum_cons, ← Nat.add_assoc]
        exact Nat.mod_add_mod _ _ _
  rw [sumValues, hfold 0 (by decide), Nat.zero_add]

theorem sumValues_of_lt {coins : List (OutputData E)} (h : (coins.map (·.value)).sum < 2 ^ 64) :
    sumValues coins = (coins.map (·.value)).sum := by
  rw [sumValues_eq, u64_of_lt h]

theorem sumValues_le (coins : List (OutputData E)) :
    sumValues coins ≤ (coins.map (·.value)).sum := by
  rw [sumValues_eq]
  exact Nat.mod_le _ _

/-! ## What a selection covers -/

section Select

variable {C : Consensus F E} {s : Store E} {amount currentHeight minimumConfirmations : Nat}
  {amountIncludesFee selectAll : Bool} {parentKeyId : Identifier}

theorem reselect_covers {maxOutputs numOutputs fuel : Nat} {coins coins' : List (OutputData E)}
    {fee fee' total total' withFee withFee' : Nat}
    (htotal : total = sumValues coins)
    (hwith : withFee = amountWithFee amountIncludesFee amount fee)
    (h : reselect C s amount amountIncludesFee currentHeight minimumConfirmations maxOutputs
      numOutputs selectAll parentKeyId fuel coins fee total withFee
        = .ok (coins', fee', total', withFee')) :
    total' = sumValues coins' ∧ amountWithFee amountIncludesFee amount fee' ≤ total' := by
  induction fuel generalizing coins fee total withFee with
  | zero => simp [reselect] at h
  | succ fuel ih =>
      unfold reselect at h
      by_cases hlt : total < withFee
      · rw [if_pos hlt] at h
        by_cases hlen : coins.length = maxOutputs
        · rw [if_pos hlen] at h
          cases h
        · rw [if_neg hlen] at h
          cases hsel : selectCoins s withFee currentHeight minimumConfirmations maxOutputs
              selectAll parentKeyId with
          | error e =>
              rw [hsel] at h
              cases h
          | ok r =>
              rw [hsel] at h
              exact ih rfl rfl h
      · rw [if_neg hlt] at h
        cases h
        exact ⟨htotal, by omega⟩

theorem coinsAndFee_covers {maxOutputs changeOutputs fee total withFee : Nat}
    {coins : List (OutputData E)}
    (h : coinsAndFee C s amount amountIncludesFee currentHeight minimumConfirmations maxOutputs
      changeOutputs selectAll parentKeyId = .ok (coins, fee, total, withFee)) :
    total = sumValues coins ∧ amountWithFee amountIncludesFee amount fee ≤ total := by
  unfold coinsAndFee at h
  cases hsel : selectCoins s amount currentHeight minimumConfirmations maxOutputs selectAll
      parentKeyId with
  | error e =>
      rw [hsel] at h
      cases h
  | ok r =>
      obtain ⟨maxAvailable, coins₀⟩ := r
      simp only [hsel, bind, Except.bind] at h
      by_cases hzero : sumValues coins₀ = 0
      · rw [if_pos hzero] at h
        cases h
      · rw [if_neg hzero] at h
        split at h
        · cases h
        · split at h
          · rename_i heq
            cases h
            exact ⟨rfl, le_of_eq heq.symm⟩
          · exact reselect_covers rfl rfl h

/-- A selection that succeeds covers the amount and the fee, as `u64` sums. -/
theorem selectCoinsAndFee_covers {maxOutputs changeOutputs total sent fee : Nat}
    {coins : List (OutputData E)}
    (h : selectCoinsAndFee C s amount amountIncludesFee currentHeight minimumConfirmations
      maxOutputs changeOutputs selectAll parentKeyId = .ok (coins, total, sent, fee)) :
    total = sumValues coins ∧ u64 (sent + fee) ≤ total := by
  unfold selectCoinsAndFee at h
  cases hc : coinsAndFee C s amount amountIncludesFee currentHeight minimumConfirmations maxOutputs
      changeOutputs selectAll parentKeyId with
  | error e =>
      rw [hc] at h
      cases h
  | ok r =>
      obtain ⟨coins₀, fee₀, total₀, withFee₀⟩ := r
      obtain ⟨htotal, hcover⟩ := coinsAndFee_covers hc
      simp only [hc, bind, Except.bind] at h
      split at h
      · cases h
      · cases hinc : amountIncludesFee with
        | false =>
            simp only [hinc, amountWithFee, Bool.false_eq_true, if_false] at h hcover
            cases h
            exact ⟨htotal, hcover⟩
        | true =>
            simp only [hinc, amountWithFee, if_true] at h hcover
            by_cases hlt : amount < fee₀
            · rw [if_pos hlt] at h
              cases h
            · rw [if_neg hlt] at h
              cases h
              have hsum : amount - fee + fee = amount := by omega
              rw [hsum]
              exact ⟨htotal, le_trans (Nat.mod_le _ _) hcover⟩

end Select

/-! ## Splitting the change -/

/-- The amounts of the change outputs. -/
def changeAmounts (change n : Nat) : List Nat := (List.range n).map (changeAmount change n)

theorem part_add_remainder_le {change n : Nat} (hpart : 0 < change / n) :
    change / n + change % (change / n) ≤ change := by
  have hle : change / n ≤ change := Nat.div_le_self _ _
  have hone : 1 ≤ change / (change / n) := (Nat.one_le_div_iff hpart).mpr hle
  have hsplit := Nat.div_add_mod change (change / n)
  have hmul : change / n * 1 ≤ change / n * (change / (change / n)) := Nat.mul_le_mul_left _ hone
  omega

/-- The split hands out `n` parts and the remainder taken by the part. -/
theorem sum_changeAmounts {change n : Nat} (hn : 1 ≤ n) (hlt : change < 2 ^ 64)
    (hpart : 0 < change / n) :
    (changeAmounts change n).sum = change / n * n + change % (change / n) := by
  obtain ⟨k, rfl⟩ : ∃ k, n = k + 1 := ⟨n - 1, by omega⟩
  have hinit : (List.range k).map (changeAmount change (k + 1))
      = List.replicate k (change / (k + 1)) := by
    rw [List.eq_replicate_iff]
    refine ⟨by simp, fun b hb => ?_⟩
    obtain ⟨x, hx, rfl⟩ := List.mem_map.mp hb
    have hne : x ≠ k + 1 - 1 := by
      have hlt := List.mem_range.mp hx
      omega
    rw [changeAmount, if_neg hne]
  have hlast : changeAmount change (k + 1) k
      = change / (k + 1) + change % (change / (k + 1)) := by
    have hle := part_add_remainder_le hpart
    simp [changeAmount, u64_of_lt (lt_of_le_of_lt hle hlt)]
  rw [changeAmounts, List.range_succ, List.map_append, List.sum_append, hinit, List.sum_replicate_nat]
  simp only [List.map_cons, List.map_nil, List.sum_cons, List.sum_nil, hlast]
  rw [Nat.mul_add, Nat.mul_comm k]
  omega

theorem changeAmounts_pos {change n : Nat} (hlt : change < 2 ^ 64) (hpart : 0 < change / n) :
    ∀ a ∈ changeAmounts change n, 0 < a := by
  intro a ha
  obtain ⟨x, -, rfl⟩ := List.mem_map.mp ha
  have hle := part_add_remainder_le hpart
  unfold changeAmount
  by_cases hx : x = n - 1
  · simp only [if_pos hx, u64_of_lt (lt_of_le_of_lt hle hlt)]
    omega
  · simpa only [if_neg hx] using hpart

theorem mod_part_eq (change n : Nat) : change % (change / n) = change % n % (change / n) := by
  have hsplit : change = change % n + n * (change / n) := (Nat.mod_add_div change n).symm
  have hdvd : (change % n + n * (change / n)) % (change / n) = change % n % (change / n) :=
    Nat.add_mul_mod_self_right _ _ _
  rwa [← hsplit] at hdvd

/-- The split never hands out more than the change. -/
theorem split_le (change n : Nat) : change / n * n + change % (change / n) ≤ change := by
  have hsplit := Nat.div_add_mod change n
  have hcomm : n * (change / n) = change / n * n := Nat.mul_comm _ _
  have hmod : change % n % (change / n) ≤ change % n := Nat.mod_le _ _
  rw [mod_part_eq]
  omega

/-- The split hands out the whole change exactly when the remainder is below a part. -/
theorem split_eq_iff {change n : Nat} (hpart : 0 < change / n) :
    change / n * n + change % (change / n) = change ↔ change % n < change / n := by
  have hsplit := Nat.div_add_mod change n
  have hcomm : n * (change / n) = change / n * n := Nat.mul_comm _ _
  constructor
  · intro h
    have heq : change % (change / n) = change % n := by omega
    rw [← heq]
    exact Nat.mod_lt _ hpart
  · intro h
    rw [mod_part_eq, Nat.mod_eq_of_lt h]
    omega

theorem deriveChange_ok {w : WalletBackend F E} (h : w.parentKeyId.depth < 4)
    (amounts : List Nat) :
    ∃ change w', deriveChange amounts w = (.ok change, w') ∧ change.map Prod.fst = amounts := by
  induction amounts generalizing w with
  | nil => exact ⟨[], w, rfl, rfl⟩
  | cons a as ih =>
      have hkeep : (afterNextChild w).parentKeyId = w.parentKeyId := rfl
      obtain ⟨rest, w', hrest, hfst⟩ := ih (w := afterNextChild w) (by rw [hkeep]; exact h)
      refine ⟨(a, w.parentKeyId.child (w.store.childIndex w.parentKeyId), none) :: rest, w', ?_, ?_⟩
      · rw [deriveChange, Eff.run_bind_ok (run_nextChild h), Eff.run_bind_ok hrest]
        rfl
      · rw [List.map_cons, hfst]

theorem deriveChange_deep {w : WalletBackend F E} (h : 4 ≤ w.parentKeyId.depth) (a : Nat)
    (as : List Nat) :
    deriveChange (a :: as) w = (.error (.Panic "index out of bounds"), w) := by
  rw [deriveChange, Eff.run_bind_error (run_nextChild_deep h)]

/-! ## Conservation -/

/-- Inputs and change conserve value: nothing panics or underflows, the inputs
are the amount, the fee and the change together, and no change output is empty. -/
def ConservesValue (w : WalletBackend F E) (coins : List (OutputData E)) (amount fee n : Nat)
    (includeInputsInSum : Bool) : Prop :=
  ∃ parts change w',
    inputsAndChange coins amount fee n includeInputsInSum w = (.ok (parts, change), w')
      ∧ amount + fee ≤ sumValues coins
      ∧ (coins.map (·.value)).sum = amount + fee + (change.map Prod.fst).sum
      ∧ ∀ c ∈ change, 0 < c.1

/-- The values fit in `u64` sums, and the change left over is nothing or splits
into `n` parts larger than the remainder, under an account with room for keys. -/
def ChangeSplits (w : WalletBackend F E) (coins : List (OutputData E)) (amount fee n : Nat) :
    Prop :=
  let total := (coins.map (·.value)).sum
  let change := total - (amount + fee)
  total < 2 ^ 64 ∧ amount + fee < 2 ^ 64 ∧
    (change = 0 ∨ w.parentKeyId.depth < 4 ∧ change % n < change / n)

instance (w : WalletBackend F E) (coins : List (OutputData E)) (amount fee n : Nat) :
    Decidable (ChangeSplits w coins amount fee n) :=
  inferInstanceAs (Decidable (_ ∧ _ ∧ (_ ∨ _ ∧ _)))

theorem wrappingSub_change {total amount fee : Nat} (hlt : total < 2 ^ 64)
    (hle : amount + fee ≤ total) :
    wrappingSub (wrappingSub total amount) fee = total - (amount + fee) := by
  rw [wrappingSub_of_le hlt (by omega), wrappingSub_of_le (by omega) (by omega)]
  omega

section Change

variable (w : WalletBackend F E) (includeInputsInSum : Bool) {coins : List (OutputData E)}
  {amount fee n : Nat}

theorem sumValues_lt (coins : List (OutputData E)) : sumValues coins < 2 ^ 64 := by
  rw [sumValues_eq]
  exact u64_lt _

theorem inputsAndChange_exact (n : Nat) (h : sumValues coins = amount + fee) :
    ∃ parts, inputsAndChange coins amount fee n includeInputsInSum w = (.ok (parts, []), w) := by
  have hchange : wrappingSub (wrappingSub (sumValues coins) amount) fee = 0 := by
    rw [wrappingSub_change (sumValues_lt coins) (le_of_eq h.symm), h, Nat.sub_self]
  exact ⟨_, by simp only [inputsAndChange, hchange]; rfl⟩

variable (hlt : amount + fee < sumValues coins) (hn : 1 ≤ n)
include hlt hn

/-- Less change than outputs to split it into: a division by zero. -/
theorem inputsAndChange_panics (hpart : (sumValues coins - (amount + fee)) / n = 0) :
    ∃ e, inputsAndChange coins amount fee n includeInputsInSum w = (.error e, w) := by
  have hchange := wrappingSub_change (sumValues_lt coins) (le_of_lt hlt)
  have hne : sumValues coins - (amount + fee) ≠ 0 := by omega
  have hn0 : n ≠ 0 := by omega
  exact ⟨.Panic "attempt to calculate the remainder with a divisor of zero", by
    simp only [inputsAndChange, hchange, if_neg hne, if_neg hn0, if_pos hpart]; rfl⟩

theorem inputsAndChange_split (hpart : 0 < (sumValues coins - (amount + fee)) / n) :
    ∃ inputs, inputsAndChange coins amount fee n includeInputsInSum w =
      (deriveChange (changeAmounts (sumValues coins - (amount + fee)) n) >>= fun derivations =>
        pure (inputs ++ derivations.map fun (a, id, _) => Append.output a id, derivations)) w := by
  have hchange := wrappingSub_change (sumValues_lt coins) (le_of_lt hlt)
  have hne : sumValues coins - (amount + fee) ≠ 0 := by omega
  have hn0 : n ≠ 0 := by omega
  exact ⟨if includeInputsInSum then coins.map appendInput else [], by
    simp only [inputsAndChange, hchange, if_neg hne, if_neg hn0, if_neg (ne_of_gt hpart)]
    rfl⟩

theorem inputsAndChange_deep (hpart : 0 < (sumValues coins - (amount + fee)) / n)
    (hdepth : 4 ≤ w.parentKeyId.depth) :
    ∃ e, inputsAndChange coins amount fee n includeInputsInSum w = (.error e, w) := by
  obtain ⟨inputs, hrun⟩ := inputsAndChange_split w includeInputsInSum hlt hn hpart
  obtain ⟨k, rfl⟩ : ∃ k, n = k + 1 := ⟨n - 1, by omega⟩
  refine ⟨.Panic "index out of bounds", ?_⟩
  rw [hrun, changeAmounts, List.range_succ_eq_map, List.map_cons]
  exact Eff.run_bind_error (deriveChange_deep hdepth _ _)

theorem inputsAndChange_ok (hpart : 0 < (sumValues coins - (amount + fee)) / n)
    (hdepth : w.parentKeyId.depth < 4) :
    ∃ parts change w',
      inputsAndChange coins amount fee n includeInputsInSum w = (.ok (parts, change), w')
        ∧ change.map Prod.fst = changeAmounts (sumValues coins - (amount + fee)) n := by
  obtain ⟨inputs, hrun⟩ := inputsAndChange_split w includeInputsInSum hlt hn hpart
  obtain ⟨change, w', hderive, hfst⟩ :=
    deriveChange_ok hdepth (changeAmounts (sumValues coins - (amount + fee)) n)
  exact ⟨_, change, w', by rw [hrun, Eff.run_bind_ok hderive]; rfl, hfst⟩

end Change

/-- The change is conserved exactly when it splits, once the total covers the
amount and the fee wherever these do not overflow. -/
theorem conservesValue_iff (w : WalletBackend F E) (coins : List (OutputData E))
    (amount fee n : Nat) (includeInputsInSum : Bool) (hn : 1 ≤ n)
    (hcover : amount + fee < 2 ^ 64 → amount + fee ≤ sumValues coins) :
    ConservesValue w coins amount fee n includeInputsInSum ↔ ChangeSplits w coins amount fee n := by
  have hlt64 : sumValues coins < 2 ^ 64 := sumValues_lt coins
  have hle := sumValues_le coins
  constructor
  · rintro ⟨parts, derived, w', hrun, hno, hsum, -⟩
    by_cases hexact : sumValues coins = amount + fee
    · obtain ⟨parts₀, hrun₀⟩ := inputsAndChange_exact w includeInputsInSum n hexact
      rw [hrun₀] at hrun
      cases hrun
      simp only [List.map_nil, List.sum_nil, Nat.add_zero] at hsum
      exact ⟨by omega, by omega, .inl (by omega)⟩
    · have hlt : amount + fee < sumValues coins := by omega
      by_cases hpart : (sumValues coins - (amount + fee)) / n = 0
      · obtain ⟨e, herr⟩ := inputsAndChange_panics w includeInputsInSum
          hlt hn hpart
        rw [herr] at hrun
        cases hrun
      · have hpos : 0 < (sumValues coins - (amount + fee)) / n := Nat.pos_of_ne_zero hpart
        by_cases hdepth : w.parentKeyId.depth < 4
        · obtain ⟨parts₀, derived₀, w₀, hrun₀, hfst⟩ := inputsAndChange_ok w
            includeInputsInSum hlt hn hpos hdepth
          rw [hrun₀] at hrun
          cases hrun
          rw [hfst, sum_changeAmounts hn (by omega) hpos] at hsum
          have hsplit := split_le (sumValues coins - (amount + fee)) n
          have htotal : (coins.map (·.value)).sum = sumValues coins := by omega
          refine ⟨by omega, by omega, .inr ⟨hdepth, ?_⟩⟩
          rw [htotal]
          exact (split_eq_iff hpos).mp (by omega)
        · obtain ⟨e, herr⟩ := inputsAndChange_deep w
            includeInputsInSum hlt hn hpos (by omega)
          rw [herr] at hrun
          cases hrun
  · rintro ⟨htotal, hfit, hchange⟩
    have hcov := hcover hfit
    have hT : sumValues coins = (coins.map (·.value)).sum := sumValues_of_lt htotal
    rw [← hT] at hchange
    by_cases hexact : sumValues coins = amount + fee
    · obtain ⟨parts, hrun⟩ := inputsAndChange_exact w includeInputsInSum n hexact
      refine ⟨parts, [], w, hrun, hcov, ?_, by simp⟩
      rw [List.map_nil, List.sum_nil, ← hT, hexact, Nat.add_zero]
    · have hlt : amount + fee < sumValues coins := by omega
      rcases hchange with hzero | ⟨hdepth, hmod⟩
      · omega
      · have hpos : 0 < (sumValues coins - (amount + fee)) / n := by omega
        obtain ⟨parts, derived, w', hrun, hfst⟩ := inputsAndChange_ok w includeInputsInSum
          hlt hn hpos hdepth
        refine ⟨parts, derived, w', hrun, hcov, ?_, ?_⟩
        · rw [hfst, sum_changeAmounts hn (by omega) hpos, (split_eq_iff hpos).mpr hmod, ← hT]
          omega
        · intro c hc
          have hmem : c.1 ∈ derived.map Prod.fst := List.mem_map_of_mem hc
          rw [hfst] at hmem
          exact changeAmounts_pos (by omega) hpos _ hmem

/-- A send built on a successful selection conserves value exactly when its change splits. -/
theorem built_send_conserves_value_iff (C : Consensus F E) (s : Store E) (amount : Nat)
    (amountIncludesFee : Bool) (currentHeight minimumConfirmations maxOutputs changeOutputs : Nat)
    (selectAll : Bool) (parentKeyId : Identifier) (w : WalletBackend F E)
    (includeInputsInSum : Bool) (coins : List (OutputData E)) (total sent fee : Nat)
    (hchange : 1 ≤ changeOutputs)
    (hselect : selectCoinsAndFee C s amount amountIncludesFee currentHeight minimumConfirmations
      maxOutputs changeOutputs selectAll parentKeyId = .ok (coins, total, sent, fee)) :
    ConservesValue w coins sent fee changeOutputs includeInputsInSum ↔
      ChangeSplits w coins sent fee changeOutputs := by
  obtain ⟨htotal, hcover⟩ := selectCoinsAndFee_covers hselect
  refine conservesValue_iff w coins sent fee changeOutputs includeInputsInSum hchange fun hfit => ?_
  rw [u64_of_lt hfit, htotal] at hcover
  exact hcover

/-- A coin that leaves 10 nanogrin of change after sending one grin. -/
def tenOverCoin : OutputData ℕ where
  rootKeyId := defaultPath
  keyId := defaultPath.child 0
  nChild := 0
  commit := none
  mmrIndex := none
  value := 1000000000 + 54500000 + 10
  status := .Unspent
  height := 1
  lockHeight := 0
  isCoinbase := false
  txLogEntry := none

/-- A coin of the given value under the given child key. -/
def coinOf (child value : Nat) : OutputData ℕ :=
  { tenOverCoin with keyId := defaultPath.child child, nChild := child, value := value }

/-- Four change outputs for 10 nanogrin: 2 each, and the remainder `10 % 2` for the last. -/
theorem ten_over_four_loses_two :
    selectCoinsAndFee (F := ℕ) mainnet (Store.fresh.save tenOverCoin) 1000000000 false 10 1 500 4
        true defaultPath = .ok ([tenOverCoin], 1054500010, 1000000000, 54500000) ∧
      ¬ ConservesValue (WalletBackend.new : WalletBackend ℕ ℕ) [tenOverCoin] 1000000000 54500000 4
        false := by
  refine ⟨by decide +kernel, fun h => ?_⟩
  have hsplit := (conservesValue_iff _ _ _ _ _ _ (by decide) fun _ => by decide +kernel).mp h
  exact absurd hsplit (by decide +kernel)

theorem built_send_conserves_value_iff_three :
    ConservesValue (WalletBackend.new : WalletBackend ℕ ℕ) [tenOverCoin] 1000000000 44000000 3
        false ↔
      ChangeSplits (WalletBackend.new : WalletBackend ℕ ℕ) [tenOverCoin] 1000000000 44000000 3 :=
  built_send_conserves_value_iff mainnet (Store.fresh.save tenOverCoin) 1000000000 false 10 1 500 3
    true defaultPath _ false _ 1054500010 _ _ (by decide) (by decide +kernel)

end Selection

end GrinWallet
