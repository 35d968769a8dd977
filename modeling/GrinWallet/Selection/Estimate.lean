import GrinWallet.Model.Owner
import GrinWallet.Selection.SoftLimit

/-! # The most a wallet can send

The spendable total of the summary is the worth of the outputs a send may select,
once at least one confirmation is asked for. The estimate spends them all without
change. A send of the estimated amount does just that, and no selection sends more
unless some output is worth less than the fee its input costs.
-/

namespace GrinWallet

open Effect WalletBackend SmallestFirst

namespace Selection

variable {F E : Type} {C : Consensus F E} {s : Store E} {height minimumConfirmations : Nat}
  {p : Identifier}

/-! ## What is spendable -/

/-- No output but a coinbase is locked beyond its own height and that of the last refresh. -/
def PlainUnlocked (s : Store E) (p : Identifier) : Prop :=
  ∀ o ∈ s.iter, o.rootKeyId = p → o.isCoinbase = false →
    o.lockHeight ≤ o.height ∨ o.lockHeight ≤ s.confirmedHeight p

/-- The records summed up as spendable are those a send may select. -/
theorem unspent_iff_eligible (hconf : 1 ≤ minimumConfirmations) (hlock : PlainUnlocked s p)
    {o : OutputData E} (ho : o ∈ s.iter) (hp : o.rootKeyId = p) :
    Updater.bucketOf (s.confirmedHeight p) minimumConfirmations o = .unspent ↔
      o.eligibleToSpend (s.confirmedHeight p) minimumConfirmations = true := by
  have hplain := hlock o ho hp
  have hheight : minimumConfirmations ≤ o.numConfirmations (s.confirmedHeight p) →
      o.height ≤ s.confirmedHeight p := by
    intro hle
    by_contra hlt
    rw [OutputData.numConfirmations, if_pos (by omega)] at hle
    omega
  unfold Updater.bucketOf OutputData.eligibleToSpend
  cases hstatus : o.status with
  | Unspent =>
      cases hcb : o.isCoinbase with
      | true =>
          by_cases hmature : o.lockHeight > s.confirmedHeight p
          · simp [hmature]
          · by_cases hdeep : o.numConfirmations (s.confirmedHeight p) < minimumConfirmations
            · simp [hmature, hdeep]
            · simp [hmature, hdeep, Nat.not_lt.mp hdeep]
      | false =>
          have hplain := hplain hcb
          by_cases hdeep : o.numConfirmations (s.confirmedHeight p) < minimumConfirmations
          · simp [hdeep]
          · have hopen : ¬ o.lockHeight > s.confirmedHeight p := by
              have hle := hheight (by omega)
              omega
            simp [hopen, hdeep, Nat.not_lt.mp hdeep]
  | Unconfirmed =>
      have hzero : ¬ minimumConfirmations = 0 := by omega
      cases o.isCoinbase <;> simp [hzero]
  | Locked => simp
  | Reverted => simp
  | Spent => simp

/-- The spendable total is the worth of the eligible outputs. -/
theorem spendable_eq_sum (hconf : 1 ≤ minimumConfirmations) (hlock : PlainUnlocked s p) :
    (Updater.retrieveInfo s p minimumConfirmations).amountCurrentlySpendable
      = sumValues (eligibleOutputs s (s.confirmedHeight p) minimumConfirmations p) := by
  unfold Updater.retrieveInfo eligibleOutputs
  dsimp only
  congr 1
  rw [List.filter_filter]
  apply List.filter_congr
  intro o ho
  by_cases hp : o.rootKeyId = p
  · have hiff := unspent_iff_eligible hconf hlock ho hp
    simp only [hp, decide_true, Bool.and_true, Bool.true_and]
    rw [Bool.eq_iff_iff, decide_eq_true_iff]
    exact hiff
  · simp [hp]

/-! ## Spending everything -/

/-- A selection asked for with numbers that leave its sums within a `u64`. -/
def InRange (C : Consensus F E) (l : List (OutputData E)) (amount changeOutputs : Nat) : Prop :=
  changeOutputs + 1 < 2 ^ 64 ∧
    amount + weightByIok l.length (changeOutputs + 1) 1 * C.acceptFeeBase < 2 ^ 64

/-- However coins are selected, no more than this reaches the recipient. -/
def SendsAtMost (C : Consensus F E) (s : Store E) (height minimumConfirmations : Nat)
    (p : Identifier) (most : Nat) : Prop :=
  ∀ amount inc maxOutputs changeOutputs selectAll coins total sent fee,
    InRange C (eligibleOutputs s height minimumConfirmations p) amount changeOutputs →
    selectCoinsAndFee C s amount inc height minimumConfirmations maxOutputs changeOutputs selectAll p
      = .ok (coins, total, sent, fee) →
    sent ≤ most

/-- A selection sends no more than was asked for, and its fee is for one output or for one more
than the change asked for. -/
theorem selectCoinsAndFee_amounts {amount m changeOutputs total sent fee : Nat} {inc all : Bool}
    {coins : List (OutputData E)}
    (h : selectCoinsAndFee C s amount inc height minimumConfirmations m changeOutputs all p
      = .ok (coins, total, sent, fee)) :
    sent ≤ amount ∧ ∃ outputs, (1 ≤ u64 (changeOutputs + 1) → 1 ≤ outputs) ∧
      outputs ≤ max 1 (u64 (changeOutputs + 1)) ∧ fee = txFee C coins.length outputs 1 := by
  unfold selectCoinsAndFee at h
  obtain ⟨⟨coins₁, fee₁, total₁, withFee⟩, hc, h⟩ := except_bind_eq_ok.mp h
  obtain ⟨-, -, h⟩ := except_bind_eq_ok.mp h
  have hfee := (coinsAndFee_fee hc).2
  have hparts : coins₁ = coins ∧ fee₁ = fee ∧ sent ≤ amount := by
    cases inc with
    | false =>
        rw [if_neg (by decide)] at h
        cases h
        exact ⟨rfl, rfl, le_refl _⟩
    | true =>
        rw [if_pos rfl] at h
        split at h
        · cases h
        · cases h
          exact ⟨rfl, rfl, Nat.sub_le _ _⟩
  obtain ⟨rfl, rfl, hsent⟩ := hparts
  refine ⟨hsent, ?_⟩
  rcases hfee with ⟨hfee, -⟩ | hfee
  · exact ⟨1, fun _ => le_refl 1, Nat.le_max_left _ _, hfee⟩
  · exact ⟨_, id, Nat.le_max_right _ _, hfee⟩

/-- The fee of a transaction with one output. -/
theorem txFee_one {n : Nat} (hn : n < 2 ^ 32) (hfit : (n + 24) * C.acceptFeeBase < 2 ^ 64) :
    txFee C n 1 1 = (n + 24) * C.acceptFeeBase := by
  have hweight : weightByIok n 1 1 = n + 24 := by
    unfold weightByIok
    omega
  rw [txFee_of_lt (by rw [hweight]; exact hfit), hweight]

section Everything

variable {l : List (OutputData E)}
  (hranked : ranked s height minimumConfirmations p = l) (hworth : worth l < 2 ^ 64)

include hranked hworth

/-- With a limit of all outputs, or when each of them is worth something, asking for all they are
worth selects all. -/
theorem selectCoins_everything {m : Nat} (hm : 1 ≤ m) (hpos : ∀ o ∈ l, 0 < o.value) :
    selectCoins s (worth l) height minimumConfirmations m true p = .ok (l.length, l) := by
  by_cases hlen : l.length ≤ m
  · rw [selectCoins_all hranked hworth hlen, if_pos (le_refl _), takeFrom, if_pos rfl]
  have hproper : ∀ c : List (OutputData E), c.Sublist l → c.length < l.length → worth c < worth l := by
    intro c hsub hlt
    have hadd : worth c + 1 * (l.length - c.length) ≤ worth l := total_sublist_add hsub hpos
    omega
  have hlimited : (∃ i, FirstRun (worth l) m l i ∧
        selectCoins s (worth l) height minimumConfirmations m true p = _) ∨ _ :=
    selectCoins_limited hranked hworth hm (by omega)
  rcases hlimited with ⟨i, hrun, -⟩ | ⟨-, hsel⟩
  · have hless := hproper _ (run_sublist m i l) (by rw [run_length hrun.1]; omega)
    have hcover := hrun.2.1
    omega
  · have hreach : l.take (reach OutputData.value (worth l) l) = l := by
      have hcover : worth l ≤ worth (l.take (reach OutputData.value (worth l) l)) :=
        le_total_reach (le_refl _)
      by_contra hne
      have hshort : (l.take (reach OutputData.value (worth l) l)).length < l.length := by
        have hle := (List.take_sublist (reach OutputData.value (worth l) l) l).length_le
        rcases Nat.lt_or_ge (l.take (reach OutputData.value (worth l) l)).length l.length with h | h
        · exact h
        · exact absurd ((List.take_sublist _ l).eq_of_length (by omega)) hne
      have hless := hproper _ (List.take_sublist _ l) hshort
      omega
    rw [hsel, if_pos (le_refl _), hreach]

end Everything

/-- Coins that are worth exactly what is asked for with the fee are spent without change. -/
theorem selectCoinsAndFee_exact {coins l : List (OutputData E)}
    {amount m changeOutputs maxAvailable : Nat} {inc all : Bool} (hworth : worth l < 2 ^ 64)
    (hlight : weightByIok l.length 1 1 ≤ C.maxTxWeight) (hchange : changeOutputs + 1 < 2 ^ 64)
    (hpos : 0 < worth coins) (hcoins : coins.Subperm l)
    (hsel : selectCoins s amount height minimumConfirmations m all p = .ok (maxAvailable, coins))
    (hexact : worth coins = priceOf C amount inc 1 coins.length) :
    selectCoinsAndFee C s amount inc height minimumConfirmations m changeOutputs all p
      = if inc then
          if amount < txFee C coins.length 1 1 then
            .error (.GenericError "Transaction amount is too small to include fee")
          else .ok (coins, worth coins, amount - txFee C coins.length 1 1, txFee C coins.length 1 1)
        else .ok (coins, worth coins, amount, txFee C coins.length 1 1) := by
  have hsum := sumValues_of_subperm hworth hcoins
  have hc : coinsAndFee C s amount inc height minimumConfirmations m changeOutputs all p
      = .ok (coins, txFee C coins.length 1 1, worth coins, worth coins) := by
    rw [coinsAndFee_eq hsel, hsum, ← hexact, if_neg (by omega), if_neg (by omega), if_pos rfl]
  have hweight : weightByIok coins.length 1 1 ≤ C.maxTxWeight :=
    le_trans (weightByIok_mono 1 hcoins.length_le (le_refl 1)) hlight
  rw [selectCoinsAndFee_eq hc hchange, if_pos rfl, if_neg (by omega)]

/-! ## The estimate -/

/-- An account whose eligible outputs fit one transaction, each worth something. -/
structure OneTransaction (C : Consensus F E) (s : Store E) (p : Identifier)
    (minimumConfirmations : Nat) (coins : List (OutputData E)) : Prop where
  eligible : eligibleOutputs s (s.confirmedHeight p) minimumConfirmations p = coins
  confirmations : 1 ≤ minimumConfirmations
  plain : PlainUnlocked s p
  positive : ∀ o ∈ coins, 0 < o.value
  few : coins.length < 2 ^ 32
  light : weightByIok coins.length 1 1 ≤ C.maxTxWeight
  fits : InRange C coins (worth coins) 1

section Estimate

variable {coins l : List (OutputData E)}

/-- Coins from all of them, by increasing value. -/
structure Sorted (C : Consensus F E) (s : Store E) (p : Identifier) (minimumConfirmations : Nat)
    (l : List (OutputData E)) : Prop where
  ranked : ranked s (s.confirmedHeight p) minimumConfirmations p = l
  worth_lt : worth l < 2 ^ 64
  light : weightByIok l.length 1 1 ≤ C.maxTxWeight
  fee : ∀ n, n ≤ l.length → txFee C n 1 1 = (n + 24) * C.acceptFeeBase

/-- The same account, its outputs by increasing value. -/
theorem OneTransaction.sorted (h : OneTransaction C s p minimumConfirmations coins) :
    ∃ l, l.Perm coins ∧ worth l = worth coins ∧ Sorted C s p minimumConfirmations l := by
  have hperm := ranked_perm s (s.confirmedHeight p) minimumConfirmations p
  rw [h.eligible] at hperm
  have hworth : worth (ranked s (s.confirmedHeight p) minimumConfirmations p) = worth coins :=
    total_perm hperm
  have hfew := h.few
  have hweight : coins.length + 24 ≤ weightByIok coins.length (1 + 1) 1 := by
    unfold weightByIok
    omega
  have hfits := h.fits.2
  have hfee := Nat.mul_le_mul_right C.acceptFeeBase hweight
  refine ⟨_, hperm, hworth, rfl, by omega, by rw [hperm.length_eq]; exact h.light, fun n hn => ?_⟩
  rw [hperm.length_eq] at hn
  have hless := Nat.mul_le_mul_right C.acceptFeeBase (show n + 24 ≤ coins.length + 24 by omega)
  exact txFee_one (by omega) (by omega)

variable (h : OneTransaction C s p minimumConfirmations coins) (hcoins : l.Perm coins)
  (hl : Sorted C s p minimumConfirmations l)

include hl

/-- A send of the estimated amount, with no limit in its way, spends all of the outputs. -/
theorem estimate_is_sent (hpos : 0 < worth l) (hpays : txFee C l.length 1 1 ≤ worth l)
    {m changeOutputs : Nat} (hm : l.length ≤ m) (hchange : changeOutputs + 1 < 2 ^ 64) :
    selectCoinsAndFee C s (worth l - txFee C l.length 1 1) false (s.confirmedHeight p)
        minimumConfirmations m changeOutputs true p
      = .ok (l, worth l, worth l - txFee C l.length 1 1, txFee C l.length 1 1) := by
  have hsel : selectCoins s (worth l - txFee C l.length 1 1) (s.confirmedHeight p)
      minimumConfirmations m true p = _ := selectCoins_all hl.ranked hl.worth_lt hm
  rw [if_pos (by omega), takeFrom, if_pos rfl] at hsel
  have hprice : worth l = priceOf C (worth l - txFee C l.length 1 1) false 1 l.length := by
    have hlt := hl.worth_lt
    unfold priceOf amountWithFee
    rw [if_neg (by decide), u64_of_lt (by omega)]
    omega
  rw [selectCoinsAndFee_exact hl.worth_lt hl.light hchange hpos (List.Subperm.refl l) hsel hprice,
    if_neg (by decide)]

include h hcoins

/-- The estimate is for all of the outputs, spent without change. -/
theorem maxSendable_eq :
    Owner.maxSendable C s p minimumConfirmations
      = if worth l = 0 then .error (.NotEnoughFunds 0 0)
        else if worth l < txFee C l.length 1 1 then
          .error (.GenericError "Transaction amount is too small to include fee")
        else .ok (worth l - txFee C l.length 1 1, txFee C l.length 1 1, l.length) := by
  have hspendable : (Updater.retrieveInfo s p minimumConfirmations).amountCurrentlySpendable
      = worth l := by
    have hsum : sumValues coins = worth coins :=
      sumValues_of_subperm hl.worth_lt hcoins.symm.subperm
    rw [spendable_eq_sum h.confirmations h.plain, h.eligible, hsum]
    exact (total_perm hcoins).symm
  have hall := selectCoins_everything hl.ranked hl.worth_lt (m := 500) (by omega)
    fun o ho => h.positive o (hcoins.subset ho)
  have hfew : l.length < 2 ^ 32 := by
    rw [hcoins.length_eq]
    exact h.few
  unfold Owner.maxSendable
  dsimp only
  rw [hspendable]
  by_cases hzero : worth l = 0
  · have hnone : selectCoinsAndFee C s (worth l) true (s.confirmedHeight p) minimumConfirmations 500 1
        true p = .error (.NotEnoughFunds 0 (worth l)) := by
      refine selectCoinsAndFee_of_error ?_
      rw [coinsAndFee_eq hall, sumValues_of_subperm hl.worth_lt (List.Subperm.refl l), if_pos hzero]
      rfl
    rw [hnone, if_pos hzero, hzero]
  · rw [selectCoinsAndFee_exact hl.worth_lt hl.light (by omega) (by omega) (List.Subperm.refl l) hall
      rfl, if_pos rfl, if_neg hzero]
    by_cases hpays : worth l < txFee C l.length 1 1
    · rw [if_pos hpays, if_pos hpays]
    · rw [if_neg hpays, if_neg hpays]
      simp only [u32_of_lt hfew]

/-- Outputs that pay for their own inputs are all spent by whatever sends the most. -/
theorem sendsAtMost_of_dear (hdear : ∀ o ∈ coins, C.acceptFeeBase ≤ o.value) :
    SendsAtMost C s (s.confirmedHeight p) minimumConfirmations p
      (worth l - txFee C l.length 1 1) := by
  intro amount inc m change all chosen total sent fee hrange hsel
  obtain ⟨hchange, hrange⟩ := hrange
  rw [h.eligible, ← hcoins.length_eq] at hrange
  have hchosen : chosen.Subperm l := by
    have hsub := (selectCoinsAndFee_selects hsel).1
    rw [h.eligible] at hsub
    exact hsub.trans hcoins.symm.subperm
  have hlen := hchosen.length_le
  obtain ⟨hsent, outputs, hone, houtputs, hfee⟩ := selectCoinsAndFee_amounts hsel
  rw [u64_of_lt hchange] at hone houtputs
  have hone := hone (by omega)
  have houtputs : outputs ≤ change + 1 := by omega
  -- the fee is that of the weight, and no less than for one output
  have hweight := Nat.mul_le_mul_right C.acceptFeeBase (weightByIok_mono 1 hlen houtputs)
  have hcost : fee = weightByIok chosen.length outputs 1 * C.acceptFeeBase := by
    rw [hfee, txFee_of_lt (by omega)]
  have hleast : txFee C chosen.length 1 1 ≤ fee := by
    rw [hfee]
    exact txFee_mono (le_refl _) hone (by omega)
  obtain ⟨htotal, hcover⟩ := selectCoinsAndFee_covers hsel
  rw [u64_of_lt (by omega), htotal, sumValues_of_subperm hl.worth_lt hchosen] at hcover
  have hleft : worth chosen + C.acceptFeeBase * (l.length - chosen.length) ≤ worth l :=
    total_subperm_add hchosen fun o ho => hdear o (hcoins.subset ho)
  rw [hl.fee _ hlen] at hleast
  rw [hl.fee _ (le_refl _)]
  have hsplit : (l.length + 24) * C.acceptFeeBase = (chosen.length + 24) * C.acceptFeeBase
      + C.acceptFeeBase * (l.length - chosen.length) := by
    rw [Nat.mul_comm C.acceptFeeBase, ← Nat.add_mul]
    congr 1
    omega
  omega

/-- An output worth less than its input costs is better left out: with a limit of one input less
the others send more. -/
theorem dear_of_sendsAtMost (hpays : txFee C l.length 1 1 ≤ worth l)
    (hmost : SendsAtMost C s (s.confirmedHeight p) minimumConfirmations p
      (worth l - txFee C l.length 1 1)) : ∀ o ∈ coins, C.acceptFeeBase ≤ o.value := by
  intro o ho
  by_contra hcheap
  have hascending : Ascending OutputData.value l := hl.ranked ▸ ranked_ascending _ _ _ _
  have hfee := hl.fee
  have hranked := hl.ranked
  have hworth := hl.worth_lt
  have hlight := hl.light
  cases l with
  | nil => exact absurd (hcoins.symm.subset ho) List.not_mem_nil
  | cons a others =>
      have hsmall : a.value < C.acceptFeeBase := by
        rcases List.mem_cons.mp (hcoins.symm.subset ho) with rfl | hmem
        · omega
        · have hle := hascending.head_le hmem
          omega
      have hsum := worth_cons a others
      have hlen : (a :: others).length = others.length + 1 := rfl
      have hall := hfee _ (le_refl _)
      have hrest := hfee others.length (by omega)
      have hstep : (others.length + 1 + 24) * C.acceptFeeBase
          = (others.length + 24) * C.acceptFeeBase + C.acceptFeeBase := by
        rw [← Nat.succ_mul]
      rw [hlen] at hall hpays
      have hsome : 1 ≤ others.length := by
        by_contra hnone
        have hnil : others = [] := List.length_eq_zero_iff.mp (by omega)
        rw [hnil] at hsum hall hpays
        simp only [worth, total_nil, List.length_nil] at hsum hall hpays
        omega
      -- the first run of all but one output that is worth as much as the dearest ones
      obtain ⟨chosen, hchosen, hchosenLen, hchosenWorth, hsel⟩ : ∃ chosen,
          chosen.Subperm (a :: others) ∧ chosen.length = others.length ∧
            worth chosen = worth others ∧
            selectCoins s (worth others) (s.confirmedHeight p) minimumConfirmations others.length true p
              = .ok ((a :: others).length, chosen) := by
        have hlast : run others.length 1 (a :: others) = others := by
          rw [run, List.drop_succ_cons, List.drop_zero, List.take_length]
        have hlimited : (∃ i, FirstRun (worth others) others.length (a :: others) i ∧
              selectCoins s (worth others) (s.confirmedHeight p) minimumConfirmations others.length
                true p = _) ∨ _ := selectCoins_limited hranked hworth hsome (by omega)
        rcases hlimited with ⟨i, hrun, hsel⟩ | ⟨hnone, -⟩
        · have hi : i ≤ 1 := by
            have hroom := hrun.1
            omega
          refine ⟨_, (run_sublist others.length i (a :: others)).subperm, run_length hrun.1, ?_, hsel⟩
          have hmono : worth (run others.length i (a :: others))
              ≤ worth (run others.length 1 (a :: others)) :=
            hascending.total_run_mono hi (by omega)
          rw [hlast] at hmono
          exact le_antisymm hmono hrun.2.1
        · have hless := hnone 1 (by omega)
          rw [hlast] at hless
          omega
      have hexact : selectCoinsAndFee C s (worth others) true (s.confirmedHeight p)
          minimumConfirmations others.length 1 true p = _ :=
        selectCoinsAndFee_exact hworth hlight (by omega) (by omega) hchosen hsel hchosenWorth
      rw [if_pos rfl, hchosenLen, if_neg (by omega)] at hexact
      have hrange : InRange C (eligibleOutputs s (s.confirmedHeight p) minimumConfirmations p)
          (worth others) 1 := by
        rw [h.eligible]
        refine ⟨h.fits.1, ?_⟩
        have hfits := h.fits.2
        have hsame : worth (a :: others) = worth coins := total_perm hcoins
        omega
      have hbeaten := hmost _ _ _ _ _ _ _ _ _ hrange hexact
      rw [hlen, hall, hrest, hstep] at hbeaten
      rw [hall, hstep] at hpays
      omega

end Estimate

/-- What `maxSendable` answers is the worth of all eligible outputs less the fee for spending them, can
be sent, and is the most that can be exactly when no output is worth less than its input costs. -/
theorem maxSendable_is_most {coins : List (OutputData E)}
    (h : OneTransaction C s p minimumConfirmations coins) {amount fee inputs : Nat}
    (hestimate : Owner.maxSendable C s p minimumConfirmations = .ok (amount, fee, inputs)) :
    (amount + fee = worth coins ∧ fee = txFee C coins.length 1 1 ∧ inputs = coins.length) ∧
    (∀ m changeOutputs, coins.length ≤ m → changeOutputs + 1 < 2 ^ 64 →
      ∃ chosen, chosen.Perm coins ∧
        selectCoinsAndFee C s amount false (s.confirmedHeight p) minimumConfirmations m changeOutputs
          true p = .ok (chosen, worth coins, amount, fee)) ∧
    (SendsAtMost C s (s.confirmedHeight p) minimumConfirmations p amount ↔
      ∀ o ∈ coins, C.acceptFeeBase ≤ o.value) := by
  obtain ⟨l, hcoins, hworth, hl⟩ := h.sorted
  rw [maxSendable_eq h hcoins hl] at hestimate
  by_cases hzero : worth l = 0
  · rw [if_pos hzero] at hestimate
    cases hestimate
  by_cases hpoor : worth l < txFee C l.length 1 1
  · rw [if_neg hzero, if_pos hpoor] at hestimate
    cases hestimate
  rw [if_neg hzero, if_neg hpoor] at hestimate
  cases hestimate
  rw [← hworth, ← hcoins.length_eq]
  refine ⟨⟨by omega, rfl, rfl⟩, fun m changeOutputs hm hchange => ?_, ?_⟩
  · exact ⟨l, hcoins, estimate_is_sent hl (by omega) (by omega) hm hchange⟩
  · exact ⟨dear_of_sendsAtMost h hcoins hl (by omega), sendsAtMost_of_dear h hcoins hl⟩

section Owner

open Sections

variable [CommRing F] [AddCommGroup E] [Module F E] [DecidableEq E] {env : Env F E}
  {lastPart : List (Identifier × Nat) → WalletThread F E Unit} {fuel : Nat}
  {w w' : WalletBackend F E}

/-- An estimate answers of the wallet it leaves, refreshed or not. -/
theorem estimateMaxSendable_eq_ok {refresh validated : Bool} {most : Nat × Nat × Nat}
    (h : (Owner.estimateMaxSendable env lastPart fuel refresh minimumConfirmations).run w
      = (.ok (validated, most), w')) :
    Owner.maxSendable env.consensus w'.store w'.parentKeyId minimumConfirmations = .ok most := by
  unfold Owner.estimateMaxSendable at h
  simp only [Thread.bind_eq, Thread.run_andThen, Thread.run_atomic] at h
  obtain ⟨b, m, -, hrest⟩ := Eff.bind_eq_ok.mp h
  obtain ⟨wr, m₁, hread, hrest⟩ := Eff.bind_eq_ok.mp hrest
  obtain ⟨answer, m₂, hanswer, hend⟩ := Eff.bind_eq_ok.mp hrest
  obtain ⟨hwr, hm₁⟩ := Eff.read_eq_ok.mp hread
  obtain ⟨hmost, hm₂⟩ := Eff.ofExcept_eq_ok.mp hanswer
  cases hend
  rw [hwr] at hmost
  rw [hm₂, hm₁]
  exact hmost

end Owner

namespace SampleEstimate

def coins : List (OutputData (ℤ × ℤ)) :=
  [sampleCoin 30000000 0, sampleCoin 50000000 1, sampleCoin 40000000 2]

def funds : WalletBackend ℤ (ℤ × ℤ) :=
  { sampleWallet coins with
    store := (sampleWallet coins).store.saveLastConfirmedHeight defaultPath 10 }

def estimated : Except Error (Bool × Nat × Nat × Nat) × WalletBackend ℤ (ℤ × ℤ) :=
  (Owner.estimateMaxSendable SampleSend.env Owner.lockedRestore 0 false 1).run funds

theorem funds_oneTransaction :
    OneTransaction (mainnet : Consensus ℤ (ℤ × ℤ)) funds.store defaultPath 1 coins where
  eligible := by decide +kernel
  confirmations := le_refl 1
  plain o ho _ _ := by
    rw [show funds.store.iter = coins by decide +kernel] at ho
    have hnone : ∀ o ∈ coins, o.lockHeight ≤ o.height := by decide
    exact .inl (hnone o ho)
  positive := by decide
  few := by decide
  light := by decide
  fits := ⟨by decide, by decide +kernel⟩

end SampleEstimate

end Selection

end GrinWallet
