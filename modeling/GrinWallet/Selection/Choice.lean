import GrinWallet.Lib.SmallestFirst
import GrinWallet.Selection.Fees

/-! # Which coins a send takes

Selection ranks the eligible outputs by value. The first choice is the first run
of `max_outputs` outputs worth the amount, or a prefix of it; the loop then works
on the whole ranking, since its limit is the number of outputs there are, and ends
on the shortest longer prefix that pays for its own fee.
-/

namespace GrinWallet

open Effect WalletBackend SmallestFirst

namespace Selection

variable {F E : Type}

/-- The eligible outputs by increasing value. -/
def ranked (s : Store E) (currentHeight minimumConfirmations : Nat) (parentKeyId : Identifier) :
    List (OutputData E) :=
  sortByKey (·.value) (eligibleOutputs s currentHeight minimumConfirmations parentKeyId)

/-- What coins are worth, before any wrapping. -/
abbrev worth (coins : List (OutputData E)) : Nat := total OutputData.value coins

theorem worth_cons (o : OutputData E) (l : List (OutputData E)) :
    worth (o :: l) = o.value + worth l := total_cons o l

theorem ranked_ascending (s : Store E) (h mc : Nat) (p : Identifier) :
    Ascending OutputData.value (ranked s h mc p) :=
  List.pairwise_insertionSort _ _

theorem ranked_perm (s : Store E) (h mc : Nat) (p : Identifier) :
    (ranked s h mc p).Perm (eligibleOutputs s h mc p) := List.perm_insertionSort _ _

theorem sumValues_eq_worth {coins : List (OutputData E)} (h : worth coins < 2 ^ 64) :
    sumValues coins = worth coins := sumValues_of_lt h

/-! ## One selection -/

theorem takeWhileBelow_eq_take {amount selected : Nat} {l : List (OutputData E)}
    (h : selected + worth l < 2 ^ 64) :
    takeWhileBelow amount selected l = l.take (reach OutputData.value (amount - selected) l) := by
  induction l generalizing selected with
  | nil => rfl
  | cons o l ih =>
      rw [worth_cons] at h
      unfold takeWhileBelow reach
      by_cases hlt : selected < amount
      · rw [if_pos hlt, if_neg (by omega), List.take_succ_cons, u64_of_lt (by omega),
          ih (by omega), Nat.sub_sub]
      · rw [if_neg hlt, if_pos (by omega), List.take_zero]

/-- The strategies: all the outputs offered, or the shortest prefix worth the amount. -/
def takeFrom (amount : Nat) (selectAll : Bool) (l : List (OutputData E)) : List (OutputData E) :=
  if selectAll then l else l.take (reach OutputData.value amount l)

theorem selectFrom_eq {amount : Nat} {selectAll : Bool} {l : List (OutputData E)}
    (h : worth l < 2 ^ 64) :
    selectFrom amount selectAll l
      = if amount ≤ worth l then some (takeFrom amount selectAll l) else none := by
  unfold selectFrom takeFrom
  rw [sumValues_eq_worth h, takeWhileBelow_eq_take (by omega), Nat.sub_zero]
  by_cases hle : amount ≤ worth l
  · rw [if_pos hle, if_pos hle]
    split <;> rfl
  · rw [if_neg hle, if_neg hle]

theorem le_worth_takeFrom {amount : Nat} {selectAll : Bool} {l : List (OutputData E)}
    (h : amount ≤ worth l) : amount ≤ worth (takeFrom amount selectAll l) := by
  unfold takeFrom
  split
  · exact h
  · exact le_total_reach h

theorem takeFrom_sublist (amount : Nat) (selectAll : Bool) (l : List (OutputData E)) :
    (takeFrom amount selectAll l).Sublist l := by
  unfold takeFrom
  split
  · exact List.Sublist.refl l
  · exact List.take_sublist _ _

section Ranked

variable {C : Consensus F E} {s : Store E} {amount currentHeight minimumConfirmations : Nat}
  {amountIncludesFee selectAll : Bool} {parentKeyId : Identifier} {l : List (OutputData E)}
  (hranked : ranked s currentHeight minimumConfirmations parentKeyId = l)
  (hworth : worth l < 2 ^ 64)

include hranked hworth

/-- With room for every output, a selection takes from all of them. -/
theorem selectCoins_all {maxOutputs : Nat} (hmax : l.length ≤ maxOutputs) :
    selectCoins s amount currentHeight minimumConfirmations maxOutputs selectAll parentKeyId
      = .ok (l.length, if amount ≤ worth l then takeFrom amount selectAll l else l.reverse) := by
  have hlen : (eligibleOutputs s currentHeight minimumConfirmations parentKeyId).length
      = l.length := by
    rw [← hranked]
    exact (ranked_perm _ _ _ _).length_eq.symm
  unfold selectCoins
  simp only [hlen]
  rw [show sortByKey (·.value) (eligibleOutputs s currentHeight minimumConfirmations parentKeyId)
    = l from hranked, if_neg (by omega), selectFrom_eq hworth]
  by_cases hle : amount ≤ worth l
  · rw [if_pos hle, if_pos hle]
    rfl
  · rw [if_neg hle, if_neg hle]
    rw [List.take_of_length_le (by rw [List.length_reverse]; exact hmax)]
    rfl

omit hranked hworth

/-- The first run of `m` outputs worth the amount is the one that starts at `i`. -/
def FirstRun (amount m : Nat) (l : List (OutputData E)) (i : Nat) : Prop :=
  i + m ≤ l.length ∧ amount ≤ worth (run m i l) ∧ ∀ j, j < i → worth (run m j l) < amount

theorem findSome?_range {β : Type} (g : Nat → Option β) (k : Nat) :
    (∃ i b, i < k ∧ g i = some b ∧ (∀ j, j < i → g j = none) ∧
        (List.range k).findSome? g = some b) ∨
      (∀ i, i < k → g i = none) ∧ (List.range k).findSome? g = none := by
  induction k with
  | zero => exact .inr ⟨fun i hi => by omega, rfl⟩
  | succ k ih =>
      rw [List.range_succ, List.findSome?_append]
      rcases ih with ⟨i, b, hi, hg, hbefore, hfind⟩ | ⟨hnone, hfind⟩
      · exact .inl ⟨i, b, by omega, hg, hbefore, by rw [hfind]; rfl⟩
      · rw [hfind]
        cases hg : g k with
        | some b => exact .inl ⟨k, b, by omega, hg, hnone, by simp [hg]⟩
        | none =>
            refine .inr ⟨fun i hi => ?_, by simp [hg]⟩
            by_cases heq : i = k
            · rw [heq, hg]
            · exact hnone i (by omega)

include hranked hworth

/-- With more outputs than the limit, a selection takes from the first run worth
the amount, and from the smallest outputs when no run is. -/
theorem selectCoins_limited {m : Nat} (hm : 1 ≤ m) (hmore : m < l.length) :
    (∃ i, FirstRun amount m l i ∧
      selectCoins s amount currentHeight minimumConfirmations m selectAll parentKeyId
        = .ok (l.length, takeFrom amount selectAll (run m i l))) ∨
    (∀ i, i + m ≤ l.length → worth (run m i l) < amount) ∧
      selectCoins s amount currentHeight minimumConfirmations m selectAll parentKeyId
        = .ok (l.length, if amount ≤ worth l then l.take (reach OutputData.value amount l)
            else l.reverse.take m) := by
  have hlen : (eligibleOutputs s currentHeight minimumConfirmations parentKeyId).length
      = l.length := by
    rw [← hranked]
    exact (ranked_perm _ _ _ _).length_eq.symm
  have hsort : sortByKey (·.value) (eligibleOutputs s currentHeight minimumConfirmations
      parentKeyId) = l := hranked
  have hrun : ∀ i, selectFrom amount selectAll (run m i l)
      = if amount ≤ worth (run m i l) then some (takeFrom amount selectAll (run m i l))
        else none := by
    intro i
    have hle : worth (run m i l) ≤ worth l := total_sublist (run_sublist m i l)
    exact selectFrom_eq (by omega)
  have hwindows : (windows m l).findSome? (selectFrom amount selectAll)
      = (List.range (l.length + 1 - m)).findSome? fun i =>
          selectFrom amount selectAll (run m i l) := by
    rw [windows, List.findSome?_map]
    rfl
  unfold selectCoins
  simp only [hlen, hsort]
  rw [if_pos hmore, if_neg (by omega), hwindows]
  rcases findSome?_range (fun i => selectFrom amount selectAll (run m i l)) (l.length + 1 - m)
    with ⟨i, coins, hi, hg, hbefore, hfind⟩ | ⟨hnone, hfind⟩
  · rw [hfind]
    rw [hrun] at hg
    by_cases hle : amount ≤ worth (run m i l)
    · rw [if_pos hle] at hg
      cases hg
      refine .inl ⟨i, ⟨by omega, hle, fun j hj => ?_⟩, rfl⟩
      have hj' := hbefore j hj
      rw [hrun] at hj'
      by_cases hle' : amount ≤ worth (run m j l)
      · rw [if_pos hle'] at hj'
        cases hj'
      · omega
    · rw [if_neg hle] at hg
      cases hg
  · rw [hfind, selectFrom_eq hworth]
    refine .inr ⟨fun i hi => ?_, ?_⟩
    · have hi' := hnone i (by omega)
      rw [hrun] at hi'
      by_cases hle : amount ≤ worth (run m i l)
      · rw [if_pos hle] at hi'
        cases hi'
      · omega
    · by_cases hle : amount ≤ worth l
      · rw [if_pos hle, if_pos hle]
        rfl
      · rw [if_neg hle, if_neg hle]
        rfl

end Ranked

/-! ## The loop -/

/-- What `inputs` coins have to be worth in a transaction with `outputs` outputs. -/
def priceOf (C : Consensus F E) (amount : Nat) (amountIncludesFee : Bool) (outputs inputs : Nat) :
    Nat :=
  amountWithFee amountIncludesFee amount (txFee C inputs outputs 1)

theorem priceOf_eq {C : Consensus F E} {amount outputs inputs : Nat}
    (hfit : amount + weightByIok inputs outputs 1 * C.acceptFeeBase < 2 ^ 64) :
    priceOf C amount false outputs inputs = amount + txFee C inputs outputs 1 := by
  have hfee : txFee C inputs outputs 1 = weightByIok inputs outputs 1 * C.acceptFeeBase :=
    txFee_of_lt (by omega)
  simp only [priceOf, amountWithFee, Bool.false_eq_true, if_false]
  exact u64_of_lt (by omega)

/-- More inputs and outputs have to be worth more, while the sums fit a `u64`. -/
theorem priceOf_mono {C : Consensus F E} {amount : Nat} {amountIncludesFee : Bool}
    {o o' i i' : Nat} (hi : i ≤ i') (ho : o ≤ o')
    (hfit : amount + weightByIok i' o' 1 * C.acceptFeeBase < 2 ^ 64) :
    priceOf C amount amountIncludesFee o i ≤ priceOf C amount amountIncludesFee o' i' := by
  cases amountIncludesFee with
  | true => exact le_refl amount
  | false =>
      have hless : weightByIok i o 1 * C.acceptFeeBase ≤ weightByIok i' o' 1 * C.acceptFeeBase :=
        Nat.mul_le_mul_right _ (weightByIok_mono 1 hi ho)
      have hfee : txFee C i o 1 ≤ txFee C i' o' 1 := txFee_mono hi ho (by omega)
      rw [priceOf_eq hfit, priceOf_eq (by omega)]
      omega

section Loop

variable (C : Consensus F E) (s : Store E) (amount : Nat) (amountIncludesFee : Bool)
  (currentHeight minimumConfirmations maxOutputs numOutputs : Nat) (selectAll : Bool)
  (parentKeyId : Identifier)

/-- The loop from given coins: fee, total and amount with the fee are theirs. -/
def loopFrom (fuel : Nat) (coins : List (OutputData E)) :
    Except Error (List (OutputData E) × Nat × Nat × Nat) :=
  reselect C s amount amountIncludesFee currentHeight minimumConfirmations maxOutputs numOutputs
    selectAll parentKeyId fuel coins (txFee C coins.length numOutputs 1) (sumValues coins)
    (priceOf C amount amountIncludesFee numOutputs coins.length)

/-- One round: the coins fall short, they are not yet as many as the limit, and
coins are selected for what these would have to be worth. -/
def Round (coins next : List (OutputData E)) : Prop :=
  sumValues coins < priceOf C amount amountIncludesFee numOutputs coins.length ∧
    coins.length ≠ maxOutputs ∧
    ∃ maxAvailable, selectCoins s (priceOf C amount amountIncludesFee numOutputs coins.length)
      currentHeight minimumConfirmations maxOutputs selectAll parentKeyId
        = .ok (maxAvailable, next)

variable {C s amount amountIncludesFee currentHeight minimumConfirmations maxOutputs numOutputs
  selectAll parentKeyId} {coins next : List (OutputData E)}

theorem loopFrom_round (fuel : Nat)
    (h : Round C s amount amountIncludesFee currentHeight minimumConfirmations maxOutputs
      numOutputs selectAll parentKeyId coins next) :
    loopFrom C s amount amountIncludesFee currentHeight minimumConfirmations maxOutputs numOutputs
        selectAll parentKeyId (fuel + 1) coins
      = loopFrom C s amount amountIncludesFee currentHeight minimumConfirmations maxOutputs
          numOutputs selectAll parentKeyId fuel next := by
  obtain ⟨hshort, hmore, maxAvailable, hsel⟩ := h
  rw [loopFrom, reselect, if_pos hshort, if_neg hmore, hsel]
  rfl

theorem loopFrom_enough (fuel : Nat)
    (h : priceOf C amount amountIncludesFee numOutputs coins.length ≤ sumValues coins) :
    loopFrom C s amount amountIncludesFee currentHeight minimumConfirmations maxOutputs numOutputs
        selectAll parentKeyId (fuel + 1) coins
      = .ok (coins, txFee C coins.length numOutputs 1, sumValues coins,
          priceOf C amount amountIncludesFee numOutputs coins.length) := by
  rw [loopFrom, reselect, if_neg (by omega)]

theorem loopFrom_exhausted (fuel : Nat)
    (hshort : sumValues coins < priceOf C amount amountIncludesFee numOutputs coins.length)
    (h : coins.length = maxOutputs) :
    loopFrom C s amount amountIncludesFee currentHeight minimumConfirmations maxOutputs numOutputs
        selectAll parentKeyId (fuel + 1) coins
      = .error (.NotEnoughFunds (sumValues coins)
          (priceOf C amount amountIncludesFee numOutputs coins.length)) := by
  rw [loopFrom, reselect, if_pos hshort, if_pos h]

end Loop

/-! ## Where the loop ends -/

/-- A prefix of more than `k` coins that pays for itself. With the strategy of
spending everything it is the whole ranking. -/
def Pays (C : Consensus F E) (amount : Nat) (amountIncludesFee : Bool) (numOutputs : Nat)
    (selectAll : Bool) (l : List (OutputData E)) (k K : Nat) : Prop :=
  k < K ∧ K ≤ l.length ∧ (selectAll = true → K = l.length) ∧
    priceOf C amount amountIncludesFee numOutputs K ≤ worth (l.take K)

instance (C : Consensus F E) (amount : Nat) (amountIncludesFee : Bool) (numOutputs : Nat)
    (selectAll : Bool) (l : List (OutputData E)) (k K : Nat) :
    Decidable (Pays C amount amountIncludesFee numOutputs selectAll l k K) :=
  inferInstanceAs (Decidable (_ ∧ _ ∧ _ ∧ _))

section End

variable {C : Consensus F E} {s : Store E} {amount currentHeight minimumConfirmations : Nat}
  {amountIncludesFee selectAll : Bool} {parentKeyId : Identifier} {l : List (OutputData E)}
  {numOutputs : Nat}
  (hranked : ranked s currentHeight minimumConfirmations parentKeyId = l)
  (hworth : worth l < 2 ^ 64)

theorem sumValues_of_subperm {coins : List (OutputData E)} (hworth : worth l < 2 ^ 64)
    (h : coins.Subperm l) : sumValues coins = worth coins := by
  have hle : worth coins ≤ worth l := total_subperm h
  exact sumValues_eq_worth (by omega)

include hranked hworth

/-- A round ends with more coins than it began with, all of them of the ranking. -/
theorem Round.longer {coins next : List (OutputData E)} (hcoins : coins.Subperm l)
    (h : Round C s amount amountIncludesFee currentHeight minimumConfirmations l.length numOutputs
      selectAll parentKeyId coins next) :
    coins.length < next.length ∧ next.Subperm l := by
  obtain ⟨hshort, hmore, maxAvailable, hsel⟩ := h
  have hlen := hcoins.length_le
  rw [selectCoins_all hranked hworth (le_refl _)] at hsel
  rw [sumValues_of_subperm hworth hcoins] at hshort
  by_cases hle : priceOf C amount amountIncludesFee numOutputs coins.length ≤ worth l
  · rw [if_pos hle] at hsel
    cases hsel
    refine ⟨?_, (takeFrom_sublist _ _ _).subperm⟩
    unfold takeFrom
    by_cases hall : selectAll
    · rw [if_pos hall]
      omega
    · have hascending : Ascending OutputData.value l := hranked ▸ ranked_ascending _ _ _ _
      have hlt := hascending.length_lt_reach hcoins hshort hle
      have hreach := reach_le_length (v := OutputData.value)
        (priceOf C amount amountIncludesFee numOutputs coins.length) l
      rw [if_neg hall, List.length_take]
      omega
  · rw [if_neg hle] at hsel
    cases hsel
    exact ⟨by rw [List.length_reverse]; omega, (List.reverse_perm l).subperm⟩

variable (hmono : ∀ j k, j ≤ k → k ≤ l.length →
  priceOf C amount amountIncludesFee numOutputs j
    ≤ priceOf C amount amountIncludesFee numOutputs k)

include hmono

/-- From coins that fall short, the loop ends on the shortest longer prefix that
pays for itself, and without funds when there is none. -/
theorem loopFrom_short {coins : List (OutputData E)} {fuel : Nat} (hcoins : coins.Subperm l)
    (hfuel : l.length < fuel + coins.length)
    (hshort : worth coins < priceOf C amount amountIncludesFee numOutputs coins.length) :
    (∃ K, Pays C amount amountIncludesFee numOutputs selectAll l coins.length K ∧
      (∀ k, Pays C amount amountIncludesFee numOutputs selectAll l coins.length k → K ≤ k) ∧
      loopFrom C s amount amountIncludesFee currentHeight minimumConfirmations l.length numOutputs
          selectAll parentKeyId (fuel + 1) coins
        = .ok (l.take K, txFee C K numOutputs 1, worth (l.take K),
            priceOf C amount amountIncludesFee numOutputs K)) ∨
    (∀ k, ¬ Pays C amount amountIncludesFee numOutputs selectAll l coins.length k) ∧
      ∃ available needed, loopFrom C s amount amountIncludesFee currentHeight
          minimumConfirmations l.length numOutputs selectAll parentKeyId (fuel + 1) coins
        = .error (.NotEnoughFunds available needed) := by
  have hascending : Ascending OutputData.value l := hranked ▸ ranked_ascending _ _ _ _
  induction fuel generalizing coins with
  | zero =>
      have hlen := hcoins.length_le
      omega
  | succ fuel ih =>
      have hlen := hcoins.length_le
      have hsum := sumValues_of_subperm hworth hcoins
      have hlater : ∀ k, Pays C amount amountIncludesFee numOutputs selectAll l coins.length k →
          priceOf C amount amountIncludesFee numOutputs coins.length ≤ worth (l.take k) :=
        fun k hk => le_trans (hmono _ _ (le_of_lt hk.1) hk.2.1) hk.2.2.2
      by_cases hfull : coins.length = l.length
      · refine .inr ⟨fun k hk => ?_, _, _, loopFrom_exhausted _ (by rw [hsum]; exact hshort) hfull⟩
        have h1 := hk.1
        have h2 := hk.2.1
        omega
      have hround : Round C s amount amountIncludesFee currentHeight minimumConfirmations l.length
          numOutputs selectAll parentKeyId coins
          (if priceOf C amount amountIncludesFee numOutputs coins.length ≤ worth l
            then takeFrom (priceOf C amount amountIncludesFee numOutputs coins.length) selectAll l
            else l.reverse) :=
        ⟨by rw [hsum]; exact hshort, hfull, _, selectCoins_all hranked hworth (le_refl _)⟩
      have hlonger := hround.longer hranked hworth hcoins
      rw [loopFrom_round (fuel + 1) hround]
      by_cases hle : priceOf C amount amountIncludesFee numOutputs coins.length ≤ worth l
      · rw [if_pos hle] at hlonger ⊢
        -- the next coins are the first prefix worth what these would have to be
        obtain ⟨r, hr, hrlen, hall, hleast⟩ : ∃ r,
            takeFrom (priceOf C amount amountIncludesFee numOutputs coins.length) selectAll l
                = l.take r ∧ r ≤ l.length ∧ (selectAll = true → r = l.length) ∧
              ∀ k, Pays C amount amountIncludesFee numOutputs selectAll l coins.length k → r ≤ k := by
          unfold takeFrom
          by_cases hall : selectAll
          · exact ⟨l.length, by rw [if_pos hall, List.take_length], le_refl _, fun _ => rfl,
              fun k hk => by rw [hk.2.2.1 hall]⟩
          · exact ⟨_, by rw [if_neg hall], reach_le_length _ _, fun h => absurd h hall,
              fun k hk => (reach_le_iff hle k).mpr (hlater k hk)⟩
        rw [hr] at hlonger ⊢
        have hnext : (l.take r).length = r := by rw [List.length_take]; omega
        rw [hnext] at hlonger
        by_cases henough : priceOf C amount amountIncludesFee numOutputs r ≤ worth (l.take r)
        · refine .inl ⟨r, ⟨hlonger.1, hrlen, hall, henough⟩, hleast, ?_⟩
          have hsum' := sumValues_of_subperm hworth hlonger.2
          rw [loopFrom_enough _ (by rw [hsum', hnext]; exact henough), hnext, hsum']
        · -- the prefixes that pay are longer than the next coins too
          have hsame : ∀ k, Pays C amount amountIncludesFee numOutputs selectAll l r k ↔
              Pays C amount amountIncludesFee numOutputs selectAll l coins.length k := by
            intro k
            constructor
            · exact fun hk => ⟨lt_trans hlonger.1 hk.1, hk.2⟩
            · intro hk
              refine ⟨lt_of_le_of_ne (hleast k hk) fun heq => henough ?_, hk.2⟩
              rw [heq]
              exact hk.2.2.2
          have hend := ih hlonger.2 (by rw [hnext]; omega) (by rw [hnext]; omega)
          rw [hnext] at hend
          simpa only [hsame] using hend
      · rw [if_neg hle] at hlonger ⊢
        have hnone : ∀ k, ¬ Pays C amount amountIncludesFee numOutputs selectAll l coins.length k := by
          intro k hk
          have h1 := hlater k hk
          have h2 : worth (l.take k) ≤ worth l := total_take_le k l
          omega
        have hlast := hmono _ _ hlen (le_refl _)
        have hrev : l.reverse.length = l.length := List.length_reverse
        have hall : worth l.reverse = worth l := total_perm (List.reverse_perm l)
        have hsum' := sumValues_of_subperm hworth (List.reverse_perm l).subperm
        exact .inr ⟨hnone, _, _, loopFrom_exhausted _ (by rw [hsum', hrev, hall]; omega) hrev⟩

end End

end Selection

end GrinWallet
