import GrinWallet.Selection.Checked

/-! # When building a send panics

Under overflow checks the arguments and the values meet in sums, a window size, a
division, a remainder and a conversion. Each of them is safe on a condition of its
own: on the first choice, on the prefix the loop ends on, and on the coins the
change and the fee come from. Amounts here are exact, not `u64`.
-/

namespace GrinWallet

open Effect WalletBackend SmallestFirst

namespace Checked

open Selection (worth worth_cons ranked ranked_perm ranked_ascending takeFrom FirstRun
  takeWhileBelow_eq_take takeFrom_sublist le_worth_takeFrom)

variable {F E : Type}

/-! ## Sums -/

theorem sumValues_eq (coins : List (OutputData E)) :
    sumValues coins = if worth coins < 2 ^ 64 then .ok (worth coins)
      else .error (.Panic "attempt to add with overflow") := by
  have hfold : ∀ acc, acc < 2 ^ 64 → coins.foldlM (fun acc (c : OutputData E) => add acc c.value) acc
      = if acc + worth coins < 2 ^ 64 then .ok (acc + worth coins)
        else .error (.Panic "attempt to add with overflow") := by
    induction coins with
    | nil =>
        intro acc hacc
        rw [if_pos (show acc + worth ([] : List (OutputData E)) < 2 ^ 64 from hacc)]
        rfl
    | cons c coins ih =>
        intro acc hacc
        rw [List.foldlM_cons, add, worth_cons, ← Nat.add_assoc]
        by_cases hsum : acc + c.value < 2 ^ 64
        · rw [if_pos hsum]
          exact ih _ hsum
        · rw [if_neg hsum, if_neg (by omega)]
          rfl
  rw [sumValues, hfold 0 (by decide), Nat.zero_add]

theorem selectFrom_eq (amount : Nat) (selectAll : Bool) (l : List (OutputData E)) :
    selectFrom amount selectAll l =
      if worth l < 2 ^ 64 then
        .ok (if amount ≤ worth l then some (takeFrom amount selectAll l) else none)
      else .error (.Panic "attempt to add with overflow") := by
  rw [selectFrom, sumValues_eq]
  by_cases h : worth l < 2 ^ 64
  · rw [if_pos h, if_pos h]
    show Except.ok _ = Except.ok _
    rw [takeWhileBelow_eq_take (by omega), Nat.sub_zero]
    unfold takeFrom
    by_cases hle : amount ≤ worth l
    · rw [if_pos hle, if_pos hle]
      split <;> rfl
    · rw [if_neg hle, if_neg hle]
  · rw [if_neg h, if_neg h]
    rfl

/-- Windows worth less than the amount are passed over. -/
theorem selectWindow_skip {amount : Nat} (hamount : amount < 2 ^ 64) (selectAll : Bool)
    {pre : List (List (OutputData E))} (hpre : ∀ window ∈ pre, worth window < amount)
    (rest : List (List (OutputData E))) :
    selectWindow amount selectAll (pre ++ rest) = selectWindow amount selectAll rest := by
  induction pre with
  | nil => rfl
  | cons window pre ih =>
      have hshort := hpre window List.mem_cons_self
      rw [List.cons_append, selectWindow, selectFrom_eq, if_pos (by omega), if_neg (by omega)]
      exact ih fun w hw => hpre w (List.mem_cons_of_mem _ hw)

theorem selectWindow_hit {amount : Nat} {selectAll : Bool} {window : List (OutputData E)}
    (hcover : amount ≤ worth window) (rest : List (List (OutputData E))) :
    selectWindow amount selectAll (window :: rest) =
      if worth window < 2 ^ 64 then .ok (some (takeFrom amount selectAll window))
      else .error (.Panic "attempt to add with overflow") := by
  rw [selectWindow, selectFrom_eq, if_pos hcover]
  split <;> rfl

theorem windows_eq (m : Nat) (l : List (OutputData E)) :
    Selection.windows m l = (List.range (l.length + 1 - m)).map fun i => run m i l := rfl

/-- The first choice of coins, with the value it was made by. -/
inductive FirstChoice (amount m : Nat) (selectAll : Bool) (l : List (OutputData E)) :
    List (OutputData E) → Nat → Prop
  | all (h : l.length ≤ m) :
      FirstChoice amount m selectAll l
        (if amount ≤ worth l then takeFrom amount selectAll l else l.reverse) (worth l)
  | window (i : Nat) (h : m < l.length) (hrun : FirstRun amount m l i) :
      FirstChoice amount m selectAll l (takeFrom amount selectAll (run m i l)) (worth (run m i l))
  | beyond (h : m < l.length) (hnone : ∀ i, i + m ≤ l.length → worth (run m i l) < amount) :
      FirstChoice amount m selectAll l
        (if amount ≤ worth l then takeFrom amount false l else l.reverse.take m) (worth l)

section First

variable {amount m : Nat} {selectAll : Bool} {l first : List (OutputData E)} {sum : Nat}

theorem FirstChoice.subperm (h : FirstChoice amount m selectAll l first sum) :
    first.Subperm l := by
  cases h with
  | all =>
      split
      · exact (takeFrom_sublist _ _ _).subperm
      · exact (List.reverse_perm l).subperm
  | window i => exact ((takeFrom_sublist _ _ _).trans (run_sublist m i l)).subperm
  | beyond =>
      split
      · exact (takeFrom_sublist _ _ _).subperm
      · exact (List.take_sublist _ _).subperm.trans (List.reverse_perm l).subperm

theorem FirstChoice.worth_le (h : FirstChoice amount m selectAll l first sum) :
    worth first ≤ sum := by
  have hsub := h.subperm
  cases h with
  | all => exact total_subperm hsub
  | window i => exact total_sublist (takeFrom_sublist _ _ _)
  | beyond => exact total_subperm hsub

theorem FirstChoice.le_worth (h : FirstChoice amount m selectAll l first sum)
    (hcover : amount ≤ worth l) : amount ≤ worth first := by
  cases h with
  | all =>
      rw [if_pos hcover]
      exact le_worth_takeFrom hcover
  | window i _ hrun => exact le_worth_takeFrom hrun.2.1
  | beyond =>
      rw [if_pos hcover]
      exact le_worth_takeFrom hcover

theorem exists_firstChoice (amount m : Nat) (selectAll : Bool) (l : List (OutputData E)) :
    ∃ first sum, FirstChoice amount m selectAll l first sum := by
  by_cases hlen : l.length ≤ m
  · exact ⟨_, _, .all hlen⟩
  · rcases Selection.findSome?_range (fun i => if amount ≤ worth (run m i l) then some i else none)
      (l.length + 1 - m) with ⟨i, j, hi, hg, hbefore, -⟩ | ⟨hnone, -⟩
    · have hcover : amount ≤ worth (run m i l) := by
        by_contra hlt
        rw [if_neg hlt] at hg
        cases hg
      refine ⟨_, _, .window i (by omega) ⟨by omega, hcover, fun k hk => ?_⟩⟩
      by_contra hle
      have hk' := hbefore k hk
      rw [if_pos (by omega)] at hk'
      cases hk'
    · refine ⟨_, _, .beyond (by omega) fun i hi => ?_⟩
      by_contra hle
      have hi' := hnone i (by omega)
      rw [if_pos (by omega)] at hi'
      cases hi'

variable {s : Store E} {currentHeight minimumConfirmations : Nat} {parentKeyId : Identifier}

/-- A selection returns its first choice if the value it is made by fits. -/
theorem selectCoins_eq (hcount : CountsFit s currentHeight parentKeyId)
    (hranked : ranked s currentHeight minimumConfirmations parentKeyId = l)
    (hamount : amount < 2 ^ 64) (hm : m = 0 → l = [])
    (h : FirstChoice amount m selectAll l first sum) :
    selectCoins s amount currentHeight minimumConfirmations m selectAll parentKeyId =
      if sum < 2 ^ 64 then .ok (l.length, first)
      else .error (.Panic "attempt to add with overflow") := by
  have hlen : (Selection.eligibleOutputs s currentHeight minimumConfirmations parentKeyId).length
      = l.length := by
    rw [← hranked]
    exact (ranked_perm _ _ _ _).length_eq.symm
  have hsort : sortByKey (·.value) (Selection.eligibleOutputs s currentHeight minimumConfirmations
      parentKeyId) = l := hranked
  have hsplit : ∀ i, i + m ≤ l.length → Selection.windows m l
      = (List.range i).map (fun j => run m j l) ++ run m i l ::
        ((List.range (l.length + 1 - m)).map fun j => run m j l).drop (i + 1) := by
    intro i hi
    have hi' : i < ((List.range (l.length + 1 - m)).map fun j => run m j l).length := by
      rw [List.length_map, List.length_range]
      omega
    have hget : ((List.range (l.length + 1 - m)).map fun j => run m j l)[i] = run m i l := by simp
    have hbefore : ((List.range (l.length + 1 - m)).map fun j => run m j l).take i
        = (List.range i).map fun j => run m j l := by
      rw [← List.map_take, List.take_range, Nat.min_eq_left (by omega)]
    have hfrom : ((List.range (l.length + 1 - m)).map fun j => run m j l).drop i
        = run m i l :: ((List.range (l.length + 1 - m)).map fun j => run m j l).drop (i + 1) := by
      rw [List.drop_eq_getElem_cons hi', hget]
    rw [windows_eq, ← hbefore, ← hfrom, List.take_append_drop]
  rw [selectCoins, eligibleOutputs_of_fit hcount]
  show (if (sortByKey _ _).length > m then _ else _) = _
  simp only [hlen, hsort]
  cases h with
  | all hle =>
      rw [if_neg (by omega), selectFrom_eq]
      by_cases hfit : worth l < 2 ^ 64
      · rw [if_pos hfit, if_pos hfit]
        by_cases hcover : amount ≤ worth l
        · rw [if_pos hcover, if_pos hcover]
          rfl
        · rw [if_neg hcover, if_neg hcover,
            List.take_of_length_le (by rw [List.length_reverse]; exact hle)]
          rfl
      · rw [if_neg hfit, if_neg hfit]
        rfl
  | window i hmore hrun =>
      have hpos : ¬ m = 0 := fun hzero => by
        rw [hm hzero, List.length_nil] at hmore
        omega
      rw [if_pos hmore, if_neg hpos, hsplit i hrun.1, selectWindow_skip hamount _, selectWindow_hit
        hrun.2.1]
      · by_cases hfit : worth (run m i l) < 2 ^ 64
        · rw [if_pos hfit, if_pos hfit]
          rfl
        · rw [if_neg hfit, if_neg hfit]
          rfl
      · intro window hmem
        obtain ⟨j, hj, rfl⟩ := List.mem_map.mp hmem
        exact hrun.2.2 j (List.mem_range.mp hj)
  | beyond hmore hnone =>
      have hpos : ¬ m = 0 := fun hzero => by
        rw [hm hzero, List.length_nil] at hmore
        omega
      have hbelow : ∀ window ∈ Selection.windows m l, worth window < amount := by
        intro window hmem
        obtain ⟨j, hj, rfl⟩ := List.mem_map.mp hmem
        have hj' := List.mem_range.mp hj
        exact hnone j (by omega)
      have hskip := selectWindow_skip hamount selectAll hbelow []
      rw [List.append_nil] at hskip
      rw [if_pos hmore, if_neg hpos, hskip, selectFrom_eq]
      by_cases hfit : worth l < 2 ^ 64
      · rw [if_pos hfit, if_pos hfit]
        by_cases hcover : amount ≤ worth l
        · rw [if_pos hcover, if_pos hcover]
          rfl
        · rw [if_neg hcover, if_neg hcover]
          rfl
      · rw [if_neg hfit, if_neg hfit]
        rfl

end First

/-! ## Fees and prices -/

/-- The exact fee of a transaction. -/
def cost (C : Consensus F E) (outputs inputs : Nat) : Nat :=
  weightByIok inputs outputs 1 * C.acceptFeeBase

/-- What the inputs have to be worth, exactly. -/
def need (C : Consensus F E) (amount : Nat) (amountIncludesFee : Bool) (outputs inputs : Nat) :
    Nat :=
  if amountIncludesFee then amount else amount + cost C outputs inputs

/-- The fee fits a `u64`, and so does the amount with it. -/
def Fits (C : Consensus F E) (amount : Nat) (amountIncludesFee : Bool) (outputs inputs : Nat) :
    Prop :=
  cost C outputs inputs < 2 ^ 64 ∧ need C amount amountIncludesFee outputs inputs < 2 ^ 64

/-- A prefix of more than `k` coins that is worth what it needs; the whole ranking
only, when everything is to be spent. -/
def Affords (C : Consensus F E) (amount : Nat) (amountIncludesFee : Bool) (outputs : Nat)
    (selectAll : Bool) (l : List (OutputData E)) (k K : Nat) : Prop :=
  k < K ∧ K ≤ l.length ∧ (selectAll = true → K = l.length) ∧
    need C amount amountIncludesFee outputs K ≤ worth (l.take K)

theorem cost_mono (C : Consensus F E) {o o' i i' : Nat} (ho : o ≤ o') (hi : i ≤ i') :
    cost C o i ≤ cost C o' i' := Nat.mul_le_mul_right _ (weightByIok_mono 1 hi ho)

theorem need_mono (C : Consensus F E) (amount : Nat) (amountIncludesFee : Bool) {o o' i i' : Nat}
    (ho : o ≤ o') (hi : i ≤ i') :
    need C amount amountIncludesFee o i ≤ need C amount amountIncludesFee o' i' := by
  have hcost := cost_mono C ho hi
  unfold need
  split
  · exact le_refl _
  · omega

theorem le_need (C : Consensus F E) (amount : Nat) (amountIncludesFee : Bool) (o i : Nat) :
    amount ≤ need C amount amountIncludesFee o i := by
  unfold need
  split <;> omega

/-- The fee and then the amount with it: both sums are made, in this order. -/
theorem price_eq {β : Type} (C : Consensus F E) {amount : Nat} (amountIncludesFee : Bool)
    (hamount : amount < 2 ^ 64) (o i : Nat) (f : Nat → Nat → Except Error β) :
    (Fits C amount amountIncludesFee o i ∧
      (txFee C i o 1 >>= fun fee => amountWithFee amountIncludesFee amount fee >>= fun withFee =>
        f fee withFee) = f (cost C o i) (need C amount amountIncludesFee o i)) ∨
    (¬ Fits C amount amountIncludesFee o i ∧
      ∃ text, (txFee C i o 1 >>= fun fee => amountWithFee amountIncludesFee amount fee >>=
        fun withFee => f fee withFee) = .error (.Panic text)) := by
  unfold Fits
  by_cases hcost : cost C o i < 2 ^ 64
  · rw [show txFee C i o 1 = .ok (cost C o i) from if_pos hcost]
    by_cases hneed : need C amount amountIncludesFee o i < 2 ^ 64
    · refine .inl ⟨⟨hcost, hneed⟩, ?_⟩
      have hwith : amountWithFee amountIncludesFee amount (cost C o i)
          = .ok (need C amount amountIncludesFee o i) := by
        cases amountIncludesFee with
        | true => rfl
        | false => exact if_pos hneed
      show (amountWithFee amountIncludesFee amount (cost C o i) >>= fun withFee =>
        f (cost C o i) withFee) = _
      rw [hwith]
      rfl
    · refine .inr ⟨fun h => hneed h.2, "attempt to add with overflow", ?_⟩
      have hwith : amountWithFee amountIncludesFee amount (cost C o i)
          = .error (.Panic "attempt to add with overflow") := by
        cases amountIncludesFee with
        | true => exact absurd hamount hneed
        | false => exact if_neg hneed
      show (amountWithFee amountIncludesFee amount (cost C o i) >>= fun withFee =>
        f (cost C o i) withFee) = _
      rw [hwith]
      rfl
  · refine .inr ⟨fun h => hcost h.1, "attempt to multiply with overflow", ?_⟩
    rw [show txFee C i o 1 = .error (.Panic "attempt to multiply with overflow") from if_neg hcost]
    rfl

/-- The same with the coins summed in between. -/
theorem price_sum_eq {β : Type} (C : Consensus F E) {amount : Nat} (amountIncludesFee : Bool)
    (hamount : amount < 2 ^ 64) (o : Nat) {coins : List (OutputData E)}
    (hworth : worth coins < 2 ^ 64) (f : Nat → Nat → Nat → Except Error β) :
    (Fits C amount amountIncludesFee o coins.length ∧
      (txFee C coins.length o 1 >>= fun fee => sumValues coins >>= fun total =>
        amountWithFee amountIncludesFee amount fee >>= fun withFee => f fee total withFee)
          = f (cost C o coins.length) (worth coins)
              (need C amount amountIncludesFee o coins.length)) ∨
    (¬ Fits C amount amountIncludesFee o coins.length ∧
      ∃ text, (txFee C coins.length o 1 >>= fun fee => sumValues coins >>= fun total =>
        amountWithFee amountIncludesFee amount fee >>= fun withFee => f fee total withFee)
          = .error (.Panic text)) := by
  have hsum : (fun fee => sumValues coins >>= fun total =>
      amountWithFee amountIncludesFee amount fee >>= fun withFee => f fee total withFee)
        = fun fee => amountWithFee amountIncludesFee amount fee >>= fun withFee =>
            f fee (worth coins) withFee := by
    funext fee
    rw [sumValues_eq, if_pos hworth]
    rfl
  rw [hsum]
  exact price_eq C amountIncludesFee hamount o coins.length fun fee withFee =>
    f fee (worth coins) withFee

/-! ## The weight -/

theorem txFee_eq {C : Consensus F E} {i : Nat} (h : cost C 1 i < 2 ^ 64) :
    txFee C i 1 1 = .ok (cost C 1 i) := if_pos h

/-- The values the best amount is found among are values of the coins. -/
theorem spendable_le (coins : List (OutputData E)) (p : OutputData E × Nat → Bool) :
    (((coins.zipIdx.takeWhile p).map fun r => r.1.value)).sum ≤ worth coins ∧
      ((coins.zipIdx.takeWhile p).map fun r => r.1.value).length ≤ coins.length := by
  have hsub : ((coins.zipIdx.takeWhile p).map Prod.fst).Sublist coins := by
    have htake := (List.takeWhile_sublist p (l := coins.zipIdx)).map Prod.fst
    rwa [List.zipIdx_map_fst] at htake
  have hvalues : (coins.zipIdx.takeWhile p).map (fun r => r.1.value)
      = ((coins.zipIdx.takeWhile p).map Prod.fst).map OutputData.value := by
    rw [List.map_map]
    rfl
  rw [hvalues, List.length_map]
  exact ⟨total_sublist hsub, hsub.length_le⟩

theorem foldlM_spendStep (C : Consensus F E) (values : List Nat) (start : Nat)
    (best : Nat × Nat × Nat) (hsum : best.1 + values.sum < 2 ^ 64)
    (hcost : cost C 1 (start + values.length) < 2 ^ 64) (hinputs : best.2.2 ≤ start) :
    ∃ last, (values.zipIdx start).foldlM (spendStep C) best = .ok last ∧
      last.2.2 ≤ start + values.length := by
  induction values generalizing start best with
  | nil => exact ⟨best, rfl, hinputs⟩
  | cons value values ih =>
      rw [List.sum_cons] at hsum
      rw [List.length_cons] at hcost ⊢
      have hless := cost_mono C (le_refl 1) (show start + 1 ≤ start + (values.length + 1) by omega)
      obtain ⟨next, hnext, htotal, hcount⟩ : ∃ next, spendStep C best (value, start) = .ok next ∧
          next.1 = best.1 + value ∧ next.2.2 ≤ start + 1 := by
        have hfee : txFee C (start + 1) 1 1 = .ok (cost C 1 (start + 1)) := txFee_eq (by omega)
        rw [spendStep, show add best.1 value = .ok (best.1 + value) from if_pos (by omega)]
        refine ⟨_, by show (txFee C (start + 1) 1 1 >>= _) = _; rw [hfee]; rfl, ?_⟩
        by_cases hmore : best.1 + value > cost C 1 (start + 1)
        · rw [if_pos hmore]
          exact ⟨rfl, Nat.mod_le _ _⟩
        · rw [if_neg hmore]
          exact ⟨rfl, Nat.le_succ_of_le hinputs⟩
      obtain ⟨last, hlast, hle⟩ := ih (start + 1) next (by omega)
        (by rw [show start + 1 + values.length = start + (values.length + 1) by omega]; exact hcost)
        hcount
      refine ⟨last, ?_, by omega⟩
      rw [List.zipIdx_cons, List.foldlM_cons, hnext]
      exact hlast

/-- Refusing coins for their weight sums no more than the coins and prices no
transaction of more inputs. -/
theorem checkWeight_eq (C : Consensus F E) (amountIncludesFee : Bool)
    {coins : List (OutputData E)} (hworth : worth coins < 2 ^ 64)
    (hcost : cost C 1 coins.length < 2 ^ 64) (outputLen : Nat) :
    checkWeight C amountIncludesFee coins outputLen
      = Selection.checkWeight C amountIncludesFee coins outputLen := by
  refine checkWeight_agrees C amountIncludesFee coins outputLen ?_
  unfold checkWeight
  split
  case isFalse => exact noPanic_ok ()
  obtain ⟨hsum, hlen⟩ := spendable_le coins
    fun r => weightByIok (r.2 + 1) outputLen 1 ≤ C.maxTxWeight
  generalize hvalues : (coins.zipIdx.takeWhile fun r => decide
    (weightByIok (r.2 + 1) outputLen 1 ≤ C.maxTxWeight)).map (fun r => r.1.value) = values at hsum hlen
  have hperm : ((sortByKey id values).reverse).Perm values :=
    (List.reverse_perm _).trans (List.perm_insertionSort _ _)
  have hbound : ∀ k, k ≤ coins.length → cost C 1 k < 2 ^ 64 := fun k hk =>
    lt_of_le_of_lt (cost_mono C (le_refl 1) hk) hcost
  obtain ⟨last, hlast, hcount⟩ := foldlM_spendStep C (sortByKey id values).reverse 0 (0, 0, 0)
    (by rw [hperm.sum_eq]; omega) (hbound _ (by rw [hperm.length_eq]; omega)) (le_refl 0)
  rw [hperm.length_eq] at hcount
  have hfee : txFee C last.2.2 1 1 = .ok (cost C 1 last.2.2) := txFee_eq (hbound _ (by omega))
  obtain ⟨amount, hamount⟩ : ∃ amount,
      maxSpendableAmount C coins outputLen C.maxTxWeight amountIncludesFee
        = .ok (amount, last.2.2) := by
    rw [maxSpendableAmount]
    simp only
    rw [hvalues, hlast]
    cases amountIncludesFee with
    | true => exact ⟨_, rfl⟩
    | false =>
        refine ⟨last.2.1 - cost C 1 last.2.2, ?_⟩
        show (txFee C last.2.2 1 1 >>= _) = _
        rw [hfee]
        rfl
  rw [hamount]
  show NoPanic (txFee C last.2.2 1 1 >>= _)
  rw [hfee]
  exact fun text h => by cases h

/-! ## The loop -/

section Loop

variable {C : Consensus F E} {s : Store E} {amount currentHeight minimumConfirmations : Nat}
  {amountIncludesFee selectAll : Bool} {parentKeyId : Identifier} {l : List (OutputData E)}
  {numOutputs : Nat}

/-- The loop from coins whose fee and price are known. -/
def loopFrom (C : Consensus F E) (s : Store E) (amount : Nat) (amountIncludesFee : Bool)
    (currentHeight minimumConfirmations maxOutputs numOutputs : Nat) (selectAll : Bool)
    (parentKeyId : Identifier) (fuel : Nat) (coins : List (OutputData E)) :
    Except Error (List (OutputData E) × Nat × Nat × Nat) :=
  reselect C s amount amountIncludesFee currentHeight minimumConfirmations maxOutputs numOutputs
    selectAll parentKeyId fuel coins (cost C numOutputs coins.length) (worth coins)
    (need C amount amountIncludesFee numOutputs coins.length)

/-- One round from coins that fall short: a price that does not fit panics. -/
theorem loopFrom_round (hcount : CountsFit s currentHeight parentKeyId)
    (hranked : ranked s currentHeight minimumConfirmations parentKeyId = l)
    (hworth : worth l < 2 ^ 64) (hamount : amount < 2 ^ 64) {coins next : List (OutputData E)}
    (hfits : Fits C amount amountIncludesFee numOutputs coins.length)
    (hshort : worth coins < need C amount amountIncludesFee numOutputs coins.length)
    (hmore : coins.length < l.length)
    (hnext : next = if need C amount amountIncludesFee numOutputs coins.length ≤ worth l
      then takeFrom (need C amount amountIncludesFee numOutputs coins.length) selectAll l
      else l.reverse) (fuel : Nat) :
    (Fits C amount amountIncludesFee numOutputs next.length ∧
      loopFrom C s amount amountIncludesFee currentHeight minimumConfirmations l.length numOutputs
          selectAll parentKeyId (fuel + 1) coins
        = loopFrom C s amount amountIncludesFee currentHeight minimumConfirmations l.length
            numOutputs selectAll parentKeyId fuel next) ∨
    (¬ Fits C amount amountIncludesFee numOutputs next.length ∧
      ∃ text, loopFrom C s amount amountIncludesFee currentHeight minimumConfirmations l.length
        numOutputs selectAll parentKeyId (fuel + 1) coins = .error (.Panic text)) := by
  have hfirst : FirstChoice (need C amount amountIncludesFee numOutputs coins.length) l.length
      selectAll l next (worth l) := by
    rw [hnext]
    exact .all (le_refl _)
  have hle : worth next ≤ worth l := total_subperm hfirst.subperm
  have hsel := selectCoins_eq hcount hranked hfits.2 (fun hzero => List.length_eq_zero_iff.mp hzero) hfirst
  rw [if_pos hworth] at hsel
  have hround : loopFrom C s amount amountIncludesFee currentHeight minimumConfirmations l.length
      numOutputs selectAll parentKeyId (fuel + 1) coins
      = txFee C next.length numOutputs 1 >>= fun fee => sumValues next >>= fun total =>
          amountWithFee amountIncludesFee amount fee >>= fun withFee =>
            reselect C s amount amountIncludesFee currentHeight minimumConfirmations l.length
              numOutputs selectAll parentKeyId fuel next fee total withFee := by
    rw [loopFrom, reselect, if_pos hshort, if_neg (by omega), hsel]
    rfl
  rw [hround]
  exact price_sum_eq C amountIncludesFee hamount numOutputs (by omega) _

/-- From coins that fall short, the loop ends on the shortest longer prefix that is
worth what it needs; without one it prices the whole ranking. -/
theorem loopFrom_short (hcount : CountsFit s currentHeight parentKeyId)
    (hranked : ranked s currentHeight minimumConfirmations parentKeyId = l)
    (hworth : worth l < 2 ^ 64) (hamount : amount < 2 ^ 64)
    (hinc : amountIncludesFee = true → worth l < amount) {coins : List (OutputData E)}
    {fuel : Nat} (hcoins : coins.Subperm l) (hfuel : l.length < fuel + coins.length)
    (hfits : Fits C amount amountIncludesFee numOutputs coins.length)
    (hshort : worth coins < need C amount amountIncludesFee numOutputs coins.length) :
    (∃ K, Affords C amount amountIncludesFee numOutputs selectAll l coins.length K ∧
      (∀ k, Affords C amount amountIncludesFee numOutputs selectAll l coins.length k → K ≤ k) ∧
      loopFrom C s amount amountIncludesFee currentHeight minimumConfirmations l.length numOutputs
          selectAll parentKeyId (fuel + 1) coins
        = .ok (l.take K, cost C numOutputs K, worth (l.take K),
            need C amount amountIncludesFee numOutputs K)) ∨
    (∀ k, ¬ Affords C amount amountIncludesFee numOutputs selectAll l coins.length k) ∧
      ((Fits C amount amountIncludesFee numOutputs l.length ∧
        ∃ available needed, loopFrom C s amount amountIncludesFee currentHeight
          minimumConfirmations l.length numOutputs selectAll parentKeyId (fuel + 1) coins
            = .error (.NotEnoughFunds available needed)) ∨
      (¬ Fits C amount amountIncludesFee numOutputs l.length ∧
        ∃ text, loopFrom C s amount amountIncludesFee currentHeight minimumConfirmations l.length
          numOutputs selectAll parentKeyId (fuel + 1) coins = .error (.Panic text))) := by
  have hascending : Ascending OutputData.value l := hranked ▸ ranked_ascending _ _ _ _
  induction fuel generalizing coins with
  | zero =>
      have hlen := hcoins.length_le
      omega
  | succ fuel ih =>
      have hlen := hcoins.length_le
      have hlater : ∀ k, Affords C amount amountIncludesFee numOutputs selectAll l coins.length k →
          need C amount amountIncludesFee numOutputs coins.length ≤ worth (l.take k) :=
        fun k hk => le_trans (need_mono C amount amountIncludesFee (le_refl _) (le_of_lt hk.1))
          hk.2.2.2
      have htake : ∀ k, worth (l.take k) ≤ worth l := fun k => total_take_le k l
      by_cases hfull : coins.length = l.length
      · refine .inr ⟨fun k hk => ?_, .inl ⟨hfull ▸ hfits, worth coins,
          need C amount amountIncludesFee numOutputs coins.length, ?_⟩⟩
        · have h1 := hk.1
          have h2 := hk.2.1
          omega
        · rw [loopFrom, reselect, if_pos hshort, if_pos hfull]
      have hmore : coins.length < l.length := by omega
      by_cases hle : need C amount amountIncludesFee numOutputs coins.length ≤ worth l
      · obtain rfl : amountIncludesFee = false := by
          cases hflag : amountIncludesFee with
          | false => rfl
          | true =>
              have hbelow := hinc hflag
              have habove := le_need C amount amountIncludesFee numOutputs coins.length
              omega
        -- the next coins are the first prefix worth what these needed
        obtain ⟨r, hr, hrlen, hall, hleast⟩ : ∃ r,
            takeFrom (need C amount false numOutputs coins.length) selectAll l = l.take r ∧
              r ≤ l.length ∧ (selectAll = true → r = l.length) ∧
              ∀ k, Affords C amount false numOutputs selectAll l coins.length k → r ≤ k := by
          unfold takeFrom
          by_cases hall : selectAll
          · exact ⟨l.length, by rw [if_pos hall, List.take_length], le_refl _, fun _ => rfl,
              fun k hk => by rw [hk.2.2.1 hall]⟩
          · exact ⟨_, by rw [if_neg hall], reach_le_length _ _, fun h => absurd h hall,
              fun k hk => (reach_le_iff hle k).mpr (hlater k hk)⟩
        have hnext : (l.take r).length = r := by rw [List.length_take]; omega
        have hlonger : coins.length < r := by
          have hcover : need C amount false numOutputs coins.length ≤ worth (l.take r) :=
            hr ▸ le_worth_takeFrom hle
          have hprefix := hascending.total_take_le_of_subperm hcoins
          by_contra hge
          have hless : worth (l.take r) ≤ worth (l.take coins.length) :=
            total_take_mono (by omega) l
          have hprefix' : worth (l.take coins.length) ≤ worth coins := hprefix
          omega
        rcases loopFrom_round (C := C) hcount hranked hworth hamount hfits hshort
          hmore (if_pos hle).symm (fuel + 1) with ⟨hfits', hround⟩ | ⟨hnofit, text, hround⟩
        · rw [hr] at hround hfits'
          rw [hround]
          rw [hnext] at hfits'
          by_cases henough : need C amount false numOutputs r ≤ worth (l.take r)
          · refine .inl ⟨r, ⟨hlonger, hrlen, hall, henough⟩, hleast, ?_⟩
            rw [loopFrom, reselect, hnext, if_neg (by omega)]
          · have hsame : ∀ k, Affords C amount false numOutputs selectAll l r k ↔
                Affords C amount false numOutputs selectAll l coins.length k := by
              intro k
              constructor
              · exact fun hk => ⟨lt_trans hlonger hk.1, hk.2⟩
              · intro hk
                refine ⟨lt_of_le_of_ne (hleast k hk) fun heq => henough ?_, hk.2⟩
                rw [heq]
                exact hk.2.2.2
            have hend := @ih (l.take r) (List.take_sublist _ _).subperm
              (by rw [hnext]; omega) (by rw [hnext]; exact hfits') (by rw [hnext]; omega)
            rw [hnext] at hend
            simpa only [hsame] using hend
        · -- a price that does not fit is more than all coins are worth
          rw [hr, hnext] at hnofit
          have hbig : 2 ^ 64 ≤ need C amount false numOutputs r := by
            by_contra hlt
            exact hnofit ⟨lt_of_le_of_lt (Nat.le_add_left _ amount) (not_le.mp hlt), not_le.mp hlt⟩
          refine .inr ⟨fun k hk => ?_, .inr ⟨fun hn => ?_, text, hround⟩⟩
          · have h1 := need_mono C amount false (le_refl numOutputs) (hleast k hk)
            have h2 := hk.2.2.2
            have h3 := htake k
            omega
          · have h1 := need_mono C amount false (le_refl numOutputs) hrlen
            have h2 := hn.2
            omega
      · have hnone : ∀ k, ¬ Affords C amount amountIncludesFee numOutputs selectAll l coins.length k := by
          intro k hk
          have h1 := hlater k hk
          have h2 := htake k
          omega
        have hrev : l.reverse.length = l.length := List.length_reverse
        have hall : worth l.reverse = worth l := total_perm (List.reverse_perm l)
        have hlast := need_mono C amount amountIncludesFee (le_refl numOutputs) hlen
        rcases loopFrom_round (C := C) hcount hranked hworth hamount hfits hshort
          hmore (if_neg hle).symm (fuel + 1) with ⟨hfits', hround⟩ | ⟨hnofit, text, hround⟩
        · rw [hrev] at hfits'
          refine .inr ⟨hnone, .inl ⟨hfits', worth l,
            need C amount amountIncludesFee numOutputs l.length, ?_⟩⟩
          rw [hround, loopFrom, reselect, hrev, hall, if_pos (by omega), if_pos rfl]
        · rw [hrev] at hnofit
          exact .inr ⟨hnone, .inr ⟨hnofit, text, hround⟩⟩

end Loop

/-! ## The coins and the fee -/

/-- The sums and prices made from the first choice on fit: its own, the price with
change when one is wanted, and for the loop the whole ranking and its price. -/
def FitsFrom (C : Consensus F E) (amount : Nat) (amountIncludesFee : Bool) (changeOutputs : Nat)
    (selectAll : Bool) (l first : List (OutputData E)) (sum : Nat) : Prop :=
  sum < 2 ^ 64 ∧ Fits C amount amountIncludesFee 1 first.length ∧
    (worth first ≠ 0 →
      ¬ (worth first < need C amount amountIncludesFee 1 first.length ∧ first.length = l.length) →
      worth first ≠ need C amount amountIncludesFee 1 first.length →
        Fits C amount amountIncludesFee (changeOutputs + 1) first.length ∧
        (worth first < need C amount amountIncludesFee (changeOutputs + 1) first.length →
          worth l < 2 ^ 64 ∧
          ((∀ K, ¬ Affords C amount amountIncludesFee (changeOutputs + 1) selectAll l
              first.length K) →
            Fits C amount amountIncludesFee (changeOutputs + 1) l.length)))

/-- The coins taken and the outputs the fee is for: the first choice without
change, the first choice with change, or the shortest longer prefix. -/
def ChosenFrom (C : Consensus F E) (amount : Nat) (amountIncludesFee : Bool)
    (changeOutputs : Nat) (selectAll : Bool) (l first coins : List (OutputData E))
    (outputs : Nat) : Prop :=
  worth first ≠ 0 ∧
    (coins = first ∧ outputs = 1 ∧
        worth first = need C amount amountIncludesFee 1 first.length ∨
      outputs = changeOutputs + 1 ∧
        worth first ≠ need C amount amountIncludesFee 1 first.length ∧
        (coins = first ∧
            need C amount amountIncludesFee (changeOutputs + 1) first.length ≤ worth first ∨
          worth first < need C amount amountIncludesFee (changeOutputs + 1) first.length ∧
            ∃ K, Affords C amount amountIncludesFee (changeOutputs + 1) selectAll l first.length K ∧
              (∀ k, Affords C amount amountIncludesFee (changeOutputs + 1) selectAll l
                first.length k → K ≤ k) ∧ coins = l.take K))

section Choose

variable {C : Consensus F E} {s : Store E} {amount currentHeight minimumConfirmations : Nat}
  {amountIncludesFee selectAll : Bool} {parentKeyId : Identifier}
  {l first : List (OutputData E)} {sum m changeOutputs : Nat}

theorem ChosenFrom.spec {coins : List (OutputData E)} {outputs : Nat}
    (hfirst : first.Subperm l)
    (h : ChosenFrom C amount amountIncludesFee changeOutputs selectAll l first coins outputs) :
    coins.Subperm l ∧ need C amount amountIncludesFee outputs coins.length ≤ worth coins ∧
      outputs ≤ changeOutputs + 1 := by
  obtain ⟨-, ⟨rfl, rfl, heq⟩ | ⟨rfl, -, ⟨rfl, hle⟩ | ⟨-, K, hK, -, rfl⟩⟩⟩ := h
  · exact ⟨hfirst, by omega, by omega⟩
  · exact ⟨hfirst, hle, le_refl _⟩
  · have hlen : (l.take K).length = K := by
      have h2 := hK.2.1
      rw [List.length_take]
      omega
    exact ⟨(List.take_sublist _ _).subperm, by rw [hlen]; exact hK.2.2.2, le_refl _⟩

/-- The sums of the coins chosen and of their fee are among those that fit. -/
theorem ChosenFrom.fits {coins : List (OutputData E)} {outputs : Nat}
    (hfirst : FirstChoice amount m selectAll l first sum)
    (hfits : FitsFrom C amount amountIncludesFee changeOutputs selectAll l first sum)
    (h : ChosenFrom C amount amountIncludesFee changeOutputs selectAll l first coins outputs) :
    worth coins < 2 ^ 64 ∧ cost C outputs coins.length < 2 ^ 64 ∧ 1 ≤ outputs := by
  have hfirstWorth := lt_of_le_of_lt hfirst.worth_le hfits.1
  obtain ⟨hnonzero, ⟨rfl, rfl, -⟩ | ⟨rfl, hne, ⟨rfl, hle⟩ | ⟨hshort, K, hK, -, rfl⟩⟩⟩ := h
  · exact ⟨hfirstWorth, hfits.2.1.1, le_refl 1⟩
  · have hgrow := need_mono C amount amountIncludesFee (show 1 ≤ changeOutputs + 1 by omega)
      (le_refl coins.length)
    have hall : ¬ (worth coins < need C amount amountIncludesFee 1 coins.length ∧
        coins.length = l.length) := fun h => by omega
    exact ⟨hfirstWorth, (hfits.2.2 hnonzero hall hne).1.1, by omega⟩
  · have hall : ¬ (worth first < need C amount amountIncludesFee 1 first.length ∧
        first.length = l.length) := fun h => by
      have h1 := hK.1
      have h2 := hK.2.1
      omega
    have hworth := ((hfits.2.2 hnonzero hall hne).2 hshort).1
    have htake : worth (l.take K) ≤ worth l := total_take_le K l
    have hpaid := hK.2.2.2
    have hlen : (l.take K).length = K := by
      have h2 := hK.2.1
      rw [List.length_take]
      omega
    refine ⟨by omega, ?_, by omega⟩
    rw [hlen]
    cases hflag : amountIncludesFee with
    | false =>
        rw [hflag, need, if_neg Bool.false_ne_true] at hpaid
        omega
    | true =>
        -- coins worth the amount pay for it
        rw [hflag, need, if_pos rfl] at hpaid hshort
        have hcover := hfirst.le_worth (by omega)
        omega

/-- What finding the coins and the fee comes to: a sum that does not fit, the coins
chosen, or missing funds. -/
theorem coinsAndFee_cases (hcount : CountsFit s currentHeight parentKeyId)
    (hranked : ranked s currentHeight minimumConfirmations parentKeyId = l)
    (hamount : amount < 2 ^ 64) (hchange : changeOutputs + 1 < 2 ^ 64) (hm : m = 0 → l = [])
    (hfirst : FirstChoice amount m selectAll l first sum) :
    (¬ FitsFrom C amount amountIncludesFee changeOutputs selectAll l first sum ∧
      ∃ text, coinsAndFee C s amount amountIncludesFee currentHeight minimumConfirmations m
        changeOutputs selectAll parentKeyId = .error (.Panic text)) ∨
    (FitsFrom C amount amountIncludesFee changeOutputs selectAll l first sum ∧
      ((∃ coins outputs,
        (∀ coins' outputs', ChosenFrom C amount amountIncludesFee changeOutputs selectAll l first
          coins' outputs' ↔ coins' = coins ∧ outputs' = outputs) ∧
        coinsAndFee C s amount amountIncludesFee currentHeight minimumConfirmations m
            changeOutputs selectAll parentKeyId
          = .ok (coins, cost C outputs coins.length, worth coins,
              need C amount amountIncludesFee outputs coins.length)) ∨
      ((∀ coins outputs, ¬ ChosenFrom C amount amountIncludesFee changeOutputs selectAll l first
          coins outputs) ∧
        ∃ available needed, coinsAndFee C s amount amountIncludesFee currentHeight
          minimumConfirmations m changeOutputs selectAll parentKeyId
            = .error (.NotEnoughFunds available needed)))) := by
  have hsel := selectCoins_eq hcount hranked hamount hm hfirst
  have hbelow := hfirst.worth_le
  have hsub := hfirst.subperm
  unfold FitsFrom
  by_cases hsum : sum < 2 ^ 64
  case neg =>
    rw [if_neg hsum] at hsel
    exact .inl ⟨fun h => hsum h.1, _, by rw [coinsAndFee, hsel]; rfl⟩
  rw [if_pos hsum] at hsel
  have hrun : coinsAndFee C s amount amountIncludesFee currentHeight minimumConfirmations m
      changeOutputs selectAll parentKeyId
      = txFee C first.length 1 1 >>= fun fee => sumValues first >>= fun total =>
          amountWithFee amountIncludesFee amount fee >>= fun withFee =>
            if total = 0 then .error (.NotEnoughFunds 0 withFee)
            else if total < withFee ∧ first.length = l.length then
              .error (.NotEnoughFunds total withFee)
            else if total = withFee then .ok (first, fee, total, withFee)
            else add changeOutputs 1 >>= fun numOutputs =>
              txFee C first.length numOutputs 1 >>= fun fee =>
                amountWithFee amountIncludesFee amount fee >>= fun withFee =>
                  reselect C s amount amountIncludesFee currentHeight minimumConfirmations
                    l.length numOutputs selectAll parentKeyId (l.length + 2) first fee total
                    withFee := by
    rw [coinsAndFee, hsel]
    rfl
  rw [hrun]
  clear hrun hsel
  have hfits : worth first < 2 ^ 64 := by omega
  rcases price_sum_eq C amountIncludesFee hamount 1 hfits (fun fee total
      withFee => if total = 0 then .error (.NotEnoughFunds 0 withFee)
        else if total < withFee ∧ first.length = l.length then
          .error (.NotEnoughFunds total withFee)
        else if total = withFee then .ok (first, fee, total, withFee)
        else add changeOutputs 1 >>= fun numOutputs =>
          txFee C first.length numOutputs 1 >>= fun fee =>
            amountWithFee amountIncludesFee amount fee >>= fun withFee =>
              reselect C s amount amountIncludesFee currentHeight minimumConfirmations
                l.length numOutputs selectAll parentKeyId (l.length + 2) first fee total withFee)
    with ⟨hone, hrun⟩ | ⟨hone, text, hrun⟩
  case inr => exact .inl ⟨fun h => hone h.2.1, text, hrun⟩
  rw [hrun]
  clear hrun
  have hlen := hsub.length_le
  have hgrow := need_mono C amount amountIncludesFee (show 1 ≤ changeOutputs + 1 by omega)
    (le_refl first.length)
  by_cases hzero : worth first = 0
  · rw [if_pos hzero]
    exact .inr ⟨⟨hsum, hone, fun h => absurd hzero h⟩,
      .inr ⟨fun _ _ h => h.1 hzero, _, _, rfl⟩⟩
  rw [if_neg hzero]
  by_cases hall : worth first < need C amount amountIncludesFee 1 first.length ∧
      first.length = l.length
  · rw [if_pos hall]
    refine .inr ⟨⟨hsum, hone, fun _ h => absurd hall h⟩, .inr ⟨fun coins outputs h => ?_, _, _, rfl⟩⟩
    obtain ⟨-, ⟨-, -, heq⟩ | ⟨-, -, ⟨-, hle⟩ | ⟨-, K, hK, -⟩⟩⟩ := h
    · omega
    · omega
    · have h1 := hK.1
      have h2 := hK.2.1
      omega
  rw [if_neg hall]
  by_cases hexact : worth first = need C amount amountIncludesFee 1 first.length
  · rw [if_pos hexact]
    refine .inr ⟨⟨hsum, hone, fun _ _ h => absurd hexact h⟩, .inl ⟨first, 1, fun coins outputs => ?_, ?_⟩⟩
    · constructor
      · rintro ⟨-, ⟨rfl, rfl, -⟩ | ⟨-, hne, -⟩⟩
        · exact ⟨rfl, rfl⟩
        · exact absurd hexact hne
      · rintro ⟨rfl, rfl⟩
        exact ⟨hzero, .inl ⟨rfl, rfl, hexact⟩⟩
    · rfl
  rw [if_neg hexact]
  have hnum : add changeOutputs 1 = .ok (changeOutputs + 1) := if_pos hchange
  rw [hnum]
  rcases price_eq C amountIncludesFee hamount (changeOutputs + 1) first.length (fun fee withFee =>
    reselect C s amount amountIncludesFee currentHeight minimumConfirmations l.length
      (changeOutputs + 1) selectAll parentKeyId (l.length + 2) first fee (worth first) withFee)
    with ⟨hmore, hrun⟩ | ⟨hmore, text, hrun⟩
  case inr => exact .inl ⟨fun h => hmore (h.2.2 hzero hall hexact).1, text, hrun⟩
  by_cases henough : need C amount amountIncludesFee (changeOutputs + 1) first.length ≤ worth first
  · refine .inr ⟨⟨hsum, hone, fun _ _ _ => ⟨hmore, fun h => absurd henough (not_le.mpr h)⟩⟩,
      .inl ⟨first, changeOutputs + 1, fun coins outputs => ?_, hrun.trans ?_⟩⟩
    · constructor
      · rintro ⟨-, ⟨-, -, heq⟩ | ⟨rfl, -, ⟨rfl, -⟩ | ⟨hlt, -⟩⟩⟩
        · exact absurd heq hexact
        · exact ⟨rfl, rfl⟩
        · omega
      · rintro ⟨rfl, rfl⟩
        exact ⟨hzero, .inr ⟨rfl, hexact, .inl ⟨rfl, henough⟩⟩⟩
    · rw [reselect, if_neg (by omega)]
  have hshort := not_le.mp henough
  by_cases hworth : worth l < 2 ^ 64
  case neg =>
    -- the loop sums all outputs first
    have hbound : first.length ≠ l.length := fun heq => by
      have hperm : worth first = worth l := total_perm (hsub.perm_of_length_le (by omega))
      omega
    refine .inl ⟨fun h => hworth ((h.2.2 hzero hall hexact).2 hshort).1,
      "attempt to add with overflow", hrun.trans ?_⟩
    have hall : FirstChoice (need C amount amountIncludesFee (changeOutputs + 1) first.length) l.length
        selectAll l _ _ := .all (le_refl _)
    have hnext := selectCoins_eq hcount hranked hmore.2 (fun h => List.length_eq_zero_iff.mp h) hall
    rw [if_neg hworth] at hnext
    rw [reselect, if_pos hshort, if_neg hbound, hnext]
    rfl
  have hinc : amountIncludesFee = true → worth l < amount := by
    intro hflag
    by_contra hle
    have hcover := hfirst.le_worth (by omega)
    have hneed : need C amount amountIncludesFee (changeOutputs + 1) first.length = amount := by
      rw [need, if_pos hflag]
    omega
  have hchoose : ∀ coins outputs, ChosenFrom C amount amountIncludesFee changeOutputs selectAll l
      first coins outputs ↔ outputs = changeOutputs + 1 ∧
        ∃ K, Affords C amount amountIncludesFee (changeOutputs + 1) selectAll l first.length K ∧
          (∀ k, Affords C amount amountIncludesFee (changeOutputs + 1) selectAll l first.length k →
            K ≤ k) ∧ coins = l.take K := by
    intro coins outputs
    constructor
    · rintro ⟨-, ⟨-, -, heq⟩ | ⟨rfl, -, ⟨-, hle⟩ | ⟨-, hK⟩⟩⟩
      · exact absurd heq hexact
      · omega
      · exact ⟨rfl, hK⟩
    · rintro ⟨rfl, hK⟩
      exact ⟨hzero, .inr ⟨rfl, hexact, .inr ⟨hshort, hK⟩⟩⟩
  rcases loopFrom_short hcount hranked hworth hamount hinc hsub
    (show l.length < l.length + 1 + first.length by omega) hmore hshort with ⟨K, hK, hleast, hloop⟩ | ⟨hnone, hend⟩
  · refine .inr ⟨⟨hsum, hone, fun _ _ _ => ⟨hmore, fun _ => ⟨hworth, fun h => absurd hK (h K)⟩⟩⟩,
      .inl ⟨l.take K, changeOutputs + 1, fun coins outputs => ?_, hrun.trans ?_⟩⟩
    · rw [hchoose]
      constructor
      · rintro ⟨rfl, K', hK', hleast', rfl⟩
        have h1 := hleast K' hK'
        have h2 := hleast' K hK
        rw [show K' = K by omega]
        exact ⟨rfl, rfl⟩
      · rintro ⟨rfl, rfl⟩
        exact ⟨rfl, K, hK, hleast, rfl⟩
    · have hlenK : (l.take K).length = K := by
        have h2 := hK.2.1
        rw [List.length_take]
        omega
      rw [hlenK]
      exact hloop
  · rcases hend with ⟨hlast, a, b, hloop⟩ | ⟨hlast, text, hloop⟩
    · refine .inr ⟨⟨hsum, hone, fun _ _ _ => ⟨hmore, fun _ => ⟨hworth, fun _ => hlast⟩⟩⟩,
        .inr ⟨fun coins outputs h => ?_, a, b, hrun.trans hloop⟩⟩
      obtain ⟨-, K, hK, -⟩ := (hchoose coins outputs).mp h
      exact hnone K hK
    · exact .inl ⟨fun h => hlast (((h.2.2 hzero hall hexact).2 hshort).2 hnone), text,
        hrun.trans hloop⟩

end Choose

end Checked

end GrinWallet
