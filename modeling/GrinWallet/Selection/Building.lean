import GrinWallet.Contexts.Draw
import GrinWallet.Exchange.Elements

/-! # Building a send

The coins a send selects are records of the wallet, and building one writes no
record and no context: it takes child keys for the change and fills the slate
and a context with what it selected.
-/

namespace GrinWallet

open Effect WalletBackend OrderedTable

/-- The key the next output of the active account gets. -/
def nextKey {F E : Type} (w : WalletBackend F E) : Identifier :=
  w.parentKeyId.child (w.store.childIndex w.parentKeyId)

namespace Selection

variable {F E : Type}

/-! ## The coins selected -/

section Select

variable {C : Consensus F E} {s : Store E} {amount currentHeight minimumConfirmations : Nat}
  {amountIncludesFee selectAll : Bool} {parentKeyId : Identifier}

theorem takeWhileBelow_sublist (amount selected : Nat) (l : List (OutputData E)) :
    (takeWhileBelow amount selected l).Sublist l := by
  induction l generalizing selected with
  | nil => exact List.Sublist.refl _
  | cons o os ih =>
      unfold takeWhileBelow
      by_cases h : selected < amount
      · rw [if_pos h]
        exact (ih _).cons_cons o
      · rw [if_neg h]
        exact List.nil_sublist _

theorem selectFrom_sublist {l coins : List (OutputData E)}
    (h : selectFrom amount selectAll l = some coins) : coins.Sublist l := by
  unfold selectFrom at h
  by_cases hsum : sumValues l ≥ amount
  · rw [if_pos hsum] at h
    by_cases hall : selectAll
    · rw [if_pos hall] at h
      cases h
      exact List.Sublist.refl _
    · rw [if_neg hall] at h
      cases h
      exact takeWhileBelow_sublist _ _ _
  · rw [if_neg hsum] at h
    cases h

theorem windows_sublist {n : Nat} {l window : List (OutputData E)} (h : window ∈ windows n l) :
    window.Sublist l := by
  obtain ⟨i, -, rfl⟩ := List.mem_map.mp h
  exact (List.take_sublist _ _).trans (List.drop_sublist _ _)

/-- The coins selected are eligible outputs, each at most once. -/
theorem selectCoins_subperm {maxOutputs maxAvailable : Nat} {coins : List (OutputData E)}
    (h : selectCoins s amount currentHeight minimumConfirmations maxOutputs selectAll parentKeyId
      = .ok (maxAvailable, coins)) :
    coins.Subperm (eligibleOutputs s currentHeight minimumConfirmations parentKeyId) := by
  have hsort : (sortByKey (·.value) (eligibleOutputs s currentHeight minimumConfirmations
      parentKeyId)).Perm (eligibleOutputs s currentHeight minimumConfirmations parentKeyId) :=
    List.perm_insertionSort _ _
  unfold selectCoins at h
  simp only at h
  generalize sortByKey (·.value) (eligibleOutputs s currentHeight minimumConfirmations
    parentKeyId) = sorted at h hsort
  refine List.Subperm.trans ?_ hsort.subperm
  have hguide : (sorted.reverse.take maxOutputs).Subperm sorted :=
    (List.take_sublist _ _).subperm.trans (List.reverse_perm sorted).subperm
  by_cases hlong : sorted.length > maxOutputs
  · rw [if_pos hlong] at h
    by_cases hzero : maxOutputs = 0
    · rw [if_pos hzero] at h
      cases h
    · rw [if_neg hzero] at h
      cases hw : (windows maxOutputs sorted).findSome? (selectFrom amount selectAll) with
      | some outputs =>
          simp only [hw] at h
          cases h
          obtain ⟨window, hmem, hsel⟩ := List.exists_of_findSome?_eq_some hw
          exact ((selectFrom_sublist hsel).trans (windows_sublist hmem)).subperm
      | none =>
          cases hs : selectFrom amount false sorted with
          | some outputs =>
              simp only [hw, hs] at h
              cases h
              exact (selectFrom_sublist hs).subperm
          | none =>
              simp only [hw, hs] at h
              cases h
              exact hguide
  · rw [if_neg hlong] at h
    cases hs : selectFrom amount selectAll sorted with
    | some outputs =>
        simp only [hs] at h
        cases h
        exact (selectFrom_sublist hs).subperm
    | none =>
        simp only [hs] at h
        cases h
        exact hguide

/-- The loop ends on the coins it began with or on a selection for more than
those are worth. -/
theorem reselect_selects {maxOutputs numOutputs fuel fee fee' total total' withFee withFee' : Nat}
    {coins coins' : List (OutputData E)}
    (h : reselect C s amount amountIncludesFee currentHeight minimumConfirmations maxOutputs
      numOutputs selectAll parentKeyId fuel coins fee total withFee
        = .ok (coins', fee', total', withFee')) :
    coins' = coins ∨ ∃ target maxAvailable, 0 < target ∧
      selectCoins s target currentHeight minimumConfirmations maxOutputs selectAll parentKeyId
        = .ok (maxAvailable, coins') := by
  induction fuel generalizing coins fee total withFee with
  | zero => simp [reselect] at h
  | succ fuel ih =>
      unfold reselect at h
      by_cases hlt : total < withFee
      · rw [if_pos hlt] at h
        by_cases hlen : coins.length = maxOutputs
        · rw [if_pos hlen] at h
          cases h
        · rw [if_neg hlen] at h
          obtain ⟨⟨maxAvailable, next⟩, hsel, h⟩ := except_bind_eq_ok.mp h
          rcases ih h with rfl | hlater
          · exact .inr ⟨withFee, maxAvailable, by omega, hsel⟩
          · exact .inr hlater
      · rw [if_neg hlt] at h
        cases h
        exact .inl rfl

theorem selectCoins_available {maxOutputs maxAvailable : Nat} {coins : List (OutputData E)}
    (h : selectCoins s amount currentHeight minimumConfirmations maxOutputs selectAll parentKeyId
      = .ok (maxAvailable, coins)) :
    maxAvailable = (eligibleOutputs s currentHeight minimumConfirmations parentKeyId).length := by
  unfold selectCoins at h
  simp only at h
  split at h
  · split at h
    · cases h
    · split at h
      · cases h
        rfl
      · split at h
        · cases h
          rfl
        · cases h
          rfl
  · split at h
    · cases h
      rfl
    · cases h
      rfl

/-- A selection for some value among all eligible outputs takes one when there is one. -/
theorem selectCoins_ne_nil {maxAvailable : Nat} {coins : List (OutputData E)} (hamount : 0 < amount)
    (hsome : eligibleOutputs s currentHeight minimumConfirmations parentKeyId ≠ [])
    (h : selectCoins s amount currentHeight minimumConfirmations
      (eligibleOutputs s currentHeight minimumConfirmations parentKeyId).length selectAll
      parentKeyId = .ok (maxAvailable, coins)) : coins ≠ [] := by
  have hsort : (sortByKey (·.value) (eligibleOutputs s currentHeight minimumConfirmations
      parentKeyId)).Perm (eligibleOutputs s currentHeight minimumConfirmations parentKeyId) :=
    List.perm_insertionSort _ _
  have hlen := hsort.length_eq
  unfold selectCoins at h
  simp only [hlen, gt_iff_lt, lt_irrefl, if_false] at h
  generalize sortByKey (·.value) (eligibleOutputs s currentHeight minimumConfirmations
    parentKeyId) = sorted at h hsort hlen
  cases sorted with
  | nil => exact fun _ => hsome (List.perm_nil.mp hsort.symm)
  | cons o os =>
      unfold selectFrom at h
      by_cases hsum : sumValues (o :: os) ≥ amount
      · rw [if_pos hsum] at h
        by_cases hall : selectAll
        · rw [if_pos hall] at h
          cases h
          exact List.cons_ne_nil _ _
        · rw [if_neg hall, takeWhileBelow, if_pos hamount] at h
          cases h
          exact List.cons_ne_nil _ _
      · rw [if_neg hsum] at h
        cases h
        rw [← hlen, ← List.length_reverse, List.take_length]
        simp

/-- The coins of a send are eligible outputs, each once, and at least one. -/
theorem coinsAndFee_selects {maxOutputs changeOutputs fee total withFee : Nat}
    {coins : List (OutputData E)}
    (h : coinsAndFee C s amount amountIncludesFee currentHeight minimumConfirmations maxOutputs
      changeOutputs selectAll parentKeyId = .ok (coins, fee, total, withFee)) :
    coins.Subperm (eligibleOutputs s currentHeight minimumConfirmations parentKeyId) ∧
      coins ≠ [] := by
  unfold coinsAndFee at h
  obtain ⟨⟨maxAvailable, first⟩, hsel, h⟩ := except_bind_eq_ok.mp h
  have hsub := selectCoins_subperm hsel
  obtain rfl := selectCoins_available hsel
  simp only at h
  by_cases hzero : sumValues first = 0
  · rw [if_pos hzero] at h
    cases h
  have hfirst : first ≠ [] := fun hnil => hzero (by rw [hnil]; rfl)
  have hsome : eligibleOutputs s currentHeight minimumConfirmations parentKeyId ≠ [] :=
    fun hnil => hfirst (List.subperm_nil.mp (hnil ▸ hsub))
  rw [if_neg hzero] at h
  split at h
  · cases h
  · split at h
    · cases h
      exact ⟨hsub, hfirst⟩
    · rcases reselect_selects h with rfl | hlater
      · exact ⟨hsub, hfirst⟩
      · obtain ⟨target, maxAvailable, hpos, hsel'⟩ := hlater
        exact ⟨selectCoins_subperm hsel', selectCoins_ne_nil hpos hsome hsel'⟩

theorem selectCoinsAndFee_selects {maxOutputs changeOutputs total sent fee : Nat}
    {coins : List (OutputData E)}
    (h : selectCoinsAndFee C s amount amountIncludesFee currentHeight minimumConfirmations
      maxOutputs changeOutputs selectAll parentKeyId = .ok (coins, total, sent, fee)) :
    coins.Subperm (eligibleOutputs s currentHeight minimumConfirmations parentKeyId) ∧
      coins ≠ [] := by
  unfold selectCoinsAndFee at h
  obtain ⟨⟨coins₁, fee₁, total₁, withFee₁⟩, hc, h⟩ := except_bind_eq_ok.mp h
  obtain ⟨_, -, h⟩ := except_bind_eq_ok.mp h
  have heq : coins = coins₁ := by
    split at h
    · split at h
      · cases h
      · cases h
        rfl
    · cases h
      rfl
  rw [heq]
  exact coinsAndFee_selects hc

/-- Every coin of a selection is eligible. -/
theorem selectCoinsAndFee_subset {maxOutputs changeOutputs total sent fee : Nat}
    {coins : List (OutputData E)}
    (h : selectCoinsAndFee C s amount amountIncludesFee currentHeight minimumConfirmations
      maxOutputs changeOutputs selectAll parentKeyId = .ok (coins, total, sent, fee)) :
    coins ⊆ eligibleOutputs s currentHeight minimumConfirmations parentKeyId :=
  (selectCoinsAndFee_selects h).1.subset

end Select

/-! ## What building writes -/

/-- The outputs and the contexts are the same. -/
def SameRecords (w w' : WalletBackend F E) : Prop :=
  w'.store.outputs = w.store.outputs ∧ w'.store.contexts = w.store.contexts

instance : Std.Refl (SameRecords (F := F) (E := E)) := ⟨fun _ => ⟨rfl, rfl⟩⟩

instance : IsTrans (WalletBackend F E) SameRecords :=
  ⟨fun _ _ _ h h' => ⟨h'.1.trans h.1, h'.2.trans h.2⟩⟩

theorem nextChild_moves : Eff.Moves SameRecords (nextChild (F := F) (E := E)) := by
  intro w
  by_cases h : 4 ≤ w.parentKeyId.depth
  · rw [run_nextChild_deep h]
    exact ⟨rfl, rfl⟩
  · rw [run_nextChild (by omega)]
    exact ⟨rfl, rfl⟩

theorem deriveChange_moves (amounts : List Nat) :
    Eff.Moves SameRecords (deriveChange (F := F) (E := E) amounts) := by
  induction amounts with
  | nil => exact Eff.Moves.pure _
  | cons a as ih =>
      exact nextChild_moves.bind fun _ => ih.bind fun _ => Eff.Moves.pure _

theorem inputsAndChange_moves (coins : List (OutputData E)) (amount fee n : Nat) (all : Bool) :
    Eff.Moves SameRecords (inputsAndChange (F := F) coins amount fee n all) := by
  refine Eff.Moves.ite (fun _ => Eff.Moves.pure _) fun _ => ?_
  refine Eff.Moves.ite (fun _ => Eff.Moves.throw_bind _ _) fun _ => ?_
  refine Eff.Moves.ite (fun _ => Eff.Moves.throw_bind _ _) fun _ => ?_
  exact (deriveChange_moves _).bind fun _ => Eff.Moves.pure _

/-- The elements of a send without inputs are its change outputs. -/
theorem inputsAndChange_parts (coins : List (OutputData E)) (amount fee n : Nat) :
    Eff.Yields (inputsAndChange (F := F) coins amount fee n false)
      fun r => r.1 = r.2.map fun (a, id, _) => Append.output a id := by
  refine Eff.Yields.ite (fun _ => Eff.Yields.pure rfl) fun _ => ?_
  refine Eff.Yields.ite (fun _ => Eff.Yields.throw_bind _ _) fun _ => ?_
  refine Eff.Yields.ite (fun _ => Eff.Yields.throw_bind _ _) fun _ => ?_
  exact Eff.Yields.bind_of_forall fun change => Eff.Yields.pure rfl

theorem selectSendTx_moves (C : Consensus F E)
    (amount currentHeight minimumConfirmations maxOutputs changeOutputs : Nat) (inc all : Bool)
    (p : Identifier) (b : Bool) :
    Eff.Moves SameRecords (selectSendTx (F := F) C amount inc currentHeight minimumConfirmations
      maxOutputs changeOutputs all p b) := by
  refine Eff.Moves.read.bind fun w => (Eff.Moves.ofExcept _).bind fun sel => ?_
  obtain ⟨coins, total, amount, fee⟩ := sel
  refine (inputsAndChange_moves _ _ _ _ _).bind fun r => ?_
  obtain ⟨parts, change⟩ := r
  exact Eff.Moves.pure _

/-- What a selection returns: records of the store, and no element but change outputs. -/
def SelectedFrom (s : Store E)
    (r : List Append × List (OutputData E) × List (Nat × Identifier × Option Nat) × Nat) : Prop :=
  (∀ o ∈ r.2.1, o ∈ s.outputs) ∧ r.1 = r.2.2.1.map fun (a, id, _) => Append.output a id

theorem selectSendTx_selects (C : Consensus F E)
    (amount currentHeight minimumConfirmations maxOutputs changeOutputs : Nat) (inc all : Bool)
    (p : Identifier) (w : WalletBackend F E) :
    Eff.Triple (fun t => t = w) (selectSendTx C amount inc currentHeight minimumConfirmations
      maxOutputs changeOutputs all p false) (fun r _ => SelectedFrom w.store r)
      (fun _ => True) := by
  refine (Eff.Triple.read (Q := fun t _ => t = w) fun _ h => h).bind fun t => ?_
  refine Eff.Triple.of_assumption fun ht => Eff.Triple.of_yields ?_
  subst ht
  refine (Eff.Yields.ofExcept (Q := fun r => ∀ o ∈ r.1, o ∈ t.store.outputs)
    fun r hr o ho => ?_).bind fun r hr => ?_
  · exact List.mem_of_mem_filter (selectCoinsAndFee_subset hr ho)
  · obtain ⟨coins, total, amount, fee⟩ := r
    refine (inputsAndChange_parts _ _ _ _).bind fun r' hr' => ?_
    obtain ⟨parts, change⟩ := r'
    exact Eff.Yields.pure ⟨hr, hr'⟩

section Build

variable [CommRing F] [AddCommGroup E] [Module F E] [DecidableEq E]

/-- The slate and the context of a send that is built. -/
theorem buildSendTx_eq_ok {env : Env F E} {d : SecretKey × SecretKey} {slate s' : Slate F E}
    {c : Context E} {currentHeight minimumConfirmations maxOutputs changeOutputs : Nat}
    {all inc : Bool} {fixed : Option Nat} {p : Identifier} {w w' : WalletBackend F E}
    (h : buildSendTx (env.drawing d) slate currentHeight minimumConfirmations maxOutputs
      changeOutputs all fixed p inc w = (.ok (s', c), w')) (hplain : slate.kernelFeatures = 0) :
    ∃ tx amount fee inputIds outputIds,
      slate.tx = some tx ∧ (∀ q ∈ inputIds, Held w'.store q) ∧ SameRecords w w' ∧
        s' = { slate with
          amount := amount
          feeFields := fee
          tx := some { tx with
            outputs := insertAll tx.outputs (outputIds.map (outputFor env.keychain))
            kernels := [⟨.Plain fee, 0, ⟨0, 0⟩⟩] } } ∧
        c = { (Context.withExcess d.1 d.2 p : Context E) with
          amount := amount
          fee := some fee
          inputIds := inputIds
          outputIds := outputIds } := by
  obtain ⟨⟨elems, coins, change, fee⟩, w₁, hselect, hr₁⟩ := Eff.bind_eq_ok.mp h
  obtain ⟨_, w₂, h₂, hr₂⟩ := Eff.bind_eq_ok.mp hr₁
  obtain ⟨_, w₃, h₃, hr₃⟩ := Eff.bind_eq_ok.mp hr₂
  obtain ⟨feeFields, w₄, h₄, hr₄⟩ := Eff.bind_eq_ok.mp hr₃
  obtain ⟨s₁, w₅, h₅, hr₅⟩ := Eff.bind_eq_ok.mp hr₄
  obtain ⟨c₁, w₆, h₆, hend⟩ := Eff.bind_eq_ok.mp hr₅
  obtain ⟨hcoins, helems⟩ := (selectSendTx_selects _ _ _ _ _ _ _ _ _ w).ok rfl hselect
  have hparts : elems = change.map fun (a, id, _) => Append.output a id := helems
  have hsame := (selectSendTx_moves _ _ _ _ _ _ _ _ _ _).of_run hselect
  obtain ⟨-, rfl⟩ := Eff.throwIf_eq_ok.mp h₂
  obtain ⟨-, rfl⟩ := Eff.throwIf_eq_ok.mp h₃
  obtain ⟨-, rfl⟩ := Eff.ofExcept_eq_ok.mp h₄
  obtain ⟨hadd, rfl⟩ := Eff.ofExcept_eq_ok.mp h₅
  rw [Env.drawing_keychain] at hadd
  obtain ⟨tx, features, htx, hfeatures, hs₁⟩ := Slate.addTransactionElements_eq_ok hadd
  cases h₆
  cases hend
  have hplain' : features = .Plain feeFields :=
    Except.ok.inj (hfeatures.symm.trans (by exact Slate.kernelFeaturesOf_plain hplain))
  have houts : elems.filterMap (Append.output? env.keychain)
      = (change.map fun (amount, id, mmrIndex) => (id, mmrIndex, amount)).map
          (outputFor env.keychain) := by
    rw [hparts, List.filterMap_map, List.map_map, ← List.filterMap_eq_map]
    rfl
  have hins : elems.filterMap (Append.input? env.keychain) = [] := by
    rw [hparts, List.filterMap_map]
    exact List.filterMap_eq_nil_iff.mpr fun _ _ => rfl
  refine ⟨tx, s'.amount, feeFields, coins.map fun i => (i.keyId, i.mmrIndex, i.value),
    change.map fun (amount, id, mmrIndex) => (id, mmrIndex, amount), htx, ?_, hsame, ?_, ?_⟩
  · intro q hq
    obtain ⟨o, ho, rfl⟩ := List.mem_map.mp hq
    have hmem := hcoins o ho
    rw [← hsame.1] at hmem
    exact ⟨o, Table.find_eq_some.mpr ⟨hmem, rfl⟩⟩
  · rw [hs₁, partialTransaction_eq, hplain', hins, ← houts]
    rfl
  · rw [sendContext_eq, hs₁]
    rfl

/-- The slate, the key, the context and the log record of a recipient's output,
and what they leave in the tables. -/
theorem buildRecipientOutput_eq_ok {env : Env F E} {d : SecretKey × SecretKey}
    {slate s' : Slate F E} {id : Identifier} {c : Context E} {t : TxLogEntry E}
    {currentHeight : Nat} {p : Identifier} {w w' : WalletBackend F E}
    (h : buildRecipientOutput (env.drawing d) slate currentHeight p w = (.ok (s', id, c, t), w'))
    (hplain : slate.kernelFeatures = 0) :
    ∃ tx, slate.tx = some tx ∧ id = w.parentKeyId.child (w.store.childIndex w.parentKeyId) ∧
      s' = { slate with
        tx := some { tx with
          outputs := insertAll tx.outputs [outputFor env.keychain (id, none, slate.amount)]
          kernels := [⟨.Plain slate.feeFields, 0, ⟨0, 0⟩⟩] } } ∧
      c = { (Context.withExcess d.1 d.2 p : Context E) with
        amount := slate.amount
        fee := slate.feeFields.asOpt
        outputIds := [(id, none, slate.amount)] } ∧
      Lasting w'.store id ∧ w'.store.contexts = w.store.contexts := by
  obtain ⟨keyId, w₁, h₁, hr₁⟩ := Eff.bind_eq_ok.mp h
  obtain ⟨s₁, w₂, h₂, hr₂⟩ := Eff.bind_eq_ok.mp hr₁
  obtain ⟨c₁, w₃, h₃, hr₃⟩ := Eff.bind_eq_ok.mp hr₂
  obtain ⟨now, w₄, h₄, hr₄⟩ := Eff.bind_eq_ok.mp hr₃
  obtain ⟨t₁, w₅, h₅, hend⟩ := Eff.bind_eq_ok.mp hr₄
  have hkey : keyId = w.parentKeyId.child (w.store.childIndex w.parentKeyId) := by
    by_cases hdeep : 4 ≤ w.parentKeyId.depth
    · rw [run_nextChild_deep hdeep] at h₁
      cases h₁
    · rw [run_nextChild (by omega)] at h₁
      exact (Except.ok.inj (congrArg Prod.fst h₁)).symm
  have hsame := nextChild_moves.of_run h₁
  obtain ⟨hadd, hw₂⟩ := Eff.ofExcept_eq_ok.mp h₂
  rw [Env.drawing_keychain] at hadd
  obtain ⟨tx, features, htx, hfeatures, hs₁⟩ := Slate.addTransactionElements_eq_ok hadd
  have hplain' : features = .Plain slate.feeFields :=
    Except.ok.inj (hfeatures.symm.trans (by exact Slate.kernelFeaturesOf_plain hplain))
  cases h₃
  cases h₄
  cases h₅
  cases hend
  refine ⟨tx, htx, hkey, ?_, ?_, ?_, ?_⟩
  · rw [hs₁, partialTransaction_eq, hplain']
    rfl
  · rw [hs₁]
    rfl
  · exact ⟨_, Table.mem_put.mpr (.inl rfl), rfl, .inl rfl⟩
  · change w₂.store.contexts = w.store.contexts
    rw [hw₂]
    exact hsame.2

end Build

end Selection

end GrinWallet
