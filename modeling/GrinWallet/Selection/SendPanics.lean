import GrinWallet.Model.Tx
import GrinWallet.Selection.Panics

/-! # When building a send panics

Making the slate, deriving the change and building the send with the same checks.
The child index of the account is a `u32` that counts up, and the path of a child
has a place for it below four levels only.
-/

namespace GrinWallet

open Effect WalletBackend SmallestFirst

namespace Checked

open Selection (worth worth_cons ranked ranked_perm appendInput sendContext feeFieldsUnwrap)

variable {F E : Type}

def nextChild : WalletM F E Identifier := do
  let w ← Eff.read
  let parentKeyId := w.parentKeyId
  let derivIdx := w.store.childIndex parentKeyId
  if 4 ≤ parentKeyId.depth then
    throw (.Panic "index out of bounds")
  let next ← Eff.ofExcept (add32 derivIdx 1)
  commit fun s => s.saveChildIndex parentKeyId next
  return parentKeyId.child derivIdx

def deriveChange : List Nat → WalletM F E (List (Nat × Identifier × Option Nat))
  | [] => pure []
  | changeAmount :: amounts => do
      let changeKey ← nextChild
      let rest ← deriveChange amounts
      return (changeAmount, changeKey, none) :: rest

/-- The last amount is summed after the keys before it are taken, but it is at most
the change and always fits. -/
def inputsAndChange (coins : List (OutputData E)) (amount fee numChangeOutputs : Nat)
    (includeInputsInSum : Bool) :
    WalletM F E (List Append × List (Nat × Identifier × Option Nat)) := do
  let amounts ← Eff.ofExcept (changeAmounts coins amount fee numChangeOutputs)
  let inputs := if includeInputsInSum then coins.map appendInput else []
  let derivations ← deriveChange amounts
  return (inputs ++ derivations.map fun (a, id, _) => Append.output a id, derivations)

def selectSendTx (C : Consensus F E) (amount : Nat) (amountIncludesFee : Bool)
    (currentHeight minimumConfirmations maxOutputs changeOutputs : Nat) (selectAll : Bool)
    (parentKeyId : Identifier) (includeInputsInSum : Bool) :
    WalletM F E
      (List Append × List (OutputData E) × List (Nat × Identifier × Option Nat) × Nat) := do
  let w ← Eff.read
  let (coins, _, amount, fee) ← Eff.ofExcept (selectCoinsAndFee C w.store amount
    amountIncludesFee currentHeight minimumConfirmations maxOutputs changeOutputs selectAll
    parentKeyId)
  let (parts, change) ← inputsAndChange coins amount fee changeOutputs includeInputsInSum
  return (parts, coins, change, fee)

/-- The cutoff height of `new_tx_slate`. -/
def ttlCutoffHeight (currentHeight : Nat) (ttlBlocks : Option Nat) : Except Error Nat :=
  match ttlBlocks with
  | some b => add currentHeight b
  | none => .ok 0

section Build

variable [CommRing F] [AddCommGroup E] [Module F E] [DecidableEq E]

/-- The part of `build_send_tx` after the selection. -/
def buildSelected (env : Env F E) (slate : Slate F E) (fixedFee : Option Nat)
    (parentKeyId : Identifier) (amountIncludesFee : Bool)
    (selected : List Append × List (OutputData E) × List (Nat × Identifier × Option Nat) × Nat) :
    WalletM F E (Slate F E × Context E) := do
  let (elems, inputs, change, fee) := selected
  Eff.throwIf (amountIncludesFee ∧ slate.amount < fee)
    (.GenericError "Transaction amount is too small to include fee")
  let slate := { slate with amount := if amountIncludesFee then slate.amount - fee else slate.amount }
  Eff.throwIf (fixedFee.any (fee ≠ ·)) (.Fee "The initially selected fee is not sufficient")
  let feeFields ← Eff.ofExcept (feeFieldsUnwrap fee)
  let slate := { slate with feeFields := feeFields }
  let slate ← Eff.ofExcept (slate.addTransactionElements env.keychain elems)
  let context ← newContext env parentKeyId
  return (slate, sendContext context slate inputs change)

def buildSendTx (env : Env F E) (slate : Slate F E)
    (currentHeight minimumConfirmations maxOutputs changeOutputs : Nat) (selectAll : Bool)
    (fixedFee : Option Nat) (parentKeyId : Identifier) (amountIncludesFee : Bool) :
    WalletM F E (Slate F E × Context E) := do
  let selected ← selectSendTx env.consensus slate.amount amountIncludesFee currentHeight
    minimumConfirmations maxOutputs changeOutputs selectAll parentKeyId false
  buildSelected env slate fixedFee parentKeyId amountIncludesFee selected

def newTxSlate (env : Env F E) (amount : Nat) (isInvoice : Bool) (numParticipants : Nat)
    (ttlBlocks : Option Nat) : WalletM F E (Slate F E) := do
  let (currentHeight, _) ← getChainTip env
  let id ← freshUuid env
  let slate : Slate F E := Slate.blank numParticipants isInvoice id
  let cutoff ← Eff.ofExcept (ttlCutoffHeight currentHeight ttlBlocks)
  let version := fun v n => if env.consensus.validHeaderVersion currentHeight n then n else v
  return { slate with
    ttlCutoffHeight := cutoff
    amount := amount
    blockHeaderVersion := version (version (version slate.blockHeaderVersion 1) 2) 3
    kernelFeatures := 0 }

end Build

/-! ## Checked runs that do not panic are the wallet's -/

/-- What runs checked without a panic runs the same unchecked, and leaves the same
wallet. -/
def RunsAgree {α : Type} (x y : WalletM F E α) : Prop := ∀ w, NoPanic (x w).1 → x w = y w

theorem noPanic_run_bind {α β : Type} {x : WalletM F E α} {f : α → WalletM F E β}
    {w : WalletBackend F E} :
    NoPanic ((x >>= f) w).1 ↔
      NoPanic (x w).1 ∧ ∀ a w', x w = (.ok a, w') → NoPanic (f a w').1 := by
  cases hx : x w with
  | mk r w' =>
      cases r with
      | error e =>
          rw [Eff.run_bind_error hx, noPanic_error, noPanic_error]
          exact (and_iff_left fun a w' heq => by cases heq).symm
      | ok a =>
          rw [Eff.run_bind_ok hx]
          refine ⟨fun h => ⟨noPanic_ok a, fun b w'' heq => ?_⟩, fun h => h.2 a w' rfl⟩
          cases heq
          exact h

namespace RunsAgree

variable {α β : Type} {x y : WalletM F E α} {f g : α → WalletM F E β}

theorem refl (x : WalletM F E α) : RunsAgree x x := fun _ _ => rfl

theorem ofExcept {r r' : Except Error α} (h : Agrees r r') :
    RunsAgree (F := F) (E := E) (Eff.ofExcept r) (Eff.ofExcept r') := by
  intro w hno
  rw [Eff.run_ofExcept, Eff.run_ofExcept, h hno]

theorem bind (hx : RunsAgree x y) (hf : ∀ a, RunsAgree (f a) (g a)) :
    RunsAgree (x >>= f) (y >>= g) := by
  intro w h
  obtain ⟨hleft, hright⟩ := noPanic_run_bind.mp h
  have heq := hx w hleft
  cases hy : y w with
  | mk r w' =>
      rw [hy] at heq
      cases r with
      | error e => rw [Eff.run_bind_error heq, Eff.run_bind_error hy]
      | ok a =>
          rw [Eff.run_bind_ok heq, Eff.run_bind_ok hy]
          exact hf a w' (hright a w' heq)

/-- A checked value before a run that takes it for granted. -/
theorem value {r : Except Error α} {v : α} {y : WalletM F E β} (hr : Agrees r (.ok v))
    (hf : RunsAgree (f v) y) : RunsAgree (Eff.ofExcept r >>= f) y := by
  intro w h
  obtain ⟨hleft, hright⟩ := noPanic_run_bind.mp h
  have heq : Eff.ofExcept r w = (.ok v, w) := by rw [Eff.run_ofExcept, hr hleft]
  rw [Eff.run_bind_ok heq]
  exact hf w (hright v w heq)

end RunsAgree

theorem nextChild_agrees : RunsAgree (nextChild : WalletM F E Identifier) WalletBackend.nextChild := by
  intro w
  by_cases hdepth : 4 ≤ w.parentKeyId.depth
  · rw [run_nextChild_deep hdepth, nextChild, Eff.run_bind_ok (Eff.run_read w), if_pos hdepth]
    exact fun _ => rfl
  rw [run_nextChild (not_le.mp hdepth), nextChild, Eff.run_bind_ok (Eff.run_read w), if_neg hdepth]
  by_cases hfit : w.store.childIndex w.parentKeyId + 1 < 2 ^ 32
  · rw [add32, if_pos hfit]
    intro _
    rw [afterNextChild, u32_of_lt hfit]
    rfl
  · rw [add32, if_neg hfit]
    exact fun h => absurd h (not_noPanic _)

theorem deriveChange_agrees (amounts : List Nat) :
    RunsAgree (deriveChange amounts : WalletM F E _) (Selection.deriveChange amounts) := by
  induction amounts with
  | nil => exact .refl _
  | cons a amounts ih => exact nextChild_agrees.bind fun _ => ih.bind fun _ => .refl _

/-- Change that covers the amount and the fee splits as it does unchecked, unless
there is less of it than outputs to make. -/
theorem changeAmounts_eq {coins : List (OutputData E)} {sent fee n : Nat}
    (hworth : worth coins < 2 ^ 64) (hcover : sent + fee ≤ worth coins) :
    changeAmounts coins sent fee n =
      if worth coins - (sent + fee) = 0 then .ok []
      else if n = 0 then .error (.Panic "attempt to divide by zero")
      else if (worth coins - (sent + fee)) / n = 0 then
        .error (.Panic "attempt to calculate the remainder with a divisor of zero")
      else .ok (Selection.changeAmounts (worth coins - (sent + fee)) n) := by
  have hrest : sub (worth coins) sent = .ok (worth coins - sent) := if_pos (by omega)
  have hchange : sub (worth coins - sent) fee = .ok (worth coins - (sent + fee)) := by
    rw [sub, if_pos (by omega), Nat.sub_sub]
  have hrun : changeAmounts coins sent fee n =
      let change := worth coins - (sent + fee)
      if change = 0 then .ok []
      else if n = 0 then .error (.Panic "attempt to divide by zero")
      else if change / n = 0 then
        .error (.Panic "attempt to calculate the remainder with a divisor of zero")
      else add (change / n) (change % (change / n)) >>= fun last =>
        .ok ((List.range n).map fun x => if x = n - 1 then last else change / n) := by
    rw [changeAmounts, sumValues_eq, if_pos hworth]
    show (sub (worth coins) sent >>= _) = _
    rw [hrest]
    show (sub (worth coins - sent) fee >>= _) = _
    rw [hchange]
    rfl
  rw [hrun]
  simp only
  generalize hleft : worth coins - (sent + fee) = change
  by_cases hpart : change / n = 0
  · rw [if_pos hpart, if_pos hpart]
  have hle := Selection.part_add_remainder_le (Nat.pos_of_ne_zero hpart)
  rw [show add (change / n) (change % (change / n))
    = .ok (change / n + change % (change / n)) from if_pos (by omega)]
  rw [show Selection.changeAmounts change n = (List.range n).map fun x =>
    if x = n - 1 then change / n + change % (change / n) else change / n from ?_]
  · rfl
  refine List.map_congr_left fun x _ => ?_
  simp only [Selection.changeAmount, u64_of_lt (show change / n + change % (change / n) < 2 ^ 64 by
    omega)]

/-- Only coins that cover the amount and the fee leave a change to split. -/
theorem covers_of_noPanic {coins : List (OutputData E)} {sent fee n : Nat}
    (h : NoPanic (changeAmounts coins sent fee n)) :
    worth coins < 2 ^ 64 ∧ sent + fee ≤ worth coins := by
  rw [changeAmounts, sumValues_eq] at h
  by_cases hworth : worth coins < 2 ^ 64
  case neg =>
    rw [if_neg hworth] at h
    exact absurd h (not_noPanic _)
  rw [if_pos hworth] at h
  replace h : NoPanic (sub (worth coins) sent >>= _) := h
  rw [sub] at h
  by_cases hamount : sent ≤ worth coins
  case neg =>
    rw [if_neg hamount] at h
    exact absurd h (not_noPanic _)
  rw [if_pos hamount] at h
  replace h : NoPanic (sub (worth coins - sent) fee >>= _) := h
  rw [sub] at h
  by_cases hfee : fee ≤ worth coins - sent
  · exact ⟨hworth, by omega⟩
  · rw [if_neg hfee] at h
    exact absurd h (not_noPanic _)

theorem inputsAndChange_agrees (coins : List (OutputData E)) (sent fee n : Nat) (b : Bool) :
    RunsAgree (inputsAndChange coins sent fee n b : WalletM F E _)
      (Selection.inputsAndChange coins sent fee n b) := by
  intro w h
  have hamounts : NoPanic (changeAmounts coins sent fee n) := (noPanic_run_bind.mp h).1
  obtain ⟨hworth, hcover⟩ := covers_of_noPanic hamounts
  have hsum : Selection.sumValues coins = worth coins := Selection.sumValues_eq_worth hworth
  have hleft := Selection.wrappingSub_change (Selection.sumValues_lt coins)
    (show sent + fee ≤ Selection.sumValues coins by omega)
  rw [inputsAndChange, changeAmounts_eq hworth hcover] at h ⊢
  rw [changeAmounts_eq hworth hcover] at hamounts
  rw [hsum] at hleft
  unfold Selection.inputsAndChange
  simp only [hsum, hleft]
  generalize worth coins - (sent + fee) = change at *
  by_cases hzero : change = 0
  · rw [if_pos hzero, if_pos hzero]
    show (Except.ok (_ ++ [], _), w) = (Except.ok (_, _), w)
    rw [List.append_nil]
  rw [if_neg hzero] at hamounts h ⊢
  by_cases hn : n = 0
  · rw [if_pos hn] at hamounts
    exact absurd hamounts (not_noPanic _)
  rw [if_neg hn] at hamounts h ⊢
  by_cases hpart : change / n = 0
  · rw [if_pos hpart] at hamounts
    exact absurd hamounts (not_noPanic _)
  rw [if_neg hpart] at h ⊢
  rw [if_neg hzero, if_neg hn, if_neg hpart]
  exact ((deriveChange_agrees _).bind fun _ => .refl _) w h

theorem selectSendTx_agrees (C : Consensus F E) (amount : Nat) (amountIncludesFee : Bool)
    (currentHeight minimumConfirmations maxOutputs changeOutputs : Nat) (selectAll : Bool)
    (parentKeyId : Identifier) (b : Bool) :
    RunsAgree
      (selectSendTx C amount amountIncludesFee currentHeight minimumConfirmations maxOutputs
        changeOutputs selectAll parentKeyId b)
      (Selection.selectSendTx C amount amountIncludesFee currentHeight minimumConfirmations
        maxOutputs changeOutputs selectAll parentKeyId b) := by
  refine RunsAgree.bind (.refl _) fun w => ?_
  refine (RunsAgree.ofExcept (selectCoinsAndFee_agrees C w.store amount amountIncludesFee
    currentHeight minimumConfirmations maxOutputs changeOutputs selectAll parentKeyId)).bind ?_
  rintro ⟨coins, total, sent, fee⟩
  exact (inputsAndChange_agrees coins sent fee changeOutputs b).bind fun _ => .refl _

section Build

variable [CommRing F] [AddCommGroup E] [Module F E] [DecidableEq E] (env : Env F E)

theorem buildSendTx_agrees (slate : Slate F E)
    (currentHeight minimumConfirmations maxOutputs changeOutputs : Nat) (selectAll : Bool)
    (fixedFee : Option Nat) (parentKeyId : Identifier) (amountIncludesFee : Bool) :
    RunsAgree
      (buildSendTx env slate currentHeight minimumConfirmations maxOutputs changeOutputs selectAll
        fixedFee parentKeyId amountIncludesFee)
      (Selection.buildSendTx env slate currentHeight minimumConfirmations maxOutputs changeOutputs
        selectAll fixedFee parentKeyId amountIncludesFee) :=
  (selectSendTx_agrees _ _ _ _ _ _ _ _ _ _).bind fun _ => .refl _

omit [AddCommGroup E] [Module F E] [DecidableEq E] in
theorem newTxSlate_agrees (amount : Nat) (isInvoice : Bool) (numParticipants : Nat)
    (ttlBlocks : Option Nat) :
    RunsAgree (newTxSlate env amount isInvoice numParticipants ttlBlocks)
      (Tx.newTxSlate env amount isInvoice numParticipants ttlBlocks) := by
  refine RunsAgree.bind (.refl _) fun tip => RunsAgree.bind (.refl _) fun id => ?_
  cases ttlBlocks with
  | none => exact .value (.refl _) (.refl _)
  | some b => exact .value (add_agrees _ _) (.refl _)

end Build

/-! ## Keys, change and fee of the coins chosen -/

/-- The active account has a path with room for a child, and `n` more child indices. -/
def KeysLeft (w : WalletBackend F E) (n : Nat) : Prop :=
  w.parentKeyId.depth < 4 ∧ w.store.childIndex w.parentKeyId + n < 2 ^ 32

theorem deriveChange_cases (w : WalletBackend F E) (amounts : List Nat) :
    ((amounts = [] ∨ KeysLeft w amounts.length) ∧
      ∃ change w', deriveChange amounts w = (.ok change, w')) ∨
    (¬ (amounts = [] ∨ KeysLeft w amounts.length) ∧
      ∃ text w', deriveChange amounts w = (.error (.Panic text), w')) := by
  induction amounts generalizing w with
  | nil => exact .inl ⟨.inl rfl, [], w, rfl⟩
  | cons a amounts ih =>
      rw [List.length_cons]
      unfold KeysLeft
      by_cases hdepth : w.parentKeyId.depth < 4
      case neg =>
        have hrun : nextChild w = (.error (.Panic "index out of bounds"), w) := by
          rw [nextChild, Eff.run_bind_ok (Eff.run_read w), if_pos (not_lt.mp hdepth)]
          rfl
        refine .inr ⟨fun h => ?_, _, _, by rw [deriveChange, Eff.run_bind_error hrun]⟩
        rcases h with h | h
        · cases h
        · exact hdepth h.1
      by_cases hindex : w.store.childIndex w.parentKeyId + 1 < 2 ^ 32
      case neg =>
        have hrun : nextChild w = (.error (.Panic "attempt to add with overflow"), w) := by
          rw [nextChild, Eff.run_bind_ok (Eff.run_read w), if_neg (not_le.mpr hdepth), add32,
            if_neg hindex]
          rfl
        refine .inr ⟨fun h => ?_, _, _, by rw [deriveChange, Eff.run_bind_error hrun]⟩
        rcases h with h | h
        · cases h
        · omega
      have hrun : nextChild w = (.ok (w.parentKeyId.child (w.store.childIndex w.parentKeyId)),
          afterNextChild w) := by
        have hagree := nextChild_agrees w
        rw [run_nextChild hdepth] at hagree
        refine hagree ?_
        rw [nextChild, Eff.run_bind_ok (Eff.run_read w), if_neg (not_le.mpr hdepth), add32,
          if_pos hindex]
        exact noPanic_ok _
      have hnext : (afterNextChild w).store.childIndex (afterNextChild w).parentKeyId
          = w.store.childIndex w.parentKeyId + 1 := by
        rw [← u32_of_lt hindex]
        simp [afterNextChild, Store.saveChildIndex]
      have hleft : (amounts = [] ∨ KeysLeft (afterNextChild w) amounts.length) ↔
          w.store.childIndex w.parentKeyId + (amounts.length + 1) < 2 ^ 32 := by
        unfold KeysLeft
        rw [hnext]
        constructor
        · rintro (rfl | h)
          · exact hindex
          · omega
        · exact fun h => .inr ⟨hdepth, by omega⟩
      rcases ih (afterNextChild w) with ⟨hok, rest, w', hrest⟩ | ⟨hno, text, w', hrest⟩
      · refine .inl ⟨.inr ⟨hdepth, hleft.mp hok⟩, ?_⟩
        rw [deriveChange]
        exact Eff.exists_run_bind_ok hrun (Eff.exists_run_bind_ok hrest ⟨_, w', rfl⟩)
      · refine .inr ⟨fun h => hno (hleft.mpr ?_), text, w', ?_⟩
        · rcases h with h | h
          · cases h
          · exact h.2
        · rw [deriveChange, Eff.run_bind_ok hrun, Eff.run_bind_error hrest]

/-- What is left splits over the outputs asked for and each gets a key. -/
def Splits (w : WalletBackend F E) (change n : Nat) : Prop :=
  change = 0 ∨ 1 ≤ n ∧ n ≤ change ∧ KeysLeft w n

theorem inputsAndChange_cases (w : WalletBackend F E) {coins : List (OutputData E)}
    {sent fee n : Nat} (hworth : worth coins < 2 ^ 64) (hcover : sent + fee ≤ worth coins)
    (b : Bool) :
    (Splits w (worth coins - (sent + fee)) n ∧
      ∃ r w', inputsAndChange coins sent fee n b w = (.ok r, w')) ∨
    (¬ Splits w (worth coins - (sent + fee)) n ∧
      ∃ text w', inputsAndChange coins sent fee n b w = (.error (.Panic text), w')) := by
  rw [inputsAndChange, changeAmounts_eq hworth hcover]
  generalize worth coins - (sent + fee) = change
  unfold Splits
  by_cases hzero : change = 0
  · rw [if_pos hzero]
    exact .inl ⟨.inl hzero, _, w, rfl⟩
  rw [if_neg hzero]
  by_cases hn : n = 0
  · rw [if_pos hn]
    exact .inr ⟨by omega, _, w, rfl⟩
  rw [if_neg hn]
  by_cases hpart : change / n = 0
  · rw [if_pos hpart]
    have hlt : change < n := (Nat.div_eq_zero_iff_lt (by omega)).mp hpart
    exact .inr ⟨by omega, _, w, rfl⟩
  rw [if_neg hpart]
  have hge : n ≤ change := by
    by_contra hlt
    exact hpart (Nat.div_eq_of_lt (by omega))
  have hlen : (Selection.changeAmounts change n).length = n := by
    rw [Selection.changeAmounts, List.length_map, List.length_range]
  have hsome : Selection.changeAmounts change n ≠ [] := by
    intro h
    rw [h] at hlen
    exact hn hlen.symm
  rw [Eff.run_bind_ok (Eff.run_ofExcept _ w)]
  rcases deriveChange_cases w (Selection.changeAmounts change n) with
    ⟨hok, derived, w', hrun⟩ | ⟨hno, text, w', hrun⟩
  · rw [hlen] at hok
    exact .inl ⟨.inr ⟨by omega, hge, hok.resolve_left hsome⟩,
      Eff.exists_run_bind_ok hrun ⟨_, w', rfl⟩⟩
  · rw [hlen] at hno
    refine .inr ⟨fun h => hno (.inr ?_), text, w', ?_⟩
    · exact (h.resolve_left hzero).2.2
    · rw [Eff.run_bind_error hrun]

section Build

variable [CommRing F] [AddCommGroup E] [Module F E] [DecidableEq E]

theorem addTransactionElements_noPanic (K : Keychain F E) (slate : Slate F E)
    (elems : List Append) : NoPanic (slate.addTransactionElements K elems) := by
  have hupdate : NoPanic slate.updateKernel :=
    noPanic_bind.mpr ⟨slate.txOrErr_noPanic, fun tx _ =>
      noPanic_bind.mpr ⟨slate.kernelFeaturesOf_noPanic, fun _ _ => noPanic_ok _⟩⟩
  refine noPanic_bind.mpr ⟨hupdate, fun s _ => ?_⟩
  cases elems.isEmpty with
  | true => exact noPanic_ok s
  | false => exact noPanic_bind.mpr ⟨s.txOrErr_noPanic, fun _ _ => noPanic_ok _⟩

/-- After the selection only the conversion of the fee can panic. -/
theorem noPanic_buildSelected {env : Env F E} {slate : Slate F E} {fixedFee : Option Nat}
    {parentKeyId : Identifier} {amountIncludesFee : Bool} {elems : List Append}
    {inputs : List (OutputData E)} {change : List (Nat × Identifier × Option Nat)} {fee : Nat}
    {w : WalletBackend F E} :
    NoPanic (buildSelected env slate fixedFee parentKeyId amountIncludesFee
        (elems, inputs, change, fee) w).1 ↔
      (amountIncludesFee = true ∧ slate.amount < fee) ∨ fixedFee.any (fee ≠ ·) = true ∨
        0 < fee ∧ fee < 2 ^ 40 := by
  unfold buildSelected Eff.throwIf
  by_cases hpaid : amountIncludesFee = true ∧ slate.amount < fee
  · simp only [if_pos hpaid]
    exact iff_of_true (fun text h => by cases h) (.inl hpaid)
  by_cases hfixed : fixedFee.any (fee ≠ ·) = true
  · simp only [if_neg hpaid, if_pos hfixed]
    exact iff_of_true (fun text h => by cases h) (.inr (.inl hfixed))
  simp only [if_neg hpaid, if_neg hfixed]
  rw [or_iff_right hpaid, or_iff_right hfixed]
  show NoPanic ((Eff.ofExcept (feeFieldsUnwrap fee) >>= _) w).1 ↔ _
  rw [feeFieldsUnwrap, Selection.feeFieldsOf]
  by_cases hbad : fee = 0 ∨ FeeFields.feeMask < fee
  · rw [if_pos hbad]
    unfold FeeFields.feeMask at hbad
    exact iff_of_false (not_noPanic _) (by omega)
  · rw [if_neg hbad]
    unfold FeeFields.feeMask at hbad
    refine iff_of_true (noPanic_run_bind.mpr ⟨noPanic_ok _, fun f w₁ hf => ?_⟩) (by omega)
    refine noPanic_run_bind.mpr ⟨addTransactionElements_noPanic _ _ _, fun s w₂ hs => ?_⟩
    exact noPanic_run_bind.mpr ⟨noPanic_ok _, fun c w₃ hc => noPanic_ok _⟩

/-- What the chosen coins lead to without a panic: they are refused for their
weight or for a fee above the amount; or what they leave splits, and the fee is
neither zero nor above 40 bits unless a different one was fixed. -/
def Builds (C : Consensus F E) (w : WalletBackend F E) (amount : Nat) (amountIncludesFee : Bool)
    (changeOutputs : Nat) (fixedFee : Option Nat) (coins : List (OutputData E)) (outputs : Nat) :
    Prop :=
  let fee := cost C outputs coins.length
  let needed := need C amount amountIncludesFee outputs coins.length
  C.maxTxWeight < weightByIok coins.length
      (if worth coins = needed then 1 else changeOutputs + 1) 1 ∨
    (amountIncludesFee = true ∧ amount < fee) ∨
    (Splits w (worth coins - needed) changeOutputs ∧
      (fixedFee.any (fee ≠ ·) = true ∨ 0 < fee ∧ fee < 2 ^ 40))

section Send

variable {env : Env F E} {w : WalletBackend F E} {slate : Slate F E}
  {currentHeight minimumConfirmations m changeOutputs : Nat}
  {amountIncludesFee selectAll : Bool} {parentKeyId : Identifier} {fixedFee : Option Nat}

omit [CommRing F] [AddCommGroup E] [Module F E] [DecidableEq E] in
/-- The selection after the coins and their fee are found. -/
theorem selectCoinsAndFee_eq {C : Consensus F E} {s : Store E} {amount : Nat}
    {coins : List (OutputData E)} {outputs : Nat} (hchange : changeOutputs + 1 < 2 ^ 64)
    (hworth : worth coins < 2 ^ 64) (hcost : cost C outputs coins.length < 2 ^ 64)
    (houtputs : 1 ≤ outputs)
    (hc : coinsAndFee C s amount amountIncludesFee currentHeight minimumConfirmations m
      changeOutputs selectAll parentKeyId = .ok (coins, cost C outputs coins.length, worth coins,
        need C amount amountIncludesFee outputs coins.length)) :
    selectCoinsAndFee C s amount amountIncludesFee currentHeight minimumConfirmations m
        changeOutputs selectAll parentKeyId
      = Selection.checkWeight C amountIncludesFee coins (if worth coins
            = need C amount amountIncludesFee outputs coins.length then 1 else changeOutputs + 1)
          >>= fun _ =>
            if amountIncludesFee then
              if amount < cost C outputs coins.length then
                .error (.GenericError "Transaction amount is too small to include fee")
              else .ok (coins, worth coins, amount - cost C outputs coins.length,
                cost C outputs coins.length)
            else .ok (coins, worth coins, amount, cost C outputs coins.length) := by
  have hless := cost_mono C houtputs (le_refl coins.length)
  rw [← checkWeight_eq C amountIncludesFee hworth (by omega), selectCoinsAndFee, hc]
  show (add changeOutputs 1 >>= _) = _
  rw [show add changeOutputs 1 = .ok (changeOutputs + 1) from if_pos hchange]
  rfl

/-- A selection that fails ends the send with its error. -/
theorem buildSendTx_of_error {e : Error}
    (h : selectCoinsAndFee env.consensus w.store slate.amount amountIncludesFee currentHeight
      minimumConfirmations m changeOutputs selectAll parentKeyId = .error e) :
    buildSendTx env slate currentHeight minimumConfirmations m changeOutputs selectAll fixedFee
        parentKeyId amountIncludesFee w = (.error e, w) := by
  refine Eff.run_bind_error ?_
  rw [selectSendTx, Eff.run_bind_ok (Eff.run_read w), h]
  rfl

/-- A selection that succeeds leaves the change and the fee to panic. -/
theorem noPanic_buildSendTx_of_ok {coins : List (OutputData E)} {sent fee : Nat}
    (hworth : worth coins < 2 ^ 64) (hcover : sent + fee ≤ worth coins)
    (hpaid : ¬ (amountIncludesFee = true ∧ slate.amount < fee))
    (h : selectCoinsAndFee env.consensus w.store slate.amount amountIncludesFee currentHeight
      minimumConfirmations m changeOutputs selectAll parentKeyId
        = .ok (coins, worth coins, sent, fee)) :
    NoPanic (buildSendTx env slate currentHeight minimumConfirmations m changeOutputs selectAll
        fixedFee parentKeyId amountIncludesFee w).1 ↔
      Splits w (worth coins - (sent + fee)) changeOutputs ∧
        (fixedFee.any (fee ≠ ·) = true ∨ 0 < fee ∧ fee < 2 ^ 40) := by
  have hselect : selectSendTx env.consensus slate.amount amountIncludesFee currentHeight
      minimumConfirmations m changeOutputs selectAll parentKeyId false w
      = (inputsAndChange coins sent fee changeOutputs false >>= fun (parts, change) =>
          pure (parts, coins, change, fee)) w := by
    rw [selectSendTx, Eff.run_bind_ok (Eff.run_read w), h]
    rfl
  rcases inputsAndChange_cases w hworth hcover (n := changeOutputs) false with
    ⟨hsplits, ⟨parts, change⟩, w', hrun⟩ | ⟨hsplits, text, w', hrun⟩
  · rw [Eff.run_bind_ok hrun] at hselect
    rw [and_iff_right hsplits, buildSendTx, Eff.run_bind_ok hselect, noPanic_buildSelected,
      or_iff_right hpaid]
  · rw [Eff.run_bind_error hrun] at hselect
    rw [buildSendTx, Eff.run_bind_error hselect]
    exact iff_of_false (not_noPanic _) fun hok => hsplits hok.1

/-- After the coins are found only their change and their fee can panic. -/
theorem noPanic_buildSendTx {coins : List (OutputData E)} {outputs : Nat}
    (hchange : changeOutputs + 1 < 2 ^ 64) (hworth : worth coins < 2 ^ 64)
    (hcost : cost env.consensus outputs coins.length < 2 ^ 64) (houtputs : 1 ≤ outputs)
    (hcover : need env.consensus slate.amount amountIncludesFee outputs coins.length ≤ worth coins)
    (hc : coinsAndFee env.consensus w.store slate.amount amountIncludesFee currentHeight
      minimumConfirmations m changeOutputs selectAll parentKeyId
        = .ok (coins, cost env.consensus outputs coins.length, worth coins,
            need env.consensus slate.amount amountIncludesFee outputs coins.length)) :
    NoPanic (buildSendTx env slate currentHeight minimumConfirmations m changeOutputs selectAll
        fixedFee parentKeyId amountIncludesFee w).1 ↔
      Builds env.consensus w slate.amount amountIncludesFee changeOutputs fixedFee coins outputs := by
  have hselect := selectCoinsAndFee_eq hchange hworth hcost houtputs hc
  have hneeded : need env.consensus slate.amount amountIncludesFee outputs coins.length
      = if amountIncludesFee then slate.amount
        else slate.amount + cost env.consensus outputs coins.length := rfl
  unfold Builds
  simp only
  generalize cost env.consensus outputs coins.length = fee at hselect hneeded ⊢
  generalize need env.consensus slate.amount amountIncludesFee outputs coins.length = needed at *
  generalize (if worth coins = needed then 1 else changeOutputs + 1) = counted at hselect ⊢
  by_cases hheavy : env.consensus.maxTxWeight < weightByIok coins.length counted 1
  · rw [Selection.checkWeight, if_pos hheavy] at hselect
    rw [buildSendTx_of_error hselect]
    exact iff_of_true (fun text h => by cases h) (.inl hheavy)
  rw [Selection.checkWeight, if_neg hheavy] at hselect
  rw [or_iff_right hheavy]
  by_cases hflag : amountIncludesFee = true
  · rw [if_pos hflag] at hneeded
    replace hselect := hselect.trans (if_pos hflag)
    by_cases hpaid : slate.amount < fee
    · rw [if_pos hpaid] at hselect
      rw [buildSendTx_of_error hselect]
      exact iff_of_true (fun text h => by cases h) (.inl ⟨hflag, hpaid⟩)
    · rw [if_neg hpaid] at hselect
      have hno : ¬ (amountIncludesFee = true ∧ slate.amount < fee) := fun h => hpaid h.2
      have hsent : slate.amount - fee + fee = needed := by omega
      rw [noPanic_buildSendTx_of_ok hworth (by omega) hno hselect, hsent, or_iff_right hno]
  · rw [if_neg hflag] at hneeded
    replace hselect := hselect.trans (if_neg hflag)
    have hno : ¬ (amountIncludesFee = true ∧ slate.amount < fee) := fun h => hflag h.1
    rw [noPanic_buildSendTx_of_ok hworth (by omega) hno hselect, ← hneeded, or_iff_right hno]

end Send

/-! ## The whole send -/

omit [AddCommGroup E] [Module F E] [DecidableEq E] in
/-- A node that answers leaves the cutoff height to overflow. -/
theorem noPanic_newTxSlate {env : Env F E} {w : WalletBackend F E}
    (hnode : NoPanic (env.node w.tick).getChainTip) (amount : Nat) (isInvoice : Bool)
    (numParticipants : Nat) (ttlBlocks : Option Nat) :
    NoPanic (newTxSlate env amount isInvoice numParticipants ttlBlocks w).1 ↔
      ∀ tip hash b, (env.node w.tick).getChainTip = .ok (tip, hash) → ttlBlocks = some b →
        tip + b < 2 ^ 64 := by
  cases htip : (env.node w.tick).getChainTip with
  | error e =>
      have hrun : newTxSlate env amount isInvoice numParticipants ttlBlocks w
          = (.error e, { w with tick := w.tick + 1 }) := by
        refine Eff.run_bind_error ?_
        rw [getChainTip, ask, htip]
      rw [hrun]
      rw [htip] at hnode
      exact iff_of_true (noPanic_error.mpr (noPanic_error.mp hnode)) fun tip hash b h => by cases h
  | ok answer =>
      obtain ⟨tip, hash⟩ := answer
      have hrun : newTxSlate env amount isInvoice numParticipants ttlBlocks w
          = (freshUuid env >>= fun id => Eff.ofExcept (ttlCutoffHeight tip ttlBlocks) >>= fun cutoff =>
              let slate : Slate F E := Slate.blank numParticipants isInvoice id
              let version := fun v n => if env.consensus.validHeaderVersion tip n then n else v
              pure { slate with
                ttlCutoffHeight := cutoff
                amount := amount
                blockHeaderVersion := version (version (version slate.blockHeaderVersion 1) 2) 3
                kernelFeatures := 0 }) { w with tick := w.tick + 1 } := by
        have hask : getChainTip env w = (.ok (tip, hash), { w with tick := w.tick + 1 }) := by
          rw [getChainTip, ask, htip]
        rw [newTxSlate, Eff.run_bind_ok hask]
      rw [hrun]
      cases ttlBlocks with
      | none => exact iff_of_true (noPanic_ok _) fun tip' hash' b _ h => by cases h
      | some b =>
          by_cases hfit : tip + b < 2 ^ 64
          · rw [show ttlCutoffHeight tip (some b) = .ok (tip + b) from if_pos hfit]
            refine iff_of_true (noPanic_ok _) fun tip' hash' b' h hb => ?_
            cases h
            cases hb
            exact hfit
          · rw [show ttlCutoffHeight tip (some b) = .error (.Panic "attempt to add with overflow")
              from if_neg hfit]
            exact iff_of_false (not_noPanic _) fun h => hfit (h tip hash b rfl rfl)

omit [CommRing F] [AddCommGroup E] [Module F E] [DecidableEq E] in
/-- Building the inputs as well takes no further sum. -/
theorem noPanic_inputsAndChange (coins : List (OutputData E)) (sent fee n : Nat) (b b' : Bool)
    (w : WalletBackend F E) :
    NoPanic (inputsAndChange coins sent fee n b w).1 ↔
      NoPanic (inputsAndChange coins sent fee n b' w).1 := by
  simp only [inputsAndChange, noPanic_run_bind, Eff.run_pure, noPanic_ok]

/-- A build that does not panic selects and splits the change without a panic. -/
theorem noPanic_of_buildSendTx {env : Env F E} {w : WalletBackend F E} {slate : Slate F E}
    {currentHeight minimumConfirmations m changeOutputs : Nat}
    {amountIncludesFee selectAll : Bool} {parentKeyId : Identifier} {fixedFee : Option Nat}
    (h : NoPanic (buildSendTx env slate currentHeight minimumConfirmations m changeOutputs selectAll
      fixedFee parentKeyId amountIncludesFee w).1) :
    NoPanic (selectCoinsAndFee env.consensus w.store slate.amount amountIncludesFee currentHeight
        minimumConfirmations m changeOutputs selectAll parentKeyId) ∧
      ∀ coins total sent fee, selectCoinsAndFee env.consensus w.store slate.amount
          amountIncludesFee currentHeight minimumConfirmations m changeOutputs selectAll parentKeyId
            = .ok (coins, total, sent, fee) →
        ∀ b, NoPanic (inputsAndChange coins sent fee changeOutputs b w).1 := by
  have hselect := (noPanic_run_bind.mp h).1
  rw [selectSendTx, Eff.run_bind_ok (Eff.run_read w)] at hselect
  obtain ⟨hcoins, hsplit⟩ := noPanic_run_bind.mp hselect
  refine ⟨hcoins, fun coins total sent fee hok b => ?_⟩
  have hchange := hsplit _ w (Eff.ofExcept_eq_ok.mpr ⟨hok, rfl⟩)
  exact (noPanic_inputsAndChange coins sent fee changeOutputs b false w).mpr
    (noPanic_run_bind.mp hchange).1

omit [CommRing F] [AddCommGroup E] [Module F E] [DecidableEq E] in
/-- A selection counts the confirmations first, and a limit of no outputs then asks
for windows of length zero. -/
theorem selectCoins_panics {s : Store E} {currentHeight minimumConfirmations m : Nat}
    {parentKeyId : Identifier} (amount : Nat) (selectAll : Bool)
    (h : ¬ CountsFit s currentHeight parentKeyId ∨
      ¬ (m = 0 → ranked s currentHeight minimumConfirmations parentKeyId = [])) :
    ∃ text, selectCoins s amount currentHeight minimumConfirmations m selectAll parentKeyId
      = .error (.Panic text) := by
  rcases eligibleOutputs_cases s currentHeight minimumConfirmations parentKeyId with
    ⟨hcount, heligible⟩ | ⟨-, heligible⟩
  · have hzero := h.resolve_left (not_not.mpr hcount)
    rw [Classical.not_imp] at hzero
    have hmore : (sortByKey (·.value) (Selection.eligibleOutputs s currentHeight
        minimumConfirmations parentKeyId)).length > 0 := List.length_pos_iff.mpr hzero.2
    refine ⟨"window size must be non-zero", ?_⟩
    rw [selectCoins, heligible, hzero.1]
    show (if (sortByKey _ _).length > 0 then _ else _) = _
    rw [if_pos hmore, if_pos rfl]
  · refine ⟨"attempt to add with overflow", ?_⟩
    rw [selectCoins, heligible]
    rfl

/-- The arguments, values and counters under which making a slate and building a
send neither panics nor overflows: the cutoff height fits, so do the counts of
confirmations, the limit is not zero with outputs to spend, the sums from the first
choice on fit, and the coins chosen build. -/
def SafeToBuild (env : Env F E) (w : WalletBackend F E) (ttlBlocks : Option Nat) (amount : Nat)
    (amountIncludesFee : Bool) (currentHeight maxOutputs changeOutputs : Nat) (selectAll : Bool)
    (fixedFee : Option Nat) (parentKeyId : Identifier) (l : List (OutputData E)) : Prop :=
  (∀ tip hash b, (env.node w.tick).getChainTip = .ok (tip, hash) → ttlBlocks = some b →
      tip + b < 2 ^ 64) ∧
    CountsFit w.store currentHeight parentKeyId ∧ (maxOutputs = 0 → l = []) ∧
    ∃ first sum, FirstChoice amount maxOutputs selectAll l first sum ∧
      FitsFrom env.consensus amount amountIncludesFee changeOutputs selectAll l first sum ∧
      ∀ coins outputs,
        ChosenFrom env.consensus amount amountIncludesFee changeOutputs selectAll l first coins
            outputs →
          Builds env.consensus w amount amountIncludesFee changeOutputs fixedFee coins outputs

/-- Making a slate, selecting, splitting the change and building a send return `Ok`
or `Err` under overflow checks exactly when the arguments, values and counters are
safe. -/
theorem send_never_panics_iff (env : Env F E) (w : WalletBackend F E) (slate : Slate F E)
    (isInvoice : Bool) (numParticipants : Nat) (ttlBlocks : Option Nat) (amountIncludesFee : Bool)
    (currentHeight minimumConfirmations maxOutputs changeOutputs : Nat) (selectAll : Bool)
    (fixedFee : Option Nat) (parentKeyId : Identifier) (hamount : slate.amount < 2 ^ 64)
    (hchange : changeOutputs < 2 ^ 32) (hnode : NoPanic (env.node w.tick).getChainTip) :
    (NoPanic (newTxSlate env slate.amount isInvoice numParticipants ttlBlocks w).1 ∧
      NoPanic (selectCoinsAndFee env.consensus w.store slate.amount amountIncludesFee currentHeight
        minimumConfirmations maxOutputs changeOutputs selectAll parentKeyId) ∧
      (∀ coins total sent fee, selectCoinsAndFee env.consensus w.store slate.amount
          amountIncludesFee currentHeight minimumConfirmations maxOutputs changeOutputs selectAll
          parentKeyId = .ok (coins, total, sent, fee) →
        ∀ b, NoPanic (inputsAndChange coins sent fee changeOutputs b w).1) ∧
      NoPanic (buildSendTx env slate currentHeight minimumConfirmations maxOutputs changeOutputs
        selectAll fixedFee parentKeyId amountIncludesFee w).1) ↔
      SafeToBuild env w ttlBlocks slate.amount amountIncludesFee currentHeight maxOutputs
        changeOutputs selectAll fixedFee parentKeyId
        (ranked w.store currentHeight minimumConfirmations parentKeyId) := by
  generalize hranked : ranked w.store currentHeight minimumConfirmations parentKeyId = l
  have hfound : ∀ e, coinsAndFee env.consensus w.store slate.amount amountIncludesFee currentHeight
      minimumConfirmations maxOutputs changeOutputs selectAll parentKeyId = .error e →
        buildSendTx env slate currentHeight minimumConfirmations maxOutputs changeOutputs selectAll
          fixedFee parentKeyId amountIncludesFee w = (.error e, w) := by
    intro e h
    refine buildSendTx_of_error ?_
    rw [selectCoinsAndFee, h]
    rfl
  have hbuild : NoPanic (buildSendTx env slate currentHeight minimumConfirmations maxOutputs
      changeOutputs selectAll fixedFee parentKeyId amountIncludesFee w).1 ↔
      CountsFit w.store currentHeight parentKeyId ∧ (maxOutputs = 0 → l = []) ∧
        ∃ first sum, FirstChoice slate.amount maxOutputs selectAll l first sum ∧
          FitsFrom env.consensus slate.amount amountIncludesFee changeOutputs selectAll l first
            sum ∧
          ∀ coins outputs, ChosenFrom env.consensus slate.amount amountIncludesFee changeOutputs
              selectAll l first coins outputs →
            Builds env.consensus w slate.amount amountIncludesFee changeOutputs fixedFee coins
              outputs := by
    by_cases hstart : CountsFit w.store currentHeight parentKeyId ∧ (maxOutputs = 0 → l = [])
    case neg =>
      refine iff_of_false (fun h => ?_) fun h => hstart ⟨h.1, h.2.1⟩
      rw [not_and_or, ← hranked] at hstart
      obtain ⟨text, hsel⟩ := selectCoins_panics slate.amount selectAll hstart
      rw [hfound (.Panic text) (by rw [coinsAndFee, hsel]; rfl)] at h
      exact not_noPanic _ h
    obtain ⟨hcount, hm⟩ := hstart
    have hcase : ∀ first sum, FirstChoice slate.amount maxOutputs selectAll l first sum →
        (NoPanic (buildSendTx env slate currentHeight minimumConfirmations maxOutputs changeOutputs
          selectAll fixedFee parentKeyId amountIncludesFee w).1 ↔
        FitsFrom env.consensus slate.amount amountIncludesFee changeOutputs selectAll l first sum ∧
          ∀ coins outputs, ChosenFrom env.consensus slate.amount amountIncludesFee changeOutputs
              selectAll l first coins outputs →
            Builds env.consensus w slate.amount amountIncludesFee changeOutputs fixedFee coins
              outputs) := by
      intro first sum hfirst
      rcases coinsAndFee_cases (C := env.consensus) hcount hranked hamount
        (show changeOutputs + 1 < 2 ^ 64 by omega) hm hfirst with
        ⟨hnofit, text, hpanic⟩ | ⟨hfits, hend⟩
      · rw [hfound _ hpanic]
        exact iff_of_false (not_noPanic _) fun h => hnofit h.1
      rcases hend with ⟨coins, outputs, hchosen, hc⟩ | ⟨hnone, a, b, hc⟩
      · have hself := (hchosen coins outputs).mpr ⟨rfl, rfl⟩
        have hspec := hself.spec hfirst.subperm
        obtain ⟨hworth, hcost, houtputs⟩ := hself.fits hfirst hfits
        rw [noPanic_buildSendTx (by omega) hworth hcost houtputs hspec.2.1 hc]
        constructor
        · intro hbuilds
          refine ⟨hfits, fun coins' outputs' h => ?_⟩
          obtain ⟨rfl, rfl⟩ := (hchosen coins' outputs').mp h
          exact hbuilds
        · exact fun h => h.2 coins outputs hself
      · rw [hfound _ hc]
        exact iff_of_true (fun text h => by cases h)
          ⟨hfits, fun coins outputs h => absurd h (hnone coins outputs)⟩
    constructor
    · intro h
      obtain ⟨first, sum, hfirst⟩ := exists_firstChoice slate.amount maxOutputs selectAll l
      exact ⟨hcount, hm, first, sum, hfirst, (hcase first sum hfirst).mp h⟩
    · rintro ⟨-, -, first, sum, hfirst, h⟩
      exact (hcase first sum hfirst).mpr h
  unfold SafeToBuild
  rw [noPanic_newTxSlate hnode, ← hbuild]
  constructor
  · exact fun h => ⟨h.1, h.2.2.2⟩
  · intro h
    have hparts := noPanic_of_buildSendTx h.2
    exact ⟨h.1, hparts.1, hparts.2, h.2⟩

end Build

/-- A limit of zero outputs with a coin to spend. -/
theorem limit_of_zero_panics :
    ¬ NoPanic (selectCoinsAndFee (mainnet : Consensus ℕ ℕ)
      (Store.fresh.save Selection.tenOverCoin) 1000000000 false 10 1 0 1 true defaultPath) := by
  have hrun : selectCoinsAndFee (mainnet : Consensus ℕ ℕ) (Store.fresh.save Selection.tenOverCoin)
      1000000000 false 10 1 0 1 true defaultPath
        = .error (.Panic "window size must be non-zero") := by decide +kernel
  rw [hrun]
  exact not_noPanic _

/-- A grin and a nanogrin in one coin, two grins in the other. -/
def twoCoinWallet : WalletBackend ℤ (ℤ × ℤ) :=
  sampleWallet [sampleCoin 1000000001 0, sampleCoin 2000000000 1]

/-- A slate for a grin. -/
def grinSlate : Slate ℤ (ℤ × ℤ) :=
  { (Slate.blank 2 false 0 : Slate ℤ (ℤ × ℤ)) with amount := 1000000000 }

theorem noPanic_of_isOk {α : Type} {x : Except Error α} (h : x.isOk = true) : NoPanic x := by
  cases x with
  | ok a => exact noPanic_ok a
  | error e => cases h

/-- The loop spends both coins for a limit of one, with change in two outputs. -/
theorem send_never_panics_two_coins :
    SafeToBuild (sampleEnv fun _ => sampleNode [] []) twoCoinWallet (some 60) 1000000000 false 100
      1 2 true none defaultPath (ranked twoCoinWallet.store 100 1 defaultPath) := by
  have hselect : selectCoinsAndFee (mainnet : Consensus ℤ (ℤ × ℤ)) twoCoinWallet.store 1000000000
      false 100 1 1 2 true defaultPath = .ok
        ([sampleCoin 1000000001 0, sampleCoin 2000000000 1], 3000000001, 1000000000, 34000000) := by
    decide +kernel
  refine (send_never_panics_iff (sampleEnv fun _ => sampleNode [] []) twoCoinWallet grinSlate false
    2 (some 60) false 100 1 1 2 true none defaultPath (by decide) (by decide)
    (noPanic_ok _)).mp ⟨noPanic_of_isOk (by decide +kernel), ?_, ?_, ?_⟩
  · exact hselect ▸ noPanic_ok _
  · intro coins total sent fee h b
    cases hselect.symm.trans h
    exact (noPanic_inputsAndChange _ _ _ _ b false _).mpr (noPanic_of_isOk (by decide +kernel))
  · exact noPanic_of_isOk (by decide +kernel)

end Checked

end GrinWallet
