import GrinWallet.Exchange.Retry
import GrinWallet.Selection.Distinct

/-! # A late-locked send beside a direct one

A direct send selects its inputs when the slate is made. A late-locked one runs the
same selection for its fee only, and finalization selects again: for the amount asked
for, without the fee flag, from the account active by then. A selection reads nothing
of a store but its output records, and an output record belongs to one account.
-/

namespace GrinWallet

open Effect WalletBackend OrderedTable

variable {F E : Type}

namespace Selection

/-! ## What a selection depends on -/

section Select

variable {C : Consensus F E} {s t : Store E}

theorem eligibleOutputs_congr (h : t.outputs = s.outputs) (height minimumConfirmations : Nat)
    (p : Identifier) : eligibleOutputs t height minimumConfirmations p
      = eligibleOutputs s height minimumConfirmations p := by
  rw [eligibleOutputs, eligibleOutputs, Store.iter, Store.iter, h]

theorem selectCoins_congr (h : t.outputs = s.outputs)
    (amount height minimumConfirmations maxOutputs : Nat) (all : Bool) (p : Identifier) :
    selectCoins t amount height minimumConfirmations maxOutputs all p
      = selectCoins s amount height minimumConfirmations maxOutputs all p := by
  rw [selectCoins, selectCoins, eligibleOutputs_congr h]

theorem reselect_congr (h : t.outputs = s.outputs)
    (amount height minimumConfirmations maxOutputs numOutputs : Nat) (inc all : Bool)
    (p : Identifier) (fuel : Nat) (coins : List (OutputData E)) (fee total withFee : Nat) :
    reselect C t amount inc height minimumConfirmations maxOutputs numOutputs all p fuel coins fee
        total withFee
      = reselect C s amount inc height minimumConfirmations maxOutputs numOutputs all p fuel coins
        fee total withFee := by
  induction fuel generalizing coins fee total withFee with
  | zero => rfl
  | succ fuel ih =>
      unfold reselect
      rw [selectCoins_congr h]
      simp only [ih]

theorem coinsAndFee_congr (h : t.outputs = s.outputs)
    (amount height minimumConfirmations maxOutputs changeOutputs : Nat) (inc all : Bool)
    (p : Identifier) :
    coinsAndFee C t amount inc height minimumConfirmations maxOutputs changeOutputs all p
      = coinsAndFee C s amount inc height minimumConfirmations maxOutputs changeOutputs all p := by
  unfold coinsAndFee
  rw [selectCoins_congr h]
  simp only [reselect_congr h]

/-- A selection reads the output records alone. -/
theorem selectCoinsAndFee_congr (h : t.outputs = s.outputs)
    (amount height minimumConfirmations maxOutputs changeOutputs : Nat) (inc all : Bool)
    (p : Identifier) :
    selectCoinsAndFee C t amount inc height minimumConfirmations maxOutputs changeOutputs all p
      = selectCoinsAndFee C s amount inc height minimumConfirmations maxOutputs changeOutputs all
        p := by
  rw [selectCoinsAndFee, selectCoinsAndFee, coinsAndFee_congr h]

/-- Records under one key are of one account. -/
theorem eligibleOutputs_account {o o' : OutputData E} {p q : Identifier} {height height' n n' : Nat}
    (ho : o ∈ eligibleOutputs s height n p) (ho' : o' ∈ eligibleOutputs s height' n' q)
    (hid : o'.keyId = o.keyId) (hindex : o'.mmrIndex = o.mmrIndex) : q = p := by
  obtain ⟨hmem, hok⟩ := List.mem_filter.mp ho
  obtain ⟨hmem', hok'⟩ := List.mem_filter.mp ho'
  have hkey : o'.key = o.key := outputKey_inj.mpr ⟨hid, hindex⟩
  have hsame : o' = o := by
    have hfind := Table.find_eq_some.mpr ⟨hmem, rfl⟩
    have hfind' := Table.find_eq_some.mpr ⟨hmem', hkey⟩
    exact Option.some.inj (hfind'.symm.trans hfind)
  have hroot : o.rootKeyId = p := of_decide_eq_true (Bool.and_eq_true_iff.mp hok).1
  have hroot' : o'.rootKeyId = q := of_decide_eq_true (Bool.and_eq_true_iff.mp hok').1
  rw [← hroot, ← hroot', hsame]

/-- What a context records of the coins selected for it. -/
def inputIdsOf (coins : List (OutputData E)) : List (Identifier × Option Nat × Nat) :=
  coins.map fun i => (i.keyId, i.mmrIndex, i.value)

/-- Selections with the same inputs are from the same account. -/
theorem selectCoinsAndFee_account {coins coins' : List (OutputData E)} {p q : Identifier}
    {amount amount' height height' n n' m m' k k' total total' sent sent' fee fee' : Nat}
    {inc inc' all all' : Bool}
    (h : selectCoinsAndFee C s amount inc height n m k all p = .ok (coins, total, sent, fee))
    (h' : selectCoinsAndFee C s amount' inc' height' n' m' k' all' q
      = .ok (coins', total', sent', fee'))
    (hsame : inputIdsOf coins' = inputIdsOf coins) : q = p := by
  have hmem := selectCoinsAndFee_subset h
  have hmem' := selectCoinsAndFee_subset h'
  cases coins with
  | nil => exact ((selectCoinsAndFee_selects h).2 rfl).elim
  | cons o os =>
      cases coins' with
      | nil => cases hsame
      | cons o' os' =>
          obtain ⟨hid, hrest⟩ := Prod.mk.inj (List.cons.inj hsame).1
          exact eligibleOutputs_account (hmem List.mem_cons_self) (hmem' List.mem_cons_self) hid
            (Prod.mk.inj hrest).1

end Select

/-! ## The selection behind a send -/

theorem feeFieldsOf_eq_ok {fee : Nat} {f : FeeFields} (h : feeFieldsOf fee = .ok f) :
    0 < fee ∧ f = ⟨fee⟩ := by
  unfold feeFieldsOf at h
  split at h
  · cases h
  · cases h
    exact ⟨by omega, rfl⟩

theorem feeFieldsUnwrap_eq_ok {fee : Nat} {f : FeeFields} (h : feeFieldsUnwrap fee = .ok f) :
    0 < fee ∧ f = ⟨fee⟩ := by
  unfold feeFieldsUnwrap at h
  cases hf : feeFieldsOf fee with
  | ok g =>
      rw [hf] at h
      cases h
      exact feeFieldsOf_eq_ok hf
  | error e =>
      rw [hf] at h
      cases h

/-- The selection behind the inputs and the change of a send. -/
theorem selectSendTx_selected (C : Consensus F E)
    (amount height minimumConfirmations maxOutputs changeOutputs : Nat) (inc all b : Bool)
    (p : Identifier) (w : WalletBackend F E) :
    Eff.Triple (fun t => t = w) (selectSendTx C amount inc height minimumConfirmations maxOutputs
      changeOutputs all p b)
      (fun r _ => ∃ total sent, selectCoinsAndFee C w.store amount inc height minimumConfirmations
        maxOutputs changeOutputs all p = .ok (r.2.1, total, sent, r.2.2.2))
      (fun _ => True) := by
  refine Eff.Triple.read_bind_self fun t ht => ?_
  subst ht
  refine (Eff.Triple.ofExcept (Q := fun sel s => selectCoinsAndFee C t.store amount inc height
    minimumConfirmations maxOutputs changeOutputs all p = .ok sel ∧ s = t)
    (fun sel s hr hs => ⟨hr, hs⟩) fun _ _ => trivial).bind fun sel => ?_
  obtain ⟨coins, total, sent, fee⟩ := sel
  refine Eff.Triple.and_left fun hsel => (Eff.Triple.run _ t).bind fun split => ?_
  obtain ⟨parts, change⟩ := split
  exact Eff.Triple.pure fun s _ => ⟨total, sent, hsel⟩

section Build

variable [CommRing F] [AddCommGroup E] [Module F E] [DecidableEq E] {env : Env F E}
  {slate s' : Slate F E} {c : Context E}
  {height minimumConfirmations maxOutputs changeOutputs : Nat} {all inc : Bool}
  {fixed : Option Nat} {p : Identifier} {w w' : WalletBackend F E}

/-- The selection behind a send that is built. -/
theorem buildSendTx_selected
    (h : buildSendTx env slate height minimumConfirmations maxOutputs changeOutputs all fixed p inc
      w = (.ok (s', c), w')) :
    ∃ coins total sent fee,
      selectCoinsAndFee env.consensus w.store slate.amount inc height minimumConfirmations
          maxOutputs changeOutputs all p = .ok (coins, total, sent, fee) ∧
        0 < fee ∧ ¬ (inc = true ∧ slate.amount < fee) ∧
        s'.amount = (if inc then slate.amount - fee else slate.amount) ∧ s'.feeFields = ⟨fee⟩ ∧
        c.inputIds = inputIdsOf coins := by
  obtain ⟨⟨elems, coins, change, fee⟩, w₁, hselect, hr₁⟩ := Eff.bind_eq_ok.mp h
  obtain ⟨_, w₂, h₂, hr₂⟩ := Eff.bind_eq_ok.mp hr₁
  obtain ⟨_, w₃, h₃, hr₃⟩ := Eff.bind_eq_ok.mp hr₂
  obtain ⟨feeFields, w₄, h₄, hr₄⟩ := Eff.bind_eq_ok.mp hr₃
  obtain ⟨s₁, w₅, h₅, hr₅⟩ := Eff.bind_eq_ok.mp hr₄
  obtain ⟨c₁, w₆, h₆, hend⟩ := Eff.bind_eq_ok.mp hr₅
  obtain ⟨hpaid, -⟩ := Eff.throwIf_eq_ok.mp h₂
  obtain ⟨hfields, -⟩ := Eff.ofExcept_eq_ok.mp h₄
  obtain ⟨hadd, -⟩ := Eff.ofExcept_eq_ok.mp h₅
  obtain ⟨tx, features, -, -, rfl⟩ := Slate.addTransactionElements_eq_ok hadd
  obtain ⟨total, sent, hsel⟩ := (selectSendTx_selected _ _ _ _ _ _ _ _ _ _ w).ok rfl hselect
  obtain ⟨hfee, rfl⟩ := feeFieldsUnwrap_eq_ok hfields
  cases h₆
  cases hend
  refine ⟨coins, total, sent, fee, hsel, hfee, hpaid, rfl, rfl, ?_⟩
  rw [sendContext_eq]
  rfl

end Build

end Selection

section Sends

variable [CommRing F] [AddCommGroup E] [Module F E] [DecidableEq E] {env : Env F E}
  {slate s : Slate F E} {c : Context E} {height : Nat} {args : InitTxArgs} {p : Identifier}
  {w w' : WalletBackend F E}

/-! ## The two ways to begin -/

namespace Tx

omit [AddCommGroup E] [Module F E] [DecidableEq E] in
theorem newTxSlate_amount {amount n : Nat} {isInvoice : Bool} {ttlBlocks : Option Nat}
    (h : newTxSlate env amount isInvoice n ttlBlocks w = (.ok slate, w')) :
    slate.amount = amount ∧ w'.store = w.store := by
  obtain ⟨tip, w₁, h₁, h₂⟩ := Eff.bind_eq_ok.mp h
  obtain ⟨id, w₂, h₃, hend⟩ := Eff.bind_eq_ok.mp h₂
  have hw₁ : w₁.store = w.store := congrArg (·.2.store) h₁.symm
  cases h₃
  cases hend
  exact ⟨rfl, hw₁⟩

/-- A direct send is built from a selection in the wallet as it is refreshed. -/
theorem addInputsToSlate_selected {inc : Bool}
    (h : addInputsToSlate env slate height args p true inc w = (.ok (s, c), w')) :
    ∃ m coins total sent fee,
      Eff.runIf args.refreshOutputsFromNode (Updater.refreshOutputs env p false) w = (.ok (), m) ∧
      Selection.selectCoinsAndFee env.consensus m.store slate.amount inc height
        args.minimumConfirmations args.maxOutputs args.numChangeOutputs
        args.selectionStrategyIsUseAll p = .ok (coins, total, sent, fee) ∧
      0 < fee ∧ ¬ (inc = true ∧ slate.amount < fee) ∧
      s.amount = (if inc then slate.amount - fee else slate.amount) ∧ s.feeFields = ⟨fee⟩ ∧
      c.inputIds = Selection.inputIdsOf coins := by
  obtain ⟨_, m, hrefresh, h₁⟩ := Eff.bind_eq_ok.mp h
  obtain ⟨⟨s₁, c₁⟩, m₁, hbuild, h₂⟩ := Eff.bind_eq_ok.mp h₁
  obtain ⟨coins, total, sent, fee, hsel, hpos, hpaid, hamount, hfee, hinputs⟩ :=
    Selection.buildSendTx_selected hbuild
  cases h₂
  exact ⟨m, coins, total, sent, fee, hrefresh, hsel, hpos, hpaid, hamount, hfee, hinputs⟩

/-- A late-locked send keeps its arguments and the fee of a selection in the wallet as
it is refreshed. -/
theorem createLateLockContext_selected
    (h : createLateLockContext env slate height args p w = (.ok (s, c), w')) :
    ∃ m coins total sent fee,
      Eff.runIf args.refreshOutputsFromNode (Updater.refreshOutputs env p false) w = (.ok (), m) ∧
      Selection.selectCoinsAndFee env.consensus m.store args.amount
        (args.amountIncludesFee.getD false) height args.minimumConfirmations args.maxOutputs
        args.numChangeOutputs args.selectionStrategyIsUseAll p = .ok (coins, total, sent, fee) ∧
      w'.store = m.store ∧ s.amount = slate.amount ∧ c.amount = slate.amount ∧
      c.fee = some ⟨fee⟩ ∧ c.lateLockArgs = some args := by
  obtain ⟨_, m, hrefresh, h₁⟩ := Eff.bind_eq_ok.mp h
  obtain ⟨m', m'', hread, h₂⟩ := Eff.bind_eq_ok.mp h₁
  obtain ⟨hm', hm''⟩ := Eff.read_eq_ok.mp hread
  subst hm' hm''
  obtain ⟨⟨coins, total, sent, fee⟩, m₁, hselect, h₃⟩ := Eff.bind_eq_ok.mp h₂
  obtain ⟨feeFields, m₂, hconvert, h₄⟩ := Eff.bind_eq_ok.mp h₃
  obtain ⟨hsel, hm₁⟩ := Eff.ofExcept_eq_ok.mp hselect
  obtain ⟨hfields, hm₂⟩ := Eff.ofExcept_eq_ok.mp hconvert
  subst hm₁ hm₂
  obtain ⟨-, rfl⟩ := Selection.feeFieldsOf_eq_ok hfields
  cases h₄
  exact ⟨_, coins, total, sent, fee, hrefresh, hsel, rfl, rfl, rfl, rfl, rfl⟩

end Tx

namespace Owner

/-- A direct and a late-locked send from one wallet begin with one selection. -/
theorem initSendTx_begin_alike {sl : Slate F E} {w₁ w₂ : WalletBackend F E}
    (hest : args.estimateOnly ≠ some true)
    (hdirect : initSendTx env { args with lateLock := some false } w = (.ok s, w₁))
    (hlate : initSendTx env { args with lateLock := some true } w = (.ok sl, w₂)) :
    ∃ m t tip coins total sent fee c cl, (env.node t).getChainTip = .ok tip ∧
      Selection.selectCoinsAndFee env.consensus m args.amount (args.amountIncludesFee.getD false)
        tip.1 args.minimumConfirmations args.maxOutputs args.numChangeOutputs
        args.selectionStrategyIsUseAll (w.accountNamed args.srcAcctName)
          = .ok (coins, total, sent, fee) ∧
      (w₁.store.getPrivateContext env.keychain s.id = .ok c ∧ s.feeFields = ⟨fee⟩ ∧
        c.inputIds = Selection.inputIdsOf coins ∧ 0 < fee ∧
        ¬ (args.amountIncludesFee.getD false = true ∧ args.amount < fee) ∧
        s.amount = if args.amountIncludesFee.getD false then args.amount - fee else args.amount) ∧
      w₂.store.getPrivateContext env.keychain sl.id = .ok cl ∧ sl.amount = args.amount ∧
        cl.amount = args.amount ∧ cl.fee = some ⟨fee⟩ ∧
        cl.lateLockArgs = some { args with lateLock := some true } ∧
        w₂.store.outputs = m.outputs := by
  obtain ⟨slate, v₁, tip, v₂, s₁, c, v₃, hnew, htip, hbegin, hs, hw₁⟩ :=
    initSendTx_eq_ok (by exact hest) hdirect
  obtain ⟨slate', v₁', tip', v₂', sl₁, cl, v₃', hnew', htip', hbegin', hsl, hw₂⟩ :=
    initSendTx_eq_ok (by exact hest) hlate
  cases hnew'.symm.trans hnew
  cases htip'.symm.trans htip
  have hamount : slate.amount = args.amount := (Tx.newTxSlate_amount hnew).1
  rw [beginSend, if_neg (by simp)] at hbegin
  rw [beginSend, if_pos (by simp)] at hbegin'
  obtain ⟨m, coins, total, sent, fee, hrefresh, hsel, hpos, hpaid, hsent, hfee, hinputs⟩ :=
    Tx.addInputsToSlate_selected hbegin
  obtain ⟨m', coins', total', sent', fee', hrefresh', hsel', hstore, hnamed, hlocked, hfee', hargs⟩ :=
    Tx.createLateLockContext_selected hbegin'
  have hm : m' = m := congrArg Prod.snd (hrefresh'.symm.trans hrefresh)
  subst hm
  simp only [hamount] at hsel hpaid hsent
  cases hsel'.symm.trans hsel
  obtain ⟨proof, index, hrequest⟩ := withProofRequest_eq env.keychain
    (w.accountNamed args.srcAcctName) args.paymentProofRecipientAddress s₁ c
  obtain ⟨proof', index', hrequest'⟩ := withProofRequest_eq env.keychain
    (w.accountNamed args.srcAcctName) args.paymentProofRecipientAddress sl₁ cl
  rw [hrequest] at hs hw₁
  rw [hrequest'] at hsl hw₂
  subst hw₁ hw₂ hs hsl
  refine ⟨m'.store, _, tip, coins, total, sent, fee, _, _, congrArg Prod.fst htip, hsel,
    ⟨Store.getPrivateContext_savePrivateContext _ _ _ _, hfee, hinputs, hpos, hpaid, hsent⟩,
    Store.getPrivateContext_savePrivateContext _ _ _ _, hnamed.trans hamount,
    hlocked.trans hamount, hfee', hargs, ?_⟩
  show v₃'.store.outputs = m'.store.outputs
  rw [hstore]

end Owner

/-! ## The selection of a finalization -/

namespace Foreign

/-- The selection that completes a late-locked context. -/
theorem lateLock_selected {c' : Context E} (h : lateLock env s c args p w = (.ok c', w')) :
    ∃ t tip coins total sent fee, (env.node t).getChainTip = .ok tip ∧
      Selection.selectCoinsAndFee env.consensus w.store c.amount false tip.1
        args.minimumConfirmations args.maxOutputs args.numChangeOutputs
        args.selectionStrategyIsUseAll p = .ok (coins, total, sent, fee) ∧
      c'.inputIds = Selection.inputIdsOf coins ∧ c'.fee = c.fee := by
  obtain ⟨tip, w₁, h₁, h₂⟩ := Eff.bind_eq_ok.mp h
  obtain ⟨tempSl, w₂, h₃, h₄⟩ := Eff.bind_eq_ok.mp h₂
  obtain ⟨⟨sl, tempContext⟩, w₃, hbuild, h₆⟩ := Eff.bind_eq_ok.mp h₄
  obtain ⟨_, w₄, -, h₈⟩ := Eff.bind_eq_ok.mp h₆
  obtain ⟨_, w₅, -, hend⟩ := Eff.bind_eq_ok.mp h₈
  obtain ⟨hamount, hw₂⟩ := Tx.newTxSlate_amount h₃
  obtain ⟨coins, total, sent, fee, hsel, -, -, -, -, hinputs⟩ :=
    Selection.buildSendTx_selected hbuild
  have hw₁ : w₁.store = w.store := congrArg (·.2.store) h₁.symm
  rw [hamount, hw₂, hw₁] at hsel
  cases hend
  exact ⟨w.tick, tip, coins, total, sent, fee, congrArg Prod.fst h₁, hsel, hinputs, rfl⟩

/-- A late-locked send agrees with the direct one of the same wallet, in the amount the
receiver is asked to expect and in the fee and the inputs it is finalized with, exactly
if its amount does not include the fee and the account it was made from is still the
active one: for a node that keeps its height, and output records that stay as they are
until the slate is back. -/
theorem late_lock_agrees_iff {back done sl : Slate F E} {post : Bool}
    {w₁ w₂ w₃ w₄ : WalletBackend F E} (hest : args.estimateOnly ≠ some true)
    (hheight : ∀ t tip, (env.node t).getChainTip = .ok tip → tip.1 = height)
    (hdirect : Owner.initSendTx env { args with lateLock := some false } w = (.ok s, w₁))
    (hlate : Owner.initSendTx env { args with lateLock := some true } w = (.ok sl, w₂))
    (hrecords : w₃.store.outputs = w₂.store.outputs)
    (hcontext : w₃.store.getPrivateContext env.keychain back.id
      = w₂.store.getPrivateContext env.keychain sl.id)
    (hstate : back.state = .Standard2) (hfinal : finalizeTx env back post w₃ = (.ok done, w₄)) :
    ∃ c cl locked w₅, w₁.store.getPrivateContext env.keychain s.id = .ok c ∧
      w₃.store.getPrivateContext env.keychain back.id = .ok cl ∧
      lockedContext env back cl w₃.parentKeyId w₃ = (.ok locked, w₅) ∧
      ((sl.amount = s.amount ∧ done.feeFields = s.feeFields ∧ locked.inputIds = c.inputIds) ↔
        args.amountIncludesFee.getD false = false ∧
          w₃.parentKeyId = w.accountNamed args.srcAcctName) := by
  obtain ⟨m, t, tip, coins, total, sent, fee, c, cl, hnode, hsel, hbegun, hstored, hnamed,
    hlocked, hfee, hargs, houtputs⟩ := Owner.initSendTx_begin_alike hest hdirect hlate
  obtain ⟨hc, hfee₁, hinputs₁, hpos, hpaid, hsent⟩ := hbegun
  have hget := hcontext.trans hstored
  obtain ⟨cl', w₅, hget', hby, -⟩ := finalizeTx_eq_ok hfinal
  cases hget'.symm.trans hget
  simp only [finalizeByState, hstate] at hby
  obtain ⟨locked, w₆, tx, fee₃, features, ps, excess, sig, hlock, -, hfee₃, -, -, hdone⟩ :=
    finalizeStandard_returns hby
  have hlater := hlock
  simp only [lockedContext, hargs] at hlater
  obtain ⟨t₃, tip₃, coins₃, total₃, sent₃, fee₄, hnode₃, hsel₃, hinputs₃, hkept⟩ :=
    lateLock_selected hlater
  -- the node is at one height, and the records are those the first selection read
  have hheights : tip₃.1 = tip.1 := (hheight _ _ hnode₃).trans (hheight _ _ hnode).symm
  rw [Selection.selectCoinsAndFee_congr (hrecords.trans houtputs),
    show ({ cl with lateLockArgs := none } : Context E).amount = args.amount from hlocked,
    hheights] at hsel₃
  have hdonefee : done.feeFields = s.feeFields := by
    have hfees : some fee₃ = some ⟨fee⟩ := hfee₃.symm.trans (hkept.trans hfee)
    rw [hdone, hfee₁]
    exact Option.some.inj hfees
  refine ⟨c, cl, locked, w₆, hc, hget, hlock, ?_⟩
  rw [hnamed, hsent, hinputs₃, hinputs₁]
  constructor
  · rintro ⟨hreceived, -, hinputs⟩
    refine ⟨?_, Selection.selectCoinsAndFee_account hsel hsel₃ hinputs⟩
    -- the late-locked slate names the amount without taking the fee out
    cases hinc : args.amountIncludesFee.getD false with
    | false => rfl
    | true =>
        have hcovers : fee ≤ args.amount := Nat.not_lt.mp fun hlt => hpaid ⟨hinc, hlt⟩
        rw [hinc, if_pos rfl] at hreceived
        omega
  · rintro ⟨hinc, hactive⟩
    rw [hinc] at hsel ⊢
    rw [hactive] at hsel₃
    cases hsel₃.symm.trans hsel
    exact ⟨rfl, hdonefee, rfl⟩

end Foreign

end Sends

/-! ## A send of two coins out of three -/

namespace SampleLateSend

open SampleSend (env noSlate)

def funds : WalletBackend ℤ (ℤ × ℤ) :=
  sampleWallet [sampleCoin 30000000 0, sampleCoin 50000000 1, sampleCoin 40000000 2]

def begun (late : Bool) : Except Error (Slate ℤ (ℤ × ℤ)) × WalletBackend ℤ (ℤ × ℤ) :=
  Owner.initSendTx env { sampleSend 20000000 with lateLock := some late } funds

def offer (late : Bool) : Slate ℤ (ℤ × ℤ) := returned (begun late) noSlate

def received : Except Error (Slate ℤ (ℤ × ℤ)) × WalletBackend ℤ (ℤ × ℤ) :=
  Foreign.receiveTx { env with secret := fun _ => (3, 4) } (offer true) none .new

def answer : Slate ℤ (ℤ × ℤ) := returned received noSlate

def finalized : Except Error (Slate ℤ (ℤ × ℤ)) × WalletBackend ℤ (ℤ × ℤ) :=
  Foreign.finalizeTx env answer false (begun true).2

/-- The two coins a selection comes to when the smallest alone does not cover the fee. -/
def spent : List (Identifier × Option Nat × Nat) :=
  [(defaultPath.child 0, none, 30000000), (defaultPath.child 2, none, 40000000)]

theorem late_lock_agrees_two_coins :
    ∃ c cl locked w₅,
      (begun false).2.store.getPrivateContext sampleKeychain (offer false).id = .ok c ∧
      (begun true).2.store.getPrivateContext sampleKeychain answer.id = .ok cl ∧
      Foreign.lockedContext env answer cl defaultPath (begun true).2 = (.ok locked, w₅) ∧
      (offer true).amount = (offer false).amount ∧
      (returned finalized noSlate).feeFields = (offer false).feeFields ∧
      locked.inputIds = c.inputIds ∧ c.inputIds = spent := by
  have hdirect : begun false = (.ok (offer false), (begun false).2) :=
    eq_returned noSlate (by decide +kernel)
  have hlate : begun true = (.ok (offer true), (begun true).2) :=
    eq_returned noSlate (by decide +kernel)
  have hfinal : finalized = (.ok (returned finalized noSlate), finalized.2) :=
    eq_returned noSlate (by decide +kernel)
  have hheight : ∀ t tip, (env.node t).getChainTip = .ok tip → tip.1 = 100 := by
    intro t tip h
    cases h
    rfl
  have hid : answer.id = (offer true).id := by decide +kernel
  have hstate : answer.state = .Standard2 := by decide +kernel
  have hspent : ((begun false).2.store.getPrivateContext sampleKeychain (offer false).id).map
      (·.inputIds) = .ok spent := by decide +kernel
  obtain ⟨c, cl, locked, w₅, hc, hcl, hlock, hiff⟩ := Foreign.late_lock_agrees_iff
    (by decide +kernel) hheight hdirect hlate rfl (by rw [hid]) hstate hfinal
  obtain ⟨hamount, hfee, hinputs⟩ := hiff.mpr ⟨rfl, by decide +kernel⟩
  rw [show env.keychain = sampleKeychain from rfl] at hc
  rw [hc] at hspent
  exact ⟨c, cl, locked, w₅, hc, hcl, hlock, hamount, hfee, hinputs, Except.ok.inj hspent⟩

end SampleLateSend

end GrinWallet
