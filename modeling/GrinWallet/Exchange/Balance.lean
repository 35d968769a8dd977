import GrinWallet.Exchange.Finalize
import GrinWallet.Runs.Frame
import GrinWallet.Runs.Refresh
import Mathlib.Tactic.LinearCombination

/-! # The balance of an exchange

The four ways two parties exchange a slate, call by call, and what each ends in:
the offset that makes up for the blinding factors and both keys, a transaction
that balances, and two partial signatures over the same sums and message.
-/

namespace GrinWallet

open Effect WalletBackend OrderedTable

variable {F E : Type} [CommRing F] [AddCommGroup E] [Module F E] [DecidableEq E]

/-! ## Exchanges -/

/-- The values and the blinding factors of a context entry list. -/
def coins (K : Keychain F E) (ids : List (Identifier × Option Nat × Nat)) : List (Nat × F) :=
  ids.map fun (id, _, amount) => (amount, K.deriveKey amount id)

/-- What both parties put into an exchange: the key and the nonce each drew, and
the coins they spend and create. -/
structure Exchange (F : Type) where
  initiator : SecretKey × SecretKey
  responder : SecretKey × SecretKey
  spent : List (Nat × F)
  created : List (Nat × F)
  fee : FeeFields

namespace Exchange

/-- The commitments of a list of coins. -/
def commits (K : Curve F E) (l : List (Nat × F)) : List E :=
  l.map fun p => Pedersen.commit K.G K.H p.1 p.2

/-- The parties can be told apart, the values add up, and no coin is there twice. -/
structure WellFormed (K : Curve F E) (x : Exchange F) : Prop where
  apart : Apart K x.initiator x.responder
  values : (x.spent.map Prod.fst).sum = (x.created.map Prod.fst).sum + x.fee.fee
  spent_nodup : (commits K x.spent).Nodup
  created_nodup : (commits K x.created).Nodup

/-- What the final slate of an exchange is to satisfy. -/
structure Balanced (K : Curve F E) (x : Exchange F) (s : Slate F E) : Prop where
  offset : s.offset = (x.created.map Prod.snd).sum - (x.spent.map Prod.snd).sum
    - (K.scalar x.initiator.1 + K.scalar x.responder.1)
  transaction : ∃ tx kernel, s.tx = some tx ∧ tx.kernels = [kernel] ∧ tx.offset = s.offset ∧
    kernel.features = .Plain x.fee ∧
    (tx.outputs.map (·.commit)).sum - (tx.inputs.map (·.commit)).sum + x.fee.fee • K.H
      = kernel.excess + tx.offset • K.G ∧
    ∃ nonceSum keySum sig sig', s.partSigs = [sig', sig] ∧
      sig = K.calculatePartialSig x.initiator.1 x.initiator.2 nonceSum keySum kernel.features ∧
      sig' = K.calculatePartialSig x.responder.1 x.responder.2 nonceSum keySum kernel.features ∧
      kernel.excess = keySum ∧ kernel.excessSig = ⟨nonceSum, sig.s + sig'.s⟩ ∧
      K.CompletedSigValid kernel.excessSig kernel.excess kernel.excess kernel.features

end Exchange

/-- A complete exchange over one curve, with its final slate. Between two calls
on a wallet anything may happen that keeps the slate's context and the records. -/
inductive Completes (K : Curve F E) : Exchange F → Slate F E → Prop
  /-- `init_send_tx`, `receive_tx`, `tx_lock_outputs`, `finalize_tx`. -/
  | standard {env env' : Env F E} {args : InitTxArgs} {dest : Option Label} {post : Bool}
      {d d' : SecretKey × SecretKey} {c : Context E} {s₁ s₂ s₃ sl : Slate F E}
      {w₀ w₁ w₂ w₃ w₄ w₅ v₀ v₁ : WalletBackend F E}
      (hcurve : env.keychain.toCurve = K) (hcurve' : env'.keychain.toCurve = K)
      (hargs : args.estimateOnly ≠ some true) (hearly : args.lateLock.getD false = false)
      (hinit : Owner.initSendTx (env.drawing d) args w₀ = (.ok s₁, w₁))
      (hcontext : w₁.store.getPrivateContext env.keychain s₁.id = .ok c)
      (hreceive : Foreign.receiveTx (env'.drawing d') s₁ dest v₀ = (.ok s₂, v₁))
      (hkept : Kept s₁.id w₁ w₂) (hsl : sl.id = s₁.id)
      (hlock : Owner.txLockOutputs env sl w₂ = (.ok (), w₃)) (hkept' : Kept s₁.id w₃ w₄)
      (hfinal : Foreign.finalizeTx env s₂ post w₄ = (.ok s₃, w₅)) :
      Completes K ⟨d, d', coins env.keychain c.inputIds,
        (s₁.amount, env'.keychain.deriveKey s₁.amount (nextKey v₀))
          :: coins env.keychain c.outputIds, s₁.feeFields⟩ s₃
  /-- The same with the inputs selected and locked by `finalize_tx`. -/
  | lateLocked {env env' : Env F E} {args : InitTxArgs} {dest : Option Label} {post : Bool}
      {d d' : SecretKey × SecretKey} {c c' : Context E} {s₁ s₂ s₃ : Slate F E}
      {w₀ w₁ w₂ w₃ w₄ v₀ v₁ : WalletBackend F E}
      (hcurve : env.keychain.toCurve = K) (hcurve' : env'.keychain.toCurve = K)
      (hargs : args.estimateOnly ≠ some true)
      (hinit : Owner.initSendTx (env.drawing d) args w₀ = (.ok s₁, w₁))
      (hcontext : w₁.store.getPrivateContext env.keychain s₁.id = .ok c)
      (hlate : c.lateLockArgs ≠ none)
      (hreceive : Foreign.receiveTx (env'.drawing d') s₁ dest v₀ = (.ok s₂, v₁))
      (hkept : Kept s₁.id w₁ w₂)
      (hlocked : Foreign.lockedContext env s₂ c w₂.parentKeyId w₂ = (.ok c', w₃))
      (hfinal : Foreign.finalizeTx env s₂ post w₂ = (.ok s₃, w₄)) :
      Completes K ⟨d, d', coins env.keychain c'.inputIds,
        (s₁.amount, env'.keychain.deriveKey s₁.amount (nextKey v₀))
          :: coins env.keychain c'.outputIds, s₁.feeFields⟩ s₃
  /-- `issue_invoice_tx`, `process_invoice_tx` in another wallet, `finalize_tx`. -/
  | invoice {env env' : Env F E} {args : IssueInvoiceTxArgs} {args' : InitTxArgs} {post : Bool}
      {d d' : SecretKey × SecretKey} {c c' : Context E} {s₁ s₂ s₃ : Slate F E}
      {w₀ w₁ w₂ w₃ v₀ v₁ : WalletBackend F E}
      (hcurve : env.keychain.toCurve = K) (hcurve' : env'.keychain.toCurve = K)
      (hissue : Owner.issueInvoiceTx (env.drawing d) args w₀ = (.ok s₁, w₁))
      (hcontext : w₁.store.getPrivateContext env.keychain s₁.id = .ok c)
      (hother : v₀.store.contexts s₁.id = none)
      (hpay : Owner.processInvoiceTx (env'.drawing d') s₁ args' v₀ = (.ok s₂, v₁))
      (hcontext' : v₁.store.getPrivateContext env'.keychain s₁.id = .ok c')
      (hkept : Kept s₁.id w₁ w₂)
      (hfinal : Foreign.finalizeTx env s₂ post w₂ = (.ok s₃, w₃)) :
      Completes K ⟨d, d', coins env'.keychain c'.inputIds,
        coins env'.keychain c'.outputIds ++ coins env.keychain c.outputIds, s₂.feeFields⟩ s₃
  /-- The same in one wallet, whose context then covers both sides. The payer's key
  and nonce differ from the issuer's. -/
  | ownInvoice {env : Env F E} {args : IssueInvoiceTxArgs} {args' : InitTxArgs} {post : Bool}
      {d d' : SecretKey × SecretKey} {c c' : Context E} {s₁ s₂ s₃ : Slate F E}
      {w₀ w₁ w₂ w₃ w₄ w₅ : WalletBackend F E}
      (hcurve : env.keychain.toCurve = K) (hkeys : d.1 ≠ d'.1) (hnonces : d.2 ≠ d'.2)
      (hissue : Owner.issueInvoiceTx (env.drawing d) args w₀ = (.ok s₁, w₁))
      (hcontext : w₁.store.getPrivateContext env.keychain s₁.id = .ok c)
      (hkept : Kept s₁.id w₁ w₂)
      (hpay : Owner.processInvoiceTx (env.drawing d') s₁ args' w₂ = (.ok s₂, w₃))
      (hcontext' : w₃.store.getPrivateContext env.keychain s₁.id = .ok c')
      (hkept' : Kept s₁.id w₃ w₄)
      (hfinal : Foreign.finalizeTx env s₂ post w₄ = (.ok s₃, w₅)) :
      Completes K ⟨d, d', coins env.keychain c'.inputIds, coins env.keychain c'.outputIds,
        s₂.feeFields⟩ s₃

/-! ## The record of a payee

A refresh deletes candidates of coinbases only, so the record of an invoice's output
is there when its own wallet pays it.
-/

section Lasting

variable {K : Keychain F E} {s s' : Store E} {id : Identifier}

omit [CommRing F] [AddCommGroup E] [Module F E] [DecidableEq E]

theorem Lasting.save (h : Lasting s id) {o o' : OutputData E} (ho : o ∈ s.outputs)
    (hsame : o.Same o') {s₁ : Store E} (hs₁ : s₁.outputs = s.outputs) :
    Lasting (s₁.save o') id := by
  obtain ⟨r, hr, hid, hlasts⟩ := h
  by_cases hkey : r.key = o'.key
  · obtain rfl : r = o := Table.eq_of_key_eq hr ho (hkey.trans hsame.key_eq)
    refine ⟨o', Table.mem_put.mpr (.inl rfl), hsame.2.1.trans hid, ?_⟩
    rw [hsame.2.2.2.2, hsame.2.2.2.1]
    exact hlasts
  · rw [← hs₁] at hr
    exact ⟨r, Table.mem_put.mpr (.inr ⟨hr, hkey⟩), hid, hlasts⟩

namespace Updater

/-- The clean-up deletes under keys without an index, and no other record under one of
these is a coinbase. -/
theorem cleanOldUnconfirmed_lasting (height : Nat) (h : Lasting s id) :
    Lasting (cleanOldUnconfirmed height s) id := by
  unfold cleanOldUnconfirmed
  by_cases hlow : height < 50
  · rw [if_pos hlow]
    exact h
  rw [if_neg hlow]
  have hos : ∀ o ∈ s.iter.filter (fun o => o.status = .Unconfirmed && decide (o.height > 0)
      && decide (o.height < height - 50) && o.isCoinbase), o ∈ s.outputs ∧ o.isCoinbase = true := by
    intro o ho
    obtain ⟨hmem, hold⟩ := List.mem_filter.mp ho
    exact ⟨hmem, by simpa using (Bool.and_eq_true_iff.mp hold).2⟩
  generalize s.iter.filter _ = os at hos
  -- a record of the key that none of the deletions takes
  have hspared : ∃ r ∈ s.outputs, r.keyId = id ∧ (r.isCoinbase = false ∨ r.mmrIndex ≠ none) ∧
      ∀ o ∈ os, r.key ≠ outputKey o.keyId none := by
    obtain ⟨r, hr, hid, hlasts⟩ := h
    by_cases hcand : ∃ o ∈ os, o.keyId = id ∧ o.mmrIndex ≠ none
    · obtain ⟨o, ho, hoid, hindex⟩ := hcand
      exact ⟨o, (hos o ho).1, hoid, .inr hindex, fun o' _ hkey => hindex (outputKey_inj.mp hkey).2⟩
    · refine ⟨r, hr, hid, hlasts, fun o ho hkey => ?_⟩
      obtain ⟨hkeyId, hindex⟩ := outputKey_inj.mp hkey
      have hnone : o.mmrIndex = none := by
        by_contra hsome
        exact hcand ⟨o, ho, hkeyId.symm.trans hid, hsome⟩
      obtain rfl : r = o := Table.eq_of_key_eq hr (hos o ho).1 (by rw [hkey, OutputData.key, hnone])
      rcases hlasts with hplain | hsome
      · rw [(hos r ho).2] at hplain
        cases hplain
      · exact hsome hindex
  obtain ⟨r, hr, hid, hlasts, hspared⟩ := hspared
  have hstays : r ∈ (os.foldl (fun s o => s.delete o.keyId none) s).outputs := by
    clear hos h
    induction os generalizing s with
    | nil => exact hr
    | cons o os ih =>
        exact ih (s := s.delete o.keyId none) (Table.mem_erase.mpr ⟨hr, hspared o List.mem_cons_self⟩)
          fun o' ho' => hspared o' (List.mem_cons_of_mem o ho')
  exact ⟨r, hstays, hid, hlasts⟩

end Updater

end Lasting

section Refreshed

variable {K : Keychain F E} {s s' : Store E} {id : Identifier}

namespace Updater

omit [CommRing F] [Module F E] in
theorem applyApiOutput_lasting {api : E → Option (Nat × Nat)} {reverted : List Nat}
    {height now : Nat} {account : Identifier} {v : WalletOutput E} (hs : Lasting s id)
    (h : applyApiOutput K api reverted height account now v s = .ok s') : Lasting s' id := by
  obtain ⟨commit, vid, vmmr, logId, wasUnspent⟩ := v
  unfold applyApiOutput at h
  cases hget : s.get vid vmmr with
  | error e =>
      simp only [hget] at h
      cases h
      exact hs
  | ok output =>
      have hmem := (get_eq_ok.mp hget).1
      simp only [hget] at h
      cases hapi : api commit with
      | none =>
          simp only [hapi] at h
          obtain ⟨o, hsame, heq⟩ := applyAbsent_eq output reverted s
          rw [heq] at h
          cases h
          exact hs.save hmem hsame rfl
      | some position =>
          obtain ⟨apiHeight, index⟩ := position
          simp only [hapi] at h
          obtain ⟨o, s₁, hsame, hs₁, rfl, -⟩ := applyPresent_eq_ok h
          exact hs.save hmem hsame (by rw [hs₁])

theorem refreshOutputs_lasting (env : Env F E) (account : Identifier) (all : Bool)
    (id : Identifier) :
    Eff.Moves (Eff.Keeps (Tables fun s => Lasting s id)) (refreshOutputs env account all) := by
  refine Eff.Moves.bind (fun m hm => hm) fun tip => ?_
  obtain ⟨height, hash⟩ := tip
  refine Eff.Moves.read.bind fun w => Eff.Moves.bind (fun m hm => hm) fun api => ?_
  refine Eff.Moves.bind (fun m hm => ?_) fun reverted => ?_
  · have hstore := findRevertedKernels_store env m.store (env.walletOutputOrder.apply
      (mapWalletOutputs env.keychain w.store account all)) api account m rfl
    rw [Tables, hstore]
    exact hm
  refine Eff.Moves.bind (fun m hm => hm) fun now => ?_
  refine Eff.Moves.bind (batch_tables fun s u s' hs h => ?_) fun _ =>
    commit_tables fun s hs => cleanOldUnconfirmed_lasting height hs
  unfold applyApiOutputs at h
  by_cases hlow : height < s.confirmedHeight account
  · rw [if_pos hlow] at h
    cases h
    exact hs
  · rw [if_neg hlow] at h
    obtain ⟨-, -, h⟩ := except_bind_eq_ok.mp h
    obtain ⟨s₂, hloop, h⟩ := except_bind_eq_ok.mp h
    cases h
    have hkept : Lasting s₂ id := foldlM_induction (J := fun _ s => Lasting s id)
      (fun _ _ _ _ hJ hrun => applyApiOutput_lasting hJ hrun) hs hloop
    obtain ⟨r, hr, hlasts⟩ := hkept
    rw [← revertTxs_outputs reverted account now s₂] at hr
    exact ⟨r, hr, hlasts⟩

end Updater

theorem Owner.processInvoiceTx_lasting {env : Env F E} {slate slate' : Slate F E}
    {args : InitTxArgs} {w w' : WalletBackend F E} (hw : Lasting w.store id)
    (h : processInvoiceTx env slate args w = (.ok slate', w')) : Lasting w'.store id := by
  have hI : OfRecords fun s : Store E => Lasting s id := by
    intro s s' houtputs _ _ hs
    obtain ⟨r, hr, hlasts⟩ := hs
    rw [← houtputs] at hr
    exact ⟨r, hr, hlasts⟩
  have hends : Eff.Triple (fun m => m = w) (processInvoiceTx env slate args)
      (fun _ => Tables fun s => Lasting s id) (Tables fun s => Lasting s id) :=
    processInvoiceTx_tables hI hw slate args fun _ =>
      (Updater.refreshOutputs_lasting env _ false id).keepsTriple.consequence
        (fun m hm => by rw [Tables, hm.store]; exact hw) (fun _ _ h => h) fun _ h => h
  have hfinal := hends w rfl
  rw [h] at hfinal
  exact hfinal

end Refreshed

/-! ## The final slate -/

namespace Exchange

omit [DecidableEq E] in
theorem jointKernel_valid (K : Curve F E) (d d' : SecretKey × SecretKey) (fee : FeeFields) :
    K.CompletedSigValid (Slate.jointKernel K d d' fee).excessSig (Slate.jointKernel K d d' fee).excess
      (Slate.jointKernel K d d' fee).excess (.Plain fee) :=
  Pedersen.partial_signatures_add K.G _ _ _ _ _

omit [DecidableEq E] in
/-- A slate both parties signed, with the elements and the offset of the exchange, is balanced. -/
theorem balanced_of_final {K : Curve F E} {x : Exchange F} {s : Slate F E} {tx : Transaction F E}
    (hvalues : (x.spent.map Prod.fst).sum = (x.created.map Prod.fst).sum + x.fee.fee)
    (hoffset : s.offset = (x.created.map Prod.snd).sum - (x.spent.map Prod.snd).sum
      - (K.scalar x.initiator.1 + K.scalar x.responder.1))
    (hparts : s.participantData
      = [entry K x.responder (some (Slate.jointSig K x.initiator x.responder x.responder x.fee)),
        entry K x.initiator (some (Slate.jointSig K x.initiator x.responder x.initiator x.fee))])
    (htx : s.tx = some tx) (htxoff : tx.offset = s.offset)
    (hkernel : tx.kernels = [Slate.jointKernel K x.initiator x.responder x.fee])
    (hins : (tx.inputs.map (·.commit)).sum = (commits K x.spent).sum)
    (houts : (tx.outputs.map (·.commit)).sum = (commits K x.created).sum) : Balanced K x s := by
  refine ⟨hoffset, tx, _, htx, hkernel, htxoff, rfl, ?_, nonceSum K x.initiator x.responder,
    keySum K x.initiator x.responder, _, _, ?_, rfl, rfl, rfl, rfl, jointKernel_valid K _ _ _⟩
  · have hbalance := Pedersen.balance K.G K.H hvalues
    have hexcess : (Slate.jointKernel K x.initiator x.responder x.fee).excess
        = (K.scalar x.initiator.1 + K.scalar x.responder.1) • K.G := (add_smul _ _ _).symm
    rw [hins, houts, commits, commits, hbalance, hexcess, htxoff, hoffset, ← add_smul]
    congr 1
    ring
  · rw [Slate.partSigs, hparts]
    rfl

omit [DecidableEq E] in
theorem commits_append (K : Curve F E) (l l' : List (Nat × F)) :
    commits K (l ++ l') = commits K l ++ commits K l' :=
  List.map_append

omit [DecidableEq E] in
theorem inputs_commits (K : Keychain F E) (store : Store E)
    (ids : List (Identifier × Option Nat × Nat)) :
    (ids.map (inputFor K store)).map (·.commit) = commits K.toCurve (coins K ids) := by
  rw [List.map_map, commits, coins, List.map_map]
  rfl

omit [DecidableEq E] in
theorem outputs_commits (K : Keychain F E) (ids : List (Identifier × Option Nat × Nat)) :
    (ids.map (outputFor K)).map (·.commit) = commits K.toCurve (coins K ids) := by
  rw [List.map_map, commits, coins, List.map_map]
  rfl

omit [AddCommGroup E] [Module F E] [DecidableEq E] in
theorem coins_blinds (K : Keychain F E) (ids : List (Identifier × Option Nat × Nat)) :
    ((coins K ids).map Prod.snd).sum = Slate.blindSumOf K ids := by
  rw [coins, List.map_map]
  rfl

/-- Inputs with distinct commitments are all inserted. -/
theorem insertAll_inputs {K : Keychain F E} (store : Store E)
    {ids : List (Identifier × Option Nat × Nat)}
    (h : (commits K.toCurve (coins K ids)).Nodup) :
    insertAll [] (ids.map (inputFor K store)) = ids.map (inputFor K store) := by
  rw [← inputs_commits K store] at h
  exact insertAll_of_nodup (by simpa using h.of_map _)

/-! ## Each way of exchanging -/

/-- A send the recipient answered, finalized by its initiator. -/
theorem send_balanced {env : Env F E} {post : Bool} {d d' : SecretKey × SecretKey}
    {c c' : Context E} {fee : FeeFields} {received : Nat × F} {out : Output E} {s₂ s₃ : Slate F E}
    {w w₁ w' : WalletBackend F E}
    (hfinal : Foreign.finalizeTx env s₂ post w = (.ok s₃, w'))
    (hans : Answered env.keychain.toCurve d d' fee [] [out]
      (received.2 - env.keychain.scalar d'.1) s₂)
    (hout : out.commit = Pedersen.commit env.keychain.G env.keychain.H received.1 received.2)
    (hstate : s₂.state = .Standard2)
    (hget : w.store.getPrivateContext env.keychain s₂.id = .ok c) (hdrawn : c.Drawn d)
    (hfee : c.fee = some fee)
    (hlocked : Foreign.lockedContext env s₂ c w.parentKeyId w = (.ok c', w₁))
    (hheld : ∀ p ∈ c'.inputIds, Held w₁.store p)
    (hrec : ∀ p ∈ c'.outputIds, recorded w₁.store p.1 = true)
    (hx : WellFormed env.keychain.toCurve ⟨d, d', coins env.keychain c'.inputIds,
      received :: coins env.keychain c'.outputIds, fee⟩) :
    Balanced env.keychain.toCurve ⟨d, d', coins env.keychain c'.inputIds,
      received :: coins env.keychain c'.outputIds, fee⟩ s₃ := by
  obtain ⟨c₀, w₀, hget₀, hrun, -⟩ := Foreign.finalizeTx_eq_ok hfinal
  obtain rfl : c = c₀ := Except.ok.inj (hget.symm.trans hget₀)
  simp only [Foreign.finalizeByState, hstate] at hrun
  obtain ⟨c₁, w₂, tx, hlocked₁, htx, hs₃⟩ := Foreign.finalizeStandard_eq_ok hrun hans.participants
    hdrawn hfee hx.apart hans.count hans.plain
  obtain ⟨hc₁, hw₂⟩ := Prod.mk.inj (hlocked.symm.trans hlocked₁)
  obtain rfl : c' = c₁ := Except.ok.inj hc₁
  subst hw₂
  obtain ⟨tx', htx', hins, houts⟩ := hans.tx
  obtain rfl : tx = tx' := Option.some.inj (htx.symm.trans htx')
  have hrecall : c'.outputIds.filter (fun p => recorded w₁.store p.1) = c'.outputIds :=
    List.filter_eq_self.mpr hrec
  have hcommits : (out :: c'.outputIds.map (outputFor env.keychain)).map (·.commit)
      = commits env.keychain.toCurve (received :: coins env.keychain c'.outputIds) := by
    rw [List.map_cons, outputs_commits, hout]
    rfl
  have hnodup : ([out] ++ c'.outputIds.map (outputFor env.keychain)).Nodup := by
    have hcreated := hx.created_nodup
    rw [← hcommits] at hcreated
    exact hcreated.of_map _
  dsimp only at hs₃
  rw [inputs_of_repopulateParts env.keychain hheld, outputs_of_repopulateParts, hrecall, hins,
    houts, insertAll_inputs w₁.store hx.spent_nodup, insertAll_of_nodup hnodup,
    hans.offset_eq] at hs₃
  subst hs₃
  refine balanced_of_final hx.values ?_ rfl rfl rfl rfl ?_ ?_
  · rw [List.map_cons, List.sum_cons, coins_blinds, coins_blinds]
    ring
  · rw [inputs_commits]
  · exact congrArg List.sum hcommits

/-- Restoring some of the outputs a transaction was built with adds none. -/
theorem insertAll_restored {K : Keychain F E} {ids : List (Identifier × Option Nat × Nat)}
    (h : (commits K.toCurve (coins K ids)).Nodup) (p : Identifier × Option Nat × Nat → Bool) :
    insertAll (insertAll [] (ids.map (outputFor K))) ((ids.filter p).map (outputFor K))
      = ids.map (outputFor K) := by
  rw [← outputs_commits] at h
  have hall : insertAll [] (ids.map (outputFor K)) = ids.map (outputFor K) :=
    insertAll_of_nodup (by simpa using h.of_map _)
  rw [hall]
  refine insertAll_of_subset fun o ho => ?_
  obtain ⟨q, hq, rfl⟩ := List.mem_map.mp ho
  exact List.mem_map_of_mem (List.mem_of_mem_filter hq)

/-- A paid invoice, finalized by its issuer with a context whose inputs it holds. -/
theorem invoice_final_balanced {env : Env F E} {post : Bool} {d d' : SecretKey × SecretKey}
    {c : Context E} {ins : List (Input E)} {outs : List (Output E)} {offset : F}
    {spent created : List (Nat × F)} {s₂ s₃ : Slate F E} {w w' : WalletBackend F E}
    (hfinal : Foreign.finalizeTx env s₂ post w = (.ok s₃, w'))
    (hans : Answered env.keychain.toCurve d d' s₂.feeFields ins outs offset s₂)
    (hstate : s₂.state = .Invoice2)
    (hget : w.store.getPrivateContext env.keychain s₂.id = .ok c) (hissued : Foreign.Issued d c)
    (hheld : ∀ p ∈ c.inputIds, Held w.store p)
    (hx : WellFormed env.keychain.toCurve ⟨d, d', spent, created, s₂.feeFields⟩)
    (hoffset : offset - Slate.blindSumOf env.keychain c.inputIds
        + Slate.blindSumOf env.keychain c.outputIds
      = (created.map Prod.snd).sum - (spent.map Prod.snd).sum - env.keychain.scalar d'.1)
    (hspent : (insertAll ins (c.inputIds.map (inputFor env.keychain w.store))).map (·.commit)
      = commits env.keychain.toCurve spent)
    (hcreated : (insertAll outs ((c.outputIds.filter fun p => recorded w.store p.1).map
      (outputFor env.keychain))).map (·.commit) = commits env.keychain.toCurve created) :
    Balanced env.keychain.toCurve ⟨d, d', spent, created, s₂.feeFields⟩ s₃ := by
  obtain ⟨c₀, w₀, hget₀, hrun, -⟩ := Foreign.finalizeTx_eq_ok hfinal
  obtain rfl : c = c₀ := Except.ok.inj (hget.symm.trans hget₀)
  simp only [Foreign.finalizeByState, hstate] at hrun
  obtain ⟨tx, htx, hs₃⟩ := Foreign.finalizeInvoice_eq_ok hrun hans.participants hissued hx.apart
    hans.count hans.plain
  obtain ⟨tx', htx', hins, houts⟩ := hans.tx
  obtain rfl : tx = tx' := Option.some.inj (htx.symm.trans htx')
  dsimp only at hs₃
  rw [inputs_of_repopulateParts env.keychain hheld, outputs_of_repopulateParts, hins, houts,
    hans.offset_eq] at hs₃
  subst hs₃
  refine balanced_of_final hx.values ?_ rfl rfl rfl rfl ?_ ?_
  · linear_combination hoffset
  · exact congrArg List.sum hspent
  · exact congrArg List.sum hcreated

/-- An invoice another wallet paid, finalized by its issuer. -/
theorem invoice_balanced {env env' : Env F E} {args' : InitTxArgs} {post : Bool}
    {d d' : SecretKey × SecretKey} {c c' : Context E} {id : Identifier} {s₁ s₂ s₃ : Slate F E}
    {w w' v₀ v₁ : WalletBackend F E} (hcurve : env'.keychain.toCurve = env.keychain.toCurve)
    (hopen : Opened env.keychain.toCurve d s₁ c) (hins : c.inputIds = [])
    (houts : c.outputIds = [(id, none, s₁.amount)])
    (hget : w.store.getPrivateContext env.keychain s₁.id = .ok c)
    (hrec : recorded w.store id = true) (hother : v₀.store.contexts s₁.id = none)
    (hpay : Owner.processInvoiceTx (env'.drawing d') s₁ args' v₀ = (.ok s₂, v₁))
    (hget' : v₁.store.getPrivateContext env'.keychain s₁.id = .ok c')
    (hfinal : Foreign.finalizeTx env s₂ post w = (.ok s₃, w'))
    (hx : WellFormed env.keychain.toCurve ⟨d, d', coins env'.keychain c'.inputIds,
      coins env'.keychain c'.outputIds ++ coins env.keychain c.outputIds, s₂.feeFields⟩) :
    Balanced env.keychain.toCurve ⟨d, d', coins env'.keychain c'.inputIds,
      coins env'.keychain c'.outputIds ++ coins env.keychain c.outputIds, s₂.feeFields⟩ s₃ := by
  have hp : s₁.participantData = [entry env'.keychain.toCurve d none] := by
    rw [hcurve]
    exact hopen.participants
  have hne : Apart env'.keychain.toCurve d d' := by
    rw [hcurve]
    exact hx.apart
  obtain ⟨cp, excess, fee, ttl, hdrawn, -, hheld, hstored, hs₂⟩ :=
    Owner.processInvoiceTx_eq_ok hpay hp hne hopen.count hopen.plain
  have hres : v₀.store.getPrivateContext env'.keychain s₁.id = .error (.NotFound "Slate id") := by
    rw [Store.getPrivateContext, hother]
  rw [hres] at hstored hs₂
  obtain rfl : c' = { cp with calculatedExcess := some excess } :=
    Except.ok.inj (hget'.symm.trans hstored)
  have hspent := hx.spent_nodup
  have hcreated := hx.created_nodup
  rw [commits_append] at hcreated
  rw [← hcurve] at hspent hcreated
  have hinputs := inputs_of_repopulateParts env'.keychain (s := v₁.store)
    (c := { cp with calculatedExcess := some excess }) hheld
  have hoffset : s₂.offset = Slate.blindSumOf env'.keychain cp.outputIds
      - Slate.blindSumOf env'.keychain cp.inputIds - env.keychain.scalar d'.1 := by
    rw [hs₂]
    change s₁.offset - env'.keychain.toCurve.scalar d'.1 - Slate.blindSumOf env'.keychain cp.inputIds
      + Slate.blindSumOf env'.keychain cp.outputIds = _
    rw [hopen.offset, hcurve]
    ring
  have hans : Answered env.keychain.toCurve d d' s₂.feeFields
      (cp.inputIds.map (inputFor env'.keychain v₁.store))
      (cp.outputIds.map (outputFor env'.keychain)) s₂.offset s₂ := by
    refine ⟨?_, ?_, ?_, rfl, ?_⟩
    · rw [hs₂, hcurve]
    · rw [hs₂]
      exact hopen.count
    · rw [hs₂]
      exact hopen.plain
    · rw [hs₂]
      refine ⟨_, rfl, ?_, ?_⟩
      · exact (congrArg _ hinputs).trans (insertAll_inputs v₁.store hspent)
      · have houtputs := outputs_of_repopulateParts env'.keychain v₁.store
          { cp with calculatedExcess := some excess }
        exact (congrArg _ houtputs).trans
          (insertAll_restored (List.nodup_append.mp hcreated).1 _)
  have hid : s₂.id = s₁.id := by rw [hs₂]
  refine invoice_final_balanced hfinal hans (by rw [hs₂]) (by rw [hid]; exact hget)
    ⟨hopen.drawn.2.2.1, hopen.drawn.2.2.2, Foreign.completionKeys_drawn hopen.drawn⟩
    (by simp [hins]) hx ?_ ?_ ?_
  · rw [hoffset, hins, houts, List.map_append, List.sum_append, coins_blinds, coins_blinds,
      coins_blinds]
    simp [Slate.blindSumOf]
    ring
  · rw [hins, ← hcurve]
    exact inputs_commits _ _ _
  · have hall : c.outputIds.filter (fun p => recorded w.store p.1) = c.outputIds := by
      rw [houts]
      exact List.filter_eq_self.mpr (by simpa using hrec)
    have hcommits : (cp.outputIds.map (outputFor env'.keychain)
        ++ c.outputIds.map (outputFor env.keychain)).map (·.commit)
          = commits env.keychain.toCurve (coins env'.keychain cp.outputIds)
            ++ commits env.keychain.toCurve (coins env.keychain c.outputIds) := by
      rw [List.map_append, outputs_commits, outputs_commits, hcurve]
    rw [hcurve, ← hcommits] at hcreated
    rw [hall, insertAll_of_nodup hcreated.of_map, commits_append]
    exact hcommits

/-- An invoice its own issuer paid and finalized. -/
theorem ownInvoice_balanced {env : Env F E} {args' : InitTxArgs} {post : Bool}
    {d d' : SecretKey × SecretKey} {c c' : Context E} {id : Identifier} {s₁ s₂ s₃ : Slate F E}
    {w w₁ w₂ w₃ : WalletBackend F E} (hkeys : d.1 ≠ d'.1) (hnonces : d.2 ≠ d'.2)
    (hopen : Opened env.keychain.toCurve d s₁ c) (hins : c.inputIds = [])
    (houts : c.outputIds = [(id, none, s₁.amount)])
    (hget : w.store.getPrivateContext env.keychain s₁.id = .ok c)
    (hpay : Owner.processInvoiceTx (env.drawing d') s₁ args' w = (.ok s₂, w₁))
    (hget' : w₁.store.getPrivateContext env.keychain s₁.id = .ok c')
    (hrec : recorded w₁.store id = true) (hkept : Kept s₁.id w₁ w₂)
    (hfinal : Foreign.finalizeTx env s₂ post w₂ = (.ok s₃, w₃))
    (hx : WellFormed env.keychain.toCurve ⟨d, d', coins env.keychain c'.inputIds,
      coins env.keychain c'.outputIds, s₂.feeFields⟩) :
    Balanced env.keychain.toCurve ⟨d, d', coins env.keychain c'.inputIds,
      coins env.keychain c'.outputIds, s₂.feeFields⟩ s₃ := by
  obtain ⟨cp, excess, fee, ttl, hdrawn, -, hheld, hstored, hs₂⟩ :=
    Owner.processInvoiceTx_eq_ok hpay hopen.participants hx.apart hopen.count hopen.plain
  rw [hget] at hstored hs₂
  have hc' : c' = Owner.mergeContext { cp with calculatedExcess := some excess } c :=
    Except.ok.inj (hget'.symm.trans hstored)
  have hcins : c'.inputIds = cp.inputIds := by
    rw [hc']
    change cp.inputIds ++ c.inputIds = _
    rw [hins, List.append_nil]
  have hcouts : c'.outputIds = cp.outputIds ++ c.outputIds := by
    rw [hc']
    rfl
  have hheld' : ∀ p ∈ c'.inputIds, Held w₁.store p := by
    rw [hcins]
    exact hheld
  have hspent : insertAll [] (c'.inputIds.map (inputFor env.keychain w₁.store))
      = c'.inputIds.map (inputFor env.keychain w₁.store) :=
    insertAll_inputs w₁.store hx.spent_nodup
  have hcreated : insertAll (insertAll [] (cp.outputIds.map (outputFor env.keychain)))
      ((c'.outputIds.filter fun p => recorded w₁.store p.1).map (outputFor env.keychain))
        = c'.outputIds.map (outputFor env.keychain) := by
    have hnodup := hx.created_nodup
    have hrecall : c.outputIds.filter (fun p => recorded w₁.store p.1) = c.outputIds := by
      rw [houts]
      exact List.filter_eq_self.mpr (by simpa using hrec)
    rw [hcouts, List.filter_append, List.map_append, insertAll_append, hrecall, List.map_append]
    have hall : (commits env.keychain.toCurve (coins env.keychain c'.outputIds)).Nodup := hnodup
    rw [← outputs_commits, hcouts, List.map_append] at hall
    have hsplit : (commits env.keychain.toCurve (coins env.keychain cp.outputIds)).Nodup := by
      rw [← outputs_commits]
      rw [List.map_append] at hall
      exact (List.nodup_append.mp hall).1
    rw [insertAll_restored hsplit]
    exact insertAll_of_nodup hall.of_map
  have hans : Answered env.keychain.toCurve d d' s₂.feeFields
      (c'.inputIds.map (inputFor env.keychain w₁.store))
      (c'.outputIds.map (outputFor env.keychain)) s₂.offset s₂ := by
    refine ⟨?_, ?_, ?_, rfl, ?_⟩
    · rw [hs₂]
    · rw [hs₂]
      exact hopen.count
    · rw [hs₂]
      exact hopen.plain
    · rw [hs₂]
      refine ⟨_, rfl, ?_, ?_⟩
      · have hparts := inputs_of_repopulateParts env.keychain hheld'
        rw [hc'] at hparts hspent ⊢
        exact (congrArg _ hparts).trans hspent
      · have hparts := outputs_of_repopulateParts env.keychain w₁.store c'
        rw [hc'] at hparts hcreated ⊢
        exact (congrArg _ hparts).trans hcreated
  have hid : s₂.id = s₁.id := by rw [hs₂]
  have hoffset : s₂.offset = - env.keychain.scalar d'.1 := by
    rw [hs₂]
    change s₁.offset - env.keychain.scalar d'.1 - Slate.blindSumOf env.keychain []
      + Slate.blindSumOf env.keychain [] = _
    rw [hopen.offset, Slate.blindSumOf]
    simp
  have hissued : Foreign.Issued d c' := by
    have hinitial : c'.initialSecKey = d.1 ∧ c'.initialSecNonce = d.2 := by
      rw [hc']
      exact ⟨hopen.drawn.2.2.1, hopen.drawn.2.2.2⟩
    have hcurrent : c'.secKey = d'.1 ∧ c'.secNonce = d'.2 := by
      rw [hc']
      exact ⟨hdrawn.1, hdrawn.2.1⟩
    refine ⟨hinitial.1, hinitial.2, ?_⟩
    rw [Tx.completionKeys, hinitial.1, hinitial.2, hcurrent.1, hcurrent.2, if_pos ⟨hkeys, hnonces⟩]
  have hsame : c'.inputIds.map (inputFor env.keychain w₂.store)
      = c'.inputIds.map (inputFor env.keychain w₁.store) :=
    List.map_congr_left fun p hp => hkept.inputFor env.keychain (hheld' p hp)
  refine invoice_final_balanced hfinal hans (by rw [hs₂])
    (by rw [hid, hkept.getPrivateContext]; exact hget') hissued
    (fun p hp => (hkept.find (hheld' p hp)).1) hx ?_ ?_ ?_
  · rw [hoffset, coins_blinds, coins_blinds]
    ring
  · rw [hsame, insertAll_of_subset fun _ h => h]
    exact inputs_commits _ _ _
  · rw [insertAll_of_subset]
    · exact outputs_commits _ _
    · intro o ho
      obtain ⟨q, hq, rfl⟩ := List.mem_map.mp ho
      exact List.mem_map_of_mem (List.mem_of_mem_filter hq)

end Exchange

section Received

variable {env env' : Env F E} {dest : Option Label} {d d' : SecretKey × SecretKey}
  {c : Context E} {s₁ s₂ : Slate F E} {v v' : WalletBackend F E}

/-- What a recipient answers to the slate of a send, under the sender's curve. -/
theorem Opened.received (hcurve : env'.keychain.toCurve = env.keychain.toCurve)
    (hopen : Opened env.keychain.toCurve d s₁ c) (hne : Apart env.keychain.toCurve d d')
    (h : Foreign.receiveTx (env'.drawing d') s₁ dest v = (.ok s₂, v')) :
    Answered env.keychain.toCurve d d' s₁.feeFields []
        [outputFor env'.keychain (nextKey v, none, s₁.amount)]
        (env'.keychain.deriveKey s₁.amount (nextKey v) - env.keychain.scalar d'.1) s₂ ∧
      (outputFor env'.keychain (nextKey v, none, s₁.amount)).commit = Pedersen.commit
        env.keychain.G env.keychain.H s₁.amount
        (env'.keychain.deriveKey s₁.amount (nextKey v)) ∧
      s₂.id = s₁.id ∧ s₂.state = .Standard2 := by
  have hp : s₁.participantData = [entry env'.keychain.toCurve d none] := by
    rw [hcurve]
    exact hopen.participants
  have hne' : Apart env'.keychain.toCurve d d' := by
    rw [hcurve]
    exact hne
  obtain ⟨hans, hid, hstate⟩ :=
    Foreign.receiveTx_answers hp hopen.count hopen.plain hopen.offset hne' h
  rw [hcurve] at hans
  refine ⟨hans, ?_, hid, hstate⟩
  rw [← hcurve]
  rfl

end Received

/-- Every complete exchange ends balanced. -/
theorem exchange_balanced {K : Curve F E} {x : Exchange F} {s : Slate F E} (h : Completes K x s)
    (hx : x.WellFormed K) : x.Balanced K s := by
  cases h with
  | standard hcurve hcurve' hargs hearly hinit hcontext hreceive hkept hsl hlock hkept' hfinal =>
      subst hcurve
      obtain ⟨c₀, hget₀, hopen, hfee, -, hnolate⟩ := Owner.initSendTx_opens hargs hinit
      obtain rfl := Except.ok.inj (hget₀.symm.trans hcontext)
      obtain ⟨hans, hout, hid, hstate⟩ := hopen.received hcurve' hx.apart hreceive
      obtain ⟨hcovers, c₁, hget₁, hheld, hrec⟩ := Owner.txLockOutputs_covers hlock
      rw [hsl, hkept.getPrivateContext, hcontext] at hget₁
      obtain rfl := Except.ok.inj hget₁
      refine Exchange.send_balanced hfinal hans hout hstate ?_ hopen.drawn hfee
        (Foreign.lockedContext_none (hnolate hearly)) (fun p hp => (hkept'.find (hheld p hp)).1) (fun p hp => hkept'.recorded (hrec p hp)) hx
      rw [hid, hkept'.getPrivateContext, Store.getPrivateContext, hcovers.2.2]
      rw [← hcontext, ← hkept.getPrivateContext]
      rfl
  | lateLocked hcurve hcurve' hargs hinit hcontext hlate hreceive hkept hlocked hfinal =>
      subst hcurve
      obtain ⟨c₀, hget₀, hopen, hfee, -, -⟩ := Owner.initSendTx_opens hargs hinit
      obtain rfl := Except.ok.inj (hget₀.symm.trans hcontext)
      obtain ⟨hans, hout, hid, hstate⟩ := hopen.received hcurve' hx.apart hreceive
      obtain ⟨-, -, hpresent⟩ := Foreign.lockedContext_eq_ok hlocked
      obtain ⟨hheld, hrec⟩ := hpresent hlate
      refine Exchange.send_balanced hfinal hans hout hstate ?_ hopen.drawn hfee hlocked hheld hrec
        hx
      rw [hid, hkept.getPrivateContext, hcontext]
  | invoice hcurve hcurve' hissue hcontext hother hpay hcontext' hkept hfinal =>
      subst hcurve
      obtain ⟨c₀, id, hget₀, hopen, -, -, hins, houts, hlasting⟩ := Owner.issueInvoiceTx_opens hissue
      obtain rfl := Except.ok.inj (hget₀.symm.trans hcontext)
      exact Exchange.invoice_balanced hcurve' hopen hins houts
        (by rw [hkept.getPrivateContext, hcontext]) (hkept.lasting hlasting).recorded hother hpay hcontext'
        hfinal hx
  | ownInvoice hcurve hkeys hnonces hissue hcontext hkept hpay hcontext' hkept' hfinal =>
      subst hcurve
      obtain ⟨c₀, id, hget₀, hopen, -, -, hins, houts, hlasting⟩ := Owner.issueInvoiceTx_opens hissue
      obtain rfl := Except.ok.inj (hget₀.symm.trans hcontext)
      exact Exchange.ownInvoice_balanced hkeys hnonces hopen hins houts
        (by rw [hkept.getPrivateContext, hcontext]) hpay hcontext'
        (Owner.processInvoiceTx_lasting (hkept.lasting hlasting) hpay).recorded hkept' hfinal hx

/-! ## The sample send -/

namespace SampleSend

/-- What the sender and a recipient with the given draw put into the send. -/
def exchange (draw : SecretKey × SecretKey) : Exchange ℤ :=
  ⟨(1, 2), draw, coins sampleKeychain context.inputIds,
    (offer.amount, sampleKeychain.deriveKey offer.amount (nextKey (F := ℤ) (E := ℤ × ℤ) .new))
      :: coins sampleKeychain context.outputIds, offer.feeFields⟩

theorem exchange_balanced_sample :
    (exchange (3, 4)).Balanced sampleKeychain.toCurve
      (returned (Foreign.finalizeTx env (answer (3, 4)) false locked) noSlate) := by
  have hinit : Owner.initSendTx (env.drawing (1, 2)) (sampleSend 5)
      (sampleWallet [sampleCoin 30000000 0]) = (.ok offer, initiated.2) :=
    eq_returned noSlate (by decide +kernel)
  have hcontext : initiated.2.store.getPrivateContext env.keychain offer.id = .ok context := by
    decide +kernel
  have hreceive : Foreign.receiveTx (env.drawing (3, 4)) offer none .new
      = (.ok (answer (3, 4)), (received (3, 4)).2) :=
    eq_returned noSlate (by decide +kernel)
  have hlock : Owner.txLockOutputs env offer initiated.2 = (.ok (), locked) :=
    eq_returned () (by decide +kernel)
  have hfinal := eq_returned (r := Foreign.finalizeTx env (answer (3, 4)) false locked) noSlate
    (by decide +kernel)
  exact exchange_balanced
    (.standard rfl rfl (by decide) rfl hinit hcontext hreceive (.refl _ _) rfl hlock (.refl _ _)
      hfinal)
    ⟨by decide +kernel, by decide +kernel, by decide +kernel, by decide +kernel⟩

/-- With one key and nonce for both parties the slate keeps a single entry: every
call before finalization returns, and no final slate is balanced, whichever
transactions are valid. -/
theorem equal_draws_not_balanced :
    initiated.1.isOk = true ∧ (received (1, 2)).1.isOk = true ∧
      (Owner.txLockOutputs env offer initiated.2).1.isOk = true ∧
      ((exchange (1, 2)).spent.map Prod.fst).sum
        = ((exchange (1, 2)).created.map Prod.fst).sum + (exchange (1, 2)).fee.fee ∧
      ∀ (validate : Transaction ℤ (ℤ × ℤ) → Except Error Unit) (s : Slate ℤ (ℤ × ℤ))
        (w : WalletBackend ℤ (ℤ × ℤ)),
        Foreign.finalizeTx { env with consensus := { env.consensus with validate := validate } }
          (answer (1, 2)) false locked = (.ok s, w) →
        ¬ (exchange (1, 2)).Balanced sampleKeychain.toCurve s := by
  refine ⟨by decide +kernel, by decide +kernel, by decide +kernel, by decide +kernel, ?_⟩
  intro validate s w hrun hbalanced
  obtain ⟨c, w₁, hget, hstandard, -⟩ := Foreign.finalizeTx_eq_ok hrun
  have hcontext : locked.store.getPrivateContext sampleKeychain (answer (1, 2)).id = .ok context := by
    decide +kernel
  obtain rfl : context = c := Except.ok.inj (hcontext.symm.trans hget)
  have hstate : (answer (1, 2)).state = .Standard2 := by decide +kernel
  simp only [Foreign.finalizeByState, hstate] at hstandard
  obtain ⟨c', w₂, tx, fee, features, ps, excess, sig, hlock, -, -, -, hlen, rfl⟩ :=
    Foreign.finalizeStandard_returns hstandard
  have hlate : context.lateLockArgs = none := by decide +kernel
  rw [Foreign.lockedContext_none hlate] at hlock
  cases hlock
  have hone : ((answer (1, 2)).addParticipantInfo sampleKeychain context none).participantData.length
      = 1 := by decide +kernel
  obtain ⟨-, tx', kernel, -, -, -, -, -, -, keys, sig₁, sig₂, hsigs, -⟩ := hbalanced
  have htwo : [sig₂, sig₁].length ≤ ps.length := by
    rw [← hsigs]
    exact List.length_filterMap_le _ _
  rw [hlen] at htwo
  have hle : 2 ≤ 1 := hone ▸ htwo
  omega

end SampleSend

end GrinWallet
