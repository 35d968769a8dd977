import GrinWallet.Exchange.Balance
import GrinWallet.Exchange.Undo
import GrinWallet.Runs.Frame
import GrinWallet.Runs.Refresh
import GrinWallet.Selection.Distinct

/-! # Paying an invoice again

A payer may call `process_invoice_tx` again for the same invoice, for example
when its answer was lost. The context a first payment stored is taken for that of
an issuer who pays its own invoice: the second payment leaves its inputs and
outputs to a finalization that never comes, and lists those of the first again.
-/

namespace GrinWallet

open Effect WalletBackend OrderedTable

variable {F E : Type}

namespace WalletBackend

/-- The private contexts are the same. -/
def SameContexts (w w' : WalletBackend F E) : Prop := w'.store.contexts = w.store.contexts

instance : Std.Refl (SameContexts (F := F) (E := E)) := ⟨fun _ => rfl⟩

instance : IsTrans (WalletBackend F E) SameContexts := ⟨fun _ _ _ h h' => Eq.trans h' h⟩

theorem OnlyKeys.contexts {w w' : WalletBackend F E} (h : OnlyKeys w w') : SameContexts w w' := by
  obtain ⟨f, t, rfl⟩ := h
  rfl

theorem Refreshes.contexts {w w' : WalletBackend F E} (h : w.Refreshes w') :
    SameContexts w w' := by
  obtain ⟨s, t, hs, rfl⟩ := h
  obtain ⟨o, l, i, c, rfl⟩ := hs
  rfl

/-- Every context stored for the slate lists an input; the context of an issuer lists none. -/
def Paying (slateId : Uuid) (w : WalletBackend F E) : Prop :=
  ∀ kept, w.store.contexts slateId = some kept → kept.inputIds ≠ []

theorem Paying.of_contexts {slateId : Uuid} {w w' : WalletBackend F E} (h : w.Paying slateId)
    (hsame : SameContexts w w') : w'.Paying slateId := by
  intro kept hkept
  rw [hsame] at hkept
  exact h kept hkept

end WalletBackend

theorem Store.contexts_savePrivateContext (s : Store E) (K : Keychain F E) (slateId : Uuid)
    (c : Context E) :
    (s.savePrivateContext K slateId c).contexts slateId
      = some (c.mask (K.privateCtxXorKeys slateId)) :=
  Function.update_self _ _ _

variable [CommRing F] [AddCommGroup E] [Module F E] [DecidableEq E]

namespace Owner

/-! ## One call -/

section Call

variable {env : Env F E} {slate s s' : Slate F E} {args : InitTxArgs} {slateId : Uuid}
  {K : Keychain F E} {res : Except Error (Context E)} {c : Context E} {w w' : WalletBackend F E}

omit [AddCommGroup E] [Module F E] [DecidableEq E] [CommRing F] in
theorem checkTtl_contexts (slate : Slate F E) : Eff.Moves SameContexts (checkTtl slate) :=
  Eff.Moves.read.bind fun _ => Eff.Moves.throwIf _

/-- A payment up to the draw leaves the contexts. -/
theorem beginPayment_contexts (env : Env F E) (slate : Slate F E) (args : InitTxArgs) :
    Eff.Moves SameContexts (beginPayment env slate args) := by
  have hkeys : ∀ {α : Type} {x : WalletM F E α}, Eff.Moves OnlyKeys x →
      Eff.Moves SameContexts x := fun hx => hx.mono fun _ _ h => h.contexts
  refine (checkTtl_contexts slate).bind fun _ => (hkeys (accountOrActive_onlyKeys _)).bind fun p => ?_
  refine Eff.Moves.read.bind fun w => (Eff.Moves.ofExcept _).bind fun _ => ?_
  refine (hkeys (ask_onlyKeys _)).bind fun tip => ?_
  obtain ⟨height, hash⟩ := tip
  have hrefresh : Eff.Moves SameContexts (Updater.refreshOutputs env p false) :=
    (Updater.refreshOutputs_refreshes env p false).mono fun _ _ h => h.contexts
  refine (Eff.Moves.runIf hrefresh).bind fun _ => ?_
  exact (hkeys (Selection.buildSendTx_onlyKeys _ _ _ _ _ _ _ _ _ _)).bind fun r =>
    Eff.Moves.pure _

/-- It lists each coin and each change output once, and does not touch the offset. -/
theorem beginPayment_lists (env : Env F E) (slate : Slate F E) (args : InitTxArgs) :
    Eff.Yields (beginPayment env slate args) fun r =>
      (r.2.1.id = slate.id ∧ r.2.1.offset = slate.offset) ∧ r.2.2.inputIds ≠ [] ∧ r.2.2.inputKeys.Nodup ∧
      (args.numChangeOutputs ≤ 2 ^ 32 → r.2.2.outputKeys.Nodup) := by
  refine Eff.Yields.bind_of_forall fun _ => Eff.Yields.bind_of_forall fun p =>
    Eff.Yields.bind_of_forall fun w => Eff.Yields.bind_of_forall fun _ =>
    Eff.Yields.bind_of_forall fun tip => ?_
  obtain ⟨height, hash⟩ := tip
  refine Eff.Yields.bind_of_forall fun _ => ?_
  exact (Selection.buildSendTx_distinct _ _ _ _ _ _ _ _ _ _).bind fun r hr => Eff.Yields.pure hr

/-- A payment from the draw on stores the context it keeps, and adds its share to
the offset. -/
theorem finishPayment_stores (h : finishPayment K slateId res s c w = (.ok s', w')) :
    ∃ excess,
      let own := contribution res { c with initialSecKey := c.secKey }
      w'.store = w.store.savePrivateContext K slateId
          (payerContext res { c with initialSecKey := c.secKey } excess) ∧
        s'.id = s.id ∧ s'.offset = s.offset - K.scalar own.initialSecKey - Slate.blindSumOf K own.inputIds
          + Slate.blindSumOf K own.outputIds := by
  obtain ⟨s₁, w₁, h₁, h₂⟩ := Eff.bind_eq_ok.mp h
  obtain ⟨excess, w₂, h₃, h₄⟩ := Eff.bind_eq_ok.mp h₂
  obtain ⟨wr, w₃, h₅, h₆⟩ := Eff.bind_eq_ok.mp h₄
  obtain ⟨s₂, w₄, h₇, hend⟩ := Eff.bind_eq_ok.mp h₆
  obtain ⟨hround, rfl⟩ := Eff.ofExcept_eq_ok.mp h₁
  obtain ⟨-, rfl⟩ := Eff.ofExcept_eq_ok.mp h₃
  obtain ⟨rfl, rfl⟩ := Eff.read_eq_ok.mp h₅
  obtain ⟨hrep, rfl⟩ := Eff.ofExcept_eq_ok.mp h₇
  obtain ⟨nonceSum, blindSum, msg, ps, -, -, -, -, -, rfl⟩ := Slate.fillRound2_eq_ok hround
  obtain ⟨tx, fee, features, -, -, -, rfl⟩ := Slate.repopulateTx_eq_ok hrep
  cases hend
  exact ⟨excess, rfl, rfl, rfl⟩

theorem finishPayment_error {e : Error}
    (h : finishPayment K slateId res s c w = (.error e, w')) : w' = w := by
  unfold finishPayment at h
  rcases Eff.ofExcept_bind_eq_error.mp h with hround | hround
  · exact hround.2
  obtain ⟨s₁, -, h₁⟩ := hround
  rcases Eff.ofExcept_bind_eq_error.mp h₁ with hexcess | hexcess
  · exact hexcess.2
  obtain ⟨excess, -, h₂⟩ := hexcess
  rcases Eff.ofExcept_bind_eq_error.mp (Eff.read_bind_eq_error.mp h₂) with hrep | hrep
  · exact hrep.2
  obtain ⟨s₂, -, h₃⟩ := hrep
  cases h₃

omit [CommRing F] [AddCommGroup E] [Module F E] [DecidableEq E] in
theorem payerContext_inputIds (res : Except Error (Context E)) (c : Context E) (excess : E) :
    (payerContext res c excess).inputIds
      = c.inputIds ++ (res.toOption.map (·.inputIds)).getD [] := by
  cases res with
  | ok old => rfl
  | error e => exact (List.append_nil _).symm

/-- A call leaves the contexts, or stores one that lists an input. -/
theorem processInvoiceTx_paying (d : SecretKey × SecretKey) (h : w.Paying slate.id) :
    (processInvoiceTx (env.drawing d) slate args w).2.Paying slate.id := by
  rw [processInvoiceTx_split]
  cases hbegin : beginPayment env slate args w with
  | mk r w₁ =>
      have hsame : SameContexts w w₁ := (beginPayment_contexts env slate args).of_run hbegin
      cases r with
      | error e =>
          rw [Eff.run_bind_error hbegin]
          exact h.of_contexts hsame
      | ok r =>
          obtain ⟨res, s₁, c⟩ := r
          obtain ⟨-, hinputs, -⟩ := beginPayment_lists env slate args _ _ _ hbegin
          rw [Eff.run_bind_ok hbegin]
          dsimp only
          cases hfinish : finishPayment env.keychain slate.id res s₁ (c.redrawn d) w₁ with
          | mk r w₂ =>
              cases r with
              | error e =>
                  rw [finishPayment_error hfinish]
                  exact h.of_contexts hsame
              | ok s' =>
                  obtain ⟨excess, hstore, -⟩ := finishPayment_stores hfinish
                  intro kept hkept
                  rw [hstore, Store.contexts_savePrivateContext] at hkept
                  rw [← Option.some.inj hkept]
                  change (payerContext res _ excess).inputIds ≠ []
                  rw [payerContext_inputIds]
                  exact List.append_ne_nil_of_left_ne_nil hinputs _

end Call

/-! ## Any number of calls -/

/-- The calls of a payer, each with its arguments and its draw, one after the other. -/
def payAll (env : Env F E) (slate : Slate F E)
    (calls : List (InitTxArgs × (SecretKey × SecretKey))) (w : WalletBackend F E) :
    WalletBackend F E :=
  calls.foldl (fun w call => (processInvoiceTx (env.drawing call.2) slate call.1 w).2) w

theorem payAll_paying (env : Env F E) (slate : Slate F E)
    (calls : List (InitTxArgs × (SecretKey × SecretKey))) {w : WalletBackend F E}
    (h : w.Paying slate.id) : (payAll env slate calls w).Paying slate.id := by
  induction calls generalizing w with
  | nil => exact h
  | cons call calls ih => exact ih (processInvoiceTx_paying call.2 h)

/-- What a payment is to leave: a context with the inputs and the change of its
own transaction, each once; a share of the offset for exactly these; a lock that
touches no other record; and a slate its issuer can finalize. -/
structure PaidOnce (env : Env F E) (slate : Slate F E) (d' : SecretKey × SecretKey)
    (c : Context E) (paid : Slate F E) (w : WalletBackend F E) : Prop where
  kept : ∃ kept, w.store.getPrivateContext env.keychain slate.id = .ok kept ∧
    kept.inputIds = c.inputIds ∧ kept.outputIds = c.outputIds
  once : c.inputKeys.Nodup ∧ c.outputKeys.Nodup
  offset : paid.offset = slate.offset - env.keychain.scalar d'.1
    - Slate.blindSumOf env.keychain c.inputIds + Slate.blindSumOf env.keychain c.outputIds
  lock : ∀ {w'}, txLockOutputs env paid w = (.ok (), w') →
    ∃ logId, ∀ k, k ∉ c.outputKeys → w'.store.outputs.find k =
      if k ∈ c.inputKeys then (w.store.outputs.find k).map (·.lockedFor logId)
      else w.store.outputs.find k
  final : ∀ {env' : Env F E} {args : IssueInvoiceTxArgs} {d : SecretKey × SecretKey}
    {c' : Context E} {post : Bool} {final : Slate F E} {w₀ w₁ w₂ w₃ : WalletBackend F E},
    env.keychain.toCurve = env'.keychain.toCurve →
    issueInvoiceTx (env'.drawing d) args w₀ = (.ok slate, w₁) →
    w₁.store.getPrivateContext env'.keychain slate.id = .ok c' → Kept slate.id w₁ w₂ →
    Foreign.finalizeTx env' paid post w₂ = (.ok final, w₃) →
    let x : Exchange F := ⟨d, d', coins env.keychain c.inputIds,
      coins env.keychain c.outputIds ++ coins env'.keychain c'.outputIds, paid.feeFields⟩
    x.WellFormed env'.keychain.toCurve → x.Balanced env'.keychain.toCurve final

/-- However often the invoice was paid before, a payment leaves what it is to
leave exactly when it finds no context stored for the slate. -/
theorem paid_once_iff {env : Env F E} {slate s₁ paid : Slate F E}
    {before : List (InitTxArgs × (SecretKey × SecretKey))} {args : InitTxArgs}
    {d' : SecretKey × SecretKey} {res : Except Error (Context E)} {c : Context E}
    {w m w' : WalletBackend F E} (hother : w.store.contexts slate.id = none)
    (hchange : args.numChangeOutputs ≤ 2 ^ 32)
    (hbegin : beginPayment env slate args (payAll env slate before w) = (.ok (res, s₁, c), m))
    (hpay : processInvoiceTx (env.drawing d') slate args (payAll env slate before w)
      = (.ok paid, w')) :
    PaidOnce env slate d' c paid w' ↔
      (payAll env slate before w).store.contexts slate.id = none := by
  have hinputs := beginPayment_lists env slate args _ _ _ hbegin
  have hres : res = (payAll env slate before w).store.getPrivateContext env.keychain slate.id :=
    beginPayment_stored hbegin
  obtain ⟨⟨hid, hoffset₁⟩, hsome, honce, houts⟩ := hinputs
  have hrun := hpay
  rw [processInvoiceTx_split, Eff.run_bind_ok hbegin] at hrun
  obtain ⟨excess, hstore, hpaid, hoffset⟩ := finishPayment_stores hrun
  have hkept : w'.store.getPrivateContext env.keychain slate.id = .ok
      (payerContext res { c.redrawn d' with initialSecKey := (c.redrawn d').secKey } excess) := by
    rw [hstore, Store.getPrivateContext_savePrivateContext]
  cases hfound : (payAll env slate before w).store.contexts slate.id with
  | some old =>
      -- the first payment's inputs are listed after those of this one
      have holdInputs : old.inputIds ≠ [] := by
        refine payAll_paying env slate before (w := w) (fun kept hkept => ?_) old hfound
        rw [hother] at hkept
        cases hkept
      have hok : res = .ok (old.mask (env.keychain.privateCtxXorKeys slate.id)) := by
        rw [hres, Store.getPrivateContext, hfound]
      refine iff_of_false (fun honce => ?_) (by simp)
      obtain ⟨kept, hget, hlist, -⟩ := honce.kept
      obtain rfl := Except.ok.inj (hkept.symm.trans hget)
      rw [payerContext_inputIds, hok] at hlist
      exact holdInputs (List.append_right_eq_self.mp hlist)
  | none =>
      have herror : res = .error (.NotFound "Slate id") := by
        rw [hres, Store.getPrivateContext, hfound]
      subst herror
      refine iff_of_true ?_ rfl
      refine ⟨⟨_, hkept, rfl, rfl⟩, ⟨honce, houts hchange⟩, ?_, ?_, ?_⟩
      · rw [hoffset, hoffset₁]
        rfl
      · intro w₁ hlock
        obtain ⟨c', sl, height, excess', now, debited, proof, hget, -, hlocked⟩ :=
          txLockOutputs_eq_ok hlock
        rw [hpaid, hid, hkept] at hget
        obtain rfl := Except.ok.inj hget
        exact ⟨_, hlocked.others⟩
      · intro env' args' d c' post final w₀ w₁ w₂ w₃ hcurve hissue hget hkeep hfinal x hx
        obtain ⟨c₀, id, hget₀, hopen, -, -, hins, houts, hlasting⟩ := issueInvoiceTx_opens hissue
        obtain rfl := Except.ok.inj (hget₀.symm.trans hget)
        have hget₂ : w₂.store.getPrivateContext env'.keychain slate.id = .ok c₀ := by
          rw [hkeep.getPrivateContext, hget]
        have hbalanced := Exchange.invoice_balanced hcurve hopen hins houts hget₂
          (hkeep.lasting hlasting).recorded hfound hpay hkept hfinal
        exact hbalanced hx

end Owner

/-! ## A sample invoice -/

namespace SampleInvoice

open Owner SampleSend

/-- An invoice of 5 nanogrin, issued with the key 1 and the nonce 2. -/
def issued : Except Error (Slate ℤ (ℤ × ℤ)) × WalletBackend ℤ (ℤ × ℤ) :=
  issueInvoiceTx (env.drawing (1, 2)) ⟨none, 5, none⟩ .new

def invoice : Slate ℤ (ℤ × ℤ) := returned issued noSlate

/-- The payer, with one coin. -/
def payer : WalletBackend ℤ (ℤ × ℤ) := sampleWallet [sampleCoin 30000000 0]

/-- A first call that asks for more confirmations than there are. -/
def refused : List (InitTxArgs × (SecretKey × SecretKey)) :=
  [({ sampleSend 5 with minimumConfirmations := 1000 }, (3, 4))]

/-- A first call that pays. -/
def paid : List (InitTxArgs × (SecretKey × SecretKey)) := [(sampleSend 5, (3, 4))]

def payment (before : List (InitTxArgs × (SecretKey × SecretKey))) :
    Except Error (Slate ℤ (ℤ × ℤ)) × WalletBackend ℤ (ℤ × ℤ) :=
  processInvoiceTx (env.drawing (5, 6)) invoice (sampleSend 5) (payAll env invoice before payer)

def beginning (before : List (InitTxArgs × (SecretKey × SecretKey))) :
    Except Error (Except Error (Context (ℤ × ℤ)) × Slate ℤ (ℤ × ℤ) × Context (ℤ × ℤ)) ×
      WalletBackend ℤ (ℤ × ℤ) :=
  beginPayment env invoice (sampleSend 5) (payAll env invoice before payer)

def nothing : Except Error (Context (ℤ × ℤ)) × Slate ℤ (ℤ × ℤ) × Context (ℤ × ℤ) :=
  (.error .InvalidFeeFields, noSlate, .withExcess 0 0 defaultPath)

/-- The context a payment begins with. -/
def begun (before : List (InitTxArgs × (SecretKey × SecretKey))) : Context (ℤ × ℤ) :=
  (returned (beginning before) nothing).2.2

/-- A payment after a refused one leaves what it is to leave. -/
theorem paid_once_after_refusal :
    PaidOnce env invoice (5, 6) (begun refused) (returned (payment refused) noSlate)
      (payment refused).2 := by
  have hbegin := eq_returned (r := beginning refused) nothing (by decide +kernel)
  have hpay := eq_returned (r := payment refused) noSlate (by decide +kernel)
  exact (paid_once_iff (w := payer) (by rfl) (by decide) hbegin hpay).mpr (by decide +kernel)

/-- What the issuer makes of a payment. -/
def finalized (before : List (InitTxArgs × (SecretKey × SecretKey))) : Slate ℤ (ℤ × ℤ) :=
  returned (Foreign.finalizeTx env (returned (payment before) noSlate) false issued.2) noSlate

/-- The sides of the kernel equation of a final transaction. -/
def kernelSides (s : Slate ℤ (ℤ × ℤ)) : Option ((ℤ × ℤ) × (ℤ × ℤ)) :=
  s.tx.bind fun tx => tx.kernels.head?.map fun kernel =>
    ((tx.outputs.map (·.commit)).sum - (tx.inputs.map (·.commit)).sum
        + s.feeFields.fee • sampleKeychain.H,
      kernel.excess + tx.offset • sampleKeychain.G)

example : (kernelSides (finalized refused)).any (fun p => p.1 = p.2) = true := by decide +kernel

/-- A payment after a successful one lists the coin twice, adds nothing for it to
the offset, and its issuer ends with a transaction that does not balance. -/
theorem repaid_not_once :
    (payment paid).1.isOk = true ∧
      ((payment paid).2.store.getPrivateContext sampleKeychain invoice.id).toOption.map (·.inputIds)
        = some [(defaultPath.child 0, none, 30000000), (defaultPath.child 0, none, 30000000)] ∧
      (returned (payment paid) noSlate).offset = invoice.offset - 5 ∧
      (kernelSides (finalized paid)).any (fun p => p.1 ≠ p.2) = true ∧
      ¬ PaidOnce env invoice (5, 6) (begun paid) (returned (payment paid) noSlate)
        (payment paid).2 := by
  refine ⟨by decide +kernel, by decide +kernel, by decide +kernel, by decide +kernel, fun h => ?_⟩
  have hoffset := h.offset
  revert hoffset
  decide +kernel

end SampleInvoice

end GrinWallet
