import GrinWallet.Contexts.Draw
import GrinWallet.Lib.OneTimePad

/-! # Private contexts at rest

A context is stored with two of its fields masked by keys derived for its slate.
Read as uniform pads, the masked record hides exactly these two fields: the
initial keys and the excess of the payer are stored as they are. Each flow that
saves a context is followed to the fields its draw of a key and a nonce reaches.
-/

namespace GrinWallet

open Effect WalletBackend OneTimePad

/-! ## The pads -/

/-- A pair of keys as `private_ctx_xor_keys` derives them. -/
structure XorKeys where
  blind : SecretKey
  nonce : SecretKey
deriving DecidableEq

namespace XorKeys

instance : Group XorKeys where
  mul a b := ⟨a.blind ^^^ b.blind, a.nonce ^^^ b.nonce⟩
  one := ⟨0, 0⟩
  inv a := a
  mul_assoc a b c := congrArg₂ XorKeys.mk (BitVec.xor_assoc _ _ _) (BitVec.xor_assoc _ _ _)
  one_mul a := congrArg₂ XorKeys.mk BitVec.zero_xor BitVec.zero_xor
  mul_one a := congrArg₂ XorKeys.mk BitVec.xor_zero BitVec.xor_zero
  inv_mul_cancel a := congrArg₂ XorKeys.mk BitVec.xor_self BitVec.xor_self

noncomputable instance : Fintype XorKeys :=
  have : Finite SecretKey := Finite.of_injective BitVec.toFin fun _ _ h => BitVec.eq_of_toFin_eq h
  have : Finite XorKeys := Finite.of_injective (fun k => (k.blind, k.nonce)) fun a b h => by
    cases a
    cases b
    cases h
    rfl
  Fintype.ofFinite XorKeys

end XorKeys

namespace Context

variable {E : Type}

instance : MulAction XorKeys (Context E) where
  smul k c := c.mask (k.blind, k.nonce)
  one_smul c := by
    change c.mask (0, 0) = c
    simp [mask]
  mul_smul a b c := by
    change c.mask (a.blind ^^^ b.blind, a.nonce ^^^ b.nonce)
      = (c.mask (b.blind, b.nonce)).mask (a.blind, a.nonce)
    simp [mask, BitVec.xor_comm a.blind, BitVec.xor_comm a.nonce, BitVec.xor_assoc]

theorem smul_eq_mask (k : XorKeys) (c : Context E) : k • c = c.mask (k.blind, k.nonce) := rfl

/-- The distribution of the stored record of a context. -/
noncomputable def recordDist (c : Context E) : PMF (Context E) := masked XorKeys c

/-- The fields of the record the pads do not reach. -/
def visible (c : Context E) : Context E := { c with secKey := 0, secNonce := 0 }

theorem recordDist_eq_iff {c c' : Context E} : c.recordDist = c'.recordDist ↔
    c.visible = c'.visible := by
  constructor
  · intro h
    exact eq_of_masked_eq (fun _ _ => rfl) h
  · intro h
    refine masked_eq_iff.mpr ⟨⟨c.secKey ^^^ c'.secKey, c.secNonce ^^^ c'.secNonce⟩, ?_⟩
    have hkey : c.secKey ^^^ (c.secKey ^^^ c'.secKey) = c'.secKey := by
      rw [← BitVec.xor_assoc, BitVec.xor_self, BitVec.zero_xor]
    have hnonce : c.secNonce ^^^ (c.secNonce ^^^ c'.secNonce) = c'.secNonce := by
      rw [← BitVec.xor_assoc, BitVec.xor_self, BitVec.zero_xor]
    cases c
    cases c'
    simp only [visible, Context.mk.injEq, true_and] at h
    simp only [smul_eq_mask, mask] at hkey hnonce ⊢
    simp only [Context.mk.injEq, hkey, hnonce, true_and]
    exact h

end Context

variable {F E : Type} [CommRing F] [AddCommGroup E] [Module F E] [DecidableEq E]

section Keeps

omit [CommRing F] [AddCommGroup E] [Module F E] [DecidableEq E]

/-- The wallet holds a context for the slate whose initial keys are the draw. -/
def KeepsDraw (K : Keychain F E) (d : SecretKey × SecretKey) (slateId : Uuid)
    (w : WalletBackend F E) : Prop :=
  ∃ c, w.store.getPrivateContext K slateId = .ok c ∧ c.initialSecKey = d.1 ∧
    c.initialSecNonce = d.2

theorem keepsDraw_save {K : Keychain F E} {d : SecretKey × SecretKey} {slateId : Uuid}
    {c : Context E} (hc : c.Drawn d) (w : WalletBackend F E) :
    KeepsDraw K d slateId { w with store := w.store.savePrivateContext K slateId c } :=
  ⟨c, Store.getPrivateContext_savePrivateContext _ K slateId c, hc.2.2.1, hc.2.2.2⟩

end Keeps

namespace Owner

omit [CommRing F] [AddCommGroup E] [Module F E] [DecidableEq E] in
theorem withProofRequest_drawn {K : Keychain F E} {d : SecretKey × SecretKey} {p : Identifier}
    {address : Option SlatepackAddress} {slate : Slate F E} {c : Context E} (hc : c.Drawn d) :
    (withProofRequest K p address slate c).2.Drawn d := by
  cases address with
  | none => exact hc
  | some a => exact hc

theorem initSendTx_keeps (env : Env F E) (d : SecretKey × SecretKey) (args : InitTxArgs)
    (h : args.estimateOnly ≠ some true) :
    Eff.Triple (fun _ => True) (initSendTx (env.drawing d) args)
      (fun sl w => KeepsDraw env.keychain d sl.id w) (fun _ => True) := by
  refine Eff.Triple.bind_of_forall fun _ => Eff.Triple.bind_of_forall fun p =>
    Eff.Triple.bind_of_forall fun slate => ?_
  simp only [if_neg h]
  refine Eff.Triple.bind_of_forall fun tip => ?_
  have hbegin : Eff.Yields (beginSend (env.drawing d)
      { slate with version := args.targetSlateVersion.getD slate.version } tip.1 args p)
      fun r => r.2.Drawn d :=
    Eff.Yields.ite (fun _ => Tx.createLateLockContext_drawn env d _ _ _ _)
      fun _ => Tx.addInputsToSlate_drawn env d _ _ _ _ _ _
  refine (Eff.Triple.of_yields hbegin).bind fun r => ?_
  intro w hr
  exact keepsDraw_save (withProofRequest_drawn hr) w

theorem issueInvoiceTx_keeps (env : Env F E) (d : SecretKey × SecretKey)
    (args : IssueInvoiceTxArgs) :
    Eff.Triple (fun _ => True) (issueInvoiceTx (env.drawing d) args)
      (fun sl w => KeepsDraw env.keychain d sl.id w) (fun _ => True) := by
  refine Eff.Triple.bind_of_forall fun p => Eff.Triple.bind_of_forall fun slate =>
    Eff.Triple.bind_of_forall fun tip => ?_
  refine (Eff.Triple.of_yields (Tx.addOutputToSlate_drawn env d _ _ _ _)).bind fun r => ?_
  intro w hr
  exact keepsDraw_save hr w

end Owner

/-! ## Paying an invoice -/

/-- The sum of the public keys on a slate once a payer with this draw joined it. -/
def payerKeySum (K : Keychain F E) (slate : Slate F E) (d : SecretKey × SecretKey) : E :=
  ((slate.addParticipantInfo K (.withExcess d.1 d.2 defaultPath) none).participantData.map
    (·.publicBlindExcess)).sum

namespace Slate

/-- Round 2 leaves the keys on the slate as they are. -/
theorem fillRound2_excesses {K : Keychain F E} {slate slate' : Slate F E}
    {secKey secNonce : SecretKey} (h : slate.fillRound2 K secKey secNonce = .ok slate') :
    slate'.participantData.map (·.publicBlindExcess)
      = slate.participantData.map (·.publicBlindExcess) := by
  obtain ⟨_, _, _, ps, -, -, -, -, hps, rfl⟩ := fillRound2_eq_ok h
  exact setPartSig_excesses hps

end Slate

namespace Selection

theorem buildSendTx_participants (env : Env F E) (slate : Slate F E) (h mc mo n : Nat)
    (all : Bool) (fixed : Option Nat) (p : Identifier) (inc : Bool) :
    Eff.Yields (buildSendTx env slate h mc mo n all fixed p inc)
      fun r => r.1.participantData = slate.participantData := by
  refine Eff.Yields.bind_of_forall fun sel => Eff.Yields.bind_of_forall fun _ =>
    Eff.Yields.bind_of_forall fun _ => Eff.Yields.bind_of_forall fun feeFields => ?_
  refine (Eff.Yields.ofExcept (Q := fun sl => sl.participantData = slate.participantData)
    fun sl hsl => ?_).bind fun sl hsl => Eff.Yields.bind_of_forall fun c => Eff.Yields.pure hsl
  obtain ⟨tx, features, -, -, rfl⟩ := Slate.addTransactionElements_eq_ok hsl
  rfl

end Selection

namespace Owner

theorem beginPayment_participants (env : Env F E) (slate : Slate F E) (args : InitTxArgs) :
    Eff.Yields (beginPayment env slate args)
      fun r => r.2.1.participantData = slate.participantData := by
  refine Eff.Yields.bind_of_forall fun _ => Eff.Yields.bind_of_forall fun p =>
    Eff.Yields.bind_of_forall fun w => Eff.Yields.bind_of_forall fun _ =>
    Eff.Yields.bind_of_forall fun tip => Eff.Yields.bind_of_forall fun _ => ?_
  exact (Selection.buildSendTx_participants _ _ _ _ _ _ _ _ _ _).bind fun r hr =>
    Eff.Yields.pure hr

/-- What a payment that succeeds leaves for the slate. -/
theorem finishPayment_saves {K : Keychain F E} {slateId : Uuid}
    {contextRes : Except Error (Context E)} {retSlate sl : Slate F E} {context : Context E}
    {w w' : WalletBackend F E}
    (h : finishPayment K slateId contextRes retSlate context w = (.ok sl, w')) :
    w'.store.getPrivateContext K slateId = .ok (payerContext contextRes
      { context with initialSecKey := context.secKey }
      (payerKeySum K retSlate (context.secKey, context.secNonce))) := by
  obtain ⟨sl₁, w₁, h₁, h⟩ := Eff.bind_eq_ok.mp h
  obtain ⟨excess, w₂, h₂, h⟩ := Eff.bind_eq_ok.mp h
  obtain ⟨w₃, w₄, h₃, h⟩ := Eff.bind_eq_ok.mp h
  obtain ⟨sl₂, w₅, h₄, h⟩ := Eff.bind_eq_ok.mp h
  have hfill : (retSlate.fillRound1 K context).fillRound2 K context.secKey context.secNonce
      = .ok sl₁ := congrArg Prod.fst h₁
  have hexcess := Slate.pubBlindSum_eq_ok (congrArg Prod.fst h₂ :
    (sl₁.adjustOffset K (contribution contextRes
      { context with initialSecKey := context.secKey })).pubBlindSum = .ok excess)
  have hsum : excess = payerKeySum K retSlate (context.secKey, context.secNonce) := by
    have hkeys := Slate.fillRound2_excesses hfill
    rw [hexcess, payerKeySum]
    exact congrArg List.sum hkeys
  cases h
  rw [hsum]
  exact Store.getPrivateContext_savePrivateContext _ _ _ _

end Owner

/-! ## Late locking -/

namespace Foreign

theorem lockedContext_drawing (env : Env F E) (d d' : SecretKey × SecretKey) (slate : Slate F E)
    (c : Context E) (p : Identifier) :
    lockedContext (env.drawing d) slate c p = lockedContext (env.drawing d') slate c p := by
  unfold lockedContext
  cases c.lateLockArgs with
  | none => rfl
  | some args =>
      simp only [lateLock, getChainTip_drawing, Tx.newTxSlate_drawing,
        Owner.txLockOutputs_drawing]
      refine bind_congr fun tip => bind_congr fun tempSl => ?_
      rw [Selection.buildSendTx_redrawn env d d']
      simp only [bind_assoc, pure_bind]
      rfl

end Foreign

/-! ## Every flow -/

/-- The flows that save a context. A send that is only estimated saves none. -/
inductive SavingFlow (F E : Type)
  | initSendTx (args : InitTxArgs) (saves : args.estimateOnly ≠ some true)
  | issueInvoiceTx (args : IssueInvoiceTxArgs)
  | processInvoiceTx (slate : Slate F E) (args : InitTxArgs)
  /-- `finalize_tx` to the end of its late lock, before it deletes the context. -/
  | finalizeTx (slate : Slate F E)

namespace SavingFlow

/-- Run a flow; the slate it saves a context for. -/
def run (env : Env F E) : SavingFlow F E → WalletM F E Uuid
  | initSendTx args _ => do
      let sl ← Owner.initSendTx env args
      return sl.id
  | issueInvoiceTx args => do
      let sl ← Owner.issueInvoiceTx env args
      return sl.id
  | processInvoiceTx slate args => do
      let _ ← Owner.processInvoiceTx env slate args
      return slate.id
  | finalizeTx slate => do
      let w ← Eff.read
      let context ← Eff.ofExcept (w.store.getPrivateContext env.keychain slate.id)
      Owner.checkTtl slate
      let _ ← Foreign.lockedContext env slate context w.parentKeyId
      return slate.id

/-- The flow returns, and the wallet then holds the context `c` for its slate. -/
def Saves (env : Env F E) (flow : SavingFlow F E) (w : WalletBackend F E) (c : Context E) : Prop :=
  ∃ slateId w', flow.run env w = (.ok slateId, w') ∧
    w'.store.getPrivateContext env.keychain slateId = .ok c

/-- The two draws leave no trace to tell them apart by. A wallet that pays its
own invoice keeps the initial keys of the invoice, so there only the sum of the
public keys on the slate tells; a late lock drops its draw. -/
def Hides (K : Keychain F E) (w : WalletBackend F E) (d d' : SecretKey × SecretKey) :
    SavingFlow F E → Prop
  | initSendTx _ _ => d = d'
  | issueInvoiceTx _ => d = d'
  | processInvoiceTx slate _ =>
      if (w.store.contexts slate.id).isSome then payerKeySum K slate d = payerKeySum K slate d'
      else d = d'
  | finalizeTx _ => True

end SavingFlow

namespace SavingFlow

variable {env : Env F E} {w : WalletBackend F E} {d d' : SecretKey × SecretKey} {c c' : Context E}

theorem Saves.unique {flow : SavingFlow F E} (h : flow.Saves env w c) (h' : flow.Saves env w c') :
    c = c' := by
  obtain ⟨id, w₁, hrun, hget⟩ := h
  obtain ⟨id', w₁', hrun', hget'⟩ := h'
  rw [hrun] at hrun'
  cases hrun'
  rw [hget] at hget'
  exact Except.ok.inj hget'

omit [CommRing F] [AddCommGroup E] [Module F E] [DecidableEq E] in
/-- A send or an invoice stores its draw as the initial keys. -/
theorem Saves.initial_of_keeps {α : Type} {x : WalletM F E α} {f : α → Uuid} {slateId : Uuid}
    {w' : WalletBackend F E}
    (hx : Eff.Triple (fun _ => True) x (fun a w => KeepsDraw env.keychain d (f a) w) fun _ => True)
    (hrun : (x >>= fun a => pure (f a)) w = (.ok slateId, w'))
    (hget : w'.store.getPrivateContext env.keychain slateId = .ok c) :
    (c.initialSecKey, c.initialSecNonce) = d := by
  obtain ⟨a, w₁, ha, h⟩ := Eff.bind_eq_ok.mp hrun
  cases h
  obtain ⟨c₁, hc₁, hkey, hnonce⟩ := hx.ok trivial ha
  rw [hget] at hc₁
  cases hc₁
  rw [hkey, hnonce]

/-- The context a payer of an invoice stores, in terms of what the payment began with. -/
theorem Saves.processInvoice {slate : Slate F E} {args : InitTxArgs}
    (h : (processInvoiceTx slate args).Saves (env.drawing d) w c) :
    ∃ r w₁, Owner.beginPayment env slate args w = (.ok r, w₁) ∧
      c = Owner.payerContext (w.store.getPrivateContext env.keychain slate.id)
        { r.2.2.redrawn d with initialSecKey := d.1 } (payerKeySum env.keychain slate d) := by
  obtain ⟨id, w', hrun, hget⟩ := h
  obtain ⟨sl, w₂, hpay, h⟩ := Eff.bind_eq_ok.mp hrun
  cases h
  rw [Owner.processInvoiceTx_split] at hpay
  obtain ⟨r, w₁, hbegin, hfinish⟩ := Eff.bind_eq_ok.mp hpay
  refine ⟨r, w₁, hbegin, ?_⟩
  have hsaved := Owner.finishPayment_saves hfinish
  have hsum : payerKeySum env.keychain r.2.1 d = payerKeySum env.keychain slate d := by
    have hparts := Owner.beginPayment_participants env slate args w r w₁ hbegin
    simp only [payerKeySum, Slate.addParticipantInfo, hparts]
  rw [← Owner.beginPayment_stored hbegin, ← hsum]
  have heq : (Except.ok c : Except Error (Context E)) = _ := hget.symm.trans hsaved
  exact Except.ok.inj heq

theorem processInvoice_hides {slate : Slate F E} {args : InitTxArgs}
    (h : (processInvoiceTx slate args).Saves (env.drawing d) w c)
    (h' : (processInvoiceTx slate args).Saves (env.drawing d') w c') :
    c.visible = c'.visible ↔ (processInvoiceTx slate args).Hides env.keychain w d d' := by
  obtain ⟨r, w₁, hbegin, rfl⟩ := h.processInvoice
  obtain ⟨r', w₁', hbegin', rfl⟩ := h'.processInvoice
  rw [hbegin] at hbegin'
  cases hbegin'
  cases hstored : w.store.contexts slate.id with
  | some c₀ =>
      have hhides : (processInvoiceTx slate args).Hides env.keychain w d d'
          ↔ payerKeySum env.keychain slate d = payerKeySum env.keychain slate d' := by
        simp [Hides, hstored]
      rw [hhides]
      simp only [Store.getPrivateContext, hstored]
      constructor
      · intro hvis
        exact Option.some.inj (congrArg Context.calculatedExcess hvis)
      · intro hsum
        rw [hsum]
        rfl
  | none =>
      have hhides : (processInvoiceTx slate args).Hides env.keychain w d d' ↔ d = d' := by
        simp [Hides, hstored]
      rw [hhides]
      simp only [Store.getPrivateContext, hstored]
      constructor
      · intro hvis
        have hkey : d.1 = d'.1 := congrArg (·.initialSecKey) hvis
        have hnonce : d.2 = d'.2 := congrArg (·.initialSecNonce) hvis
        exact Prod.ext hkey hnonce
      · intro hd
        rw [hd]

end SavingFlow

/-- The record a flow stores has the same distribution for two draws of its
secrets exactly when the draws leave no trace; reading it back always works. -/
theorem stored_context_hides_secrets_iff (env : Env F E) (flow : SavingFlow F E)
    (w : WalletBackend F E) (d d' : SecretKey × SecretKey) (c c' : Context E)
    (h : flow.Saves (env.drawing d) w c) (h' : flow.Saves (env.drawing d') w c') :
    ((∀ (s : Store E) (slateId : Uuid),
        (s.savePrivateContext env.keychain slateId c).getPrivateContext env.keychain slateId = .ok c)
      ∧ c.recordDist = c'.recordDist) ↔ flow.Hides env.keychain w d d' := by
  have hback : ∀ (s : Store E) (slateId : Uuid),
      (s.savePrivateContext env.keychain slateId c).getPrivateContext env.keychain slateId
        = .ok c := fun s slateId => Store.getPrivateContext_savePrivateContext s env.keychain slateId c
  have hdraw : (c.initialSecKey, c.initialSecNonce) = d →
      (c'.initialSecKey, c'.initialSecNonce) = d' → c.visible = c'.visible → d = d' := by
    intro hd hd' hvis
    have hkey : c.visible.initialSecKey = c'.visible.initialSecKey := by rw [hvis]
    have hnonce : c.visible.initialSecNonce = c'.visible.initialSecNonce := by rw [hvis]
    change c.initialSecKey = c'.initialSecKey at hkey
    change c.initialSecNonce = c'.initialSecNonce at hnonce
    rw [← hd, ← hd', hkey, hnonce]
  have hsame : d = d' → c.visible = c'.visible := by
    intro hd
    subst hd
    rw [h.unique h']
  rw [Context.recordDist_eq_iff]
  refine Iff.trans (and_iff_right hback) ?_
  cases flow with
  | initSendTx args saves =>
      obtain ⟨id, w₁, hrun, hget⟩ := h
      obtain ⟨id', w₁', hrun', hget'⟩ := h'
      exact ⟨hdraw
        (SavingFlow.Saves.initial_of_keeps (Owner.initSendTx_keeps env d args saves) hrun hget)
        (SavingFlow.Saves.initial_of_keeps (Owner.initSendTx_keeps env d' args saves) hrun' hget'),
        hsame⟩
  | issueInvoiceTx args =>
      obtain ⟨id, w₁, hrun, hget⟩ := h
      obtain ⟨id', w₁', hrun', hget'⟩ := h'
      exact ⟨hdraw
        (SavingFlow.Saves.initial_of_keeps (Owner.issueInvoiceTx_keeps env d args) hrun hget)
        (SavingFlow.Saves.initial_of_keeps (Owner.issueInvoiceTx_keeps env d' args) hrun' hget'),
        hsame⟩
  | processInvoiceTx slate args => exact SavingFlow.processInvoice_hides h h'
  | finalizeTx slate =>
      have hrun : (SavingFlow.finalizeTx slate).run (env.drawing d)
          = (SavingFlow.finalizeTx slate).run (env.drawing d') := by
        refine bind_congr fun w₁ => bind_congr fun c₁ => bind_congr fun _ => ?_
        rw [Foreign.lockedContext_drawing env d d']
      have hsaves : (SavingFlow.finalizeTx slate).Saves (env.drawing d') w c := by
        unfold SavingFlow.Saves at h ⊢
        rw [← hrun]
        exact h
      have hc : c = c' := SavingFlow.Saves.unique hsaves h'
      exact ⟨fun _ => trivial, fun _ => by rw [hc]⟩

/-- The context of an invoice of 5 nanogrin from a new wallet. -/
def sampleInvoiceContext (d : SecretKey × SecretKey) : Context (ℤ × ℤ) :=
  { (Context.withExcess d.1 d.2 defaultPath).addOutput (defaultPath.child 0) none 5 with
    amount := 5 }

theorem sampleInvoice_saves (d : SecretKey × SecretKey) :
    SavingFlow.Saves ((sampleEnv fun _ => sampleNode [] []).drawing d)
      (.issueInvoiceTx ⟨none, 5, none⟩) .new (sampleInvoiceContext d) := by
  refine ⟨1, _, rfl, ?_⟩
  exact Store.getPrivateContext_savePrivateContext _ _ _ _

/-- Two draws of an invoice are told apart by the initial key alone. -/
theorem invoice_records_differ :
    ∃ d d' : SecretKey × SecretKey, ∃ c c' : Context (ℤ × ℤ),
      SavingFlow.Saves ((sampleEnv fun _ => sampleNode [] []).drawing d)
          (.issueInvoiceTx ⟨none, 5, none⟩) .new c ∧
        SavingFlow.Saves ((sampleEnv fun _ => sampleNode [] []).drawing d')
          (.issueInvoiceTx ⟨none, 5, none⟩) .new c' ∧
        c.recordDist ≠ c'.recordDist := by
  refine ⟨(1, 2), (3, 2), _, _, sampleInvoice_saves _, sampleInvoice_saves _, fun h => ?_⟩
  have hvis := Context.recordDist_eq_iff.mp h
  have hkey : (1 : SecretKey) = 3 := congrArg (·.initialSecKey) hvis
  exact absurd hkey (by decide)

/-! ## A late lock drops its draw -/

namespace SavingFlow

/-- The context a flow leaves, or the one given where it leaves none. -/
def saved (env : Env F E) (flow : SavingFlow F E) (w : WalletBackend F E) (c₀ : Context E) :
    Context E :=
  returned ((flow.run env w).2.store.getPrivateContext env.keychain (returned (flow.run env w) 0), ()) c₀

theorem saves_saved {env : Env F E} {flow : SavingFlow F E} {w : WalletBackend F E} (c₀ : Context E)
    (hrun : (flow.run env w).1.isOk = true)
    (hget : ((flow.run env w).2.store.getPrivateContext env.keychain
      (returned (flow.run env w) 0)).isOk = true) : flow.Saves env w (flow.saved env w c₀) := by
  refine ⟨_, _, eq_returned 0 hrun, ?_⟩
  unfold saved
  generalize (flow.run env w).2.store.getPrivateContext env.keychain (returned (flow.run env w) 0) = r
    at hget ⊢
  cases r with
  | ok c => rfl
  | error e => cases hget

end SavingFlow

namespace SampleLateLock

open SampleSend (env)

/-- The context the sender is left with when it draws as given in the late lock of its send. -/
def lateContext (d : SecretKey × SecretKey) : Context (ℤ × ℤ) :=
  (SavingFlow.finalizeTx answer).saved (env.drawing d) initiated.2 (.withExcess 0 0 defaultPath)

/-- Two draws of one late lock leave one record. -/
theorem stored_context_hides_secrets_iff_late_lock :
    ((∀ (s : Store (ℤ × ℤ)) (slateId : Uuid),
        (s.savePrivateContext sampleKeychain slateId (lateContext (5, 6))).getPrivateContext
          sampleKeychain slateId = .ok (lateContext (5, 6))) ∧
      (lateContext (5, 6)).recordDist = (lateContext (7, 8)).recordDist) ∧
    (lateContext (5, 6)).inputIds = [(defaultPath.child 0, none, 30000000)] := by
  have hsaves : (SavingFlow.finalizeTx answer).Saves (env.drawing (5, 6)) initiated.2
      (lateContext (5, 6)) :=
    SavingFlow.saves_saved _ (by decide +kernel) (by decide +kernel)
  have hsaves' : (SavingFlow.finalizeTx answer).Saves (env.drawing (7, 8)) initiated.2
      (lateContext (7, 8)) :=
    SavingFlow.saves_saved _ (by decide +kernel) (by decide +kernel)
  exact ⟨(stored_context_hides_secrets_iff env (.finalizeTx answer) initiated.2 (5, 6) (7, 8) _ _
    hsaves hsaves').mpr trivial, by decide +kernel⟩

end SampleLateLock

end GrinWallet
