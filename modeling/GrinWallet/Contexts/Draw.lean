import GrinWallet.Model.Sample

/-! # Drawing secrets

A new context draws a secret key and a secret nonce. Each call draws at most
once, so the environment in which every draw gives the same pair answers any one
call for that pair; what depends on the draw is told apart from what does not.
-/

namespace GrinWallet

open Effect WalletBackend

section Draw

variable {F E : Type}

/-- The environment in which a new context draws the given key and nonce. -/
def Env.drawing (env : Env F E) (d : SecretKey × SecretKey) : Env F E :=
  { env with secret := fun _ => d }

@[simp] theorem Env.drawing_keychain (env : Env F E) (d : SecretKey × SecretKey) :
    (env.drawing d).keychain = env.keychain := rfl

@[simp] theorem getChainTip_drawing (env : Env F E) (d : SecretKey × SecretKey) :
    getChainTip (env.drawing d) = getChainTip env := rfl

/-- A context that holds nothing but a drawn key and nonce, as current and initial ones. -/
def Context.Drawn (d : SecretKey × SecretKey) (c : Context E) : Prop :=
  c.secKey = d.1 ∧ c.secNonce = d.2 ∧ c.initialSecKey = d.1 ∧ c.initialSecNonce = d.2

/-- The context with another draw in the place of its own. -/
def Context.redrawn (d : SecretKey × SecretKey) (c : Context E) : Context E :=
  { c with secKey := d.1, secNonce := d.2, initialSecKey := d.1, initialSecNonce := d.2 }

theorem newContext_drawn (env : Env F E) (d : SecretKey × SecretKey) (p : Identifier) :
    Eff.Yields (newContext (env.drawing d) p) fun c => c.Drawn d := by
  refine Eff.Yields.bind (P := fun r => r = d) ?_ fun r hr => Eff.Yields.pure ?_
  · intro w r w' h
    cases h
    rfl
  · subst hr
    exact ⟨rfl, rfl, rfl, rfl⟩

end Draw

variable {F E : Type} [CommRing F] [AddCommGroup E] [Module F E] [DecidableEq E]

omit [AddCommGroup E] [Module F E] [DecidableEq E] in
@[simp] theorem Tx.newTxSlate_drawing (env : Env F E) (d : SecretKey × SecretKey) :
    newTxSlate (env.drawing d) = newTxSlate env := rfl

@[simp] theorem Owner.txLockOutputs_drawing (env : Env F E) (d : SecretKey × SecretKey) :
    txLockOutputs (env.drawing d) = txLockOutputs env := rfl

namespace Updater

omit [CommRing F] [AddCommGroup E] [Module F E] [DecidableEq E] in
theorem missingKernels_drawing (env : Env F E) (d : SecretKey × SecretKey)
    (ks : List (Nat × E × Option Nat)) :
    missingKernels (env.drawing d) ks = missingKernels env ks := by
  induction ks with
  | nil => rfl
  | cons k ks ih =>
      simp only [missingKernels, ih]
      rfl

@[simp] theorem refreshOutputs_drawing (env : Env F E) (d : SecretKey × SecretKey)
    (p : Identifier) (all : Bool) :
    refreshOutputs (env.drawing d) p all = refreshOutputs env p all := by
  simp only [refreshOutputs, refreshOutputState, findRevertedKernels, missingKernels_drawing]
  rfl

end Updater

namespace Selection

theorem buildSendTx_drawn (env : Env F E) (d : SecretKey × SecretKey) (slate : Slate F E)
    (h mc mo n : Nat) (all : Bool) (fixed : Option Nat) (p : Identifier) (inc : Bool) :
    Eff.Yields (buildSendTx (env.drawing d) slate h mc mo n all fixed p inc)
      fun r => r.2.Drawn d := by
  refine Eff.Yields.bind_of_forall fun sel => Eff.Yields.bind_of_forall fun _ =>
    Eff.Yields.bind_of_forall fun _ => Eff.Yields.bind_of_forall fun feeFields =>
    Eff.Yields.bind_of_forall fun slate => ?_
  refine (newContext_drawn env d p).bind fun c hc => Eff.Yields.pure ?_
  rw [sendContext_eq]
  exact hc

/-- Another draw changes the context of a send only by the draw. -/
theorem buildSendTx_redrawn (env : Env F E) (d d' : SecretKey × SecretKey) (slate : Slate F E)
    (h mc mo n : Nat) (all : Bool) (fixed : Option Nat) (p : Identifier) (inc : Bool) :
    buildSendTx (env.drawing d) slate h mc mo n all fixed p inc =
      buildSendTx (env.drawing d') slate h mc mo n all fixed p inc >>= fun r =>
        pure (r.1, r.2.redrawn d) := by
  simp only [buildSendTx, bind_assoc, pure_bind]
  refine bind_congr fun sel => bind_congr fun _ => bind_congr fun _ => bind_congr fun feeFields =>
    bind_congr fun slate => ?_
  simp only [newContext, bind_assoc, pure_bind, sendContext_eq]
  rfl

end Selection

/-! ## The flows that keep their draw as the initial keys -/

namespace Tx

theorem createLateLockContext_drawn (env : Env F E) (d : SecretKey × SecretKey) (slate : Slate F E)
    (height : Nat) (args : InitTxArgs) (p : Identifier) :
    Eff.Yields (createLateLockContext (env.drawing d) slate height args p)
      fun r => r.2.Drawn d := by
  refine Eff.Yields.bind_of_forall fun _ => Eff.Yields.bind_of_forall fun w =>
    Eff.Yields.bind_of_forall fun sel => Eff.Yields.bind_of_forall fun feeFields => ?_
  exact (newContext_drawn env d p).bind fun c hc => Eff.Yields.pure hc

theorem addInputsToSlate_drawn (env : Env F E) (d : SecretKey × SecretKey) (slate : Slate F E)
    (height : Nat) (args : InitTxArgs) (p : Identifier) (isInitiator inc : Bool) :
    Eff.Yields (addInputsToSlate (env.drawing d) slate height args p isInitiator inc)
      fun r => r.2.Drawn d := by
  refine Eff.Yields.bind_of_forall fun _ => ?_
  refine (Selection.buildSendTx_drawn env d _ _ _ _ _ _ _ _ _).bind fun r hr => ?_
  obtain ⟨hkey, hnonce, -, hinitial⟩ := hr
  refine Eff.Yields.ite (fun _ => Eff.Yields.pure ⟨hkey, hnonce, hkey, hinitial⟩) fun _ => ?_
  exact Eff.Yields.bind_of_forall fun _ => Eff.Yields.pure ⟨hkey, hnonce, hkey, hinitial⟩

theorem addOutputToSlate_drawn (env : Env F E) (d : SecretKey × SecretKey) (slate : Slate F E)
    (height : Nat) (p : Identifier) (isInitiator : Bool) :
    Eff.Yields (addOutputToSlate (env.drawing d) slate height p isInitiator)
      fun r => r.2.Drawn d := by
  have hbuild : Eff.Yields (Selection.buildRecipientOutput (env.drawing d) slate height p)
      fun r => r.2.2.1.Drawn d := by
    refine Eff.Yields.bind_of_forall fun _ => Eff.Yields.bind_of_forall fun _ => ?_
    refine (newContext_drawn env d p).bind fun c hc => ?_
    exact Eff.Yields.bind_of_forall fun _ => Eff.Yields.bind_of_forall fun _ => Eff.Yields.pure hc
  refine hbuild.bind fun r hr => ?_
  obtain ⟨hkey, hnonce, -, hinitial⟩ := hr
  refine Eff.Yields.ite (fun _ => Eff.Yields.pure ⟨hkey, hnonce, hkey, hinitial⟩) fun _ => ?_
  exact Eff.Yields.bind_of_forall fun _ => Eff.Yields.bind_of_forall fun _ =>
    Eff.Yields.bind_of_forall fun _ => Eff.Yields.pure ⟨hkey, hnonce, hkey, hinitial⟩

end Tx

/-! ## Paying an invoice -/

namespace Owner

/-- Paying an invoice up to the draw: the context stored for the slate, and the
slate and context a send for it begins with. -/
def beginPayment (env : Env F E) (slate : Slate F E) (args : InitTxArgs) :
    WalletM F E (Except Error (Context E) × Slate F E × Context E) := do
  checkTtl slate
  let parentKeyId ← accountOrActive args.srcAcctName
  let w ← Eff.read
  Eff.ofExcept (checkNotPaid w.store slate.id parentKeyId)
  let (height, _) ← getChainTip env
  let retSlate := { slate with
    ttlCutoffHeight := match args.ttlBlocks with
      | some b => u64 (height + b)
      | none => slate.ttlCutoffHeight
    tx := some Slate.emptyTransaction }
  Eff.runIf args.refreshOutputsFromNode (Updater.refreshOutputs env parentKeyId false)
  let r ← Selection.buildSendTx (env.drawing (0, 0)) retSlate height args.minimumConfirmations
    args.maxOutputs args.numChangeOutputs args.selectionStrategyIsUseAll none parentKeyId false
  return (w.store.getPrivateContext env.keychain slate.id, r)

/-- Paying an invoice from the draw on. -/
def finishPayment (K : Keychain F E) (slateId : Uuid) (contextRes : Except Error (Context E))
    (retSlate : Slate F E) (context : Context E) : WalletM F E (Slate F E) := do
  let retSlate ← Eff.ofExcept
    ((retSlate.fillRound1 K context).fillRound2 K context.secKey context.secNonce)
  let context := { context with initialSecKey := context.secKey }
  let retSlate := retSlate.adjustOffset K (contribution contextRes context)
  let excess ← Eff.ofExcept retSlate.calcExcess
  let context := payerContext contextRes context excess
  let w ← Eff.read
  let retSlate ← Eff.ofExcept (Selection.repopulateTx K w.store retSlate context false)
  commit fun s => s.savePrivateContext K slateId context
  let retSlate := ({ retSlate with amount := 0 }).removeOtherSigdata K context.secNonce context.secKey
  return { retSlate with state := .Invoice2 }

theorem processInvoiceTx_split (env : Env F E) (d : SecretKey × SecretKey) (slate : Slate F E)
    (args : InitTxArgs) :
    processInvoiceTx (env.drawing d) slate args =
      beginPayment env slate args >>= fun r =>
        finishPayment env.keychain slate.id r.1 r.2.1 (r.2.2.redrawn d) := by
  simp only [processInvoiceTx, beginPayment, Tx.addInputsToSlate, bind_assoc, pure_bind,
    getChainTip_drawing, Updater.refreshOutputs_drawing]
  refine bind_congr fun _ => bind_congr fun p => bind_congr fun w => bind_congr fun _ =>
    bind_congr fun tip => bind_congr fun _ => ?_
  rw [Selection.buildSendTx_redrawn env d (0, 0)]
  simp only [bind_assoc, pure_bind, Bool.false_eq_true, if_false]
  rfl

omit [AddCommGroup E] [Module F E] [DecidableEq E] [CommRing F] in
theorem checkTtl_state {slate : Slate F E} {w w' : WalletBackend F E} {u : Unit}
    (h : checkTtl slate w = (.ok u, w')) : w' = w := by
  obtain ⟨w₁, w₂, h₁, h⟩ := Eff.bind_eq_ok.mp h
  cases h₁
  exact (Eff.throwIf_eq_ok.mp h).2

omit [AddCommGroup E] [Module F E] [DecidableEq E] [CommRing F] in
theorem accountOrActive_state {name : Option Label} {w w' : WalletBackend F E} {p : Identifier}
    (h : accountOrActive name w = (.ok p, w')) : w' = w := by
  obtain ⟨w₁, w₂, h₁, h⟩ := Eff.bind_eq_ok.mp h
  cases h₁
  cases name with
  | none =>
      cases h
      rfl
  | some label =>
      cases ha : w.store.getAcctPath label with
      | none =>
          simp only [ha] at h
          cases h
          rfl
      | some a =>
          simp only [ha] at h
          cases h
          rfl

/-- A payment that begins looks up the context stored before it began. -/
theorem beginPayment_stored {env : Env F E} {slate : Slate F E} {args : InitTxArgs}
    {w w' : WalletBackend F E} {r : Except Error (Context E) × Slate F E × Context E}
    (h : beginPayment env slate args w = (.ok r, w')) :
    r.1 = w.store.getPrivateContext env.keychain slate.id := by
  obtain ⟨_, w₁, h₁, h⟩ := Eff.bind_eq_ok.mp h
  obtain ⟨p, w₂, h₂, h⟩ := Eff.bind_eq_ok.mp h
  obtain ⟨w₃, w₄, h₃, h⟩ := Eff.bind_eq_ok.mp h
  obtain ⟨_, w₅, h₅, h⟩ := Eff.bind_eq_ok.mp h
  obtain ⟨tip, w₆, h₆, h⟩ := Eff.bind_eq_ok.mp h
  obtain ⟨_, w₇, h₇, h⟩ := Eff.bind_eq_ok.mp h
  obtain ⟨b, w₈, h₈, h⟩ := Eff.bind_eq_ok.mp h
  have hw₁ := checkTtl_state h₁
  have hw₂ := accountOrActive_state h₂
  have hw₃ : w₃ = w₂ := (Except.ok.inj (congrArg Prod.fst h₃)).symm
  have hr := Except.ok.inj (congrArg Prod.fst h)
  rw [← hr, hw₃, hw₂, hw₁]

end Owner

end GrinWallet
