import GrinWallet.Exchange.Calls

/-! # Receiving a payment

A recipient writes its output and its log record before it checks the signatures
on the slate. A slate is refused without a trace when it is expired, received
already, or of an unknown kernel variant; past these checks a failure of round 2
leaves the two records behind.
-/

namespace GrinWallet

open Effect WalletBackend OrderedTable

variable {F E : Type}

/-! ## Signing with the slate of another party -/

namespace Slate

variable [CommRing F] [AddCommGroup E] [Module F E] [DecidableEq E]

/-- A wallet with the drawn key and nonce can sign the slate: no sum vanishes, the
kernel variant is known, and the signatures that are there are valid. -/
structure Signable (K : Keychain F E) (s : Slate F E) : Prop where
  nonces : (s.participantData.map (·.publicNonce)).sum ≠ 0
  keys : (s.participantData.map (·.publicBlindExcess)).sum ≠ 0
  variant : ∃ msg, s.kernelFeaturesOf = .ok msg ∧ ∀ p ∈ s.participantData, ∀ sig,
    p.partSig = some sig → K.PartialSigValid sig (s.participantData.map (·.publicNonce)).sum
      p.publicBlindExcess (s.participantData.map (·.publicBlindExcess)).sum msg

omit [CommRing F] [Module F E] in
theorem pubNonceSum_ok_iff {s : Slate F E} :
    (∃ sum, s.pubNonceSum = .ok sum) ↔ (s.participantData.map (·.publicNonce)).sum ≠ 0 := by
  unfold pubNonceSum
  cases hp : s.participantData with
  | nil => simp
  | cons p ps =>
      generalize ((p :: ps).map (·.publicNonce)).sum = sum
      by_cases hzero : sum = 0
      · simp [hzero]
      · simp [hzero]

omit [CommRing F] [Module F E] in
theorem pubBlindSum_ok_iff {s : Slate F E} :
    (∃ sum, s.pubBlindSum = .ok sum) ↔ (s.participantData.map (·.publicBlindExcess)).sum ≠ 0 := by
  unfold pubBlindSum
  cases hp : s.participantData with
  | nil => simp
  | cons p ps =>
      generalize ((p :: ps).map (·.publicBlindExcess)).sum = sum
      by_cases hzero : sum = 0
      · simp [hzero]
      · simp [hzero]

omit [CommRing F] [AddCommGroup E] [Module F E] in
/-- The entry to sign is found before the list ends. -/
theorem setPartSig_ok {pubExcess pubNonce : E} (sig : Signature F E) (n : Nat)
    {ps : List (ParticipantData F E)}
    (h : ∃ p ∈ ps, p.publicBlindExcess = pubExcess ∧ p.publicNonce = pubNonce) :
    ∃ ps', setPartSig pubExcess pubNonce sig n ps = .ok ps' ∧
      ps'.map (·.publicBlindExcess) = ps.map (·.publicBlindExcess) := by
  induction n generalizing ps with
  | zero => exact ⟨ps, rfl, rfl⟩
  | succ n ih =>
      cases ps with
      | nil =>
          obtain ⟨p, hp, -⟩ := h
          cases hp
      | cons q qs =>
          unfold setPartSig
          by_cases hq : q.publicBlindExcess = pubExcess ∧ q.publicNonce = pubNonce
          · rw [if_pos hq]
            exact ⟨_, rfl, rfl⟩
          · obtain ⟨p, hp, hpair⟩ := h
            have htail : p ∈ qs := by
              rcases List.mem_cons.mp hp with rfl | hp
              · exact (hq hpair).elim
              · exact hp
            obtain ⟨qs', hqs, hmap⟩ := ih ⟨p, htail, hpair⟩
            rw [if_neg hq, hqs]
            exact ⟨q :: qs', rfl, by rw [List.map_cons, List.map_cons, hmap]⟩

/-- The signatures on a slate are checked one by one. -/
theorem verifyPartSigs_eq_ok {K : Keychain F E} {s : Slate F E} {nonces keys : E}
    {msg : KernelFeatures} (hn : s.pubNonceSum = .ok nonces) (hk : s.pubBlindSum = .ok keys)
    (hm : s.kernelFeaturesOf = .ok msg) :
    s.verifyPartSigs K = .ok () ↔ ∀ p ∈ s.participantData, ∀ sig, p.partSig = some sig →
      K.PartialSigValid sig nonces p.publicBlindExcess keys msg := by
  rw [verifyPartSigs, except_forM_eq_ok]
  refine forall_congr' fun p => forall_congr' fun _ => ?_
  cases hsig : p.partSig with
  | none => simp
  | some sig =>
      simp only [hn, hk, msgToSign, hm, Option.some.injEq, forall_eq']
      by_cases hv : K.PartialSigValid sig nonces p.publicBlindExcess keys msg
      · simp [hv, bind, Except.bind]
      · simp [hv, bind, Except.bind]

/-- Round 2 succeeds on a slate with the signer's entry exactly when it can be signed. -/
theorem fillRound2_ok_iff {K : Keychain F E} {s : Slate F E} {secKey secNonce : SecretKey}
    (hown : ∃ p ∈ s.participantData,
      p.publicBlindExcess = K.publicKey secKey ∧ p.publicNonce = K.publicKey secNonce) :
    (∃ s', s.fillRound2 K secKey secNonce = .ok s') ↔ s.Signable K := by
  constructor
  · rintro ⟨s', h⟩
    obtain ⟨nonces, keys, msg, ps, hverify, hnonces, hkeys, hmsg, -, -⟩ := fillRound2_eq_ok h
    have hvalid := (verifyPartSigs_eq_ok hnonces hkeys hmsg).mp hverify
    rw [pubNonceSum_eq_ok hnonces, pubBlindSum_eq_ok hkeys] at hvalid
    exact ⟨pubNonceSum_ok_iff.mp ⟨_, hnonces⟩, pubBlindSum_ok_iff.mp ⟨_, hkeys⟩, msg, hmsg, hvalid⟩
  · rintro ⟨hn, hk, msg, hmsg, hvalid⟩
    obtain ⟨nonces, hnonces⟩ := pubNonceSum_ok_iff.mpr hn
    obtain ⟨keys, hkeys⟩ := pubBlindSum_ok_iff.mpr hk
    rw [← pubNonceSum_eq_ok hnonces, ← pubBlindSum_eq_ok hkeys] at hvalid
    have hverify := (verifyPartSigs_eq_ok hnonces hkeys hmsg).mpr hvalid
    obtain ⟨ps, hps, -⟩ := setPartSig_ok
      (K.calculatePartialSig secKey secNonce nonces keys msg) s.participantCount hown
    refine ⟨{ s with participantData := ps }, ?_⟩
    simp only [fillRound2, hverify, hnonces, hkeys, msgToSign, hmsg, hps, bind, Except.bind, pure,
      Except.pure]

/-- A party that has joined finds its entry. -/
theorem own_mem_fillRound1 (s : Slate F E) (K : Keychain F E) (c : Context E) :
    ∃ p ∈ (s.fillRound1 K c).participantData,
      p.publicBlindExcess = K.publicKey c.secKey ∧ p.publicNonce = K.publicKey c.secNonce := by
  refine ⟨_, List.mem_append_right _ List.mem_cons_self, rfl, rfl⟩

end Slate

/-! ## The outcomes of a receipt -/

namespace WalletBackend

/-- The records and the contexts are the same. -/
structure Unchanged (w w' : WalletBackend F E) : Prop where
  outputs : w'.store.outputs = w.store.outputs
  txLog : w'.store.txLog = w.store.txLog
  contexts : w'.store.contexts = w.store.contexts

end WalletBackend

namespace Owner

/-- The time to live of a slate has passed for the active account. -/
def Expired (w : WalletBackend F E) (slate : Slate F E) : Prop :=
  slate.ttlCutoffHeight ≠ 0 ∧ w.store.confirmedHeight w.parentKeyId ≥ slate.ttlCutoffHeight

variable [CommRing F] [AddCommGroup E] [Module F E] [DecidableEq E]

omit [CommRing F] [AddCommGroup E] [Module F E] [DecidableEq E] in
theorem run_checkTtl_expired {w : WalletBackend F E} {slate : Slate F E} (h : Expired w slate) :
    checkTtl slate w = (.error .TransactionExpired, w) := by
  have hc : slate.ttlCutoffHeight ≠ 0 ∧
      w.store.confirmedHeight w.parentKeyId ≥ slate.ttlCutoffHeight := h
  simp only [checkTtl, Eff.run_bind, Eff.run_read, Eff.throwIf, if_pos hc]
  rfl

omit [CommRing F] [AddCommGroup E] [Module F E] [DecidableEq E] in
theorem run_checkTtl {w : WalletBackend F E} {slate : Slate F E} (h : ¬ Expired w slate) :
    checkTtl slate w = (.ok (), w) := by
  have hc : ¬ (slate.ttlCutoffHeight ≠ 0 ∧
      w.store.confirmedHeight w.parentKeyId ≥ slate.ttlCutoffHeight) := h
  simp only [checkTtl, Eff.run_bind, Eff.run_read, Eff.throwIf, if_neg hc]
  rfl

end Owner

namespace Foreign

variable [CommRing F] [AddCommGroup E] [Module F E] [DecidableEq E]

/-- The account has a record of the payment. -/
def ReceivedBefore (w : WalletBackend F E) (slate : Slate F E) (dest : Option Label) : Prop :=
  ∃ t ∈ w.store.txLogIter, t.parentKeyId = w.accountNamed dest ∧ t.txSlateId = some slate.id ∧
    t.txType = .TxReceived

/-- The slate is turned down before a record is written. -/
def Refused (w : WalletBackend F E) (slate : Slate F E) (dest : Option Label) : Prop :=
  Owner.Expired w slate ∨ ReceivedBefore w slate dest ∨ 4 ≤ w.parentKeyId.depth ∨
    ∀ features, slate.kernelFeaturesOf ≠ .ok features

/-- What a receipt writes before round 2: the log record, and the tables with it
and with the output. -/
def receiptBatch (env : Env F E) (slate : Slate F E) (dest : Option Label)
    (w : WalletBackend F E) : TxLogEntry E × Store E :=
  Selection.recipientBatch env.keychain slate (w.store.confirmedHeight (w.accountNamed dest))
    (w.accountNamed dest) (nextKey w) (env.now (w.tick + 1)) (afterNextChild w).store

/-- The slate once the recipient has joined it with the key and nonce it draws. -/
def joined (env : Env F E) (slate : Slate F E) (w : WalletBackend F E) : Slate F E :=
  slate.fillRound1 env.keychain
    (.withExcess (env.secret w.tick).1 (env.secret w.tick).2 w.parentKeyId)

/-- The wallet once the records of a receipt are written. -/
def written (env : Env F E) (slate : Slate F E) (dest : Option Label) (w : WalletBackend F E) :
    WalletBackend F E :=
  let store := (receiptBatch env slate dest w).2
  { w with
    store := store
    tick := w.tick + 2 }

variable {env : Env F E} {slate : Slate F E} {dest : Option Label} {w : WalletBackend F E}

/-- A receipt past its first two checks. -/
theorem receiveTx_continues (httl : ¬ Owner.Expired w slate)
    (hnew : ¬ ReceivedBefore w slate dest) :
    receiveTx env slate dest w =
      (do
        let (retSlate, context) ← Tx.addOutputToSlate env
          { slate with tx := some Slate.emptyTransaction }
          (w.store.confirmedHeight (w.accountNamed dest)) (w.accountNamed dest) false
        let retSlate := retSlate.adjustOffset env.keychain context
        let excess ← Eff.ofExcept retSlate.calcExcess
        let retSlate := { signProof env.keychain (w.accountNamed dest) excess retSlate with
          amount := 0
          feeFields := .zero }
        let retSlate := retSlate.removeOtherSigdata env.keychain context.secNonce context.secKey
        let retSlate := { retSlate with state := .Standard2 }
        batch (updateTxSlateState (w.accountNamed dest) retSlate)
        return retSlate : WalletM F E (Slate F E)) w := by
  have hany : ¬ ((Updater.retrieveTxs w.store none (some slate.id)
      (some (w.accountNamed dest)) false).any fun t => t.txType = .TxReceived) = true := by
    intro hany
    obtain ⟨t, ht, htype⟩ := List.any_eq_true.mp hany
    obtain ⟨hmem, haccount, -, hid, -⟩ := Updater.mem_retrieveTxs.mp ht
    exact hnew ⟨t, hmem, haccount _ rfl, hid _ rfl, of_decide_eq_true htype⟩
  unfold receiveTx
  rw [Eff.run_bind_ok (Owner.run_checkTtl httl), Eff.run_bind_ok (run_accountOrActive dest w),
    Eff.run_bind_ok (Eff.run_read w), Eff.run_bind_ok (Eff.throwIf_eq_ok (u := ()).mpr ⟨hany, rfl⟩)]

/-- The context of a receipt. -/
def receiptContext (env : Env F E) (slate : Slate F E) (dest : Option Label)
    (w : WalletBackend F E) : Context E :=
  let draw := env.secret w.tick
  let context := Context.withExcess draw.1 draw.2 (w.accountNamed dest)
  { context.addOutput (nextKey w) none slate.amount with
    amount := slate.amount
    fee := slate.feeFields.asOpt }

/-- Building the recipient's output writes the two records. -/
theorem run_buildRecipientOutput {s : Slate F E} (dest : Option Label) (hdepth : w.parentKeyId.depth < 4)
    (hadd : slate.addTransactionElements env.keychain [.output slate.amount (nextKey w)] = .ok s)
    (hamount : s.amount = slate.amount) :
    Selection.buildRecipientOutput env slate (w.store.confirmedHeight (w.accountNamed dest))
        (w.accountNamed dest) w
      = (.ok (s, nextKey w, receiptContext env s dest w, (receiptBatch env s dest w).1),
          written env s dest w) := by
  have hkey : nextChild w = (.ok (nextKey w), afterNextChild w) := run_nextChild hdepth
  unfold Selection.buildRecipientOutput receiptContext
  rw [Eff.run_bind_ok hkey, Eff.run_bind_ok (Eff.ofExcept_eq_ok.mpr ⟨hadd, rfl⟩), hamount]
  rfl

/-- A slate of a known variant gets the recipient's output. -/
theorem addOutput_ok (K : Keychain F E) (key : Identifier) {features : KernelFeatures}
    (h : slate.kernelFeaturesOf = .ok features) :
    ∃ tx, { slate with tx := some Slate.emptyTransaction }.addTransactionElements K
      [.output slate.amount key] = .ok { slate with tx := some tx } := by
  refine ⟨partialTransaction K (Slate.emptyTransaction.replaceKernel ⟨features, 0, ⟨0, 0⟩⟩)
    [.output slate.amount key], ?_⟩
  have hf : { slate with tx := some (Slate.emptyTransaction : Transaction F E) }.kernelFeaturesOf
      = .ok features := h
  simp only [Slate.addTransactionElements, Slate.updateKernel, Slate.txOrErr, hf, bind, Except.bind,
    pure, Except.pure, List.isEmpty_cons, Bool.false_eq_true, if_false]

/-- Round 2 on the slate a recipient has joined. -/
theorem joined_signs (dest : Option Label) (tx : Option (Transaction F E)) :
    (∃ s', ((({ slate with tx := tx } : Slate F E).fillRound1 env.keychain
        (receiptContext env { slate with tx := tx } dest w)).fillRound2 env.keychain
          (env.secret w.tick).1 (env.secret w.tick).2) = .ok s')
      ↔ (joined env slate w).Signable env.keychain := by
  have hown := Slate.own_mem_fillRound1 { slate with tx := tx } env.keychain
    (receiptContext env { slate with tx := tx } dest w)
  exact (Slate.fillRound2_ok_iff hown).trans ⟨fun h => ⟨h.1, h.2, h.3⟩, fun h => ⟨h.1, h.2, h.3⟩⟩

/-- A refused slate leaves the records as they were. -/
theorem receiveTx_refused (h : Refused w slate dest) :
    ∃ e w', receiveTx env slate dest w = (.error e, w') ∧ Unchanged w w' := by
  by_cases httl : Owner.Expired w slate
  · refine ⟨.TransactionExpired, w, ?_, rfl, rfl, rfl⟩
    exact Eff.run_bind_error (Owner.run_checkTtl_expired httl)
  by_cases hreceived : ReceivedBefore w slate dest
  · obtain ⟨t, hmem, haccount, hid, htype⟩ := hreceived
    have hany : ((Updater.retrieveTxs w.store none (some slate.id) (some (w.accountNamed dest))
        false).any fun t => t.txType = .TxReceived) = true := by
      refine List.any_eq_true.mpr ⟨t, Updater.mem_retrieveTxs.mpr ?_, by simp [htype]⟩
      simp [hmem, haccount, hid]
    refine ⟨.TransactionAlreadyReceived (toString slate.id), w, ?_, rfl, rfl, rfl⟩
    unfold receiveTx
    rw [Eff.run_bind_ok (Owner.run_checkTtl httl), Eff.run_bind_ok (run_accountOrActive dest w),
      Eff.run_bind_ok (Eff.run_read w)]
    refine Eff.run_bind_error ?_
    rw [Eff.throwIf, if_pos hany]
    rfl
  rw [receiveTx_continues httl hreceived]
  by_cases hdeep : 4 ≤ w.parentKeyId.depth
  · refine ⟨.Panic "index out of bounds", w, ?_, rfl, rfl, rfl⟩
    exact Eff.run_bind_error (Eff.run_bind_error (Eff.run_bind_error (run_nextChild_deep hdeep)))
  · have hvariant : ∀ features, slate.kernelFeaturesOf ≠ .ok features := by
      rcases h with h | h | h | h
      · exact (httl h).elim
      · exact (hreceived h).elim
      · exact (hdeep h).elim
      · exact h
    cases hf : slate.kernelFeaturesOf with
    | ok features => exact (hvariant features hf).elim
    | error e =>
        refine ⟨e, afterNextChild w, ?_, rfl, rfl, rfl⟩
        refine Eff.run_bind_error (Eff.run_bind_error ?_)
        unfold Selection.buildRecipientOutput
        rw [Eff.run_bind_ok (run_nextChild (by omega))]
        refine Eff.run_bind_error ?_
        have hf' : { slate with tx := some (Slate.emptyTransaction : Transaction F E)
            }.kernelFeaturesOf = .error e := hf
        simp only [Eff.run_ofExcept, Slate.addTransactionElements, Slate.updateKernel,
          Slate.txOrErr, hf', bind, Except.bind]

omit [CommRing F] [AddCommGroup E] [Module F E] [DecidableEq E] in
theorem not_refused (h : ¬ Refused w slate dest) : ¬ Owner.Expired w slate ∧
    ¬ ReceivedBefore w slate dest ∧ w.parentKeyId.depth < 4 ∧
    ∃ features, slate.kernelFeaturesOf = .ok features := by
  refine ⟨fun he => h (.inl he), fun hr => h (.inr (.inl hr)), ?_, ?_⟩
  · by_contra hdeep
    exact h (.inr (.inr (.inl (by omega))))
  · by_contra hnone
    exact h (.inr (.inr (.inr fun features hf => hnone ⟨features, hf⟩)))

/-- A slate that cannot be signed is turned down with the records written. -/
theorem receiveTx_unsigned (h : ¬ Refused w slate dest)
    (hs : ¬ (joined env slate w).Signable env.keychain) :
    ∃ e, receiveTx env slate dest w = (.error e, written env slate dest w) := by
  obtain ⟨httl, hnew, hdepth, features, hf⟩ := not_refused h
  obtain ⟨tx, hadd⟩ := addOutput_ok env.keychain (nextKey w) hf
  have hbuild := run_buildRecipientOutput dest hdepth hadd rfl
  rw [receiveTx_continues httl hnew]
  cases hround : (({ slate with tx := some tx } : Slate F E).fillRound1 env.keychain
      (receiptContext env { slate with tx := some tx } dest w)).fillRound2 env.keychain
        (env.secret w.tick).1 (env.secret w.tick).2 with
  | ok s' => exact (hs ((joined_signs dest (some tx)).mp ⟨s', hround⟩)).elim
  | error e =>
      refine ⟨e, Eff.run_bind_error ?_⟩
      unfold Tx.addOutputToSlate
      rw [Eff.run_bind_ok hbuild]
      refine Eff.run_bind_error ?_
      exact congrArg (·, written env slate dest w) hround

/-- Round 2 keeps the key sum. -/
theorem calcExcess_of_round {s s' : Slate F E} {secKey secNonce : SecretKey}
    (hown : ∃ p ∈ s.participantData, p.publicBlindExcess = env.keychain.publicKey secKey ∧
      p.publicNonce = env.keychain.publicKey secNonce)
    (h : s.fillRound2 env.keychain secKey secNonce = .ok s') :
    ∃ excess, s'.calcExcess = .ok excess := by
  obtain ⟨nonces, keys, msg, ps, -, -, hkeys, -, hps, rfl⟩ := Slate.fillRound2_eq_ok h
  obtain ⟨ps', hps', hmap⟩ := Slate.setPartSig_ok
    (env.keychain.calculatePartialSig secKey secNonce nonces keys msg) s.participantCount hown
  obtain rfl : ps = ps' := Except.ok.inj (hps.symm.trans hps')
  refine Slate.pubBlindSum_ok_iff.mpr ?_
  change (ps.map (·.publicBlindExcess)).sum ≠ 0
  rw [hmap]
  exact Slate.pubBlindSum_ok_iff.mp ⟨keys, hkeys⟩

omit [CommRing F] [AddCommGroup E] [Module F E] [DecidableEq E] in
/-- The state of a slate is written once a record of it is there. -/
theorem updateTxSlateState_ok {s : Store E} (p : Identifier) (sl : Slate F E)
    (h : ∃ t ∈ s.txLogIter, t.txSlateId = some sl.id) :
    ∃ s', updateTxSlateState p sl s = .ok ((), s') := by
  unfold updateTxSlateState
  cases hfind : s.txLogIter.find? fun t => decide (t.txSlateId = some sl.id) with
  | some t => exact ⟨_, rfl⟩
  | none =>
      obtain ⟨t, ht, hid⟩ := h
      exact (List.find?_eq_none.mp hfind t ht (by simpa using hid)).elim

/-- A slate that can be signed is received: the record gets the excess, and the
first record of the slate the new state. -/
theorem receiveTx_signed (h : ¬ Refused w slate dest)
    (hs : (joined env slate w).Signable env.keychain) :
    ∃ (sl : Slate F E) (excess : E) (s₃ : Store E), sl.id = slate.id ∧
      updateTxSlateState (w.accountNamed dest) sl ((written env slate dest w).store.saveTxLogEntry
        { (receiptBatch env slate dest w).1 with kernelExcess := some excess }
        (w.accountNamed dest)) = .ok ((), s₃) ∧
      receiveTx env slate dest w = (.ok sl, { written env slate dest w with store := s₃ }) := by
  obtain ⟨httl, hnew, hdepth, features, hf⟩ := not_refused h
  obtain ⟨tx, hadd⟩ := addOutput_ok env.keychain (nextKey w) hf
  have hbuild := run_buildRecipientOutput dest hdepth hadd rfl
  obtain ⟨s₂, hround⟩ := (joined_signs dest (some tx)).mpr hs
  obtain ⟨excess, hexcess⟩ := calcExcess_of_round (Slate.own_mem_fillRound1 _ _ _) hround
  have hs₂ : s₂.id = slate.id := by
    obtain ⟨_, _, _, _, -, -, -, -, -, rfl⟩ := Slate.fillRound2_eq_ok hround
    rfl
  let t : TxLogEntry E :=
    { (receiptBatch env { slate with tx := some tx } dest w).1 with kernelExcess := some excess }
  let c : Context E := { receiptContext env { slate with tx := some tx } dest w with
    initialSecKey := (env.secret w.tick).1 }
  have hadded : Tx.addOutputToSlate env { slate with tx := some Slate.emptyTransaction }
      (w.store.confirmedHeight (w.accountNamed dest)) (w.accountNamed dest) false w
        = (.ok (s₂, c), { written env slate dest w with
            store := (written env slate dest w).store.saveTxLogEntry t (w.accountNamed dest) }) := by
    unfold Tx.addOutputToSlate
    rw [Eff.run_bind_ok hbuild]
    refine (Eff.run_bind_ok (Eff.ofExcept_eq_ok.mpr ⟨hround, rfl⟩)).trans ?_
    exact (Eff.run_bind_ok (Eff.ofExcept_eq_ok.mpr ⟨hexcess, rfl⟩)).trans rfl
  rw [receiveTx_continues httl hnew, Eff.run_bind_ok hadded]
  let signed : Slate F E := signProof env.keychain (w.accountNamed dest) excess
    (s₂.adjustOffset env.keychain c)
  let sl : Slate F E := { ({ signed with
      amount := 0
      feeFields := .zero }).removeOtherSigdata env.keychain c.secNonce c.secKey with
    state := .Standard2 }
  have hsl : sl.id = slate.id := hs₂
  obtain ⟨s₃, hstate⟩ := updateTxSlateState_ok
    (s := (written env slate dest w).store.saveTxLogEntry t (w.accountNamed dest))
    (w.accountNamed dest) sl
    ⟨t, List.mem_map.mpr ⟨(w.accountNamed dest, t), Table.mem_put.mpr (.inl rfl), rfl⟩,
      by rw [hsl]; rfl⟩
  refine ⟨sl, excess, s₃, hsl, hstate, ?_⟩
  refine (Eff.run_bind_ok (Eff.ofExcept_eq_ok.mpr ⟨hexcess, rfl⟩)).trans ?_
  exact (Eff.run_bind_ok (batch_eq_ok.mpr ⟨s₃, hstate, rfl⟩)).trans rfl

/-- The two records a receipt would write are there already. -/
def AlreadyWritten (env : Env F E) (slate : Slate F E) (dest : Option Label)
    (w : WalletBackend F E) : Prop :=
  let logId := w.store.txLogId (w.accountNamed dest)
  let height := w.store.confirmedHeight (w.accountNamed dest)
  Selection.unconfirmedOutput env.keychain (w.accountNamed dest) (nextKey w) slate.amount height 0
      false (some logId) ∈ w.store.outputs ∧
    (w.accountNamed dest, (Selection.receivedEntry slate height (w.accountNamed dest) logId
      (env.now (w.tick + 1)) : TxLogEntry E)) ∈ w.store.txLog

theorem unchanged_written_iff :
    Unchanged w (written env slate dest w) ↔ AlreadyWritten env slate dest w := by
  constructor
  · intro h
    exact ⟨Table.put_eq_self.mp h.outputs, Table.put_eq_self.mp h.txLog⟩
  · intro h
    exact ⟨Table.put_eq_self.mpr h.1, Table.put_eq_self.mpr h.2, rfl⟩

/-- A receipt that fails leaves the records as they were exactly when the slate is
refused at once or can be signed, unless it writes nothing new. -/
theorem receive_atomic_iff (env : Env F E) (slate : Slate F E) (dest : Option Label)
    (w : WalletBackend F E) :
    (∀ e w', receiveTx env slate dest w = (.error e, w') → Unchanged w w') ↔
      Refused w slate dest ∨ (joined env slate w).Signable env.keychain ∨
        AlreadyWritten env slate dest w := by
  by_cases hrefused : Refused w slate dest
  · obtain ⟨e, w', hrun, hsame⟩ := receiveTx_refused hrefused
    refine iff_of_true (fun e' w'' hrun' => ?_) (.inl hrefused)
    cases hrun.symm.trans hrun'
    exact hsame
  by_cases hsign : (joined env slate w).Signable env.keychain
  · obtain ⟨s', excess, s₃, -, -, hrun⟩ := receiveTx_signed hrefused hsign
    refine iff_of_true (fun e' w'' hrun' => ?_) (.inr (.inl hsign))
    cases hrun.symm.trans hrun'
  · obtain ⟨e, hrun⟩ := receiveTx_unsigned hrefused hsign
    constructor
    · intro h
      exact .inr (.inr (unchanged_written_iff.mp (h e _ hrun)))
    · rintro (h | h | h) e' w' hrun'
      · exact (hrefused h).elim
      · exact (hsign h).elim
      · cases hrun.symm.trans hrun'
        exact unchanged_written_iff.mpr h

end Foreign

/-! ## A slate with a bad signature -/

namespace SampleSend

/-- The sender's slate with a signature nobody made. -/
def badlySigned : Slate ℤ (ℤ × ℤ) :=
  { offer with
    participantData := offer.participantData.map fun p => { p with partSig := some ⟨(0, 0), 0⟩ } }

def afterRejection : WalletBackend ℤ (ℤ × ℤ) := (Foreign.receiveTx env badlySigned none .new).2

/-- The rejected slate leaves an output and a log record in a new wallet, and the
sender's good slate is turned down after it. -/
theorem rejected_slate_leaves_records :
    (Foreign.receiveTx env badlySigned none .new).1 = .error (.Secp "IncorrectSignature") ∧
      ¬ Unchanged (.new : WalletBackend ℤ (ℤ × ℤ)) afterRejection ∧
      afterRejection.store.iter.map (·.status) = [.Unconfirmed] ∧
      (Foreign.receiveTx env offer none afterRejection).1
        = .error (.TransactionAlreadyReceived (toString offer.id)) ∧
      (Foreign.receiveTx env offer none (.new : WalletBackend ℤ (ℤ × ℤ))).1.isOk = true := by
  have houtputs : afterRejection.store.iter.map (·.status) = [.Unconfirmed] := by decide +kernel
  refine ⟨by decide +kernel, fun h => ?_, houtputs, by decide +kernel, by decide +kernel⟩
  have hempty : afterRejection.store.iter = [] := by
    rw [Store.iter, h.outputs]
    rfl
  rw [hempty] at houtputs
  cases houtputs

end SampleSend

end GrinWallet
