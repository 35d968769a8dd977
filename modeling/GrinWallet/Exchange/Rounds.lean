import GrinWallet.Exchange.Elements
import GrinWallet.Lib.Pedersen

/-! # The rounds of an exchange on a slate

What each party's step does to the participant entries of a slate, and what the
completion of a slate with one signed and one unsigned entry returns. The two
entries differ in the key or in the nonce: the code recognises a party by the
pair of both.
-/

namespace GrinWallet

open Effect

variable {F E : Type} [CommRing F] [AddCommGroup E] [Module F E] [DecidableEq E]

/-- The participant entry of a key and a nonce. -/
def entry (K : Curve F E) (d : SecretKey × SecretKey) (sig : Option (Signature F E)) :
    ParticipantData F E :=
  ⟨K.publicKey d.1, K.publicKey d.2, sig⟩

/-- The public parts of two draws differ somewhere. -/
def Apart (K : Curve F E) (d d' : SecretKey × SecretKey) : Prop :=
  ¬ (K.publicKey d.2 = K.publicKey d'.2 ∧ K.publicKey d.1 = K.publicKey d'.1)

instance (K : Curve F E) (d d' : SecretKey × SecretKey) : Decidable (Apart K d d') :=
  inferInstanceAs (Decidable (¬ _))

omit [DecidableEq E] in
theorem Apart.symm {K : Curve F E} {d d' : SecretKey × SecretKey} (h : Apart K d d') :
    Apart K d' d := by
  intro heq
  exact h ⟨heq.1.symm, heq.2.symm⟩

/-- The sum of both public nonces. -/
def nonceSum (K : Curve F E) (d d' : SecretKey × SecretKey) : E :=
  K.publicKey d.2 + K.publicKey d'.2

/-- The sum of both public keys. -/
def keySum (K : Curve F E) (d d' : SecretKey × SecretKey) : E :=
  K.publicKey d.1 + K.publicKey d'.1

/-- The partial signature of a draw on the sums of an exchange. -/
def partSigOf (K : Curve F E) (d : SecretKey × SecretKey) (nonces keys : E)
    (msg : KernelFeatures) : Signature F E :=
  K.calculatePartialSig d.1 d.2 nonces keys msg

namespace Slate

variable {K : Keychain F E} {s s' : Slate F E} {d d' : SecretKey × SecretKey} {c : Context E}

theorem addParticipantInfo_nil (h : s.participantData = []) (hc : (c.secKey, c.secNonce) = d) :
    (s.addParticipantInfo K c none).participantData = [entry K.toCurve d none] := by
  subst hc
  simp [addParticipantInfo, h, entry]

theorem addParticipantInfo_one {sig : Option (Signature F E)}
    (h : s.participantData = [entry K.toCurve d' sig]) (hc : (c.secKey, c.secNonce) = d)
    (hne : Apart K.toCurve d' d) :
    (s.addParticipantInfo K c none).participantData
      = [entry K.toCurve d' sig, entry K.toCurve d none] := by
  subst hc
  have hpair : ¬ (K.publicKey d'.2 = K.publicKey c.secNonce
      ∧ K.publicKey d'.1 = K.publicKey c.secKey) := hne
  have hpair' : K.publicKey d'.2 ≠ K.publicKey c.secNonce
      ∨ K.publicKey d'.1 ≠ K.publicKey c.secKey := by
    by_cases h2 : K.publicKey d'.2 = K.publicKey c.secNonce
    · exact .inr fun h1 => hpair ⟨h2, h1⟩
    · exact .inl h2
  simp only [addParticipantInfo, h, entry, List.filter_cons, List.filter_nil, hpair, hpair',
    decide_true, decide_false, if_true, Bool.false_eq_true, if_false, List.findSome?_nil]
  rfl

/-- A party that is there already keeps its signature and its place at the end. -/
theorem addParticipantInfo_two {sig : Option (Signature F E)} {sig' : Signature F E}
    (h : s.participantData = [entry K.toCurve d' sig, entry K.toCurve d (some sig')])
    (hc : (c.secKey, c.secNonce) = d) (hne : Apart K.toCurve d' d) :
    (s.addParticipantInfo K c none).participantData
      = [entry K.toCurve d' sig, entry K.toCurve d (some sig')] := by
  subst hc
  have hpair : ¬ (K.publicKey d'.2 = K.publicKey c.secNonce
      ∧ K.publicKey d'.1 = K.publicKey c.secKey) := hne
  have hpair' : K.publicKey d'.2 ≠ K.publicKey c.secNonce
      ∨ K.publicKey d'.1 ≠ K.publicKey c.secKey := by
    by_cases h2 : K.publicKey d'.2 = K.publicKey c.secNonce
    · exact .inr fun h1 => hpair ⟨h2, h1⟩
    · exact .inl h2
  simp only [addParticipantInfo, h, entry, List.filter_cons, List.filter_nil, hpair, hpair',
    decide_true, decide_false, if_true, Bool.false_eq_true, if_false, true_and, ne_eq,
    not_true_eq_false, or_false, List.findSome?_cons]
  rfl

theorem removeOtherSigdata_two {sig sig' : Option (Signature F E)}
    (h : s.participantData = [entry K.toCurve d' sig, entry K.toCurve d sig'])
    (hne : Apart K.toCurve d' d) :
    (s.removeOtherSigdata K d.2 d.1).participantData = [entry K.toCurve d sig'] := by
  have hpair : ¬ (K.publicKey d'.2 = K.publicKey d.2 ∧ K.publicKey d'.1 = K.publicKey d.1) := hne
  simp [removeOtherSigdata, h, entry, hpair]

theorem sums_two {sig sig' : Option (Signature F E)}
    (h : s.participantData = [entry K.toCurve d' sig, entry K.toCurve d sig']) :
    (∀ sum, s.pubNonceSum = .ok sum → sum = nonceSum K.toCurve d' d) ∧
      ∀ sum, s.pubBlindSum = .ok sum → sum = keySum K.toCurve d' d := by
  constructor
  · intro sum hsum
    rw [pubNonceSum_eq_ok hsum, h]
    simp [entry, nonceSum]
  · intro sum hsum
    rw [pubBlindSum_eq_ok hsum, h]
    simp [entry, keySum]

/-- Round 2 of the party whose entry stands second. -/
theorem fillRound2_two {sig sig' : Option (Signature F E)} {msg : KernelFeatures}
    (h : s.participantData = [entry K.toCurve d' sig, entry K.toCurve d sig'])
    (hne : Apart K.toCurve d' d) (hcount : s.participantCount = 2)
    (hmsg : s.kernelFeaturesOf = .ok msg) (hrun : s.fillRound2 K d.1 d.2 = .ok s') :
    s' = { s with participantData := [entry K.toCurve d' sig, entry K.toCurve d
      (some (partSigOf K.toCurve d (nonceSum K.toCurve d' d) (keySum K.toCurve d' d) msg))] } := by
  obtain ⟨nonces, keys, msg', ps, -, hnonces, hkeys, hmsg', hps, rfl⟩ := fillRound2_eq_ok hrun
  have hn := (sums_two h).1 nonces hnonces
  have hk := (sums_two h).2 keys hkeys
  have hm : msg' = msg := by
    rw [msgToSign, hmsg] at hmsg'
    exact (Except.ok.inj hmsg').symm
  subst hn hk hm
  have hpair : ¬ (K.publicKey d'.1 = K.publicKey d.1 ∧ K.publicKey d'.2 = K.publicKey d.2) :=
    fun heq => hne ⟨heq.2, heq.1⟩
  have hset : setPartSig (K.publicKey d.1) (K.publicKey d.2)
      (K.calculatePartialSig d.1 d.2 (nonceSum K.toCurve d' d) (keySum K.toCurve d' d) msg')
      s.participantCount s.participantData = .ok [entry K.toCurve d' sig, entry K.toCurve d
        (some (partSigOf K.toCurve d (nonceSum K.toCurve d' d) (keySum K.toCurve d' d) msg'))] := by
    rw [hcount, h]
    simp only [setPartSig, entry, if_neg hpair, and_self, if_true]
    rfl
  rw [hset] at hps
  rw [← Except.ok.inj hps]

/-! ## Completing -/

theorem finalizeSignature_eq_ok {finalSig : Signature F E}
    (h : s.finalizeSignature K = .ok finalSig) :
    ∃ nonces, s.pubNonceSum = .ok nonces ∧ finalSig = ⟨nonces, (s.partSigs.map (·.s)).sum⟩ := by
  unfold finalizeSignature at h
  obtain ⟨_, -, h⟩ := except_bind_eq_ok.mp h
  obtain ⟨nonces, hnonces, h⟩ := except_bind_eq_ok.mp h
  obtain ⟨keys, -, h⟩ := except_bind_eq_ok.mp h
  obtain ⟨msg, -, h⟩ := except_bind_eq_ok.mp h
  refine ⟨nonces, hnonces, ?_⟩
  by_cases hvalid : K.CompletedSigValid ⟨nonces, (s.partSigs.map (·.s)).sum⟩ keys keys msg
  · rw [if_pos hvalid] at h
    exact (Except.ok.inj h).symm
  · rw [if_neg hvalid] at h
    cases h

theorem finalizeTransaction_eq_ok {C : Consensus F E} {finalSig : Signature F E}
    (h : s.finalizeTransaction K C finalSig = .ok s') :
    ∃ tx kernel excess, s.tx = some tx ∧ tx.kernels = [kernel] ∧ s.pubBlindSum = .ok excess ∧
      s' = { s with
        tx := some (tx.replaceKernel ⟨kernel.features, excess, finalSig⟩) } := by
  unfold finalizeTransaction at h
  obtain ⟨_, -, h⟩ := except_bind_eq_ok.mp h
  obtain ⟨excess, hexcess, h⟩ := except_bind_eq_ok.mp h
  obtain ⟨tx, htx, h⟩ := except_bind_eq_ok.mp h
  cases hk : tx.kernels with
  | nil => simp [hk] at h
  | cons kernel rest =>
      cases rest with
      | cons k' ks => simp [hk] at h
      | nil =>
          simp only [hk] at h
          by_cases hvalid : K.CompletedSigValid finalSig excess excess kernel.features
          · rw [if_neg (not_not.mpr hvalid)] at h
            obtain ⟨_, -, h⟩ := except_bind_eq_ok.mp h
            exact ⟨tx, kernel, excess, txOrErr_eq_ok.mp htx, hk, hexcess,
              (Except.ok.inj h).symm⟩
          · rw [if_pos hvalid] at h
            cases h

theorem repopulateTx_eq_ok {store : Store E} {updateFee : Bool}
    (h : Selection.repopulateTx K store s c updateFee = .ok s') :
    ∃ tx fee features, s.tx = some tx ∧ Selection.restoredFee s c updateFee = .ok fee ∧
      { s with feeFields := fee }.kernelFeaturesOf = .ok features ∧
      s' = { s with
        amount := c.amount
        feeFields := fee
        participantData := (s.addParticipantInfo K c none).participantData
        tx := some
          { offset := s.offset
            inputs := insertAll tx.inputs
              ((Selection.repopulateParts store c).filterMap (Append.input? K))
            outputs := insertAll tx.outputs
              ((Selection.repopulateParts store c).filterMap (Append.output? K))
            kernels := [⟨features, 0, ⟨0, 0⟩⟩] } } := by
  unfold Selection.repopulateTx at h
  obtain ⟨fee, hfee, h⟩ := except_bind_eq_ok.mp h
  obtain ⟨s₁, hs₁, h⟩ := except_bind_eq_ok.mp h
  obtain ⟨tx, features, htx, hfeatures, rfl⟩ := addTransactionElements_eq_ok hs₁
  obtain ⟨tx', htx', h⟩ := except_bind_eq_ok.mp h
  refine ⟨tx, fee, features, htx, hfee, hfeatures, ?_⟩
  cases h
  rw [txOrErr_eq_ok] at htx'
  cases htx'
  rw [partialTransaction_eq]
  rfl

theorem repopulateTx_plain {store : Store E} {updateFee : Bool}
    (h : Selection.repopulateTx K store s c updateFee = .ok s') (hplain : s.kernelFeatures = 0) :
    ∃ tx fee, s.tx = some tx ∧ Selection.restoredFee s c updateFee = .ok fee ∧
      s' = { s with
        amount := c.amount
        feeFields := fee
        participantData := (s.addParticipantInfo K c none).participantData
        tx := some
          { offset := s.offset
            inputs := insertAll tx.inputs
              ((Selection.repopulateParts store c).filterMap (Append.input? K))
            outputs := insertAll tx.outputs
              ((Selection.repopulateParts store c).filterMap (Append.output? K))
            kernels := [⟨.Plain fee, 0, ⟨0, 0⟩⟩] } } := by
  obtain ⟨tx, fee, features, htx, hfee, hfeatures, hs'⟩ := repopulateTx_eq_ok h
  have hfee' : features = .Plain fee :=
    Except.ok.inj (hfeatures.symm.trans (kernelFeaturesOf_plain (by exact hplain)))
  subst hfee'
  exact ⟨tx, fee, htx, hfee, hs'⟩

omit [AddCommGroup E] [CommRing F] [Module F E] in
theorem setPartSig_length {pubExcess pubNonce : E} {sig : Signature F E} {n : Nat}
    {ps ps' : List (ParticipantData F E)}
    (h : setPartSig pubExcess pubNonce sig n ps = .ok ps') : ps'.length = ps.length := by
  induction n generalizing ps ps' with
  | zero =>
      cases h
      rfl
  | succ n ih =>
      cases ps with
      | nil => cases h
      | cons p ps =>
          unfold setPartSig at h
          by_cases hp : p.publicBlindExcess = pubExcess ∧ p.publicNonce = pubNonce
          · rw [if_pos hp] at h
            cases h
            rfl
          · rw [if_neg hp] at h
            obtain ⟨qs, hqs, h⟩ := except_bind_eq_ok.mp h
            cases h
            rw [List.length_cons, List.length_cons, ih hqs]

/-- Completing a slate fills in one signature, and the excess and the signature
of its only kernel. -/
theorem completeTx_eq_ok {C : Consensus F E} (h : Tx.completeTx K C s c = .ok s') :
    ∃ ps tx kernel excess sig, ps.length = s.participantData.length ∧ s.tx = some tx ∧
      tx.kernels = [kernel] ∧
      s' = { s with
        participantData := ps
        tx := some (tx.replaceKernel ⟨kernel.features, excess, sig⟩) } := by
  unfold Tx.completeTx at h
  obtain ⟨s₁, hround, h⟩ := except_bind_eq_ok.mp h
  obtain ⟨nonces, blinds, msg, ps, -, -, -, -, hps, rfl⟩ := fillRound2_eq_ok hround
  obtain ⟨sig, -, hfinal⟩ := except_bind_eq_ok.mp h
  obtain ⟨tx, kernel, excess, htx, hk, -, rfl⟩ := finalizeTransaction_eq_ok hfinal
  exact ⟨ps, tx, kernel, excess, sig, setPartSig_length hps, htx, hk, rfl⟩

/-- The partial signature one party makes on the sums of both. -/
def jointSig (K : Curve F E) (d d' signer : SecretKey × SecretKey) (fee : FeeFields) :
    Signature F E :=
  partSigOf K signer (nonceSum K d d') (keySum K d d') (.Plain fee)

/-- The kernel of a transaction both parties signed. -/
def jointKernel (K : Curve F E) (d d' : SecretKey × SecretKey) (fee : FeeFields) :
    TxKernel F E where
  features := .Plain fee
  excess := keySum K d d'
  excessSig := ⟨nonceSum K d d', (jointSig K d d' d fee).s + (jointSig K d d' d' fee).s⟩

omit [DecidableEq E] in
theorem sums_comm (K : Curve F E) (d d' : SecretKey × SecretKey) :
    nonceSum K d' d = nonceSum K d d' ∧ keySum K d' d = keySum K d d' :=
  ⟨add_comm _ _, add_comm _ _⟩

/-- A party that joins second and signs at once. -/
theorem respond_two (hrun : (s.fillRound1 K c).fillRound2 K c.secKey c.secNonce = .ok s')
    (h : s.participantData = [entry K.toCurve d' none]) (hc : (c.secKey, c.secNonce) = d)
    (hne : Apart K.toCurve d' d) (hcount : s.participantCount = 2)
    (hplain : s.kernelFeatures = 0) :
    s' = { s with
      participantData := [entry K.toCurve d' none,
        entry K.toCurve d (some (jointSig K.toCurve d' d d s.feeFields))] } := by
  subst hc
  have hjoined : (s.fillRound1 K c).participantData
      = [entry K.toCurve d' none, entry K.toCurve (c.secKey, c.secNonce) none] :=
    addParticipantInfo_one h rfl hne
  have hmsg : (s.fillRound1 K c).kernelFeaturesOf = .ok (.Plain s.feeFields) :=
    kernelFeaturesOf_plain hplain
  have hround := fillRound2_two hjoined hne hcount hmsg hrun
  exact hround

/-- Completing a slate the other party has signed: both signatures are made for
the same sums and message, and the kernel carries their sum. -/
theorem completeTx_two {C : Consensus F E} {fee : FeeFields} {tx : Transaction F E}
    (hrun : Tx.completeTx K C s c = .ok s')
    (h : s.participantData
      = [entry K.toCurve d' (some (jointSig K.toCurve d d' d' fee)), entry K.toCurve d none])
    (hne : Apart K.toCurve d' d) (hcount : s.participantCount = 2) (hplain : s.kernelFeatures = 0)
    (hfee : s.feeFields = fee) (htx : s.tx = some tx)
    (hkernel : tx.kernels = [⟨.Plain fee, 0, ⟨0, 0⟩⟩]) (hkeys : Tx.completionKeys c = d) :
    s' = { s with
      participantData := [entry K.toCurve d' (some (jointSig K.toCurve d d' d' fee)),
        entry K.toCurve d (some (jointSig K.toCurve d d' d fee))]
      tx := some (tx.replaceKernel (jointKernel K.toCurve d d' fee)) } := by
  unfold Tx.completeTx at hrun
  rw [hkeys] at hrun
  obtain ⟨s₁, hround, hrun⟩ := except_bind_eq_ok.mp hrun
  have hmsg : s.kernelFeaturesOf = .ok (.Plain fee) := by
    rw [kernelFeaturesOf_plain hplain, hfee]
  have hs₁ := fillRound2_two h hne hcount hmsg hround
  rw [(sums_comm K.toCurve d d').1, (sums_comm K.toCurve d d').2] at hs₁
  unfold finalize at hrun
  obtain ⟨finalSig, hsig, hfinal⟩ := except_bind_eq_ok.mp hrun
  obtain ⟨nonces, hnonces, rfl⟩ := finalizeSignature_eq_ok hsig
  obtain ⟨tx', kernel, excess, htx', hk, hexcess, rfl⟩ := finalizeTransaction_eq_ok hfinal
  have hp₁ : s₁.participantData = [entry K.toCurve d' (some (jointSig K.toCurve d d' d' fee)),
      entry K.toCurve d (some (jointSig K.toCurve d d' d fee))] := by
    rw [hs₁]
    rfl
  have hn : nonces = nonceSum K.toCurve d d' :=
    ((sums_two hp₁).1 nonces hnonces).trans (sums_comm K.toCurve d d').1
  have hx : excess = keySum K.toCurve d d' :=
    ((sums_two hp₁).2 excess hexcess).trans (sums_comm K.toCurve d d').2
  have htx₁ : tx' = tx := by
    rw [hs₁] at htx'
    exact Option.some.inj (htx'.symm.trans htx)
  subst htx₁ hn hx
  rw [hkernel] at hk
  cases hk
  have hsum : (s₁.partSigs.map (·.s)).sum
      = (jointSig K.toCurve d d' d fee).s + (jointSig K.toCurve d d' d' fee).s := by
    rw [partSigs, hp₁]
    simp [entry, add_comm]
  rw [hsum, hs₁]
  rfl

end Slate

end GrinWallet
