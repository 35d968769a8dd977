import GrinWallet.Exchange.Receive
import GrinWallet.Selection.Checked

/-! # The signature on a received slate

A recipient puts its entry last, and then signs the first entry with its key and
nonce among as many as the slate says there are participants. The number comes
from the sender, so the loop can end before it has come to the last entry.
-/

namespace GrinWallet

open Effect WalletBackend OrderedTable

variable {F E : Type}

namespace Slate

variable [CommRing F] [AddCommGroup E] [Module F E] [DecidableEq E]

/-- The entry has the key and the nonce of a draw. -/
def OwnEntry (K : Curve F E) (d : SecretKey × SecretKey) (p : ParticipantData F E) : Prop :=
  p.publicNonce = K.publicKey d.2 ∧ p.publicBlindExcess = K.publicKey d.1

instance (K : Curve F E) (d : SecretKey × SecretKey) (p : ParticipantData F E) :
    Decidable (OwnEntry K d p) :=
  inferInstanceAs (Decidable (_ ∧ _))

/-- The entries that are not of a draw. -/
def others (s : Slate F E) (K : Curve F E) (d : SecretKey × SecretKey) :
    List (ParticipantData F E) :=
  s.participantData.filter fun p => ¬ OwnEntry K d p

/-- The signature the slate has already for a draw. -/
def carriedSig (s : Slate F E) (K : Curve F E) (d : SecretKey × SecretKey) :
    Option (Signature F E) :=
  (s.participantData.filter fun p => OwnEntry K d p).findSome? (·.partSig)

omit [DecidableEq E] in
/-- A partial signature is valid for the key it was made with. -/
theorem calculatePartialSig_valid (K : Curve F E) (secKey secNonce : SecretKey) (nonces keys : E)
    (msg : KernelFeatures) :
    K.PartialSigValid (K.calculatePartialSig secKey secNonce nonces keys msg) nonces
      (K.publicKey secKey) keys msg := by
  simp only [Curve.PartialSigValid, Curve.calculatePartialSig, Curve.publicKey, add_smul, mul_smul]

/-- A party that joins stands last, behind the entries of the others. -/
theorem fillRound1_participants (s : Slate F E) (K : Keychain F E) (c : Context E) :
    (s.fillRound1 K c).participantData = s.others K.toCurve (c.secKey, c.secNonce)
      ++ [entry K.toCurve (c.secKey, c.secNonce)
        (s.carriedSig K.toCurve (c.secKey, c.secNonce))] := by
  have hothers : (s.participantData.filter fun v => decide
      (v.publicNonce ≠ K.publicKey c.secNonce ∨ v.publicBlindExcess ≠ K.publicKey c.secKey))
      = s.others K.toCurve (c.secKey, c.secNonce) := by
    refine List.filter_congr fun p _ => ?_
    rw [decide_eq_decide, OwnEntry, not_and_or]
  simp only [fillRound1, addParticipantInfo, hothers]
  rfl

omit [CommRing F] [AddCommGroup E] [Module F E] in
/-- The loop signs a last entry exactly when the count goes beyond the entries before it. -/
theorem setPartSig_last {p : ParticipantData F E} {ps : List (ParticipantData F E)}
    (hps : ∀ q ∈ ps,
      ¬ (q.publicBlindExcess = p.publicBlindExcess ∧ q.publicNonce = p.publicNonce))
    (sig : Signature F E) (n : Nat) :
    setPartSig p.publicBlindExcess p.publicNonce sig n (ps ++ [p])
      = .ok (ps ++ [if ps.length < n then { p with partSig := some sig } else p]) := by
  induction ps generalizing n with
  | nil =>
      cases n with
      | zero => rfl
      | succ n =>
          rw [List.nil_append, setPartSig, if_pos ⟨rfl, rfl⟩, if_pos (by simp)]
          rfl
  | cons q qs ih =>
      cases n with
      | zero => rfl
      | succ n =>
          have hq := hps q List.mem_cons_self
          have htail := ih (fun r hr => hps r (List.mem_cons_of_mem q hr)) n
          have hlen : (q :: qs).length < n + 1 ↔ qs.length < n := by simp
          rw [List.cons_append, setPartSig, if_neg hq, htail, if_congr hlen rfl rfl]
          rfl

/-! ## Running off the list -/

section NoPanic

theorem noPanic_forM {α : Type} {f : α → Except Error Unit} (hf : ∀ a, NoPanic (f a))
    (l : List α) : NoPanic (l.forM f) := by
  induction l with
  | nil => exact noPanic_ok _
  | cons a l ih => exact noPanic_bind.mpr ⟨hf a, fun _ _ => ih⟩

omit [CommRing F] [Module F E] in
theorem pubNonceSum_noPanic (s : Slate F E) : NoPanic s.pubNonceSum := by
  intro text h
  simp only [pubNonceSum] at h
  split at h
  · cases h
  · split at h <;> cases h

omit [CommRing F] [Module F E] in
theorem pubBlindSum_noPanic (s : Slate F E) : NoPanic s.pubBlindSum := by
  intro text h
  simp only [pubBlindSum] at h
  split at h
  · cases h
  · split at h <;> cases h

omit [CommRing F] [AddCommGroup E] [Module F E] [DecidableEq E] in
theorem msgToSign_noPanic (s : Slate F E) : NoPanic s.msgToSign := s.kernelFeaturesOf_noPanic

theorem verifyPartSigs_noPanic (s : Slate F E) (K : Keychain F E) :
    NoPanic (s.verifyPartSigs K) := by
  refine noPanic_forM (fun p => ?_) _
  cases hsig : p.partSig with
  | none => exact noPanic_ok _
  | some sig =>
      refine noPanic_bind.mpr ⟨s.pubNonceSum_noPanic, fun nonces _ => ?_⟩
      refine noPanic_bind.mpr ⟨s.pubBlindSum_noPanic, fun keys _ => ?_⟩
      refine noPanic_bind.mpr ⟨s.msgToSign_noPanic, fun msg _ text h => ?_⟩
      split at h <;> cases h

end NoPanic

theorem entry_ne_of_mem_others {s : Slate F E} {K : Curve F E} {d : SecretKey × SecretKey}
    {q : ParticipantData F E} (hq : q ∈ s.others K d) (sig : Option (Signature F E)) :
    ¬ (q.publicBlindExcess = (entry K d sig).publicBlindExcess ∧
      q.publicNonce = (entry K d sig).publicNonce) := by
  intro h
  have hnot : ¬ OwnEntry K d q := by simpa using (List.mem_filter.mp hq).2
  exact hnot ⟨h.2, h.1⟩

/-- Round 2 after round 1 stays on the participant list, whatever the count. -/
theorem fillRound2_noPanic (s : Slate F E) (K : Keychain F E) (c : Context E) :
    NoPanic ((s.fillRound1 K c).fillRound2 K c.secKey c.secNonce) := by
  refine noPanic_bind.mpr ⟨verifyPartSigs_noPanic _ K, fun _ _ => ?_⟩
  refine noPanic_bind.mpr ⟨pubNonceSum_noPanic _, fun nonces _ => ?_⟩
  refine noPanic_bind.mpr ⟨pubBlindSum_noPanic _, fun keys _ => ?_⟩
  refine noPanic_bind.mpr ⟨msgToSign_noPanic _, fun msg _ => ?_⟩
  have hlast := setPartSig_last (p := entry K.toCurve (c.secKey, c.secNonce)
      (s.carriedSig K.toCurve (c.secKey, c.secNonce)))
    (fun q (hq : q ∈ s.others K.toCurve (c.secKey, c.secNonce)) => entry_ne_of_mem_others hq _)
    (K.calculatePartialSig c.secKey c.secNonce nonces keys msg)
    (s.fillRound1 K c).participantCount
  rw [← fillRound1_participants s K c] at hlast
  exact noPanic_bind.mpr ⟨fun text h => (nomatch hlast.symm.trans h), fun ps _ => noPanic_ok _⟩

/-- The signature of the last entry after round 2: a new one when the loop comes to
it, else the one the slate had for it. -/
def lastSig (s : Slate F E) (K : Keychain F E) (c : Context E) (msg : KernelFeatures) :
    Option (Signature F E) :=
  let joined := (s.fillRound1 K c).participantData
  if (s.others K.toCurve (c.secKey, c.secNonce)).length < s.participantCount then
    some (K.calculatePartialSig c.secKey c.secNonce (joined.map (·.publicNonce)).sum
      (joined.map (·.publicBlindExcess)).sum msg)
  else s.carriedSig K.toCurve (c.secKey, c.secNonce)

theorem fillRound2_eq_last {s s' : Slate F E} {K : Keychain F E} {c : Context E}
    (h : (s.fillRound1 K c).fillRound2 K c.secKey c.secNonce = .ok s') :
    ∃ msg, s.kernelFeaturesOf = .ok msg ∧
      (∀ sig, s.lastSig K c msg = some sig → K.PartialSigValid sig
        ((s.fillRound1 K c).participantData.map (·.publicNonce)).sum (K.publicKey c.secKey)
        ((s.fillRound1 K c).participantData.map (·.publicBlindExcess)).sum msg) ∧
      s' = { s.fillRound1 K c with
        participantData := s.others K.toCurve (c.secKey, c.secNonce)
          ++ [entry K.toCurve (c.secKey, c.secNonce) (s.lastSig K c msg)] } := by
  obtain ⟨nonces, keys, msg, ps, hverify, hnonces, hkeys, hmsg, hps, rfl⟩ := fillRound2_eq_ok h
  have hvalid := (verifyPartSigs_eq_ok hnonces hkeys hmsg).mp hverify
  have hn := pubNonceSum_eq_ok hnonces
  have hk := pubBlindSum_eq_ok hkeys
  subst hn hk
  refine ⟨msg, hmsg, fun sig hsig => ?_, ?_⟩
  · unfold lastSig at hsig
    split at hsig
    · cases hsig
      exact calculatePartialSig_valid K.toCurve _ _ _ _ _
    · refine hvalid (entry K.toCurve (c.secKey, c.secNonce) (some sig)) ?_ sig rfl
      rw [fillRound1_participants, hsig]
      exact List.mem_append_right _ List.mem_cons_self
  · have hlast := setPartSig_last (p := entry K.toCurve (c.secKey, c.secNonce)
        (s.carriedSig K.toCurve (c.secKey, c.secNonce)))
      (fun q (hq : q ∈ s.others K.toCurve (c.secKey, c.secNonce)) => entry_ne_of_mem_others hq _)
      (K.calculatePartialSig c.secKey c.secNonce
        ((s.fillRound1 K c).participantData.map (·.publicNonce)).sum
        ((s.fillRound1 K c).participantData.map (·.publicBlindExcess)).sum msg)
      (s.fillRound1 K c).participantCount
    rw [← fillRound1_participants s K c] at hlast
    obtain rfl := Except.ok.inj (hps.symm.trans hlast)
    have hcount : (s.fillRound1 K c).participantCount = s.participantCount := rfl
    rw [lastSig, hcount]
    by_cases hlt : (s.others K.toCurve (c.secKey, c.secNonce)).length < s.participantCount
    · rw [if_pos hlt, if_pos hlt]
      rfl
    · rw [if_neg hlt, if_neg hlt]

/-- Of the entries after round 2 only the last has the recipient's key and nonce. -/
theorem removeOtherSigdata_last (s s' : Slate F E) (K : Keychain F E) (d : SecretKey × SecretKey)
    (sig : Option (Signature F E))
    (h : s'.participantData = s.others K.toCurve d ++ [entry K.toCurve d sig]) :
    (s'.removeOtherSigdata K d.2 d.1).participantData = [entry K.toCurve d sig] := by
  have hothers : (s.others K.toCurve d).filter (fun v => decide
      (v.publicNonce = K.publicKey d.2 ∧ v.publicBlindExcess = K.publicKey d.1)) = [] := by
    refine List.filter_eq_nil_iff.mpr fun q hq => ?_
    have hnot : ¬ OwnEntry K.toCurve d q := by simpa using (List.mem_filter.mp hq).2
    simpa [OwnEntry] using hnot
  simp only [removeOtherSigdata, h, List.filter_append, hothers, List.nil_append]
  exact List.filter_eq_self.mpr (by simp [entry])

end Slate

/-! ## The slate a receipt returns -/

namespace Foreign

variable [CommRing F] [AddCommGroup E] [Module F E] [DecidableEq E]
variable {env : Env F E} {slate s' : Slate F E} {dest : Option Label} {w w' : WalletBackend F E}

/-- What a recipient sends back: its entry alone, and its signature in the payment proof. -/
structure Reply (env : Env F E) (slate : Slate F E) (dest : Option Label) (w : WalletBackend F E)
    (msg : KernelFeatures) (s' : Slate F E) : Prop where
  id : s'.id = slate.id
  state : s'.state = .Standard2
  message : slate.kernelFeaturesOf = .ok msg
  participants : s'.participantData = [entry env.keychain.toCurve (env.secret w.tick)
    (slate.lastSig env.keychain (receiptContext env slate dest w) msg)]
  signature : ∀ sig, slate.lastSig env.keychain (receiptContext env slate dest w) msg = some sig →
    env.keychain.PartialSigValid sig ((joined env slate w).participantData.map (·.publicNonce)).sum
      (env.keychain.publicKey (env.secret w.tick).1)
      ((joined env slate w).participantData.map (·.publicBlindExcess)).sum msg
  paymentProof : s'.paymentProof = slate.paymentProof.map fun p => { p with
    receiverSignature := some (env.keychain.dalekSign
      (env.keychain.addressKey (w.accountNamed dest) 0)
      ⟨slate.amount, ((joined env slate w).participantData.map (·.publicBlindExcess)).sum,
        p.senderAddress⟩) }

theorem receiveTx_reply (h : receiveTx env slate dest w = (.ok s', w')) :
    ∃ msg, Reply env slate dest w msg s' := by
  have hrefused : ¬ Refused w slate dest := by
    intro hrefused
    obtain ⟨e, w₁, hrun, -⟩ := receiveTx_refused hrefused
    cases hrun.symm.trans h
  obtain ⟨httl, hnew, hdepth, features, hf⟩ := not_refused hrefused
  obtain ⟨tx, hadd⟩ := addOutput_ok env.keychain (nextKey w) hf
  have hbuild := run_buildRecipientOutput dest hdepth hadd rfl
  rw [receiveTx_continues httl hnew] at h
  obtain ⟨⟨s₁, c⟩, w₁, hadded, h₁⟩ := Eff.bind_eq_ok.mp h
  obtain ⟨excess, w₂, hexcess, h₂⟩ := Eff.bind_eq_ok.mp h₁
  obtain ⟨_, w₃, -, hend⟩ := Eff.bind_eq_ok.mp h₂
  unfold Tx.addOutputToSlate at hadded
  rw [Eff.run_bind_ok hbuild] at hadded
  obtain ⟨s₂, w₄, hround, h₃⟩ := Eff.bind_eq_ok.mp hadded
  obtain ⟨excess', w₅, hexcess', h₄⟩ := Eff.bind_eq_ok.mp h₃
  obtain ⟨msg, hmsg, hsig, hs₂⟩ := Slate.fillRound2_eq_last (Eff.ofExcept_eq_ok.mp hround).1
  have hsum : excess = ((joined env slate w).participantData.map (·.publicBlindExcess)).sum := by
    have hs₁ : s₁ = s₂ := by
      cases h₄
      rfl
    have hkeys := Slate.pubBlindSum_eq_ok (Eff.ofExcept_eq_ok.mp hexcess).1
    rw [hkeys, hs₁, hs₂, joined, Slate.fillRound1_participants, List.map_append]
    exact congrArg List.sum List.map_append
  cases h₄
  cases hend
  refine ⟨msg, ?_, rfl, hmsg, ?_, hsig, ?_⟩
  · rw [hs₂]
    rfl
  · rw [hs₂]
    exact Slate.removeOtherSigdata_last slate _ env.keychain (env.secret w.tick) _ rfl
  · rw [hs₂, ← hsum]
    rfl

/-! ## A received slate is signed -/

/-- The slate has one entry, of the recipient, with a signature that is valid for the
sums of the entries it came with and the recipient's. -/
def SignedAlone (env : Env F E) (slate : Slate F E) (w : WalletBackend F E) (s' : Slate F E) :
    Prop :=
  ∃ sig msg, slate.kernelFeaturesOf = .ok msg ∧
    s'.participantData = [entry env.keychain.toCurve (env.secret w.tick) (some sig)] ∧
    env.keychain.PartialSigValid sig ((joined env slate w).participantData.map (·.publicNonce)).sum
      (env.keychain.publicKey (env.secret w.tick).1)
      ((joined env slate w).participantData.map (·.publicBlindExcess)).sum msg

/-- A received slate is signed exactly when it says there are more participants than
it has entries of others, or has the recipient's signature already. -/
theorem received_slate_is_signed_iff (h : receiveTx env slate dest w = (.ok s', w')) :
    (SignedAlone env slate w s' ∧ ∀ (s : Slate F E) (c : Context E),
        NoPanic ((s.fillRound1 env.keychain c).fillRound2 env.keychain c.secKey c.secNonce)) ↔
      (slate.others env.keychain.toCurve (env.secret w.tick)).length < slate.participantCount ∨
        (slate.carriedSig env.keychain.toCurve (env.secret w.tick)).isSome := by
  obtain ⟨msg, hreply⟩ := receiveTx_reply h
  have hlast : slate.lastSig env.keychain (receiptContext env slate dest w) msg
      = if (slate.others env.keychain.toCurve (env.secret w.tick)).length < slate.participantCount
        then some (env.keychain.calculatePartialSig (env.secret w.tick).1 (env.secret w.tick).2
          ((joined env slate w).participantData.map (·.publicNonce)).sum
          ((joined env slate w).participantData.map (·.publicBlindExcess)).sum msg)
        else slate.carriedSig env.keychain.toCurve (env.secret w.tick) := rfl
  constructor
  · rintro ⟨⟨sig, msg', -, hparts, -⟩, -⟩
    rw [hreply.participants] at hparts
    have hsig : slate.lastSig env.keychain (receiptContext env slate dest w) msg = some sig := by
      injection hparts with hentry
      injection hentry
    by_cases hlt : (slate.others env.keychain.toCurve (env.secret w.tick)).length
        < slate.participantCount
    · exact .inl hlt
    · rw [hlast, if_neg hlt] at hsig
      exact .inr (by rw [hsig]; rfl)
  · intro hcond
    refine ⟨?_, fun s c => Slate.fillRound2_noPanic s env.keychain c⟩
    have hsome : ∃ sig, slate.lastSig env.keychain (receiptContext env slate dest w) msg
        = some sig := by
      by_cases hlt : (slate.others env.keychain.toCurve (env.secret w.tick)).length
          < slate.participantCount
      · exact ⟨_, by rw [hlast, if_pos hlt]⟩
      · obtain ⟨sig, hsig⟩ := Option.isSome_iff_exists.mp (hcond.resolve_left hlt)
        exact ⟨sig, by rw [hlast, if_neg hlt, hsig]⟩
    obtain ⟨sig, hsig⟩ := hsome
    exact ⟨sig, msg, hreply.message, by rw [hreply.participants, hsig], hreply.signature sig hsig⟩

end Foreign

namespace SampleSend

/-- The sender's slate for a single participant. -/
def lonely : Slate ℤ (ℤ × ℤ) := { offer with numParticipants := 1 }

theorem received_slate_is_signed_iff_offer :
    (Foreign.SignedAlone (env.drawing (3, 4)) offer .new (answer (3, 4)) ∧
        ∀ (s : Slate ℤ (ℤ × ℤ)) (c : Context (ℤ × ℤ)),
          NoPanic ((s.fillRound1 sampleKeychain c).fillRound2 sampleKeychain c.secKey c.secNonce)) ↔
      (offer.others sampleKeychain.toCurve (3, 4)).length < offer.participantCount ∨
        (offer.carriedSig sampleKeychain.toCurve (3, 4)).isSome := by
  have hreceive : Foreign.receiveTx (env.drawing (3, 4)) offer none .new
      = (.ok (answer (3, 4)), (received (3, 4)).2) :=
    eq_returned noSlate (by decide +kernel)
  exact Foreign.received_slate_is_signed_iff hreceive

/-- A recipient of the single participant's slate returns its entry without a signature. -/
theorem lonely_slate_is_not_signed :
    lonely.state = .Standard1 ∧
      ∃ s' w', Foreign.receiveTx (env.drawing (3, 4)) lonely none .new = (.ok s', w') ∧
        ¬ Foreign.SignedAlone (env.drawing (3, 4)) lonely .new s' := by
  have hreceive := eq_returned (r := Foreign.receiveTx (env.drawing (3, 4)) lonely none .new) noSlate
    (by decide +kernel)
  have hnone : (returned (Foreign.receiveTx (env.drawing (3, 4)) lonely none .new)
      noSlate).participantData.map (·.partSig) = [none] := by decide +kernel
  refine ⟨by decide +kernel, _, _, hreceive, ?_⟩
  rintro ⟨sig, msg, -, hparts, -⟩
  rw [hparts] at hnone
  cases hnone

end SampleSend

end GrinWallet
