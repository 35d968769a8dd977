import GrinWallet.Exchange.Rounds
import GrinWallet.Model.Sample
import GrinWallet.Model.SlateV4

/-! # Converting a slate to V4 and back

The fields of the slate and the lists of its transaction survive the conversion.
The transaction's offset comes back as the slate's, and its kernel is computed
from a helper slate that has plain features, whatever the slate's are: for plain
slates this is the kernel the slate had, for the others it is not.
-/

namespace GrinWallet

open Effect

variable {F E : Type}

/-! ## The fields -/

theorem SlateState.fromV4_fromState (s : SlateState) : fromV4 (.fromState s) = s := by
  cases s <;> rfl

theorem ParticipantData.fromV4_fromData (d : ParticipantData F E) :
    fromV4 (.fromData d) = d := rfl

theorem PaymentInfo.fromV4_fromInfo (p : PaymentInfo) : fromV4 (.fromInfo p) = p := rfl

theorem OutputFeatures.fromV4_fromFeatures (f : OutputFeatures) :
    fromV4 (.fromFeatures f) = f := by
  cases f <;> rfl

/-- The inputs come back from the commitments. -/
theorem toInput_commits (inputs : List (Input E)) (outputs : List (Output E)) :
    (inputs.map CommitsV4.fromInput ++ outputs.map CommitsV4.fromOutput).filterMap (·.toInput) =
      inputs := by
  have hin (i : Input E) : (CommitsV4.fromInput i).toInput = some i := by
    simp [CommitsV4.fromInput, CommitsV4.toInput, OutputFeatures.fromV4_fromFeatures]
  have hout (o : Output E) : (CommitsV4.fromOutput o).toInput = none := rfl
  simp [List.filterMap_append, List.filterMap_map, hin, hout]

/-- The outputs come back from the commitments. -/
theorem toOutput_commits (inputs : List (Input E)) (outputs : List (Output E)) :
    (inputs.map CommitsV4.fromInput ++ outputs.map CommitsV4.fromOutput).filterMap (·.toOutput) =
      outputs := by
  have hin (i : Input E) : (CommitsV4.fromInput i).toOutput = none := rfl
  have hout (o : Output E) : (CommitsV4.fromOutput o).toOutput = some o := by
    simp [CommitsV4.fromOutput, CommitsV4.toOutput, OutputFeatures.fromV4_fromFeatures]
  simp [List.filterMap_append, List.filterMap_map, hin, hout]

section Algebra

variable [CommRing F] [AddCommGroup E] [Module F E] [DecidableEq E]

/-- All fields but the transaction come back. -/
theorem Slate.fromV4_fromSlate (K : Keychain F E) (s : Slate F E) :
    Slate.fromV4 K (.fromSlate s) = { s with tx := txFromSlateV4 K (.fromSlate s) } := by
  have hdata : (s.participantData.map ParticipantDataV4.fromData).map ParticipantData.fromV4 =
      s.participantData := by
    simp [Function.comp_def, ParticipantData.fromV4_fromData]
  have hproof : (s.paymentProof.map PaymentInfoV4.fromInfo).map PaymentInfo.fromV4 =
      s.paymentProof := by
    simp [Function.comp_def, PaymentInfo.fromV4_fromInfo]
  have hargs : (s.kernelFeaturesArgs.map KernelFeaturesArgsV4.mk).map (·.lockHgt) =
      s.kernelFeaturesArgs := by
    simp [Function.comp_def]
  simp only [Slate.fromV4, SlateV4.fromSlate, SlateState.fromV4_fromState, hdata, hproof, hargs]

/-- The transaction that comes back. -/
theorem txFromSlateV4_fromSlate (K : Keychain F E) {s : Slate F E} {tx : Transaction F E}
    (htx : s.tx = some tx) :
    txFromSlateV4 K (.fromSlate s) =
      some ⟨s.offset, tx.inputs, tx.outputs, [(SlateV4.fromSlate s).kernel K]⟩ := by
  have hcoms : (SlateV4.fromSlate s).coms =
      some (tx.inputs.map .fromInput ++ tx.outputs.map .fromOutput) := by
    simp [SlateV4.fromSlate, Slate.commits, htx]
  simp only [txFromSlateV4, hcoms, Option.map_some, toInput_commits, toOutput_commits]
  rfl

/-! ## The kernel -/

omit [CommRing F] [AddCommGroup E] [Module F E] [DecidableEq E] in
/-- The features that come back are the slate's exactly when they are plain. -/
theorem kernelFeatures_fromSlate {s : Slate F E} {features : KernelFeatures}
    (hf : s.kernelFeaturesOf = .ok features) :
    (SlateV4.fromSlate s).kernelFeatures = features ↔ s.kernelFeatures = 0 := by
  have hfeat : (SlateV4.fromSlate s).feat = s.kernelFeatures := rfl
  have hfee : (SlateV4.fromSlate s).fee = s.feeFields := rfl
  unfold Slate.kernelFeaturesOf at hf
  unfold SlateV4.kernelFeatures
  rw [hfeat, hfee]
  cases hk : s.kernelFeatures with
  | zero =>
      simp only [hk, Except.ok.injEq] at hf
      simpa using hf
  | succ n =>
      cases hargs : s.kernelFeaturesArgs with
      | none =>
          rw [hk, hargs] at hf
          split at hf <;> simp_all
      | some lockHeight =>
          rw [hk, hargs] at hf
          split at hf
          · omega
          · cases hf
          · cases hf
            simp_all
          · simp only at hf
            split_ifs at hf
            cases hf
            simp_all
          · cases hf

omit [AddCommGroup E] [Module F E] [DecidableEq E] in
/-- The helper slate sums the same keys, nonces and partial signatures. -/
theorem calcSlate_participantData (s : Slate F E) :
    (SlateV4.fromSlate s).calcSlate.participantData = s.participantData := by
  simp [SlateV4.calcSlate, SlateV4.fromSlate, Function.comp_def, ParticipantData.fromV4_fromData]

omit [AddCommGroup E] [Module F E] [DecidableEq E] in
/-- For a plain slate it signs the same message. -/
theorem calcSlate_msgToSign {s : Slate F E} (h : s.kernelFeatures = 0) :
    (SlateV4.fromSlate s).calcSlate.msgToSign = s.msgToSign := by
  have hcalc : (SlateV4.fromSlate s).calcSlate.kernelFeatures = 0 := rfl
  unfold Slate.msgToSign
  rw [Slate.kernelFeaturesOf_plain h, Slate.kernelFeaturesOf_plain hcalc]
  rfl

omit [CommRing F] [Module F E] in
theorem Slate.pubBlindSum_congr {s t : Slate F E} (h : s.participantData = t.participantData) :
    s.pubBlindSum = t.pubBlindSum := by
  unfold Slate.pubBlindSum
  rw [h]

omit [CommRing F] [Module F E] in
theorem Slate.pubNonceSum_congr {s t : Slate F E} (h : s.participantData = t.participantData) :
    s.pubNonceSum = t.pubNonceSum := by
  unfold Slate.pubNonceSum
  rw [h]

/-- The signature depends on the participants and the message only. -/
theorem Slate.finalizeSignature_congr (K : Keychain F E) {s t : Slate F E}
    (h : s.participantData = t.participantData) (hmsg : s.msgToSign = t.msgToSign) :
    s.finalizeSignature K = t.finalizeSignature K := by
  have hverify : s.verifyPartSigs K = t.verifyPartSigs K := by
    unfold Slate.verifyPartSigs
    rw [h, hmsg, Slate.pubBlindSum_congr h, Slate.pubNonceSum_congr h]
  have hsigs : s.partSigs = t.partSigs := by
    unfold Slate.partSigs
    rw [h]
  unfold Slate.finalizeSignature
  rw [hverify, hmsg, hsigs, Slate.pubBlindSum_congr h, Slate.pubNonceSum_congr h]

/-- The kernel carries the sum of the keys and of the valid partial signatures. -/
structure Slate.FinalKernel (K : Keychain F E) (s : Slate F E) (k : TxKernel F E) : Prop where
  excess : s.calcExcess = .ok k.excess
  excessSig : s.finalizeSignature K = .ok k.excessSig

/-- For a plain slate the final excess and signature are computed again. -/
theorem kernel_fromSlate {K : Keychain F E} {s : Slate F E} {k : TxKernel F E}
    (h : s.kernelFeatures = 0) (hk : s.FinalKernel K k) :
    ((SlateV4.fromSlate s).kernel K).excess = k.excess ∧
      ((SlateV4.fromSlate s).kernel K).excessSig = k.excessSig := by
  have hdata := calcSlate_participantData s
  have hexcess : (SlateV4.fromSlate s).calcSlate.calcExcess = .ok k.excess := by
    rw [← hk.excess]
    exact Slate.pubBlindSum_congr hdata
  have hsig : (SlateV4.fromSlate s).calcSlate.finalizeSignature K = .ok k.excessSig := by
    rw [← hk.excessSig]
    exact Slate.finalizeSignature_congr K hdata (calcSlate_msgToSign h)
  simp [SlateV4.kernel, hexcess, hsig]

/-- A slate that was finalized has such a kernel. -/
theorem Slate.finalize_finalKernel {K : Keychain F E} {C : Consensus F E} {s s' : Slate F E}
    (h : s.finalize K C = .ok s') :
    ∃ tx k, s'.tx = some tx ∧ tx.kernels = [k] ∧ s'.FinalKernel K k := by
  unfold Slate.finalize at h
  obtain ⟨finalSig, hsig, h⟩ := except_bind_eq_ok.mp h
  obtain ⟨tx, kernel, excess, -, -, hexcess, rfl⟩ := finalizeTransaction_eq_ok h
  exact ⟨_, _, rfl, rfl, hexcess, (finalizeSignature_congr K rfl rfl).trans hsig⟩

/-! ## The conversion -/

/-- What the conversion of a slate to V4 and back should keep, when its
transaction is `tx`. -/
structure Slate.ConversionKeeps (K : Keychain F E) (s : Slate F E) (tx : Transaction F E)
    (s' : Slate F E) : Prop where
  fields : s' = { s with tx := s'.tx }
  transaction : ∃ tx' k k', s'.tx = some tx' ∧ tx'.inputs = tx.inputs ∧
    tx'.outputs = tx.outputs ∧ tx'.offset = tx.offset ∧ tx.kernels = [k] ∧ tx'.kernels = [k'] ∧
    k'.features = k.features ∧
    (s.FinalKernel K k → k'.excess = k.excess ∧ k'.excessSig = k.excessSig)

/-- The conversion keeps a slate with a kernel for its features exactly when it
is plain and its transaction has the offset of the slate. -/
theorem Slate.conversion_keeps_iff {K : Keychain F E} {s : Slate F E} {tx : Transaction F E}
    {k : TxKernel F E} (htx : s.tx = some tx) (hkernels : tx.kernels = [k])
    (hfeatures : s.kernelFeaturesOf = .ok k.features) :
    s.ConversionKeeps K tx (.fromV4 K (.fromSlate s)) ↔
      s.kernelFeatures = 0 ∧ tx.offset = s.offset := by
  have hback := Slate.fromV4_fromSlate K s
  have htxback := txFromSlateV4_fromSlate K htx
  rw [htxback] at hback
  constructor
  · intro h
    obtain ⟨tx', k₁, k', htx', -, -, hoffset, hk₁, hk', hfeat, -⟩ := h.transaction
    have hk : k₁ = k := List.singleton_inj.mp (hk₁.symm.trans hkernels)
    subst hk
    rw [hback] at htx'
    cases htx'
    cases hk'
    exact ⟨(kernelFeatures_fromSlate hfeatures).mp hfeat, hoffset.symm⟩
  · intro h
    have hfeat := (kernelFeatures_fromSlate hfeatures).mpr h.1
    rw [hback]
    exact ⟨rfl, _, k, _, rfl, rfl, rfl, h.2.symm, hkernels, rfl, hfeat, kernel_fromSlate h.1⟩

end Algebra

namespace SampleConversion

/-- A transaction with an input, an output and a kernel of the given features. -/
def tx (features : KernelFeatures) : Transaction ℤ (ℤ × ℤ) where
  offset := 3
  inputs := [⟨.Coinbase, (1, 60)⟩]
  outputs := [⟨.Plain, (2, 50), 7⟩]
  kernels := [⟨features, 0, ⟨0, 0⟩⟩]

def plain : Slate ℤ (ℤ × ℤ) :=
  { Slate.blank 2 false 1 with
    amount := 40
    feeFields := ⟨10⟩
    offset := 3
    tx := some (tx (.Plain ⟨10⟩)) }

theorem plain_kept :
    plain.ConversionKeeps sampleKeychain (tx (.Plain ⟨10⟩))
      (.fromV4 sampleKeychain (.fromSlate plain)) :=
  (Slate.conversion_keeps_iff rfl rfl rfl).mpr ⟨rfl, rfl⟩

/-- The same slate with a kernel that is locked until height 100. -/
def locked : Slate ℤ (ℤ × ℤ) :=
  { plain with
    kernelFeatures := 2
    kernelFeaturesArgs := some 100
    tx := some (tx (.HeightLocked ⟨10⟩ 100)) }

/-- The locked kernel comes back as a plain one. -/
theorem locked_not_kept :
    ¬ ∀ (s : Slate ℤ (ℤ × ℤ)) (tx : Transaction ℤ (ℤ × ℤ)) (k : TxKernel ℤ (ℤ × ℤ)),
      s.tx = some tx → tx.kernels = [k] → s.kernelFeaturesOf = .ok k.features →
      s.ConversionKeeps sampleKeychain tx (.fromV4 sampleKeychain (.fromSlate s)) := by
  intro h
  obtain ⟨tx', k, k', htx', -, -, -, hk, hk', hfeat, -⟩ :=
    (h locked (tx (.HeightLocked ⟨10⟩ 100)) _ rfl rfl rfl).transaction
  rw [Slate.fromV4_fromSlate, txFromSlateV4_fromSlate sampleKeychain rfl] at htx'
  cases htx'
  cases hk
  cases hk'
  cases hfeat

end SampleConversion

end GrinWallet
