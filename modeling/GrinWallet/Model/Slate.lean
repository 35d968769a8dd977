import GrinWallet.Lib.Effect
import GrinWallet.Model.Crypto

/-! # Slates

The public data two parties pass to each other while they build a transaction,
and the steps either of them applies to it. A step returns the new slate, or
fails and leaves the caller's slate as it was.
-/

namespace GrinWallet

open Effect

structure ParticipantData (F E : Type) where
  publicBlindExcess : E
  publicNonce : E
  partSig : Option (Signature F E)
deriving DecidableEq

structure PaymentInfo where
  senderAddress : DalekPublicKey
  receiverAddress : DalekPublicKey
  receiverSignature : Option DalekSignature
deriving DecidableEq

structure Slate (F E : Type) where
  version : Nat
  blockHeaderVersion : Nat
  numParticipants : Nat
  id : Uuid
  state : SlateState
  tx : Option (Transaction F E)
  amount : Nat
  feeFields : FeeFields
  ttlCutoffHeight : Nat
  /-- 0: plain, 1: coinbase (invalid), 2: height locked, 3: no recent duplicate. -/
  kernelFeatures : Nat
  offset : F
  participantData : List (ParticipantData F E)
  paymentProof : Option PaymentInfo
  /-- The lock height of variants 2 and 3. -/
  kernelFeaturesArgs : Option Nat
deriving DecidableEq

namespace Slate

variable {F E : Type}

def txOrErr (s : Slate F E) : Except Error (Transaction F E) :=
  match s.tx with
  | some tx => .ok tx
  | none => .error .SlateTransactionRequired

/-- The participant count, 2 when not set. -/
def participantCount (s : Slate F E) : Nat :=
  match s.numParticipants with
  | 0 => 2
  | n => n

def compact (s : Slate F E) : Slate F E := { s with tx := none }

/-- The kernel features the slate describes. -/
def kernelFeaturesOf (s : Slate F E) : Except Error KernelFeatures :=
  match s.kernelFeatures with
  | 0 => .ok (.Plain s.feeFields)
  | 1 => .error (.InvalidKernelFeatures 1)
  | 2 =>
      match s.kernelFeaturesArgs with
      | some lockHeight => .ok (.HeightLocked s.feeFields lockHeight)
      | none => .error (.KernelFeaturesMissing "lock_height")
  | 3 =>
      match s.kernelFeaturesArgs with
      | some lockHeight =>
          if lockHeight = 0 ∨ 7 * 24 * 60 < lockHeight then
            .error (.Transaction "InvalidNRDRelativeHeight")
          else .ok (.NoRecentDuplicate s.feeFields lockHeight)
      | none => .error (.KernelFeaturesMissing "lock_height")
  | n => .error (.UnknownKernelFeatures n)

/-- The message the kernel signs: its features. -/
def msgToSign (s : Slate F E) : Except Error KernelFeatures := s.kernelFeaturesOf

/-- Partial signatures present, in participant order. -/
def partSigs (s : Slate F E) : List (Signature F E) := s.participantData.filterMap (·.partSig)

section Algebra

variable [CommRing F] [AddCommGroup E] [Module F E] [DecidableEq E]

def emptyTransaction : Transaction F E := ⟨0, [], [], []⟩

/-- A new slate; `id` is the identifier the generator returned for it. -/
def blank (numParticipants : Nat) (isInvoice : Bool) (id : Uuid) : Slate F E where
  numParticipants := if numParticipants = 0 then 2 else numParticipants
  id := id
  state := if isInvoice then .Invoice1 else .Standard1
  tx := some emptyTransaction
  amount := 0
  feeFields := .zero
  ttlCutoffHeight := 0
  kernelFeatures := 0
  offset := 0
  participantData := []
  version := 4
  blockHeaderVersion := 3
  paymentProof := none
  kernelFeaturesArgs := none

/-- Keep only the participant data of one key and nonce. -/
def removeOtherSigdata (s : Slate F E) (K : Keychain F E) (secNonce secKey : SecretKey) :
    Slate F E :=
  { s with
    participantData := s.participantData.filter fun v =>
      v.publicNonce = K.publicKey secNonce ∧ v.publicBlindExcess = K.publicKey secKey }

/-- Replace the kernel by a fresh one for the slate's features. -/
def updateKernel (s : Slate F E) : Except Error (Slate F E) := do
  let tx ← s.txOrErr
  let features ← s.kernelFeaturesOf
  return { s with tx := some (tx.replaceKernel ⟨features, 0, ⟨0, 0⟩⟩) }

def addTransactionElements (s : Slate F E) (K : Keychain F E) (elems : List Append) :
    Except Error (Slate F E) := do
  let s ← s.updateKernel
  if elems.isEmpty then
    return s
  let tx ← s.txOrErr
  return { s with tx := some (partialTransaction K tx elems) }

def pubNonceSum (s : Slate F E) : Except Error E :=
  if s.participantData.isEmpty then .error (.Commit "Participant nonces cannot be empty")
  else
    let sum := (s.participantData.map (·.publicNonce)).sum
    if sum = 0 then .error (.Secp "IncorrectCommitSum") else .ok sum

def pubBlindSum (s : Slate F E) : Except Error E :=
  if s.participantData.isEmpty then .error (.Commit "Participant Blind sums cannot be empty")
  else
    let sum := (s.participantData.map (·.publicBlindExcess)).sum
    if sum = 0 then .error (.Secp "IncorrectCommitSum") else .ok sum

/-- Put the caller's participant entry last, keeping a partial signature it already has. -/
def addParticipantInfo (s : Slate F E) (K : Keychain F E) (c : Context E)
    (partSig : Option (Signature F E)) : Slate F E :=
  let pubKey := K.publicKey c.secKey
  let pubNonce := K.publicKey c.secNonce
  let mine := s.participantData.filter fun v =>
    v.publicNonce = pubNonce ∧ v.publicBlindExcess = pubKey
  let others := s.participantData.filter fun v =>
    v.publicNonce ≠ pubNonce ∨ v.publicBlindExcess ≠ pubKey
  { s with
    participantData :=
      others ++ [⟨pubKey, pubNonce, partSig <|> mine.findSome? (·.partSig)⟩] }

def fillRound1 (s : Slate F E) (K : Keychain F E) (c : Context E) : Slate F E :=
  s.addParticipantInfo K c none

def verifyPartSigs (s : Slate F E) (K : Keychain F E) : Except Error Unit :=
  s.participantData.forM fun p =>
    match p.partSig with
    | none => .ok ()
    | some sig => do
        let nonceSum ← s.pubNonceSum
        let blindSum ← s.pubBlindSum
        let msg ← s.msgToSign
        if K.PartialSigValid sig nonceSum p.publicBlindExcess blindSum msg then .ok ()
        else .error (.Secp "IncorrectSignature")

/-- Write a partial signature into the first entry of one key and nonce, looking
at `count` entries; the index runs off a shorter list. -/
def setPartSig (pubExcess pubNonce : E) (sig : Signature F E) :
    Nat → List (ParticipantData F E) → Except Error (List (ParticipantData F E))
  | 0, ps => .ok ps
  | _ + 1, [] => .error (.Panic "index out of bounds")
  | count + 1, p :: ps =>
      if p.publicBlindExcess = pubExcess ∧ p.publicNonce = pubNonce then
        .ok ({ p with partSig := some sig } :: ps)
      else do
        let ps ← setPartSig pubExcess pubNonce sig count ps
        return p :: ps

/-- Complete the caller's part of round 2 with its partial signature. -/
def fillRound2 (s : Slate F E) (K : Keychain F E) (secKey secNonce : SecretKey) :
    Except Error (Slate F E) := do
  s.verifyPartSigs K
  let nonceSum ← s.pubNonceSum
  let blindSum ← s.pubBlindSum
  let msg ← s.msgToSign
  let sig := K.calculatePartialSig secKey secNonce nonceSum blindSum msg
  let ps ← setPartSig (K.publicKey secKey) (K.publicKey secNonce) sig s.participantCount
    s.participantData
  return { s with participantData := ps }

/-- The blinding factors of a context entry list. -/
def blindSumOf (K : Keychain F E) (ids : List (Identifier × Option Nat × Nat)) : F :=
  (ids.map fun (id, _, amount) => K.deriveKey amount id).sum

/-- Add the caller's contribution to the offset. -/
def adjustOffset (s : Slate F E) (K : Keychain F E) (c : Context E) : Slate F E :=
  { s with
    offset := s.offset - K.scalar c.initialSecKey - blindSumOf K c.inputIds
      + blindSumOf K c.outputIds }

def calcExcess (s : Slate F E) : Except Error E := s.pubBlindSum

def checkFees (s : Slate F E) (C : Consensus F E) : Except Error Unit := do
  let tx ← s.txOrErr
  let fee := txFee C tx.inputs.length tx.outputs.length tx.kernels.length
  if fee > tx.fee then
    .error (.Fee "Fee Dispute Error")
  else if fee > u64 (s.amount + s.feeFields.fee) then
    .error (.Fee "Rejected the transfer because transaction fee exceeds received amount.")
  else .ok ()

/-- Sum the partial signatures and check the result against the key sum. -/
def finalizeSignature (s : Slate F E) (K : Keychain F E) : Except Error (Signature F E) := do
  s.verifyPartSigs K
  let nonceSum ← s.pubNonceSum
  let finalPubkey ← s.pubBlindSum
  let finalSig : Signature F E := ⟨nonceSum, (s.partSigs.map (·.s)).sum⟩
  let msg ← s.msgToSign
  if K.CompletedSigValid finalSig finalPubkey finalPubkey msg then .ok finalSig
  else .error (.Secp "IncorrectSignature")

/-- Build the final transaction after the exchange of signatures. -/
def finalizeTransaction (s : Slate F E) (K : Keychain F E) (C : Consensus F E)
    (finalSig : Signature F E) : Except Error (Slate F E) := do
  s.checkFees C
  let finalExcess ← s.calcExcess
  let tx ← s.txOrErr
  match tx.kernels with
  | [kernel] =>
      let kernel := { kernel with excess := finalExcess, excessSig := finalSig }
      let finalTx := tx.replaceKernel kernel
      if ¬ K.CompletedSigValid kernel.excessSig kernel.excess kernel.excess kernel.features then
        .error (.Transaction "IncorrectSignature")
      C.validate finalTx
      return { s with tx := some finalTx }
  | _ => .error (.Panic "assertion failed: final_tx.kernels().len() == 1")

def finalize (s : Slate F E) (K : Keychain F E) (C : Consensus F E) :
    Except Error (Slate F E) := do
  let finalSig ← s.finalizeSignature K
  s.finalizeTransaction K C finalSig

/-! ## What a step that succeeds has done -/

section Sums

omit [CommRing F] [Module F E]

theorem pubNonceSum_eq_ok {s : Slate F E} {sum : E} (h : s.pubNonceSum = .ok sum) :
    sum = (s.participantData.map (·.publicNonce)).sum := by
  unfold pubNonceSum at h
  by_cases hempty : s.participantData.isEmpty
  · rw [if_pos hempty] at h
    cases h
  · rw [if_neg hempty] at h
    by_cases hzero : (s.participantData.map (·.publicNonce)).sum = 0
    · simp [hzero] at h
    · simpa [hzero, eq_comm] using h

theorem pubBlindSum_eq_ok {s : Slate F E} {sum : E} (h : s.pubBlindSum = .ok sum) :
    sum = (s.participantData.map (·.publicBlindExcess)).sum := by
  unfold pubBlindSum at h
  by_cases hempty : s.participantData.isEmpty
  · rw [if_pos hempty] at h
    cases h
  · rw [if_neg hempty] at h
    by_cases hzero : (s.participantData.map (·.publicBlindExcess)).sum = 0
    · simp [hzero] at h
    · simpa [hzero, eq_comm] using h

end Sums

omit [CommRing F] [AddCommGroup E] [Module F E] [DecidableEq E] in
theorem kernelFeaturesOf_plain {s : Slate F E} (h : s.kernelFeatures = 0) :
    s.kernelFeaturesOf = .ok (.Plain s.feeFields) := by
  simp [kernelFeaturesOf, h]

omit [CommRing F] [AddCommGroup E] [Module F E] [DecidableEq E] in
theorem txOrErr_eq_ok {s : Slate F E} {tx : Transaction F E} :
    s.txOrErr = .ok tx ↔ s.tx = some tx := by
  unfold txOrErr
  cases s.tx with
  | none => simp
  | some t => simp

omit [Module F E] [DecidableEq E] in
theorem updateKernel_eq_ok {s s' : Slate F E} (h : s.updateKernel = .ok s') :
    ∃ tx features, s.tx = some tx ∧ s.kernelFeaturesOf = .ok features ∧
      s' = { s with tx := some (tx.replaceKernel ⟨features, 0, ⟨0, 0⟩⟩) } := by
  unfold updateKernel at h
  obtain ⟨tx, htx, h⟩ := except_bind_eq_ok.mp h
  obtain ⟨features, hf, h⟩ := except_bind_eq_ok.mp h
  cases h
  exact ⟨tx, features, txOrErr_eq_ok.mp htx, hf, rfl⟩

theorem addTransactionElements_eq_ok {s s' : Slate F E} {K : Keychain F E} {elems : List Append}
    (h : s.addTransactionElements K elems = .ok s') :
    ∃ tx features, s.tx = some tx ∧ s.kernelFeaturesOf = .ok features ∧
      s' = { s with
        tx := some (partialTransaction K (tx.replaceKernel ⟨features, 0, ⟨0, 0⟩⟩) elems) } := by
  unfold addTransactionElements at h
  obtain ⟨s₁, hs₁, h⟩ := except_bind_eq_ok.mp h
  obtain ⟨tx, features, htx, hf, rfl⟩ := updateKernel_eq_ok hs₁
  refine ⟨tx, features, htx, hf, ?_⟩
  cases elems with
  | nil =>
      cases h
      rfl
  | cons e es =>
      cases h
      rfl

omit [CommRing F] [AddCommGroup E] [Module F E] in
theorem setPartSig_excesses {pubExcess pubNonce : E} {sig : Signature F E} {n : Nat}
    {ps ps' : List (ParticipantData F E)} (h : setPartSig pubExcess pubNonce sig n ps = .ok ps') :
    ps'.map (·.publicBlindExcess) = ps.map (·.publicBlindExcess) := by
  induction n generalizing ps ps' with
  | zero =>
      cases h
      rfl
  | succ n ih =>
      cases ps with
      | nil => cases h
      | cons p ps =>
          unfold setPartSig at h
          by_cases hp : p.publicBlindExcess = pubExcess ∧ p.publicNonce = pubNonce
          · rw [if_pos hp] at h
            cases h
            rfl
          · rw [if_neg hp] at h
            obtain ⟨qs, hqs, h⟩ := except_bind_eq_ok.mp h
            cases h
            rw [List.map_cons, List.map_cons, ih hqs]

theorem fillRound2_eq_ok {s s' : Slate F E} {K : Keychain F E} {secKey secNonce : SecretKey}
    (h : s.fillRound2 K secKey secNonce = .ok s') :
    ∃ nonceSum blindSum msg ps, s.verifyPartSigs K = .ok () ∧ s.pubNonceSum = .ok nonceSum ∧
      s.pubBlindSum = .ok blindSum ∧ s.msgToSign = .ok msg ∧
      setPartSig (K.publicKey secKey) (K.publicKey secNonce)
        (K.calculatePartialSig secKey secNonce nonceSum blindSum msg) s.participantCount
        s.participantData = .ok ps ∧
      s' = { s with participantData := ps } := by
  unfold fillRound2 at h
  obtain ⟨_, hverify, h⟩ := except_bind_eq_ok.mp h
  obtain ⟨nonceSum, hnonce, h⟩ := except_bind_eq_ok.mp h
  obtain ⟨blindSum, hblind, h⟩ := except_bind_eq_ok.mp h
  obtain ⟨msg, hmsg, h⟩ := except_bind_eq_ok.mp h
  obtain ⟨ps, hps, h⟩ := except_bind_eq_ok.mp h
  cases h
  exact ⟨nonceSum, blindSum, msg, ps, hverify, hnonce, hblind, hmsg, hps, rfl⟩

end Algebra

end Slate

end GrinWallet
