import GrinWallet.Model.SampleMwixnet

/-! # What a commitment signature proves

Signing answers the challenge with two scalars, verifying compares two points. A
signature that was made is accepted for its commitment and its message and is
read back from its bytes; two accepted answers for one nonce give the amount and
the blinding factor away.
-/

namespace GrinWallet

open Effect Wire

namespace Mwixnet

variable {F E : Type} [Field F] [AddCommGroup E] [Module F E] {S : Secp256k1 F E}

/-! ## Operations of the curve -/

namespace Secp256k1

theorem addAssign_eq_ok [DecidableEq F] {a b c : Fˣ} (h : addAssign a b = .ok c) :
    (c : F) = a + b := by
  unfold addAssign at h
  split at h
  · cases h
  · cases h
    rfl

theorem fromSlice_eq_ok {bs : Bytes} {k : Fˣ} :
    S.fromSlice bs = .ok k ↔ S.secretKey.fromBytes bs = some k := by
  unfold fromSlice
  cases S.secretKey.fromBytes bs with
  | none => exact iff_of_false (fun h => (nomatch h)) fun h => (nomatch h)
  | some k' =>
      show Except.ok k' = Except.ok k ↔ some k' = some k
      rw [Except.ok.injEq, Option.some.injEq]

/-- A commitment that opens with some nonzero scalar is that of a point. -/
theorem toPubkey_commitBlind {v r : F} (hne : v ≠ 0 ∨ r ≠ 0) :
    S.toPubkey (S.commitBlind v r) = some (v • S.H + r • S.G) :=
  S.toPubkey_commitment _ (Pedersen.commit_ne_zero S.independent hne)

theorem toPubkey_commit (value : Nat) (blind : Fˣ) :
    S.toPubkey (S.commit value blind) = some ((value : F) • S.H + (blind : F) • S.G) :=
  toPubkey_commitBlind (.inr blind.ne_zero)

/-- Commitments to points are equal only for one point. -/
theorem commitment_inj {P Q : E} (hP : P ≠ 0) (hQ : Q ≠ 0)
    (h : S.commitment P = S.commitment Q) : P = Q := by
  have hpoint := S.toPubkey_commitment P hP
  rw [h, S.toPubkey_commitment Q hQ] at hpoint
  cases hpoint
  rfl

@[simp] theorem points_nil : S.points [] = .ok [] := rfl

theorem points_cons {c : Commitment} {cs : List Commitment} {l : List E} :
    S.points (c :: cs) = .ok l ↔
      ∃ P l', S.toPubkey c = some P ∧ S.points cs = .ok l' ∧ l = P :: l' := by
  unfold points
  rw [List.mapM_cons]
  cases S.toPubkey c with
  | none => exact iff_of_false (fun h => (nomatch h)) fun ⟨_, _, hp, _⟩ => nomatch hp
  | some P =>
      constructor
      · intro h
        obtain ⟨P', hP, h⟩ := except_bind_eq_ok.mp h
        obtain ⟨l', hl', hend⟩ := except_bind_eq_ok.mp h
        cases hP
        cases hend
        exact ⟨P, l', rfl, hl', rfl⟩
      · rintro ⟨P', l', hP, hl', rfl⟩
        cases hP
        exact except_bind_eq_ok.mpr ⟨P, rfl, except_bind_eq_ok.mpr ⟨l', hl', rfl⟩⟩

/-- The sum of commitments to points. -/
theorem commitSum_of_points [DecidableEq E] {cs ds : List Commitment} {l m : List E}
    (hcs : S.points cs = .ok l) (hds : S.points ds = .ok m) :
    S.commitSum cs ds
      = if l.sum - m.sum = 0 then .error .IncorrectCommitSum
        else .ok (S.commitment (l.sum - m.sum)) := by
  unfold commitSum
  rw [hcs, hds]
  rfl

end Secp256k1

namespace ComSignature

/-! ## Signing and verifying -/

/-- A number in range is read back from the 32 bytes of a key. -/
theorem wordValue_amount {amount : Nat} (h : amount < 2 ^ 64) :
    wordValue (List.replicate 24 0 ++ wordBytes 8 amount) = amount := by
  have hpad : ∀ (k : Nat) (bs : Bytes), wordValue (List.replicate k 0 ++ bs) = wordValue bs := by
    intro k bs
    induction k with
    | zero => rfl
    | succ k ih =>
        rw [List.replicate_succ, List.cons_append, wordValue, ih]
        simp
  rw [hpad, wordValue_wordBytes, Nat.mod_eq_of_lt (by simpa using h)]

/-- What a signature that was made consists of. -/
theorem sign_eq_ok [DecidableEq F] {amount : Nat} {blind k1 k2 : Fˣ} {msg : Bytes}
    {useTestRng : Bool} {sig : ComSignature F} (hamount : amount < 2 ^ 64)
    (h : sign S amount blind msg useTestRng k1 k2 = .ok sig) :
    sig.pubNonce = S.commitBlind k1 k2 ∧
      ∃ e, calcChallenge S (S.commit amount blind) sig.pubNonce msg useTestRng = .ok e ∧
        (sig.s : F) = (e : F) * amount + k1 ∧ (sig.t : F) = (e : F) * blind + k2 := by
  obtain ⟨kAmt, hamt, h⟩ := except_bind_eq_ok.mp h
  obtain ⟨e, he, h⟩ := except_bind_eq_ok.mp h
  obtain ⟨s, hs, h⟩ := except_bind_eq_ok.mp h
  obtain ⟨t, ht, hend⟩ := except_bind_eq_ok.mp h
  cases hend
  have hkey : (kAmt : F) = amount := by
    have hvalue := S.secretKey_value _ _ (Secp256k1.fromSlice_eq_ok.mp (except_mapError_eq_ok.mp hamt))
    rwa [wordValue_amount hamount] at hvalue
  have hs := Secp256k1.addAssign_eq_ok (except_mapError_eq_ok.mp hs)
  have ht := Secp256k1.addAssign_eq_ok (except_mapError_eq_ok.mp ht)
  refine ⟨rfl, e, he, ?_, ?_⟩
  · show (s : F) = _
    rw [hs, Units.val_mul, hkey, mul_comm]
  · show (t : F) = _
    rw [ht, Units.val_mul, mul_comm]

/-- A signature is accepted exactly when the commitment and the nonce are points and its
scalars answer the challenge. -/
theorem verify_eq_ok [DecidableEq E] {sig : ComSignature F} {commit : Commitment} {msg : Bytes} :
    verify S sig commit msg = .ok () ↔
      ∃ C R e, S.toPubkey commit = some C ∧ S.toPubkey sig.pubNonce = some R ∧
        calcChallenge S commit sig.pubNonce msg false = .ok e ∧
        (sig.s : F) • S.H + (sig.t : F) • S.G = (e : F) • C + R := by
  have hopen : (sig.s : F) • S.H + (sig.t : F) • S.G ≠ 0 :=
    Pedersen.commit_ne_zero S.independent (.inl sig.s.ne_zero)
  have hce : ∀ {C : E} (e : Fˣ), S.toPubkey commit = some C →
      S.toPubkey (S.commitment ((e : F) • C)) = some ((e : F) • C) := by
    intro C e hC
    exact S.toPubkey_commitment _ (smul_ne_zero e.ne_zero (S.toPubkey_ne_zero _ _ hC))
  constructor
  · intro h
    obtain ⟨C, hC, h⟩ := except_bind_eq_ok.mp h
    obtain ⟨e, he, h⟩ := except_bind_eq_ok.mp h
    obtain ⟨s2, hs2, hend⟩ := except_bind_eq_ok.mp h
    have hC : S.toPubkey commit = some C := by
      cases hp : S.toPubkey commit with
      | none =>
          rw [hp] at hC
          cases hC
      | some C' =>
          rw [hp] at hC
          cases hC
          rfl
    have hs2 := except_mapError_eq_ok.mp hs2
    obtain ⟨pos, hpos, -⟩ := except_bind_eq_ok.mp hs2
    obtain ⟨P, l, hP, hl, rfl⟩ := Secp256k1.points_cons.mp hpos
    obtain ⟨R, l', hR, hl', rfl⟩ := Secp256k1.points_cons.mp hl
    rw [Secp256k1.points_nil] at hl'
    cases hl'
    rw [hce e hC] at hP
    cases hP
    rw [Secp256k1.commitSum_of_points hpos Secp256k1.points_nil] at hs2
    have hsum : [(e : F) • C, R].sum - ([] : List E).sum = (e : F) • C + R := by simp
    rw [hsum] at hs2
    refine ⟨C, R, e, hC, hR, he, ?_⟩
    by_cases hzero : (e : F) • C + R = 0
    · rw [if_pos hzero] at hs2
      cases hs2
    · rw [if_neg hzero] at hs2
      cases hs2
      by_cases heq : S.commitBlind (sig.s : F) (sig.t : F) = S.commitment ((e : F) • C + R)
      · exact Secp256k1.commitment_inj hopen hzero heq
      · rw [if_pos heq] at hend
        cases hend
  · rintro ⟨C, R, e, hC, hR, he, heq⟩
    have hpos : S.points [S.commitment ((e : F) • C), sig.pubNonce] = .ok [(e : F) • C, R] :=
      Secp256k1.points_cons.mpr ⟨_, _, hce e hC,
        Secp256k1.points_cons.mpr ⟨_, _, hR, Secp256k1.points_nil, rfl⟩, rfl⟩
    have hsum : [(e : F) • C, R].sum - ([] : List E).sum = (e : F) • C + R := by simp
    refine except_bind_eq_ok.mpr ⟨C, by rw [hC]; rfl, ?_⟩
    refine except_bind_eq_ok.mpr ⟨e, he, ?_⟩
    refine except_bind_eq_ok.mpr ⟨S.commitment ((e : F) • C + R), except_mapError_eq_ok.mpr ?_, ?_⟩
    · rw [Secp256k1.commitSum_of_points hpos Secp256k1.points_nil, hsum, if_neg (heq ▸ hopen)]
    · rw [if_neg]
      show ¬ S.commitBlind _ _ ≠ _
      rw [Secp256k1.commitBlind, heq]
      exact fun h => h rfl

/-! ## Bytes -/

theorem readSecretKey_decodes (C : Codecs F E) (k : Fˣ) :
    Decodes (S.readSecretKey C) (S.secretKey.toBytes k) k := by
  have hlimit : 32 ≤ C.readLimit := le_trans (by decide) C.readLimit_ge
  apply (C.readFixedBytes_decodes (S.secretKey.length_toBytes k) hlimit).bind_last
  rw [S.secretKey.fromBytes_toBytes k (S.secretKey_valid k)]
  exact .pure k

theorem vecToArray_bytes {n : Nat} (a : FixedBytes n) : vecToArray n a.bytes = .ok a := by
  obtain ⟨bytes, rfl⟩ := a
  unfold vecToArray
  simp

omit [Field F] [AddCommGroup E] [Module F E] in
theorem readCommitment_decodes (C : Codecs F E) (c : Commitment) :
    Decodes (readCommitment C) c.bytes c := by
  have hlimit : 33 ≤ C.readLimit := le_trans (by decide) C.readLimit_ge
  apply (C.readFixedBytes_decodes c.length_bytes hlimit).bind_last
  rw [vecToArray_bytes]
  exact .pure c

/-- A signature is read back from its bytes. -/
theorem read_decodes (C : Codecs F E) (sig : ComSignature F) :
    Decodes (read S C) (write S sig) sig := by
  unfold write
  rw [List.append_assoc]
  apply (readCommitment_decodes C sig.pubNonce).bind
  apply (readSecretKey_decodes C sig.s).bind
  exact (readSecretKey_decodes C sig.t).bind_last (.pure _)

/-! ## Completeness and special soundness -/

/-- A signature that was made is accepted. -/
theorem verify_of_sign [DecidableEq F] [DecidableEq E] {S : Secp256k1 F E} {amount : Nat}
    {blind k1 k2 : Fˣ} {msg : Bytes} {sig : ComSignature F} (hamount : amount < 2 ^ 64)
    (h : sign S amount blind msg false k1 k2 = .ok sig) :
    verify S sig (S.commit amount blind) msg = .ok () := by
  obtain ⟨hnonce, e, he, hs, ht⟩ := sign_eq_ok hamount h
  have hpoint : S.toPubkey sig.pubNonce = some ((k1 : F) • S.H + (k2 : F) • S.G) := by
    rw [hnonce]
    exact Secp256k1.toPubkey_commitBlind (.inl k1.ne_zero)
  refine verify_eq_ok.mpr ⟨_, _, e, Secp256k1.toPubkey_commit amount blind, hpoint, he, ?_⟩
  rw [hs, ht]
  exact Pedersen.responses_open S.G S.H _ _ _ _ _

/-- A signature that was made is accepted for its commitment and message and survives its
serialization. Two accepted signatures for one commitment with one nonce commitment and
different challenges open the commitment, and no other scalars open it. -/
theorem commitment_signatures_verify_and_bind [DecidableEq F] [DecidableEq E] (S : Secp256k1 F E)
    (C : Codecs F E) :
    (∀ (amount : Nat) (blind k1 k2 : Fˣ) (msg : Bytes) (sig : ComSignature F), amount < 2 ^ 64 →
      sign S amount blind msg false k1 k2 = .ok sig →
      verify S sig (S.commit amount blind) msg = .ok () ∧ Decodes (read S C) (write S sig) sig) ∧
    ∀ (commit : Commitment) (msg msg' : Bytes) (sig sig' : ComSignature F) (e e' : Fˣ),
      verify S sig commit msg = .ok () → verify S sig' commit msg' = .ok () →
      sig.pubNonce = sig'.pubNonce →
      calcChallenge S commit sig.pubNonce msg false = .ok e →
      calcChallenge S commit sig'.pubNonce msg' false = .ok e' → e ≠ e' →
      let value : F := (sig.s - sig'.s) / (e - e')
      let blind : F := (sig.t - sig'.t) / (e - e')
      S.toPubkey commit = some (value • S.H + blind • S.G) ∧
        ∀ v r : F, S.toPubkey commit = some (v • S.H + r • S.G) → v = value ∧ r = blind := by
  constructor
  · intro amount blind k1 k2 msg sig hamount hsign
    exact ⟨verify_of_sign hamount hsign, read_decodes C sig⟩
  · intro commit msg msg' sig sig' e e' h h' hnonce he he' hne
    obtain ⟨P, R, e₁, hP, hR, he₁, heq⟩ := verify_eq_ok.mp h
    obtain ⟨P', R', e₂, hP', hR', he₂, heq'⟩ := verify_eq_ok.mp h'
    rw [hP] at hP'
    rw [← hnonce, hR] at hR'
    rw [he] at he₁
    rw [he'] at he₂
    cases hP'
    cases hR'
    cases he₁
    cases he₂
    have hopen := Pedersen.opening_of_two_responses heq heq' fun heq => hne (Units.ext heq)
    refine ⟨by rw [hP, ← hopen], fun v r hvr => ?_⟩
    rw [hP] at hvr
    cases hvr
    exact Pedersen.opening_unique S.independent hopen

/-- Two signatures of one commitment that share their nonces open it. -/
theorem commitment_signatures_verify_and_bind_shared_nonce :
    verify sampleCurve ⟨sampleCurve.commitBlind 2 2, 1, Units.mk0 6 (by decide)⟩
        (sampleCurve.commit 3 2) [1] = .ok () ∧
      sampleCurve.toPubkey (sampleCurve.commit 3 2) = some ((3 : ZMod 7), (2 : ZMod 7)) := by
  have hall := commitment_signatures_verify_and_bind sampleCurve sampleCurveCodecs
  have h := (hall.1 3 (Units.mk0 2 (by decide)) (Units.mk0 2 (by decide)) (Units.mk0 2 (by decide))
    [1] ⟨sampleCurve.commitBlind 2 2, 1, Units.mk0 6 (by decide)⟩ (by decide) (by decide +kernel)).1
  have h' := (hall.1 3 (Units.mk0 2 (by decide)) (Units.mk0 2 (by decide)) (Units.mk0 2 (by decide))
    [2] ⟨sampleCurve.commitBlind 2 2, Units.mk0 4 (by decide), 1⟩ (by decide) (by decide +kernel)).1
  have hopen := (hall.2 _ _ _ _ _ (Units.mk0 2 (by decide)) (Units.mk0 3 (by decide)) h h' rfl
    (by decide +kernel) (by decide +kernel) (by decide +kernel)).1
  exact ⟨h, hopen.trans (by decide +kernel)⟩

end ComSignature

end Mwixnet

end GrinWallet
