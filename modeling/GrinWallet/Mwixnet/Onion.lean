import GrinWallet.Mwixnet.ComSig

/-! # Peeling an onion

Each server shares a secret with the ephemeral key it finds in the onion, takes the
keystream of that secret off its own payload and off all that remain, and adjusts
the commitment. The servers of the hops, one after the other, each read their own
hop; the commitment moves by the excesses and the fees, as long as no sum on the
way is the point at infinity.
-/

namespace GrinWallet

open Effect Wire Keystream

namespace Mwixnet

variable {F E : Type} [Field F] [AddCommGroup E] [Module F E] {N : OnionEnv F E}

/-! ## Payloads -/

/-- A hop whose fee and range proof can be written and read. -/
structure Hop.Valid (N : OnionEnv F E) (hop : Hop F) : Prop where
  fee : Selection.feeFieldsOf hop.fee.raw = .ok hop.fee
  fee_ne_zero : (hop.fee.raw : F) ≠ 0
  rangeproof : ∀ p ∈ hop.rangeproof, N.codecs.rangeProof.Valid p

theorem readOptional_decodes {α : Type} (K : Codec SerError α) {o : Option α}
    (h : ∀ a ∈ o, K.Valid a) : Decodes (readOptional K) (writeOptional K o) o := by
  cases o with
  | none => exact (Ser.u8.decodes 0 (Ser.u8_valid.mpr (by decide))).bind_last (.pure none)
  | some a =>
      have hread : Decodes (readOptional K >>= pure) (writeOptional K (some a)) (some a) := by
        unfold readOptional writeOptional
        rw [bind_pure]
        apply (Ser.u8.decodes 1 (Ser.u8_valid.mpr (by decide))).bind
        show Decodes (if 1 = 0 then pure none else K.read >>= fun a => pure (some a)) _ _
        rw [if_neg (by decide)]
        exact (K.decodes a (h a rfl)).bind_last (.pure _)
      rwa [bind_pure] at hread

theorem FixedBytes.ofExcept_decodes {n : Nat} (a : FixedBytes n) :
    Decodes (Eff.ofExcept (vecToArray n a.bytes) : Reader SerError (FixedBytes n)) [] a := by
  rw [ComSignature.vecToArray_bytes]
  exact .pure a

/-- A server reads back what was written for its hop. -/
theorem Payload.read_decodes {hop : Hop F} (hvalid : hop.Valid N) (pk : XPublicKey) :
    let p : Payload F := ⟨pk, hop.excess, hop.fee, hop.rangeproof⟩
    Decodes (Payload.read N) (p.serialize N) p := by
  intro p
  have hlimit : 32 ≤ N.codecs.readLimit := le_trans (by decide) N.codecs.readLimit_ge
  have hraw : Ser.u64.Valid hop.fee.raw := by
    have hfee := hvalid.fee
    unfold Selection.feeFieldsOf at hfee
    split at hfee
    · cases hfee
    · next hrange =>
      have hmask : FeeFields.feeMask = 1099511627775 := by decide
      rw [hmask] at hrange
      exact Ser.u64_valid.mpr (by omega)
  apply (Ser.u8.decodes currentOnionVersion (Ser.u8_valid.mpr (by decide))).bind
  have hversion : Decodes (Eff.throwIf (currentOnionVersion ≠ currentOnionVersion)
      .UnsupportedProtocolVersion : Reader SerError Unit) [] () := fun _ => rfl
  apply hversion.bind
  apply (N.codecs.readFixedBytes_decodes pk.length_bytes hlimit).bind
  apply (FixedBytes.ofExcept_decodes pk).bind
  apply (ComSignature.readSecretKey_decodes N.codecs hop.excess).bind
  apply (Ser.u64.decodes hop.fee.raw hraw).bind
  apply Decodes.ofExcept_bind (a := hop.fee) (by rw [hvalid.fee]; rfl)
  exact (readOptional_decodes N.codecs.rangeProof hvalid.rangeproof).bind_last (.pure _)

theorem Payload.deserialize_serialize {hop : Hop F} (hvalid : hop.Valid N) (pk : XPublicKey) :
    let p : Payload F := ⟨pk, hop.excess, hop.fee, hop.rangeproof⟩
    Payload.deserialize N (p.serialize N) = .ok p :=
  congrArg Prod.fst (Payload.read_decodes hvalid pk).eq_ok

/-! ## The commitment on its way -/

/-- The point a hop passes on. -/
def Hop.after (N : OnionEnv F E) (hop : Hop F) (P : E) : E :=
  P + (hop.excess : F) • N.G - (hop.fee.raw : F) • N.H

/-- No sum on the way is the point at infinity. -/
def KeepsAPoint (N : OnionEnv F E) : E → List (Hop F) → Prop
  | _, [] => True
  | P, hop :: hops =>
      (P + (hop.excess : F) • N.G ≠ 0 ∧ hop.after N P ≠ 0) ∧ KeepsAPoint N (hop.after N P) hops

instance KeepsAPoint.decidable [DecidableEq E] (N : OnionEnv F E) :
    ∀ (P : E) (hops : List (Hop F)), Decidable (KeepsAPoint N P hops)
  | _, [] => inferInstanceAs (Decidable True)
  | P, hop :: hops =>
      have := KeepsAPoint.decidable N (hop.after N P) hops
      inferInstanceAs (Decidable (_ ∧ _))

/-- What all hops together add to the commitment. -/
theorem foldl_after (N : OnionEnv F E) (P : E) (hops : List (Hop F)) :
    hops.foldl (fun P hop => hop.after N P) P
      = P + (hops.map fun hop => (hop.excess : F) • N.G).sum
        - (hops.map fun hop => (hop.fee.raw : F) • N.H).sum := by
  induction hops generalizing P with
  | nil => simp
  | cons hop hops ih =>
      rw [List.foldl_cons, ih, List.map_cons, List.sum_cons, List.map_cons, List.sum_cons, Hop.after]
      abel

section Sums

variable [DecidableEq E] {S : Secp256k1 F E} {c c' : Commitment} {P : E}

theorem Secp256k1.addExcess_eq_ok (hc : S.toPubkey c = some P) (x : Fˣ) :
    S.addExcess c x = .ok c' ↔
      P + (x : F) • S.G ≠ 0 ∧ c' = S.commitment (P + (x : F) • S.G) := by
  have hx : S.toPubkey (S.commit 0 x) = some ((x : F) • S.G) := by
    rw [toPubkey_commit, Nat.cast_zero, zero_smul, zero_add]
  have hpos : S.points [c, S.commit 0 x] = .ok [P, (x : F) • S.G] :=
    points_cons.mpr ⟨_, _, hc, points_cons.mpr ⟨_, _, hx, points_nil, rfl⟩, rfl⟩
  have hsum : [P, (x : F) • S.G].sum - ([] : List E).sum = P + (x : F) • S.G := by simp
  rw [addExcess, commitSum_of_points hpos points_nil, hsum]
  by_cases hzero : P + (x : F) • S.G = 0
  · rw [if_pos hzero]
    exact iff_of_false (fun h => (nomatch h)) fun h => h.1 hzero
  · rw [if_neg hzero, Except.ok.injEq]
    exact ⟨fun h => ⟨hzero, h.symm⟩, fun h => h.2.symm⟩

theorem Secp256k1.subValue_eq_ok (hc : S.toPubkey c = some P) {value : Nat}
    (hvalue : (value : F) ≠ 0) :
    S.subValue c value = .ok c' ↔
      P - (value : F) • S.H ≠ 0 ∧ c' = S.commitment (P - (value : F) • S.H) := by
  have hv : S.toPubkey (S.commit value 0) = some ((value : F) • S.H) := by
    rw [commit, toPubkey_commitBlind (.inl hvalue), zero_smul, add_zero]
  have hpos : S.points [c] = .ok [P] := points_cons.mpr ⟨_, _, hc, points_nil, rfl⟩
  have hneg : S.points [S.commit value 0] = .ok [(value : F) • S.H] :=
    points_cons.mpr ⟨_, _, hv, points_nil, rfl⟩
  have hsum : [P].sum - [(value : F) • S.H].sum = P - (value : F) • S.H := by simp
  rw [subValue, commitSum_of_points hpos hneg, hsum]
  by_cases hzero : P - (value : F) • S.H = 0
  · rw [if_pos hzero]
    exact iff_of_false (fun h => (nomatch h)) fun h => h.1 hzero
  · rw [if_neg hzero, Except.ok.injEq]
    exact ⟨fun h => ⟨hzero, h.symm⟩, fun h => h.2.symm⟩

end Sums

/-! ## Peeling -/

namespace Onion

variable [DecidableEq E]

/-- The onion a hop is handed: its layers, and the key it shares its secret with. -/
def handed (N : OnionEnv F E) (draws : Nat → SecretKey) (i : Nat) (c : Commitment)
    (hops : List (Hop F)) : Onion :=
  ⟨if hops = [] then zeroPubkey else N.xPublicKey (draws i), c, layers (hopLayers N draws i hops)⟩

omit [DecidableEq E] in
/-- The first hop is handed the onion as it is created. -/
theorem createOnion_eq_handed (N : OnionEnv F E) (c : Commitment) (hops : List (Hop F))
    (draws : Nat → SecretKey) : createOnion N c hops draws = handed N draws 0 c hops := by
  unfold createOnion handed
  by_cases hnil : hops = []
  · rw [if_pos hnil, if_pos hnil, hnil]
    rfl
  · rw [if_neg hnil, if_neg hnil]

/-- What a hop reads and passes on. -/
def peeled (N : OnionEnv F E) (draws : Nat → SecretKey) (i : Nat) (P : E) (hop : Hop F)
    (hops : List (Hop F)) : PeeledOnion F :=
  let onion := handed N draws (i + 1) (N.commitment (hop.after N P)) hops
  ⟨⟨onion.ephemeralPubkey, hop.excess, hop.fee, hop.rangeproof⟩, onion⟩

/-- A hop reads its own payload and passes the layers inside its own on. -/
theorem peelLayer_handed {draws : Nat → SecretKey} {i : Nat} {c : Commitment} {P : E}
    (hc : N.toPubkey c = some P) {hop : Hop F} {hops : List (Hop F)} (hvalid : hop.Valid N)
    {key : SecretKey} (hkey : hop.serverPubkey = N.xPublicKey key) {r : PeeledOnion F} :
    (handed N draws i c (hop :: hops)).peelLayer N key = .ok r ↔
      (P + (hop.excess : F) • N.G ≠ 0 ∧ hop.after N P ≠ 0) ∧ r = peeled N draws i P hop hops := by
  obtain ⟨payload, hpayload⟩ : ∃ p, p = (peeled N draws i P hop hops).payload := ⟨_, rfl⟩
  have hread : Payload.deserialize N (payload.serialize N) = .ok payload := by
    rw [hpayload]
    exact Payload.deserialize_serialize hvalid _
  -- both sides of the exchange arrive at one secret
  obtain ⟨stream, hstream⟩ : ∃ s, s = newStreamCipher N
      (N.diffieHellman key (N.xPublicKey (draws i))) := ⟨_, rfl⟩
  have hlayers : layers (hopLayers N draws i (hop :: hops))
      = (Cipher.start stream).applyEach
          (payload.serialize N :: layers (hopLayers N draws (i + 1) hops)) := by
    rw [hstream, N.diffieHellman_comm, ← hkey, hpayload]
    rfl
  have hpeel : (handed N draws i c (hop :: hops)).peelLayer N key
      = (do
        let payload ← (Payload.deserialize N (payload.serialize N)).mapError .DeserializationError
        let commitment ← (N.addExcess c payload.excess).mapError .CalcCommitError
        let commitment ← (N.subValue commitment payload.fee.raw).mapError .CalcCommitError
        return ⟨payload, ⟨payload.nextEphemeralPk, commitment,
          layers (hopLayers N draws (i + 1) hops)⟩⟩) := by
    unfold peelLayer handed
    rw [if_neg (List.cons_ne_nil hop hops)]
    simp only
    rw [hlayers, ← hstream, Cipher.applyEach_cons]
    simp only [Cipher.applyKeystream_applyKeystream, Cipher.applyEach_applyEach]
  have hafter : P + (hop.excess : F) • N.G - (payload.fee.raw : F) • N.H = hop.after N P := by
    rw [hpayload]
    rfl
  have hexcess : payload.excess = hop.excess := by
    rw [hpayload]
    rfl
  have hfee : (payload.fee.raw : F) ≠ 0 := by
    rw [hpayload]
    exact hvalid.fee_ne_zero
  rw [hpeel, hread]
  constructor
  · intro h
    obtain ⟨p, hp, h⟩ := except_bind_eq_ok.mp h
    obtain ⟨c₁, h₁, h⟩ := except_bind_eq_ok.mp h
    obtain ⟨c₂, h₂, hend⟩ := except_bind_eq_ok.mp h
    cases hp
    rw [except_mapError_eq_ok, Secp256k1.addExcess_eq_ok hc, hexcess] at h₁
    obtain ⟨hadd, rfl⟩ := h₁
    rw [except_mapError_eq_ok,
      Secp256k1.subValue_eq_ok (N.toPubkey_commitment _ hadd) hfee, hafter] at h₂
    obtain ⟨hsub, rfl⟩ := h₂
    cases hend
    exact ⟨⟨hadd, hsub⟩, by rw [hpayload]; rfl⟩
  · rintro ⟨⟨hadd, hsub⟩, rfl⟩
    refine except_bind_eq_ok.mpr ⟨payload, rfl, ?_⟩
    refine except_bind_eq_ok.mpr ⟨_, except_mapError_eq_ok.mpr
      ((Secp256k1.addExcess_eq_ok hc _).mpr ⟨by rw [hexcess]; exact hadd, rfl⟩), ?_⟩
    rw [hexcess]
    refine except_bind_eq_ok.mpr ⟨_, except_mapError_eq_ok.mpr
      ((Secp256k1.subValue_eq_ok (N.toPubkey_commitment _ hadd) hfee).mpr
        ⟨by rw [hafter]; exact hsub, rfl⟩), ?_⟩
    rw [hafter, hpayload]
    rfl

/-- Peel one layer after the other, with the keys of the servers. -/
def peelEach (N : OnionEnv F E) (onion : Onion) :
    List SecretKey → Except OnionError (List (Payload F) × Onion)
  | [] => .ok ([], onion)
  | key :: keys => do
      let peeled ← onion.peelLayer N key
      let (payloads, last) ← peelEach N peeled.onion keys
      return (peeled.payload :: payloads, last)

theorem peelEach_handed {draws : Nat → SecretKey} {hops : List (Hop F)} {keys : List SecretKey}
    (hkeys : hops.map Hop.serverPubkey = keys.map N.xPublicKey)
    (hvalid : ∀ hop ∈ hops, hop.Valid N) {i : Nat} {c : Commitment} {P : E}
    (hc : N.toPubkey c = some P) :
    (KeepsAPoint N P hops → ∃ r, peelEach N (handed N draws i c hops) keys = .ok r) ∧
      ∀ payloads last, peelEach N (handed N draws i c hops) keys = .ok (payloads, last) →
        KeepsAPoint N P hops ∧
          payloads.map (fun p => (p.excess, p.fee, p.rangeproof))
            = hops.map (fun hop => (hop.excess, hop.fee, hop.rangeproof)) ∧
          last.encPayloads = [] ∧
          N.toPubkey last.commit = some (hops.foldl (fun P hop => hop.after N P) P) := by
  induction hops generalizing keys i c P with
  | nil =>
      obtain rfl : keys = [] := List.map_eq_nil_iff.mp hkeys.symm
      refine ⟨fun _ => ⟨_, rfl⟩, fun payloads last h => ?_⟩
      cases h
      exact ⟨trivial, rfl, rfl, hc⟩
  | cons hop hops ih =>
      obtain ⟨key, keys, rfl⟩ : ∃ k ks, keys = k :: ks := by
        cases keys with
        | nil => cases hkeys
        | cons key keys => exact ⟨key, keys, rfl⟩
      rw [List.map_cons, List.map_cons, List.cons.injEq] at hkeys
      have hhop := hvalid hop List.mem_cons_self
      have hrest := fun h hh => hvalid h (List.mem_cons_of_mem hop hh)
      constructor
      · intro hkeeps
        obtain ⟨hpoint, hkeeps⟩ := hkeeps
        obtain ⟨r, hr⟩ := (ih hkeys.2 hrest (N.toPubkey_commitment _ hpoint.2)).1 hkeeps
        obtain ⟨payloads, last⟩ := r
        exact ⟨_, except_bind_eq_ok.mpr ⟨_, (peelLayer_handed hc hhop hkeys.1).mpr ⟨hpoint, rfl⟩,
          except_bind_eq_ok.mpr ⟨_, hr, rfl⟩⟩⟩
      · intro payloads last h
        obtain ⟨r, hpeel, h⟩ := except_bind_eq_ok.mp h
        obtain ⟨⟨rest, last'⟩, hr, hend⟩ := except_bind_eq_ok.mp h
        cases hend
        obtain ⟨hpoint, rfl⟩ := (peelLayer_handed hc hhop hkeys.1).mp hpeel
        obtain ⟨hkeeps, hmap, hempty, hlast⟩ :=
          (ih hkeys.2 hrest (N.toPubkey_commitment _ hpoint.2)).2 _ _ hr
        refine ⟨⟨hpoint, hkeeps⟩, ?_, hempty, hlast⟩
        rw [List.map_cons, List.map_cons, hmap]
        rfl

/-- The servers of the hops peel the onion in order exactly when no commitment on the way is
the point at infinity. Each then reads its own hop, no payload is left, and the commitment
has moved by all excesses and fees. -/
theorem onion_peels_in_order {commitment : Commitment} {P : E}
    (hcommit : N.toPubkey commitment = some P) {hops : List (Hop F)} {keys : List SecretKey}
    (hkeys : hops.map Hop.serverPubkey = keys.map N.xPublicKey)
    (hvalid : ∀ hop ∈ hops, hop.Valid N) (draws : Nat → SecretKey) :
    ((∃ r, peelEach N (createOnion N commitment hops draws) keys = .ok r) ↔
        KeepsAPoint N P hops) ∧
      ∀ payloads last, peelEach N (createOnion N commitment hops draws) keys
          = .ok (payloads, last) →
        payloads.map (fun p => (p.excess, p.fee, p.rangeproof))
            = hops.map (fun hop => (hop.excess, hop.fee, hop.rangeproof)) ∧
          last.encPayloads = [] ∧
          N.toPubkey last.commit
            = some (P + (hops.map fun hop => (hop.excess : F) • N.G).sum
                - (hops.map fun hop => (hop.fee.raw : F) • N.H).sum) := by
  rw [createOnion_eq_handed, ← foldl_after]
  obtain ⟨hmpr, hmp⟩ := @peelEach_handed F E _ _ _ N _ draws hops keys hkeys hvalid 0 _ P hcommit
  refine ⟨⟨fun ⟨r, hr⟩ => (hmp r.1 r.2 hr).1, hmpr⟩, fun payloads last h => (hmp _ _ h).2⟩

theorem sampleHop_valid {key : SecretKey} {excess : SampleCurve.Scalarˣ} {o : Option RangeProof}
    (ho : ∀ p ∈ o, p < 256) : (sampleHop key excess o).Valid sampleOnionEnv where
  fee := rfl
  fee_ne_zero := (by decide : ((1 : Nat) : ZMod 7) ≠ 0)
  rangeproof p hp := SampleCodecs.prefixedWord_valid (by decide : 675 < 2 ^ 64) (by decide) (ho p hp)

/-- Two hops, the last with a range proof. -/
theorem onion_peels_in_order_two_hops :
    let hops := [sampleHop 5 1 none, sampleHop 9 (Units.mk0 2 (by decide)) (some 8)]
    let onion := createOnion sampleOnionEnv (sampleOnionEnv.commit 3 2) hops (BitVec.ofNat 256)
    ∃ payloads last, peelEach sampleOnionEnv onion [5, 9] = .ok (payloads, last) ∧
      payloads.map Payload.rangeproof = [none, some 8] ∧
      sampleOnionEnv.toPubkey last.commit = some (1, 5) := by
  intro hops onion
  have hvalid : ∀ hop ∈ hops, hop.Valid sampleOnionEnv := by
    intro hop hmem
    rcases List.mem_cons.mp hmem with rfl | hmem
    · exact sampleHop_valid fun p hp => by cases hp
    · obtain rfl := List.mem_singleton.mp hmem
      exact sampleHop_valid fun p hp => by
        cases hp
        decide
  have hcommit : sampleOnionEnv.toPubkey (sampleOnionEnv.commit 3 2)
      = some ((3 : ZMod 7), (2 : ZMod 7)) := by decide +kernel
  have hkeys : hops.map Hop.serverPubkey = [5, 9].map sampleOnionEnv.xPublicKey := rfl
  obtain ⟨hpeels, hreads⟩ := onion_peels_in_order hcommit hkeys hvalid (BitVec.ofNat 256)
  obtain ⟨⟨payloads, last⟩, hr⟩ := hpeels.mpr (by decide +kernel)
  obtain ⟨hmap, -, hlast⟩ := hreads payloads last hr
  refine ⟨payloads, last, hr, ?_, hlast.trans (by decide +kernel)⟩
  have hproofs := congrArg (List.map fun t => t.2.2) hmap
  simpa [Function.comp_def, hops, sampleHop] using hproofs

/-- A commitment that the excess and the fee of a hop cancel: no commitment is left to pass on. -/
theorem cancelled_commitment_is_not_peeled :
    let P : SampleCurve.Point := (1, 6)
    let hops := [sampleHop 5 1 none]
    sampleOnionEnv.toPubkey (sampleOnionEnv.commitment P) = some P ∧
      (∀ hop ∈ hops, hop.Valid sampleOnionEnv) ∧
      peelEach sampleOnionEnv
          (createOnion sampleOnionEnv (sampleOnionEnv.commitment P) hops (BitVec.ofNat 256)) [5]
        = .error (.CalcCommitError .IncorrectCommitSum) := by
  refine ⟨by decide +kernel, fun hop hmem => ?_, by decide +kernel⟩
  obtain rfl := List.mem_singleton.mp hmem
  exact sampleHop_valid fun p hp => by cases hp

end Onion

end Mwixnet

end GrinWallet
