import GrinWallet.Model.Sample
import GrinWallet.Model.SlateV4Bin

/-! # The round trip of the binary slate

Reading what was written for a slate returns the slate as `SlateV4.received` has
it: a fee without an amount is gone with its shift, an output's features are one
of the two known bytes, and only a height locked kernel keeps its argument. The
round trip is exact for the slates this leaves as they are.
-/

namespace GrinWallet

open Effect Wire

variable {F E : Type} {C : Codecs F E}

/-! ## Single fields -/

theorem SlateStateV4.write_decodes (s : SlateStateV4) : Decodes read s.write s := by
  cases s <;> exact (Ser.u8.decodes _ (Ser.u8_valid.mpr (by decide))).bind_last (.pure _)

theorem UuidWrap.write_decodes (C : Codecs F E) {id : Uuid} (h : id < 2 ^ 128) :
    Decodes (read C) (write id) id := by
  have hlimit : 16 ≤ C.readLimit := by
    have := C.readLimit_ge
    omega
  apply (C.readFixedBytes_decodes (wordBytes_length 16 id) hlimit).bind_last
  have hvalue : wordValue (wordBytes 16 id) = id := by
    rw [wordValue_wordBytes]
    exact Nat.mod_eq_of_lt (by omega)
  rw [hvalue]
  exact .pure id

/-! ## The optional fields -/

namespace SlateOptFields

structure Typed (o : SlateOptFields) : Prop where
  numParts : o.numParts < 2 ^ 8
  amt : o.amt < 2 ^ 64
  fee : o.fee.raw < 2 ^ 64
  feat : o.feat < 2 ^ 8
  ttl : o.ttl < 2 ^ 64

theorem status_lt (o : SlateOptFields) : o.status < 2 ^ 8 := by
  unfold status
  split_ifs <;> decide

theorem status_numParts (o : SlateOptFields) : o.status &&& 0x01 > 0 ↔ o.numParts ≠ 2 := by
  unfold status
  split_ifs <;> simp_all

theorem status_amt (o : SlateOptFields) : o.status &&& 0x02 > 0 ↔ o.amt > 0 := by
  unfold status
  split_ifs <;> simp_all

theorem status_fee (o : SlateOptFields) : o.status &&& 0x04 > 0 ↔ o.fee.fee > 0 := by
  unfold status
  split_ifs <;> simp_all

theorem status_feat (o : SlateOptFields) : o.status &&& 0x08 > 0 ↔ o.feat > 0 := by
  unfold status
  split_ifs <;> simp_all

theorem status_ttl (o : SlateOptFields) : o.status &&& 0x10 > 0 ↔ o.ttl > 0 := by
  unfold status
  split_ifs <;> simp_all

/-- The fields as they are read back. -/
def received (o : SlateOptFields) : SlateOptFields :=
  { o with fee := if o.fee.fee > 0 then o.fee else .zero }

theorem write_decodes {o : SlateOptFields} (h : o.Typed) : Decodes read o.write o.received := by
  have hreceived : o.received =
      { numParts := if o.status &&& 0x01 > 0 then o.numParts else 2
        amt := if o.status &&& 0x02 > 0 then o.amt else 0
        fee := if o.status &&& 0x04 > 0 then o.fee else .zero
        feat := if o.status &&& 0x08 > 0 then o.feat else 0
        ttl := if o.status &&& 0x10 > 0 then o.ttl else 0 } := by
    simp only [received, status_numParts, status_amt, status_fee, status_feat, status_ttl]
    congr <;> split_ifs <;> omega
  rw [hreceived]
  unfold write
  simp only [List.append_assoc]
  apply (Ser.u8.decodes o.status (Ser.u8_valid.mpr o.status_lt)).bind
  apply (readIf_decodes Iff.rfl 2 fun _ => Ser.u8.decodes _ (Ser.u8_valid.mpr h.numParts)).bind
  apply (readIf_decodes Iff.rfl 0 fun _ => Ser.u64.decodes _ (Ser.u64_valid.mpr h.amt)).bind
  apply (readIf_decodes Iff.rfl _ fun _ => Ser.feeFields.decodes _ (Ser.u64_valid.mpr h.fee)).bind
  apply (readIf_decodes Iff.rfl 0 fun _ => Ser.u8.decodes _ (Ser.u8_valid.mpr h.feat)).bind
  apply (readIf_decodes Iff.rfl 0 fun _ =>
    Ser.u64.decodes _ (Ser.u64_valid.mpr h.ttl)).bind_last
  exact .pure _

end SlateOptFields

/-! ## The participants -/

namespace ParticipantDataV4

structure Typed (C : Codecs F E) (s : ParticipantDataV4 F E) : Prop where
  xs : C.publicKey.Valid s.xs
  nonce : C.publicKey.Valid s.nonce
  part : ∀ sig ∈ s.part, C.signature.Valid sig

theorem write_decodes {s : ParticipantDataV4 F E} (h : s.Typed C) :
    Decodes (read C) (s.write C) s := by
  have hflag : (if s.part.isSome then 1 else 0) < 2 ^ 8 := by
    split_ifs <;> decide
  have hpresent : (if s.part.isSome then 1 else 0) = 1 ↔ s.part.isSome := by
    split_ifs with hp <;> simp [hp]
  unfold write
  simp only [List.append_assoc]
  apply (Ser.u8.decodes _ (Ser.u8_valid.mpr hflag)).bind
  apply (C.publicKey.decodes s.xs h.xs).bind
  apply (C.publicKey.decodes s.nonce h.nonce).bind
  apply (readIf_some_decodes (f := id) hpresent fun sig hsig =>
    C.signature.decodes sig (h.part sig hsig)).bind_last
  rw [Option.map_id]
  exact .pure s

end ParticipantDataV4

theorem SigsWrap.write_decodes {sigs : List (ParticipantDataV4 F E)} (hlen : sigs.length ≤ 255)
    (h : ∀ s ∈ sigs, s.Typed C) : Decodes (read C) (write C sigs) sigs := by
  have hcount : sigs.length % 2 ^ 8 = sigs.length := Nat.mod_eq_of_lt (by omega)
  have hitems := times_decodes (f := id) fun s hs => ParticipantDataV4.write_decodes (h s hs)
  rw [List.map_id] at hitems
  unfold write
  rw [hcount]
  exact (Ser.u8.decodes _ (Ser.u8_valid.mpr (by omega))).bind hitems

/-! ## The commitments -/

namespace CommitsV4

structure Typed (C : Codecs F E) (c : CommitsV4 E) : Prop where
  features : c.f < 2 ^ 8
  commit : C.commitment.Valid c.c
  rangeProof : ∀ proof ∈ c.p, C.rangeProof.Valid proof

/-- The commitment as it is read back. -/
def received (c : CommitsV4 E) : CommitsV4 E := { c with f := if c.f = 1 then 1 else 0 }

theorem fromFeatures_fromV4 (f : OutputFeaturesV4) :
    OutputFeaturesV4.fromFeatures (.fromV4 f) = if f = 1 then 1 else 0 := by
  unfold OutputFeatures.fromV4
  split
  · rfl
  · rename_i hf
    rw [if_neg hf]
    rfl

theorem write_decodes {c : CommitsV4 E} (h : c.Typed C) :
    Decodes (read C) (c.write C) c.received := by
  have hflag : (if c.p.isSome then 1 else 0) < 2 ^ 8 := by
    split_ifs <;> decide
  have hpresent : (if c.p.isSome then 1 else 0) = 1 ↔ c.p.isSome := by
    split_ifs with hp <;> simp [hp]
  unfold write
  simp only [List.append_assoc]
  apply (Ser.u8.decodes _ (Ser.u8_valid.mpr hflag)).bind
  apply (Ser.outputFeatures.decodes (.fromV4 c.f) trivial).bind
  apply (C.commitment.decodes c.c h.commit).bind
  apply (readIf_some_decodes (f := id) hpresent fun proof hproof =>
    C.rangeProof.decodes proof (h.rangeProof proof hproof)).bind_last
  rw [Option.map_id, fromFeatures_fromV4]
  exact .pure c.received

/-- The known feature bytes are kept. -/
theorem received_eq_self {c : CommitsV4 E} : c.received = c ↔ c.f ≤ 1 := by
  have hbyte (f : Nat) : (if f = 1 then 1 else 0) = f ↔ f ≤ 1 := by
    split_ifs <;> omega
  obtain ⟨f, c, p⟩ := c
  simp only [received, mk.injEq, and_true]
  exact hbyte f

end CommitsV4

theorem ComsWrap.write_decodes {coms : List (CommitsV4 E)} (hlen : coms.length ≤ 65535)
    (h : ∀ c ∈ coms, c.Typed C) : Decodes (read C) (write C coms) (coms.map (·.received)) := by
  have hcount : coms.length % 2 ^ 16 = coms.length := Nat.mod_eq_of_lt (by omega)
  have hitems := times_decodes fun c hc => CommitsV4.write_decodes (h c hc)
  unfold write
  rw [hcount]
  exact (Ser.u16.decodes _ (Ser.u16_valid.mpr (by omega))).bind hitems

/-! ## The payment proof and the optional structures -/

structure PaymentInfoV4.Typed (C : Codecs F E) (p : PaymentInfoV4) : Prop where
  saddr : C.dalekPublicKey.Valid p.saddr
  raddr : C.dalekPublicKey.Valid p.raddr
  rsig : ∀ s ∈ p.rsig, C.dalekSignature.Valid s

theorem ProofWrap.write_decodes {p : PaymentInfoV4} (h : p.Typed C) :
    Decodes (read C) (write C p) p := by
  have hlimit := C.readLimit_ge
  obtain ⟨saddr, raddr, rsig⟩ := p
  unfold write
  simp only [List.append_assoc]
  apply (C.readFixed_decodes _ h.saddr (by omega)).bind
  apply (C.readFixed_decodes _ h.raddr (by omega)).bind
  cases rsig with
  | none => exact (Ser.u8.decodes 0 (Ser.u8_valid.mpr (by decide))).bind_last (.pure _)
  | some s =>
      have hread := (C.readFixed_decodes _ (h.rsig s rfl) (by omega)).map some
      exact (Ser.u8.decodes 1 (Ser.u8_valid.mpr (by decide))).bind (hread.bind_last (.pure _))

namespace SlateOptStructs

theorem status_lt (o : SlateOptStructs E) : o.status < 2 ^ 8 := by
  unfold status
  split_ifs <;> decide

theorem status_coms (o : SlateOptStructs E) : o.status &&& 0x01 > 0 ↔ o.coms.isSome := by
  unfold status
  split_ifs <;> simp_all

theorem status_proof (o : SlateOptStructs E) : o.status &&& 0x02 > 0 ↔ o.proof.isSome := by
  unfold status
  split_ifs <;> simp_all

theorem write_decodes {o : SlateOptStructs E}
    (hlen : ∀ coms ∈ o.coms, coms.length ≤ 65535)
    (hcoms : ∀ coms ∈ o.coms, ∀ c ∈ coms, c.Typed C) (hproof : ∀ p ∈ o.proof, p.Typed C) :
    Decodes (read C) (o.write C) { o with coms := o.coms.map (·.map (·.received)) } := by
  unfold write
  simp only [List.append_assoc]
  apply (Ser.u8.decodes o.status (Ser.u8_valid.mpr o.status_lt)).bind
  apply (readIf_some_decodes o.status_coms fun coms hc =>
    ComsWrap.write_decodes (hlen coms hc) (hcoms coms hc)).bind
  apply (readIf_some_decodes (f := id) o.status_proof fun p hp =>
    ProofWrap.write_decodes (hproof p hp)).bind_last
  rw [Option.map_id]
  exact .pure _

end SlateOptStructs

/-! ## The slate -/

namespace SlateV4

/-- The fields are values of the types the code declares them with. -/
structure Typed (C : Codecs F E) (v : SlateV4 F E) : Prop where
  version : v.ver.version < 2 ^ 16
  blockHeaderVersion : v.ver.blockHeaderVersion < 2 ^ 16
  id : v.id < 2 ^ 128
  off : C.blindingFactor.Valid v.off
  optFields : v.optFields.Typed
  sigs : ∀ s ∈ v.sigs, s.Typed C
  coms : ∀ coms ∈ v.coms, ∀ c ∈ coms, c.Typed C
  proof : ∀ p ∈ v.proof, p.Typed C
  featArgs : ∀ a ∈ v.featArgs, a.lockHgt < 2 ^ 64

/-- The kernel features have the argument they need and no other. -/
def FeaturesValid (v : SlateV4 F E) : Prop :=
  v.feat = 0 ∧ v.featArgs = none ∨ (v.feat = 2 ∨ v.feat = 3) ∧ v.featArgs.isSome

/-- The slate as it is read back. -/
def received (v : SlateV4 F E) : SlateV4 F E :=
  { v with
    fee := if v.fee.fee > 0 then v.fee else .zero
    coms := v.coms.map (·.map (·.received))
    featArgs := if v.feat = 2 then some ⟨v.featArgs.elim 0 (·.lockHgt)⟩ else none }

end SlateV4

theorem SlateV4Bin.write_decodes {v : SlateV4 F E} (h : v.Typed C) (hsigs : v.sigs.length ≤ 255)
    (hcoms : ∀ coms ∈ v.coms, coms.length ≤ 65535) :
    Decodes (read C) (write C v) v.received := by
  have hargs : v.featArgs.elim 0 (·.lockHgt) < 2 ^ 64 := by
    cases ha : v.featArgs with
    | none => decide
    | some a => exact h.featArgs a ha
  unfold write
  simp only [List.append_assoc]
  apply (Ser.u16.decodes _ (Ser.u16_valid.mpr h.version)).bind
  apply (Ser.u16.decodes _ (Ser.u16_valid.mpr h.blockHeaderVersion)).bind
  apply (UuidWrap.write_decodes C h.id).bind
  apply v.sta.write_decodes.bind
  apply (C.blindingFactor.decodes v.off h.off).bind
  apply (SlateOptFields.write_decodes h.optFields).bind
  apply (SigsWrap.write_decodes hsigs h.sigs).bind
  apply (SlateOptStructs.write_decodes (o := v.optStructs) hcoms h.coms h.proof).bind
  apply (readIf_decodes Iff.rfl none fun _ =>
    ((Ser.u64.decodes _ (Ser.u64_valid.mpr hargs)).map KernelFeaturesArgsV4.mk).map some).bind_last
  exact .pure _

namespace SlateV4

theorem received_fee {v : SlateV4 F E} :
    (if v.fee.fee > 0 then v.fee else .zero) = v.fee ↔ (v.fee.fee = 0 → v.fee = .zero) := by
  by_cases hfee : v.fee.fee > 0
  · have hne : v.fee.fee ≠ 0 := by omega
    simp [hfee, hne]
  · have heq : v.fee.fee = 0 := by omega
    simp [heq, eq_comm]

theorem received_coms {v : SlateV4 F E} :
    v.coms.map (·.map (·.received)) = v.coms ↔ ∀ coms ∈ v.coms, ∀ c ∈ coms, c.f ≤ 1 := by
  have hlist (coms : List (CommitsV4 E)) :
      coms.map (·.received) = coms ↔ ∀ c ∈ coms, c.f ≤ 1 := by
    conv_lhs => rhs; rw [← List.map_id coms]
    rw [List.map_inj_left]
    exact forall₂_congr fun c _ => CommitsV4.received_eq_self
  cases v.coms with
  | none => simp
  | some coms => simpa using hlist coms

theorem received_featArgs {v : SlateV4 F E} (hv : v.FeaturesValid) :
    (if v.feat = 2 then some ⟨v.featArgs.elim 0 (·.lockHgt)⟩ else none) = v.featArgs ↔
      v.feat ≠ 3 := by
  rcases hv with ⟨hfeat, hargs⟩ | ⟨hfeat | hfeat, hargs⟩
  · simp [hfeat, hargs]
  · obtain ⟨a, ha⟩ := Option.isSome_iff_exists.mp hargs
    simp [hfeat, ha]
  · obtain ⟨a, ha⟩ := Option.isSome_iff_exists.mp hargs
    simp [hfeat, ha]

/-- The slates that are read back as they were written. -/
theorem received_eq_self {v : SlateV4 F E} (hv : v.FeaturesValid) :
    v.received = v ↔
      v.feat ≠ 3 ∧ (v.fee.fee = 0 → v.fee = .zero) ∧ ∀ coms ∈ v.coms, ∀ c ∈ coms, c.f ≤ 1 := by
  rw [← received_featArgs hv, ← received_fee, ← received_coms]
  obtain ⟨ver, id, sta, off, numParts, amt, fee, feat, ttl, sigs, coms, proof, featArgs⟩ := v
  simp only [received, mk.injEq, true_and]
  tauto

end SlateV4

/-- Reading the bytes written for a slate returns it exactly when its kernel is
not of the NRD kind, its fee has no shift without an amount, and its outputs'
features are known ones. -/
theorem SlateV4Bin.read_write_iff {v : SlateV4 F E} (h : v.Typed C) (hv : v.FeaturesValid)
    (hsigs : v.sigs.length ≤ 255) (hcoms : ∀ coms ∈ v.coms, coms.length ≤ 65535) :
    (read C (write C v)).1 = .ok v ↔
      v.feat ≠ 3 ∧ (v.fee.fee = 0 → v.fee = .zero) ∧ ∀ coms ∈ v.coms, ∀ c ∈ coms, c.f ≤ 1 := by
  have hread := (write_decodes h hsigs hcoms).eq_ok
  rw [hread, Except.ok.injEq]
  exact SlateV4.received_eq_self hv

namespace SampleSlateV4

/-- A slate with each of its optional parts present. -/
def locked : SlateV4 Nat Nat where
  ver := ⟨4, 3⟩
  id := 1
  sta := .Standard2
  off := 2
  numParts := 3
  amt := 5
  fee := ⟨2 ^ 40 + 7⟩
  feat := 2
  ttl := 9
  sigs := [⟨10, 11, some ⟨12, 13⟩⟩, ⟨14, 15, none⟩]
  coms := some [⟨1, 16, none⟩, ⟨0, 17, some 18⟩]
  proof := some ⟨19, 20, some 21⟩
  featArgs := some ⟨100⟩

theorem locked_typed : locked.Typed sampleCodecs where
  version := by decide
  blockHeaderVersion := by decide
  id := by decide
  off := by show 2 < 256 ^ 32; decide
  optFields := ⟨by decide, by decide, by decide, by decide, by decide⟩
  sigs := by
    intro s hs
    simp only [locked, List.mem_cons, List.not_mem_nil, or_false] at hs
    rcases hs with rfl | rfl
    · refine ⟨?_, ?_, ?_⟩ <;> simp [sampleCodecs, SampleCodecs.signature, word]
    · refine ⟨?_, ?_, ?_⟩ <;> simp [sampleCodecs, word]
  coms := by
    intro coms hcoms c hc
    cases hcoms
    simp only [List.mem_cons, List.not_mem_nil, or_false] at hc
    rcases hc with rfl | rfl
    · refine ⟨?_, ?_, ?_⟩ <;> simp [sampleCodecs, word]
    · refine ⟨by decide, by show 17 < 256 ^ 33; decide, ?_⟩
      intro proof hproof
      cases hproof
      exact SampleCodecs.prefixedWord_valid (by decide) (by decide) (by decide)
  proof := by
    intro p hp
    cases hp
    refine ⟨?_, ?_, ?_⟩ <;> simp [sampleCodecs, fixedWord]
  featArgs := by
    intro a ha
    cases ha
    decide

theorem locked_features : locked.FeaturesValid := .inr ⟨.inl rfl, rfl⟩

theorem locked_read_write :
    (SlateV4Bin.read sampleCodecs (SlateV4Bin.write sampleCodecs locked)).1 = .ok locked :=
  (SlateV4Bin.read_write_iff locked_typed locked_features (by decide)
    (by intro coms hcoms; cases hcoms; decide)).mpr
    ⟨by decide, by decide, by intro coms hcoms; cases hcoms; decide⟩

/-- The same slate with a kernel of the NRD kind. -/
def recent : SlateV4 Nat Nat := { locked with feat := 3 }

/-- An NRD slate comes back without its relative lock height. -/
theorem recent_not_read_write :
    ¬ ∀ v : SlateV4 Nat Nat, v.Typed sampleCodecs → v.FeaturesValid → v.sigs.length ≤ 255 →
      (∀ coms ∈ v.coms, coms.length ≤ 65535) →
      (SlateV4Bin.read sampleCodecs (SlateV4Bin.write sampleCodecs v)).1 = .ok v := by
  intro h
  have htyped : recent.Typed sampleCodecs :=
    { locked_typed with optFields := ⟨by decide, by decide, by decide, by decide, by decide⟩ }
  have hlen : ∀ coms ∈ recent.coms, coms.length ≤ 65535 := by
    intro coms hcoms
    cases hcoms
    decide
  have hread := (SlateV4Bin.write_decodes htyped (by decide) hlen).value_eq
    (h recent htyped (.inr ⟨.inr rfl, rfl⟩) (by decide) hlen)
  have hargs := congrArg SlateV4.featArgs hread
  cases hargs

end SampleSlateV4

end GrinWallet
