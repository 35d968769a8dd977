import GrinWallet.Formats.BinarySlate
import GrinWallet.Formats.Armor
import GrinWallet.Formats.Encryption

/-! # The size of an armored slate

The limit on the size of an armored slatepack is 32 characters for each unit of
the largest weight of a transaction. An input has weight 1 and takes 35 bytes, an
output has weight 21 and takes 718; base58 and the separators make about 1.46
characters of a byte.
-/

namespace GrinWallet

open Effect Wire

variable {F E : Type}

/-! ## The binary slate -/

/-- The bytes the types of the libraries take. -/
structure Codecs.Widths (C : Codecs F E) : Prop where
  blindingFactor : ∀ a, (C.blindingFactor.write a).length = 32
  publicKey : ∀ a, (C.publicKey.write a).length = 33
  signature : ∀ a, (C.signature.write a).length = 64
  commitment : ∀ a, (C.commitment.write a).length = 33
  /-- A proof of 675 bytes behind its length. -/
  rangeProof : ∀ a, (C.rangeProof.write a).length = 683

/-- The bytes of an optional part. -/
def partSize (c : Prop) [Decidable c] (n : Nat) : Nat := if c then n else 0

namespace ParticipantDataV4

def size (s : ParticipantDataV4 F E) : Nat := 67 + partSize s.part.isSome 64

theorem write_length {C : Codecs F E} (h : C.Widths) (s : ParticipantDataV4 F E) :
    (s.write C).length = s.size := by
  unfold write size partSize
  cases s.part <;> simp [Ser.u8, word, h.publicKey, h.signature]

end ParticipantDataV4

namespace CommitsV4

def size (o : CommitsV4 E) : Nat := 35 + partSize o.p.isSome 683

theorem write_length {C : Codecs F E} (h : C.Widths) (o : CommitsV4 E) :
    (o.write C).length = o.size := by
  unfold write size partSize
  cases o.p <;> simp [Ser.u8, Ser.outputFeatures, word, h.commitment, h.rangeProof]

end CommitsV4

namespace PaymentInfoV4

def size (p : PaymentInfoV4) : Nat := 65 + partSize p.rsig.isSome 64

theorem write_length {C : Codecs F E} (p : PaymentInfoV4) : (ProofWrap.write C p).length = p.size := by
  unfold ProofWrap.write size partSize
  cases p.rsig <;> simp [Ser.u8, word, C.dalekPublicKey.length_toBytes, C.dalekSignature.length_toBytes]

end PaymentInfoV4

namespace SlateOptFields

def size (o : SlateOptFields) : Nat :=
  1 + partSize (o.numParts ≠ 2) 1 + partSize (o.amt > 0) 8 + partSize (o.fee.fee > 0) 8 +
    partSize (o.feat > 0) 1 + partSize (o.ttl > 0) 8

theorem write_length (o : SlateOptFields) : o.write.length = o.size := by
  unfold write size partSize
  simp only [status_numParts, status_amt, status_fee, status_feat, status_ttl, List.length_append,
    apply_ite List.length, Ser.u8, Ser.u64, Ser.feeFields, word, wordBytes_length, List.length_nil]

end SlateOptFields

namespace SlateV4

/-- The bytes of the binary slate. -/
def size (v : SlateV4 F E) : Nat :=
  53 + v.optFields.size + (1 + (v.sigs.map (·.size)).sum) +
    (1 + v.coms.elim 0 (fun coms => 2 + (coms.map (·.size)).sum) + v.proof.elim 0 (·.size)) +
    partSize (v.feat = 2) 8

theorem write_length {C : Codecs F E} (h : C.Widths) (v : SlateV4 F E) :
    (SlateV4Bin.write C v).length = v.size := by
  have hsigs : (SigsWrap.write C v.sigs).length = 1 + (v.sigs.map (·.size)).sum := by
    simp [SigsWrap.write, List.length_flatMap, ParticipantDataV4.write_length h, Ser.u8, word]
  have hcoms : (v.coms.elim [] (ComsWrap.write C)).length =
      v.coms.elim 0 fun coms => 2 + (coms.map (·.size)).sum := by
    cases v.coms with
    | none => rfl
    | some coms =>
        simp [ComsWrap.write, List.length_flatMap, CommitsV4.write_length h, Ser.u16, word]
  have hproof : (v.proof.elim [] (ProofWrap.write C)).length = v.proof.elim 0 (·.size) := by
    cases v.proof with
    | none => rfl
    | some p => exact p.write_length
  have hstructs : (v.optStructs.write C).length =
      1 + v.coms.elim 0 (fun coms => 2 + (coms.map (·.size)).sum) + v.proof.elim 0 (·.size) := by
    unfold SlateOptStructs.write optStructs
    rw [List.length_append, List.length_append, hcoms, hproof]
    simp [Ser.u8, word]
  unfold SlateV4Bin.write size partSize
  simp only [List.length_append, hsigs, hstructs, SlateOptFields.write_length, h.blindingFactor,
    apply_ite List.length, Ser.u16, Ser.u64, UuidWrap.write, word, wordBytes_length,
    List.length_nil, SlateStateV4.write, Ser.u8]

end SlateV4

/-- An input takes 35 bytes and an output 718. -/
theorem Slate.commits_size (tx : Transaction F E) :
    ((tx.inputs.map CommitsV4.fromInput ++ tx.outputs.map CommitsV4.fromOutput).map (·.size)).sum =
      35 * tx.inputs.length + 718 * tx.outputs.length := by
  have hin : ∀ i : Input E, (CommitsV4.fromInput i).size = 35 := fun _ => rfl
  have hout : ∀ o : Output E, (CommitsV4.fromOutput o).size = 718 := fun _ => rfl
  simp [Function.comp_def, hin, hout, Nat.mul_comm]

/-! ## The binary slatepack -/

/-- The bytes of a sender that can be written. -/
def SlatepackBin.SenderSize (N : SlatepackEnv F E) (sender : Option SlatepackAddress) (n : Nat) :
    Prop :=
  sender.elim (n = 0) fun a => ∃ text, a.encoded N = .ok text ∧ text.length ≤ 255 ∧
    n = 1 + text.length

theorem SlatepackVersion.write_length (v : SlatepackVersion) : v.write.length = 2 := rfl

/-- A sender that can be written takes its bytes, and a slatepack 17 more than its
sender and its payload. -/
theorem SlatepackBin.SenderSize.write {N : SlatepackEnv F E} {sp : Slatepack} {n : Nat}
    (h : SenderSize N sp.sender n) :
    ∃ bytes, write N sp = .ok bytes ∧ bytes.length = 17 + n + sp.payload.length := by
  unfold SenderSize at h
  unfold SlatepackBin.write Slatepack.optFieldsLen
  cases hs : sp.sender with
  | none =>
      rw [hs] at h
      have hn : n = 0 := h
      refine ⟨_, rfl, ?_⟩
      simp only [List.length_append, SlatepackVersion.write_length, Ser.u8, Ser.u16, Ser.u32, Ser.u64,
        word, wordBytes_length, List.length_nil]
      omega
  | some a =>
      rw [hs] at h
      obtain ⟨text, htext, hlen, hn⟩ := h
      have hwrite : a.write N = .ok (Ser.u8.write (text.length % 2 ^ 8) ++ text) := by
        unfold SlatepackAddress.write
        rw [htext]
        exact if_neg (by omega)
      have hcount : a.encodedLen N = .ok (text.length + 1) := by
        unfold SlatepackAddress.encodedLen
        rw [htext]
        rfl
      simp only [hcount, Option.elim_some, hwrite]
      refine ⟨_, rfl, ?_⟩
      simp only [List.length_append, SlatepackVersion.write_length, Ser.u8, Ser.u16, Ser.u32, Ser.u64,
        word, wordBytes_length]
      omega

theorem SlatepackBin.write_size {N : SlatepackEnv F E} {sp : Slatepack} {bytes : Bytes}
    (h : write N sp = .ok bytes) :
    ∃ n, SenderSize N sp.sender n := by
  unfold write Slatepack.optFieldsLen at h
  unfold SenderSize
  cases hs : sp.sender with
  | none => exact ⟨0, rfl⟩
  | some a =>
      rw [hs] at h
      obtain ⟨optLen, hopt, h⟩ := except_bind_eq_ok.mp h
      obtain ⟨sender, hsender, -⟩ := except_bind_eq_ok.mp h
      have hsender : a.write N = .ok sender := hsender
      unfold SlatepackAddress.write at hsender
      cases htext : a.encoded N with
      | error e =>
          rw [htext] at hsender
          cases hsender
      | ok text =>
          rw [htext] at hsender
          by_cases hlen : text.length > 255
          · simp [hlen] at hsender
          · exact ⟨1 + text.length, text, htext, by omega, rfl⟩

namespace SlatepackArmor

variable {N : ArmorEnv F E}

/-- The separators in front of a position. -/
def separators (i : Nat) : Nat := (i - 1) / 15

theorem separators_succ (i : Nat) :
    separators (i + 1) = separators i + (separator i).toList.length := by
  have hwords : WORD_LENGTH = 15 := rfl
  unfold separators separator
  rw [hwords]
  split_ifs with hpos hline
  · rw [Option.toList_some, List.length_singleton]
    omega
  · rw [Option.toList_some, List.length_singleton]
    omega
  · rw [Option.toList_none, List.length_nil]
    omega

theorem formatSlatepack_length (text : Bytes) :
    (formatSlatepack text).length = text.length + separators text.length := by
  have h := Text.separated_length separators_succ 0 text
  rw [Nat.zero_add] at h
  exact h

/-- The characters of an armored slatepack, from those of its base58 text. -/
def textSize (chars : Nat) : Nat := 31 + chars + (14 + chars) / 15

/-- The text of an armored slatepack, by the base58 text of its binary form. -/
theorem encode_size {sp : Slatepack} {bytes : Bytes}
    (h : SlatepackBin.write N.toSlatepackEnv sp = .ok bytes) :
    ∃ text, encode N sp = .ok text ∧ text.length = textSize (base58check N bytes).length := by
  have hheader : HEADER.length = 15 := by decide
  have hfooter : FOOTER.length = 15 := by decide
  unfold encode
  rw [h]
  refine ⟨_, rfl, ?_⟩
  rw [List.length_append, List.length_append, formatSlatepack_length, List.length_append, hheader,
    hfooter, List.length_singleton]
  unfold separators textSize
  have harith : 15 + (base58check N bytes).length - 1 = 14 + (base58check N bytes).length := by omega
  rw [harith]
  omega

theorem encode_eq_ok {sp : Slatepack} {text : Bytes} (h : encode N sp = .ok text) :
    ∃ bytes, SlatepackBin.write N.toSlatepackEnv sp = .ok bytes := by
  unfold encode at h
  cases hw : SlatepackBin.write N.toSlatepackEnv sp with
  | ok bytes => exact ⟨bytes, rfl⟩
  | error e => cases e <;> simp [hw] at h

end SlatepackArmor

/-! ## Base58 -/

/-- The characters base58 makes of a number of bytes at most. -/
def expanded (n : Nat) : Nat := (13658 * n + 9999) / 10000

/-- An encoding in the base58 alphabet that expands by no more than 1.3658. -/
structure Base58 where
  encode : Bytes → Bytes
  decode : Bytes → Option Bytes
  alphabet : ∀ bs, ∀ c ∈ encode bs, c ∈ base58Alphabet
  inverse : ∀ bs, decode (encode bs) = some bs
  expansion : ∀ bs, (encode bs).length ≤ expanded bs.length

namespace Base58

/-- The packer with another base58 encoding. -/
def install (B : Base58) (N : PackerEnv F E) : PackerEnv F E :=
  { N with
    base58Encode := B.encode
    base58Decode := B.decode
    base58_alphabet := B.alphabet
    base58_inverse := B.inverse }

theorem encode_injective (B : Base58) {bs cs : Bytes} (h : B.encode bs = B.encode cs) : bs = cs := by
  have hbs := B.inverse bs
  rw [h, B.inverse cs] at hbs
  exact (Option.some.inj hbs).symm

/-- The text of some bytes, padded to the length it may have. -/
def padded (B : Base58) (target : Bytes) : Bytes :=
  B.encode target ++ List.replicate (expanded target.length - (B.encode target).length) 49

theorem padded_length (B : Base58) (target : Bytes) :
    (B.padded target).length = expanded target.length := by
  have h := B.expansion target
  unfold padded
  rw [List.length_append, List.length_replicate]
  omega

theorem padded_alphabet (B : Base58) (target : Bytes) :
    ∀ c ∈ B.padded target, c ∈ base58Alphabet := by
  intro c hc
  rcases List.mem_append.mp hc with hc | hc
  · exact B.alphabet target c hc
  · rw [List.eq_of_mem_replicate hc]
    decide

/-- The encoding with the text of some bytes exchanged for the padded one: it is
as long as it may be there. -/
def stretch (B : Base58) (target : Bytes) : Base58 where
  encode bs := Equiv.swap (B.encode target) (B.padded target) (B.encode bs)
  decode s := B.decode (Equiv.swap (B.encode target) (B.padded target) s)
  alphabet bs := by
    rw [Equiv.swap_apply_def]
    split_ifs
    · exact B.padded_alphabet target
    · exact B.alphabet target
    · exact B.alphabet bs
  inverse bs := by
    rw [Equiv.swap_apply_self]
    exact B.inverse bs
  expansion bs := by
    rw [Equiv.swap_apply_def]
    split_ifs with hsame hpadded
    · rw [B.padded_length, B.encode_injective hsame]
    · have hlen := B.expansion bs
      rw [hpadded, B.padded_length] at hlen
      exact Nat.le_trans (B.expansion target) hlen
    · exact B.expansion bs

theorem stretch_length (B : Base58) (target : Bytes) :
    ((B.stretch target).encode target).length = expanded target.length := by
  show (Equiv.swap (B.encode target) (B.padded target) (B.encode target)).length = _
  rw [Equiv.swap_apply_left, B.padded_length]

end Base58

/-! ## From the slate to the text -/

/-- `Transaction::weight` of the transaction of a slate, if it has one. -/
def Slate.weight (s : Slate F E) : Nat :=
  s.tx.elim 0 fun tx => weightByIok tx.inputs.length tx.outputs.length tx.kernels.length

namespace Slatepacker

variable {N : PackerEnv F E} {args : SlatepackerArgs} {slate : Slate F E}

/-- The slatepack of a slate before it is encrypted. -/
def plain (N : PackerEnv F E) (args : SlatepackerArgs) (slate : Slate F E) : Slatepack :=
  { Slatepack.default with
    payload := SlateV4Bin.write N.toCodecs (.fromSlate slate)
    sender := args.sender }

/-- The bytes of the binary slatepack of a slate: in plain text by the sizes of
the sender and the slate, and else by the size of the encrypted file. -/
def BinarySize (N : PackerEnv F E) (args : SlatepackerArgs) (slate : Slate F E) (n : Nat) : Prop :=
  if args.recipients = [] then
    ∃ m, SlatepackBin.SenderSize N.toSlatepackEnv args.sender m ∧
      n = 17 + m + (SlateV4.fromSlate slate).size
  else
    ∃ file, (plain N args slate).encryptPayload N none args.recipients = .ok file ∧
      n = 17 + file.length

theorem createSlatepack_plain (h : args.recipients = []) :
    createSlatepack N args slate = .ok (plain N args slate) := by
  unfold createSlatepack Slatepack.tryEncryptPayload
  rw [h]
  rfl

theorem createSlatepack_encrypted (h : args.recipients ≠ []) {sp : Slatepack} :
    createSlatepack N args slate = .ok sp ↔
      ∃ file, (plain N args slate).encryptPayload N none args.recipients = .ok file ∧
        sp = (plain N args slate).sealed file :=
  Slatepack.tryEncryptPayload_eq_ok h

/-- The slatepacks that are made and can be written. -/
theorem binarySize_iff (h : N.Widths) {n : Nat} :
    BinarySize N args slate n ↔ ∃ sp bytes, createSlatepack N args slate = .ok sp ∧
      SlatepackBin.write N.toSlatepackEnv sp = .ok bytes ∧ bytes.length = n := by
  have hpayload : (plain N args slate).payload.length = (SlateV4.fromSlate slate).size :=
    (SlateV4.fromSlate slate).write_length h
  unfold BinarySize
  by_cases hplain : args.recipients = []
  · rw [if_pos hplain, createSlatepack_plain hplain]
    constructor
    · rintro ⟨m, hsender, rfl⟩
      have hsender : SlatepackBin.SenderSize N.toSlatepackEnv (plain N args slate).sender m := hsender
      obtain ⟨bytes, hbytes, hlen⟩ := hsender.write
      exact ⟨_, bytes, rfl, hbytes, by rw [hlen, hpayload]⟩
    · rintro ⟨sp, bytes, hsp, hbytes, rfl⟩
      cases hsp
      obtain ⟨m, hsender⟩ := SlatepackBin.write_size hbytes
      obtain ⟨bytes', hbytes', hlen⟩ := hsender.write
      rw [hbytes] at hbytes'
      cases hbytes'
      exact ⟨m, hsender, by rw [hlen, hpayload]⟩
  · rw [if_neg hplain]
    have hsealed : ∀ file : Bytes, ∃ bytes,
        SlatepackBin.write N.toSlatepackEnv ((plain N args slate).sealed file) = .ok bytes ∧
          bytes.length = 17 + file.length := by
      intro file
      have hnone : SlatepackBin.SenderSize N.toSlatepackEnv
        ((plain N args slate).sealed file).sender 0 := rfl
      exact hnone.write
    constructor
    · rintro ⟨file, hfile, rfl⟩
      obtain ⟨bytes, hbytes, hlen⟩ := hsealed file
      exact ⟨_, bytes, (createSlatepack_encrypted hplain).mpr ⟨file, hfile, rfl⟩, hbytes, hlen⟩
    · rintro ⟨sp, bytes, hsp, hbytes, rfl⟩
      obtain ⟨file, hfile, rfl⟩ := (createSlatepack_encrypted hplain).mp hsp
      obtain ⟨bytes', hbytes', hlen⟩ := hsealed file
      rw [hbytes] at hbytes'
      cases hbytes'
      exact ⟨file, hfile, hlen⟩

/-- The text of the slate passes the size check of its reader, whatever base58
makes of the bytes within its expansion. -/
def Admitted (N : PackerEnv F E) (args : SlatepackerArgs) (slate : Slate F E) : Prop :=
  ∀ (B : Base58) (sp : Slatepack) (text : Bytes),
    createSlatepack (B.install N) args slate = .ok sp →
      armorSlatepack (B.install N) sp = .ok text →
        SlatepackArmor.minSize ≤ text.length ∧ text.length ≤ SlatepackArmor.maxSize N.toArmorEnv

theorem textSize_mono {c d : Nat} (h : c ≤ d) :
    SlatepackArmor.textSize c ≤ SlatepackArmor.textSize d := by
  unfold SlatepackArmor.textSize
  omega

theorem minSize_le_textSize (c : Nat) : SlatepackArmor.minSize ≤ SlatepackArmor.textSize c := by
  have hmin : SlatepackArmor.minSize = 15 := by decide
  unfold SlatepackArmor.textSize
  omega

/-- A text, by the bytes it is made of. -/
theorem armorSlatepack_size (B : Base58) {sp : Slatepack} {bytes : Bytes}
    (h : SlatepackBin.write N.toSlatepackEnv sp = .ok bytes) :
    ∃ text, armorSlatepack (B.install N) sp = .ok text ∧ text.length = SlatepackArmor.textSize
      (B.encode (SlatepackArmor.generateCheck N.toArmorEnv bytes ++ bytes)).length :=
  SlatepackArmor.encode_size (N := (B.install N).toArmorEnv) h

theorem checked_length (bytes : Bytes) :
    (SlatepackArmor.generateCheck N.toArmorEnv bytes ++ bytes).length = bytes.length + 4 := by
  rw [List.length_append, SlatepackArmor.generateCheck_length, Nat.add_comm]

/-- What fits is admitted, and what is admitted fits at the full expansion. -/
theorem admitted_iff (h : N.Widths) (B : Base58) :
    Admitted N args slate ↔ ∀ n, BinarySize N args slate n →
      SlatepackArmor.textSize (expanded (n + 4)) ≤ SlatepackArmor.maxSize N.toArmorEnv := by
  constructor
  · intro hall n hn
    obtain ⟨sp, bytes, hsp, hbytes, rfl⟩ := (binarySize_iff h).mp hn
    obtain ⟨text, htext, hlen⟩ := armorSlatepack_size
      (B.stretch (SlatepackArmor.generateCheck N.toArmorEnv bytes ++ bytes)) hbytes
    have hmax := (hall _ sp text hsp htext).2
    rw [hlen, Base58.stretch_length, checked_length] at hmax
    exact hmax
  · intro hall B sp text hsp htext
    obtain ⟨bytes, hbytes⟩ := SlatepackArmor.encode_eq_ok htext
    have hsp : createSlatepack N args slate = .ok sp := hsp
    have hbytes : SlatepackBin.write N.toSlatepackEnv sp = .ok bytes := hbytes
    obtain ⟨text', htext', hlen⟩ := armorSlatepack_size B hbytes
    rw [htext] at htext'
    cases htext'
    have hfits := hall bytes.length ((binarySize_iff h).mpr ⟨sp, bytes, hsp, hbytes, rfl⟩)
    have hexpansion := B.expansion (SlatepackArmor.generateCheck N.toArmorEnv bytes ++ bytes)
    rw [checked_length] at hexpansion
    rw [hlen]
    exact ⟨minSize_le_textSize _, Nat.le_trans (textSize_mono hexpansion) hfits⟩

/-- The base58 encoding of the packer. -/
def base58 (N : PackerEnv F E)
    (hexp : ∀ bs, (N.base58Encode bs).length ≤ expanded bs.length) : Base58 where
  encode := N.base58Encode
  decode := N.base58Decode
  alphabet := N.base58_alphabet
  inverse := N.base58_inverse
  expansion := hexp

end Slatepacker

namespace SampleSlatepack

theorem sampleCodecs_widths : sampleCodecs.Widths where
  blindingFactor := wordBytes_length 32
  publicKey := wordBytes_length 33
  signature sig := by
    show (wordBytes 32 sig.nonce ++ wordBytes 32 sig.s).length = 64
    rw [List.length_append, wordBytes_length, wordBytes_length]
  commitment := wordBytes_length 33
  rangeProof a := by
    show (Ser.u64.write 675 ++ wordBytes 675 a).length = 683
    rw [List.length_append, wordBytes_length]
    rfl

theorem pow_le_pow (n : Nat) : 256 ^ n ≤ 58 ^ expanded n := by
  have hbase : 256 ^ 134 ≤ 58 ^ 183 := by decide +kernel
  have hexp : 183 * n ≤ expanded n * 134 := by
    unfold expanded
    omega
  have hpow : (256 ^ n) ^ 134 ≤ (58 ^ expanded n) ^ 134 := by
    calc (256 ^ n) ^ 134 = (256 ^ 134) ^ n := Nat.pow_right_comm 256 n 134
      _ ≤ (58 ^ 183) ^ n := Nat.pow_le_pow_left hbase n
      _ = 58 ^ (183 * n) := (Nat.pow_mul 58 183 n).symm
      _ ≤ 58 ^ (expanded n * 134) := Nat.pow_le_pow_right (by decide) hexp
      _ = (58 ^ expanded n) ^ 134 := Nat.pow_mul 58 (expanded n) 134
  exact le_of_pow_le_pow_left₀ (by decide) (Nat.zero_le _) hpow

theorem base58Encode_length_le (bs : Bytes) : (base58Encode bs).length ≤ expanded bs.length := by
  have hlt : ∀ d ∈ bs.map UInt8.toNat, d < 256 := by
    intro d hd
    obtain ⟨b, -, rfl⟩ := List.mem_map.mp hd
    exact b.toNat_lt
  have hlen := Digits.length_convert_le (b := 256) (c := 58) (by decide) (by decide) hlt pow_le_pow
    fun z n => by
      unfold expanded
      omega
  rw [List.length_map] at hlen
  unfold base58Encode
  rw [List.length_map]
  exact hlen

theorem le_base58Encode_length (bs : Bytes) : bs.length ≤ (base58Encode bs).length := by
  have hlen := Digits.length_le_convert (b := 256) (c := 58) (by decide) (by decide)
    (bs.map UInt8.toNat)
  rw [List.length_map] at hlen
  unfold base58Encode
  rw [List.length_map]
  exact hlen

/-- A transaction with a number of inputs, one output and one kernel. -/
def sweep (inputs : Nat) : Transaction Nat Nat where
  offset := 0
  inputs := List.replicate inputs ⟨.Plain, 1⟩
  outputs := [⟨.Plain, 2, 0⟩]
  kernels := [⟨.Plain .zero, 0, ⟨0, 0⟩⟩]

def sweepSlate (inputs : Nat) : Slate Nat Nat where
  version := 4
  blockHeaderVersion := 3
  numParticipants := 2
  id := 0
  state := .Standard3
  tx := some (sweep inputs)
  amount := 0
  feeFields := .zero
  ttlCutoffHeight := 0
  kernelFeatures := 0
  offset := 0
  participantData := []
  paymentProof := none
  kernelFeaturesArgs := none

theorem sweepSlate_weight {inputs : Nat} (h : inputs ≤ 39952) :
    (sweepSlate inputs).weight ≤ samplePacker.maxTxWeight := by
  have hweight : (sweepSlate inputs).weight = weightByIok (sweep inputs).inputs.length 1 1 := rfl
  have hmax : samplePacker.maxTxWeight = 39976 := rfl
  have hinputs : (sweep inputs).inputs.length = inputs := List.length_replicate
  rw [hweight, hmax, hinputs]
  unfold weightByIok
  omega

theorem sweepSlate_size (inputs : Nat) :
    (SlateV4.fromSlate (sweepSlate inputs)).size = 776 + 35 * inputs := by
  have hsize : (SlateV4.fromSlate (sweepSlate inputs)).size = 53 + 1 + (1 + 0) + (1 +
      (2 + (((sweep inputs).inputs.map CommitsV4.fromInput ++
        (sweep inputs).outputs.map CommitsV4.fromOutput).map (·.size)).sum) + 0) + 0 := rfl
  have hinputs : (sweep inputs).inputs.length = inputs := List.length_replicate
  have houtputs : (sweep inputs).outputs.length = 1 := rfl
  rw [hsize, Slate.commits_size, hinputs, houtputs]
  omega

def openArgs : SlatepackerArgs := ⟨none, [], none⟩

theorem sweep_binarySize (inputs : Nat) :
    Slatepacker.BinarySize samplePacker openArgs (sweepSlate inputs) (793 + 35 * inputs) := by
  refine (if_pos rfl).mpr ⟨0, rfl, ?_⟩
  rw [sweepSlate_size]
  omega

end SampleSlatepack

end GrinWallet
