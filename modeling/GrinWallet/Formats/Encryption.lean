import GrinWallet.Formats.EncryptedMetadata
import GrinWallet.Model.SampleSlatepack

/-! # The round trip of an encrypted slatepack

With `age` as an ideal pair, what a recipient opens is what was encrypted. The
metadata in front of the payload is read back when its addresses are of the
network and the count of its recipients fits in 16 bits, which the writer does
not check; the encrypted payload is read when it is within the reader's limit.
-/

namespace GrinWallet

open Effect Wire

variable {F E : Type}

/-! ## What can be read -/

section Reads

variable {N : SlatepackEnv F E}

/-- Only addresses of the network are read. -/
theorem SlatepackAddress.read_hrp : Eff.Yields (read N) fun a => a.hrp = N.slatepackHrp := by
  refine Eff.Yields.bind_of_forall fun len => ?_
  refine Eff.Yields.bind_of_forall fun encoded => ?_
  cases h : tryFrom N encoded with
  | error e => exact .throw _
  | ok a => exact .pure (tryFrom_eq_ok h).1

theorem readCounted_hrp (n : Nat) :
    Eff.Yields (readCounted N n) fun p => p.1.hrp = N.slatepackHrp := by
  refine Eff.Yields.bind SlatepackAddress.read_hrp fun a ha => ?_
  cases a.encodedLen N with
  | error e => exact .throw _
  | ok len =>
      apply Eff.Yields.bind_of_forall
      intro n'
      exact .pure ha

theorem SlatepackBin.readSender_hrp (flags n : Nat) :
    Eff.Yields (readSender N flags n) fun p => ∀ a ∈ p.1, a.hrp = N.slatepackHrp := by
  apply Eff.Yields.ite
  · intro _
    refine Eff.Yields.bind (readCounted_hrp n) fun p hp => ?_
    exact .pure (by simpa using hp)
  · intro _
    exact .pure (by simp)

namespace SlatepackEncMetadataBin

theorem readRecipients_hrp (count n : Nat) :
    Eff.Yields (readRecipients N count n) fun p =>
      p.1.length = count ∧ ∀ a ∈ p.1, a.hrp = N.slatepackHrp := by
  induction count generalizing n with
  | zero => exact .pure ⟨rfl, by simp⟩
  | succ count ih =>
      refine Eff.Yields.bind (readCounted_hrp n) fun p hp => ?_
      refine Eff.Yields.bind (ih p.2) fun q hq => ?_
      exact .pure ⟨by simp [hq.1], by simpa using ⟨hp, hq.2⟩⟩

theorem u16_lt : Eff.Yields Ser.u16.read fun n => n < 2 ^ 16 := by
  intro s n s' h
  obtain ⟨bs, -, hlen, rfl⟩ := word_read_eq_ok h
  have hlt := wordValue_lt bs
  rw [hlen] at hlt
  omega

theorem readList_hrp (flags n : Nat) :
    Eff.Yields (readList N flags n) fun p =>
      p.1.length ≤ 65535 ∧ ∀ a ∈ p.1, a.hrp = N.slatepackHrp := by
  apply Eff.Yields.ite
  · intro _
    refine Eff.Yields.bind u16_lt fun count hcount => ?_
    refine Eff.Yields.bind_of_forall fun n' => ?_
    intro s p s' hp
    obtain ⟨hlen, hhrp⟩ := readRecipients_hrp count n' s p s' hp
    exact ⟨by omega, hhrp⟩
  · intro _
    exact .pure (by simp)

/-- What the metadata reader can return. -/
theorem read_hrp :
    Eff.Yields (read N) fun m => (∀ a ∈ m.sender, a.hrp = N.slatepackHrp) ∧
      m.recipients.length ≤ 65535 ∧ ∀ a ∈ m.recipients, a.hrp = N.slatepackHrp := by
  refine Eff.Yields.bind_of_forall fun n => ?_
  refine Eff.Yields.bind_of_forall fun flags => ?_
  refine Eff.Yields.bind_of_forall fun n => ?_
  refine Eff.Yields.bind (SlatepackBin.readSender_hrp flags n) fun p hp => ?_
  refine Eff.Yields.bind (readList_hrp flags p.2) fun q hq => ?_
  refine Eff.Yields.bind_of_forall fun _ => ?_
  exact .pure ⟨hp, hq⟩

end SlatepackEncMetadataBin

end Reads

/-! ## The encrypted payload -/

/-- `age` as an ideal pair: the identity of any listed recipient gives back what
was encrypted. -/
structure PackerEnv.IdealAge (N : PackerEnv F E) : Prop where
  decrypt : ∀ keys plain file, N.ageEncrypt keys plain = .ok file →
    ∃ decrypt, N.ageDecryptor file = .ok (.Recipients decrypt) ∧
      ∀ identity, N.ageRecipient identity ∈ keys → decrypt identity = .ok plain
  length : ∀ keys plain file, N.ageEncrypt keys plain = .ok file → file.length < 2 ^ 64

namespace Slatepack

variable {N : PackerEnv F E} {sp sp' : Slatepack} {testData : Option (Vector UInt8 139)}
  {recipients : List SlatepackAddress}

/-- The metadata that goes into the payload. -/
def sentMeta (sp : Slatepack) : SlatepackEncMetadata :=
  { sp.encryptedMeta with sender := sp.sender }

/-- The parts of an encrypted payload. -/
theorem encryptPayload_eq_ok {file : Bytes} :
    sp.encryptPayload N testData recipients = .ok file ↔ ∃ metaBytes padded keys,
      SlatepackEncMetadataBin.write N.toSlatepackEnv sp.sentMeta = .ok metaBytes ∧
      testData.elim (.ok metaBytes) (padTestData · metaBytes) = .ok padded ∧
      recipients.mapM N.toAgePubkey = .ok keys ∧
      N.ageEncrypt keys (padded ++ sp.payload) = .ok file := by
  unfold encryptPayload
  constructor
  · intro h
    obtain ⟨metaBytes, hmeta, h⟩ := except_bind_eq_ok.mp h
    obtain ⟨padded, hpadded, h⟩ := except_bind_eq_ok.mp h
    obtain ⟨keys, hkeys, hfile⟩ := except_bind_eq_ok.mp h
    exact ⟨metaBytes, padded, keys, except_mapError_eq_ok.mp hmeta, hpadded, hkeys, hfile⟩
  · rintro ⟨metaBytes, padded, keys, hmeta, hpadded, hkeys, hfile⟩
    exact except_bind_eq_ok.mpr ⟨metaBytes, except_mapError_eq_ok.mpr hmeta,
      except_bind_eq_ok.mpr ⟨padded, hpadded, except_bind_eq_ok.mpr ⟨keys, hkeys, hfile⟩⟩⟩

/-- What is opened comes from a metadata reader. -/
theorem openPayload_eq_ok {decrypted : Bytes} (h : openPayload N sp decrypted = .ok sp') :
    ∃ bytes inner s', SlatepackEncMetadataBin.read N.toSlatepackEnv bytes = (.ok inner, s') ∧
      sp'.sender = inner.sender ∧ sp'.encryptedMeta.recipients = inner.recipients := by
  unfold openPayload at h
  split_ifs at h with hlen
  by_cases hstart : wordValue (decrypted.take 4) + 4 > decrypted.length
  · simp [hstart] at h
  · simp only [if_neg hstart] at h
    cases hr : SlatepackEncMetadataBin.read N.toSlatepackEnv
        (decrypted.take (wordValue (decrypted.take 4) + 4)) with
    | mk r s' =>
        cases r with
        | error e => cases e <;> simp [hr] at h
        | ok inner =>
            simp only [hr, Except.ok.injEq] at h
            subst h
            exact ⟨_, inner, s', hr, rfl, rfl⟩

/-- Opening metadata that is read exactly, with the payload behind it. -/
theorem openPayload_append {inner : SlatepackEncMetadata} {body payload : Bytes}
    (hlen : body.length < 2 ^ 32)
    (hread : Decodes (SlatepackEncMetadataBin.read N.toSlatepackEnv)
      (Ser.u32.write body.length ++ body) inner) :
    openPayload N sp (Ser.u32.write body.length ++ body ++ payload) = .ok
      { sp with
        payload := payload
        sender := inner.sender
        encryptedMeta := { sp.encryptedMeta with recipients := inner.recipients }
        mode := 0 } := by
  have hword : (Ser.u32.write body.length).length = 4 := word_write_length _ 4 _
  have htake : (Ser.u32.write body.length ++ body ++ payload).take 4 =
      Ser.u32.write body.length := by
    rw [List.append_assoc]
    exact List.take_left' hword
  have hvalue : wordValue (Ser.u32.write body.length) = body.length :=
    wordValue_word_write (Ser.u32_valid.mpr hlen)
  have hfront : (Ser.u32.write body.length ++ body).length = body.length + 4 := by
    rw [List.length_append, hword, Nat.add_comm]
  unfold openPayload
  rw [if_neg (by simp only [List.length_append]; omega)]
  simp only [htake, hvalue]
  rw [if_neg (by simp only [List.length_append]; omega), List.take_left' hfront,
    List.drop_left' hfront, hread.eq_ok]

/-- Test data is announced with the metadata it stands behind. -/
theorem padTestData_eq (extraBytes : Vector UInt8 139) {body : Bytes} (hlen : body.length < 2 ^ 31) :
    padTestData extraBytes (Ser.u32.write body.length ++ body) = .ok
      (Ser.u32.write (body ++ extraBytes.toList).length ++ (body ++ extraBytes.toList)) := by
  have hword : (Ser.u32.write body.length).length = 4 := word_write_length _ 4 _
  have hvalue : wordValue (Ser.u32.write body.length) = body.length :=
    wordValue_word_write (Ser.u32_valid.mpr (by omega))
  have hlength : (body ++ extraBytes.toList).length = body.length + 139 := by
    rw [List.length_append, Vector.length_toList]
  unfold padTestData
  rw [List.take_left' hword, List.drop_left' hword, hvalue, hlength, ← List.append_assoc]
  exact if_pos (by omega)

/-- What is encrypted opens as the metadata and the payload it was made of. -/
theorem encryptPayload_opens {file : Bytes}
    (h : sp.encryptPayload N testData recipients = .ok file)
    (hsender : ∀ a ∈ sp.sender, a.Known N.toSlatepackEnv)
    (hrecipients : ∀ a ∈ sp.encryptedMeta.recipients, a.Known N.toSlatepackEnv)
    (hcount : sp.encryptedMeta.recipients.length ≤ 65535) :
    ∃ keys plain, recipients.mapM N.toAgePubkey = .ok keys ∧ N.ageEncrypt keys plain = .ok file ∧
      ∀ received : Slatepack, openPayload N received plain = .ok
        { received with
          payload := sp.payload
          sender := sp.sender
          encryptedMeta :=
            { received.encryptedMeta with recipients := sp.encryptedMeta.recipients }
          mode := 0 } := by
  obtain ⟨metaBytes, padded, keys, hmeta, hpadded, hkeys, hfile⟩ := encryptPayload_eq_ok.mp h
  obtain ⟨body, hwrite, hlen, hread⟩ :=
    SlatepackEncMetadataBin.write_decodes (m := sp.sentMeta) hsender hrecipients hcount
  rw [hwrite] at hmeta
  cases hmeta
  obtain ⟨whole, hbound, hdecodes, rfl⟩ : ∃ whole : Bytes, whole.length < 2 ^ 32 ∧
      Decodes (SlatepackEncMetadataBin.read N.toSlatepackEnv)
        (Ser.u32.write whole.length ++ whole) sp.sentMeta ∧
      padded = Ser.u32.write whole.length ++ whole := by
    cases testData with
    | none =>
        have hread := hread [] (by rw [List.length_nil]; omega)
        rw [List.append_nil, List.length_nil, Nat.add_zero] at hread
        exact ⟨body, by omega, hread, (Except.ok.inj hpadded).symm⟩
    | some extraBytes =>
        have hlength : (body ++ extraBytes.toList).length = body.length + extraBytes.toList.length :=
          List.length_append
        have hextra : extraBytes.toList.length = 139 := Vector.length_toList
        have hread := hread extraBytes.toList (by omega)
        rw [← hlength] at hread
        rw [Option.elim_some, padTestData_eq extraBytes hlen] at hpadded
        exact ⟨body ++ extraBytes.toList, by omega, hread, (Except.ok.inj hpadded).symm⟩
  refine ⟨keys, _, hkeys, hfile, fun received => ?_⟩
  exact openPayload_append hbound hdecodes

/-- The slatepack that is sent, read and decrypted is the original one. -/
def Recovers (N : PackerEnv F E) (sp sent : Slatepack) (decKey : SecretKey) : Prop :=
  ∃ bytes received opened, SlatepackBin.write N.toSlatepackEnv sent = .ok bytes ∧
    (SlatepackBin.read N.toSlatepackEnv bytes).1 = .ok received ∧
    received.tryDecryptPayload N (some decKey) = .ok opened ∧
    opened.mode = 0 ∧ opened.sender = sp.sender ∧
    opened.encryptedMeta.recipients = sp.encryptedMeta.recipients ∧
    opened.payload = sp.payload

/-- What can be recovered. -/
structure Recoverable (N : PackerEnv F E) (sp : Slatepack) (file : Bytes) : Prop where
  sender : ∀ a ∈ sp.sender, a.hrp = N.slatepackHrp
  recipients : ∀ a ∈ sp.encryptedMeta.recipients, a.hrp = N.slatepackHrp
  count : sp.encryptedMeta.recipients.length ≤ 65535
  file : file.length ≤ N.readLimit

/-- The slatepack an encryption returns. -/
def sealed (sp : Slatepack) (file : Bytes) : Slatepack :=
  { sp with
    encryptedMeta := sp.sentMeta
    sender := none
    payload := file
    mode := 1 }

theorem tryEncryptPayload_eq_ok (hne : recipients ≠ []) {sent : Slatepack} :
    sp.tryEncryptPayload N testData recipients = .ok sent ↔
      ∃ file, sp.encryptPayload N testData recipients = .ok file ∧ sent = sp.sealed file := by
  unfold tryEncryptPayload
  rw [if_neg (by simpa using hne), except_bind_eq_ok]
  constructor
  · rintro ⟨file, hfile, h⟩
    cases h
    exact ⟨file, hfile, rfl⟩
  · rintro ⟨file, hfile, rfl⟩
    exact ⟨file, hfile, rfl⟩

/-- A recipient's identity decrypts to what was encrypted. -/
theorem tryDecryptPayload_eq {received : Slatepack} {decKey : SecretKey} {identity : Nat}
    {decrypt : Nat → Except Error Bytes} {plain : Bytes} (hmode : received.mode ≠ 0)
    (hid : N.ageIdentity decKey = .ok identity)
    (hdecryptor : N.ageDecryptor received.payload = .ok (.Recipients decrypt))
    (hplain : decrypt identity = .ok plain) :
    received.tryDecryptPayload N (some decKey) = openPayload N received plain := by
  unfold tryDecryptPayload
  rw [if_neg hmode]
  simp only [hid, hdecryptor, hplain, bind, Except.bind]

/-- The key of one of the listed recipients. -/
def RecipientKey (N : PackerEnv F E) (recipients : List SlatepackAddress) (decKey : SecretKey) :
    Prop :=
  ∃ identity, N.ageIdentity decKey = .ok identity ∧
    ∃ a ∈ recipients, N.toAgePubkey a = .ok (N.ageRecipient identity)

/-- The version numbers and the keys of the addresses are values of their types. -/
structure Sendable (N : PackerEnv F E) (sp : Slatepack) : Prop where
  major : sp.slatepack.major < 2 ^ 8
  minor : sp.slatepack.minor < 2 ^ 8
  senderKey : ∀ a ∈ sp.sender, N.dalekPublicKey.Valid a.pubKey
  recipientKeys : ∀ a ∈ sp.encryptedMeta.recipients, N.dalekPublicKey.Valid a.pubKey

section Recipient

variable {decKey : SecretKey} {file : Bytes}

/-- What a recipient opens of an encrypted slatepack. -/
theorem tryDecryptPayload_sealed (sp : Slatepack) (hage : N.IdealAge)
    (hkey : RecipientKey N recipients decKey) {keys : List Nat} {plain : Bytes}
    (hkeys : recipients.mapM N.toAgePubkey = .ok keys)
    (hfile : N.ageEncrypt keys plain = .ok file) :
    { sp.sealed file with encryptedMeta := .empty }.tryDecryptPayload N (some decKey) =
      openPayload N { sp.sealed file with encryptedMeta := .empty } plain := by
  obtain ⟨identity, hid, a, ha, haKey⟩ := hkey
  obtain ⟨decrypt, hdecryptor, hdecrypt⟩ := hage.decrypt keys plain file hfile
  obtain ⟨key, hmem, hkey⟩ := except_mapM_mem hkeys ha
  rw [haKey, Except.ok.injEq] at hkey
  subst hkey
  have hmode : { sp.sealed file with encryptedMeta := .empty }.mode ≠ 0 := Nat.one_ne_zero
  exact tryDecryptPayload_eq hmode hid hdecryptor (hdecrypt identity hmem)

theorem sealed_typed (hage : N.IdealAge) (h : sp.Sendable N)
    (hfile : sp.encryptPayload N testData recipients = .ok file) : (sp.sealed file).Typed := by
  obtain ⟨_, _, _, -, -, -, hfile⟩ := encryptPayload_eq_ok.mp hfile
  exact ⟨h.major, h.minor, hage.length _ _ _ hfile⟩

theorem sealed_sender (sp : Slatepack) (file : Bytes) :
    ∀ a ∈ (sp.sealed file).sender, a.Known N.toSlatepackEnv := by
  intro a ha
  cases ha

theorem Recoverable.recovers (hage : N.IdealAge) (h : sp.Sendable N)
    (hkey : RecipientKey N recipients decKey)
    (hfile : sp.encryptPayload N testData recipients = .ok file) (hok : sp.Recoverable N file) :
    sp.Recovers N (sp.sealed file) decKey := by
  obtain ⟨bytes, hwrite, hdecodes⟩ := SlatepackBin.write_decodes (sealed_typed hage h hfile)
    (Nat.le_refl 1) (sealed_sender sp file) hok.file
  obtain ⟨keys, plain, hkeys, hencrypt, hopens⟩ := encryptPayload_opens hfile
    (fun a ha => ⟨hok.sender a ha, h.senderKey a ha⟩)
    (fun a ha => ⟨hok.recipients a ha, h.recipientKeys a ha⟩) hok.count
  have hread : (SlatepackBin.read N.toSlatepackEnv bytes).1 =
      .ok { sp.sealed file with encryptedMeta := .empty } := by
    rw [hdecodes.eq_ok]
  have hopen := tryDecryptPayload_sealed sp hage hkey hkeys hencrypt
  rw [hopens] at hopen
  exact ⟨bytes, _, _, hwrite, hread, hopen, rfl, rfl, rfl, rfl⟩

theorem Recovers.recoverable (hage : N.IdealAge) (h : sp.Sendable N)
    (hkey : RecipientKey N recipients decKey)
    (hfile : sp.encryptPayload N testData recipients = .ok file)
    (hrec : sp.Recovers N (sp.sealed file) decKey) : sp.Recoverable N file := by
  have htyped := sealed_typed hage h hfile
  obtain ⟨bytes, received, opened, hwrite, hread, hopen, -, hsender, hlist, -⟩ := hrec
  have hlimit : file.length ≤ N.readLimit := by
    by_contra hlarge
    obtain ⟨bytes', hwrite', hread'⟩ := SlatepackBin.read_too_large htyped (Nat.le_refl 1)
      (sealed_sender sp file) (show file.length > N.readLimit by omega)
    rw [hwrite, Except.ok.injEq] at hwrite'
    subst hwrite'
    rw [hread] at hread'
    cases hread'
  obtain ⟨bytes', hwrite', hdecodes⟩ := SlatepackBin.write_decodes htyped (Nat.le_refl 1)
    (sealed_sender sp file) hlimit
  rw [hwrite, Except.ok.injEq] at hwrite'
  subst hwrite'
  have hreceived := hdecodes.value_eq hread
  subst hreceived
  obtain ⟨metaBytes, padded, keys, -, -, hkeys, hencrypt⟩ := encryptPayload_eq_ok.mp hfile
  rw [tryDecryptPayload_sealed sp hage hkey hkeys hencrypt] at hopen
  obtain ⟨_, inner, _, hinner, hinnerSender, hinnerList⟩ := openPayload_eq_ok hopen
  obtain ⟨hs, hcount, hl⟩ := SlatepackEncMetadataBin.read_hrp _ _ _ hinner
  rw [← hinnerSender, hsender] at hs
  rw [← hinnerList, hlist] at hl hcount
  exact ⟨hs, hl, hcount, hlimit⟩

/-- A slatepack whose encryption succeeds is recovered with the key of any of its
recipients exactly when its addresses are of the network, it has at most 65535
recipients in its metadata, and the encrypted payload can be read. -/
theorem recovers_iff (hage : N.IdealAge) (h : sp.Sendable N)
    (hkey : RecipientKey N recipients decKey) :
    (∀ sent, sp.tryEncryptPayload N testData recipients = .ok sent →
        sp.Recovers N sent decKey) ↔
      ∀ file, sp.encryptPayload N testData recipients = .ok file → sp.Recoverable N file := by
  have hne : recipients ≠ [] := by
    obtain ⟨_, -, a, ha, -⟩ := hkey
    exact List.ne_nil_of_mem ha
  constructor
  · intro hall file hfile
    exact (hall _ ((tryEncryptPayload_eq_ok hne).mpr ⟨file, hfile, rfl⟩)).recoverable hage h hkey
      hfile
  · intro hall sent hsent
    obtain ⟨file, hfile, rfl⟩ := (tryEncryptPayload_eq_ok hne).mp hsent
    exact (hall file hfile).recovers hage h hkey hfile

end Recipient

end Slatepack

namespace SampleSlatepack

open Slatepack (RecipientKey)

theorem readKeys_decodes {keys : List Nat} (hcount : keys.length < 2 ^ 16)
    (hkeys : ∀ k ∈ keys, k < 256 ^ 32) :
    Decodes readKeys (Ser.u16.write keys.length ++ keys.flatMap (wordBytes 32)) keys := by
  have hitems := times_decodes (f := id) fun k hk => (word SerError.IOErr 32).decodes k (hkeys k hk)
  rw [List.map_id] at hitems
  exact (Ser.u16.decodes _ (Ser.u16_valid.mpr hcount)).bind hitems

theorem sealed_length (keys : List Nat) (plain : Bytes) :
    (Ser.u16.write keys.length ++ keys.flatMap (wordBytes 32) ++ plain).length =
      2 + 32 * keys.length + plain.length := by
  have hcount : (Ser.u16.write keys.length).length = 2 := word_write_length _ 2 _
  have hkeys : (keys.flatMap (wordBytes 32)).length = 32 * keys.length := by
    rw [List.length_flatMap, List.map_congr_left fun k _ => wordBytes_length 32 k, List.map_const',
      List.sum_replicate, smul_eq_mul, Nat.mul_comm]
  rw [List.length_append, List.length_append, hcount, hkeys]

theorem samplePacker_ideal : samplePacker.IdealAge where
  decrypt := by
    intro keys plain file hfile
    have hfile : sealAge keys plain = .ok file := hfile
    unfold sealAge at hfile
    split_ifs at hfile with hok
    have hopen : openAge file = .ok (.Recipients fun identity =>
        if identity ∈ keys then .ok plain else .error (.Age "No matching keys found")) := by
      unfold openAge
      rw [← Except.ok.inj hfile, readKeys_decodes hok.1 hok.2.1 plain]
    refine ⟨_, hopen, ?_⟩
    intro identity hid
    exact if_pos hid
  length := by
    intro keys plain file hfile
    have hfile : sealAge keys plain = .ok file := hfile
    unfold sealAge at hfile
    split_ifs at hfile with hok
    rw [← Except.ok.inj hfile, sealed_length]
    exact hok.2.2

/-- The address of the sample key. -/
def recipient : SlatepackAddress := ⟨"grin", key⟩

/-- The secret key the sample `age` takes for the sample key. -/
def decKey : SecretKey := BitVec.ofNat 256 key

theorem recipientKey : RecipientKey samplePacker [recipient] decKey :=
  ⟨key, by decide, recipient, List.mem_singleton_self _, rfl⟩

theorem recipient_known : recipient.Known samplePacker.toSlatepackEnv :=
  ⟨rfl, by show key < 256 ^ 32; decide⟩

theorem recovered_iff : (∀ sent,
      slatepack.tryEncryptPayload samplePacker none [recipient] = .ok sent →
        slatepack.Recovers samplePacker sent decKey) ↔
    ∀ file, slatepack.encryptPayload samplePacker none [recipient] = .ok file →
      slatepack.Recoverable samplePacker file :=
  Slatepack.recovers_iff samplePacker_ideal
    ⟨by decide, by decide, fun a ha => by cases ha; exact recipient_known.2,
      fun a ha => by cases ha⟩ recipientKey

/-- The sample slatepack with a number of recipients in its metadata. -/
def crowded (count : Nat) : Slatepack :=
  { slatepack with encryptedMeta := ⟨none, List.replicate count recipient⟩ }

theorem crowded_sendable (count : Nat) : (crowded count).Sendable samplePacker where
  major := show 1 < 2 ^ 8 by decide
  minor := show 0 < 2 ^ 8 by decide
  senderKey a ha := by cases ha; exact recipient_known.2
  recipientKeys a ha := by
    rw [List.eq_of_mem_replicate ha]
    exact recipient_known.2

/-- Any number of recipients is encrypted. -/
theorem crowded_encrypted {count : Nat} (hcount : count < 2 ^ 32) :
    ∃ file, (crowded count).encryptPayload samplePacker none [recipient] = .ok file := by
  obtain ⟨metaBytes, hmeta, hlen⟩ := SlatepackEncMetadataBin.write_ok
    (N := samplePacker.toSlatepackEnv) (m := (crowded count).sentMeta)
    (fun a ha => by cases ha; exact recipient_known)
    (fun a ha => by
      rw [List.eq_of_mem_replicate ha]
      exact recipient_known)
  have hlist : (crowded count).sentMeta.recipients.length = count := List.length_replicate
  have hpayload : (crowded count).payload.length = 3 := rfl
  have hkey : key < 256 ^ 32 := recipient_known.2
  rw [hlist] at hlen
  have hseal : ∃ file, sealAge [key] (metaBytes ++ (crowded count).payload) = .ok file := by
    unfold sealAge
    rw [if_pos]
    · exact ⟨_, rfl⟩
    · refine ⟨by simp, by simpa using hkey, ?_⟩
      rw [List.length_append, hpayload, List.length_singleton]
      omega
  obtain ⟨file, hfile⟩ := hseal
  exact ⟨file, Slatepack.encryptPayload_eq_ok.mpr
    ⟨metaBytes, metaBytes, [key], hmeta, rfl, rfl, hfile⟩⟩

/-- 65536 recipients are written with the count 0, and none of them is read. -/
theorem crowded_not_recovered :
    ¬ ∀ (sp sent : Slatepack) (recipients : List SlatepackAddress) (decKey : SecretKey),
      sp.Sendable samplePacker → RecipientKey samplePacker recipients decKey →
        sp.tryEncryptPayload samplePacker none recipients = .ok sent →
          sp.Recovers samplePacker sent decKey := by
  intro hall
  obtain ⟨file, hfile⟩ := crowded_encrypted (show 65536 < 2 ^ 32 by decide)
  have hsent := (Slatepack.tryEncryptPayload_eq_ok (List.cons_ne_nil recipient [])).mpr
    ⟨file, hfile, rfl⟩
  have hrec := hall _ _ _ _ (crowded_sendable 65536) recipientKey hsent
  have hcount := (hrec.recoverable samplePacker_ideal (crowded_sendable 65536) recipientKey
    hfile).count
  have hlist : (crowded 65536).encryptedMeta.recipients.length = 65536 := List.length_replicate
  omega

end SampleSlatepack

end GrinWallet
