import GrinWallet.Formats.Armor
import GrinWallet.Formats.BinarySlate
import GrinWallet.Formats.Encryption
import GrinWallet.Formats.SlateConversion
import GrinWallet.Model.SlatepackMessage

/-! # A slate through a slatepack message

From a slate to the armored text and back, through all of the formats at once. A
message for recipients gives the slate, and shows its sender, to a wallet with the
key of one of them at an index it tries, and to no other; a message for nobody in
particular gives them to everybody.
-/

namespace GrinWallet

open Effect Wire

variable {F E : Type} {N : PackerEnv F E}

/-- Only a key of a recipient opens an `age` file, and every secret key makes an identity. -/
structure PackerEnv.ExclusiveAge (N : PackerEnv F E) : Prop where
  refuse : ∀ keys plain file decrypt, N.ageEncrypt keys plain = .ok file →
    N.ageDecryptor file = .ok (.Recipients decrypt) → ∀ identity, N.ageRecipient identity ∉ keys →
      ∃ e, decrypt identity = .error e ∧ ∀ reason, e ≠ .Panic reason
  identity : ∀ decKey, ∃ identity, N.ageIdentity decKey = .ok identity

/-! ## The text -/

namespace Slatepacker

/-- What a reader takes off the armor of a slatepack within its limits. -/
theorem deserSlatepack_written {sp : Slatepack} {text : Bytes} (h : sp.Typed) (hmode : sp.mode ≤ 1)
    (hsender : ∀ a ∈ sp.sender, a.Known N.toSlatepackEnv) (hpayload : sp.payload.length ≤ N.readLimit)
    (htext : armorSlatepack N sp = .ok text) (hsize : text.length ≤ SlatepackArmor.maxSize N.toArmorEnv)
    (args : SlatepackerArgs) (decrypt : Bool) :
    deserSlatepack N args text decrypt =
      if decrypt then { sp with encryptedMeta := .empty }.tryDecryptPayload N args.decKey
      else .ok { sp with encryptedMeta := .empty } := by
  obtain ⟨bytes, part, -, hencode, hdecode, -, hread⟩ :=
    SlatepackArmor.round_trip (N := N.toArmorEnv) h hmode hsender hpayload
  have heq : text = HEADER ++ part ++ FOOTER ++ [10] := Except.ok.inj (htext.symm.trans hencode)
  subst heq
  have hmin : ¬ ((HEADER ++ part ++ FOOTER ++ [10]).length < SlatepackArmor.minSize ∨
      (HEADER ++ part ++ FOOTER ++ [10]).length > SlatepackArmor.maxSize N.toArmorEnv) := by
    rintro (hlow | hhigh)
    · simp only [SlatepackArmor.minSize, List.length_append] at hlow
      omega
    · omega
  have hheader : (HEADER ++ part ++ FOOTER ++ [10]).take HEADER.length = HEADER := by
    rw [List.append_assoc, List.append_assoc, List.take_left]
  unfold deserSlatepack removeArmor parseSlatepack
  rw [if_neg hmin, if_pos hheader, hdecode]
  simp only [bind, Except.bind, hread]
  cases decrypt <;> rfl

end Slatepacker

/-! ## The keys -/

namespace Slatepack

variable {sp : Slatepack} {recipients : List SlatepackAddress} {file : Bytes} {decKey : SecretKey}

/-- A slatepack as it is packed: its metadata names nobody else. -/
structure Packed (N : PackerEnv F E) (sp : Slatepack) : Prop where
  version : sp.slatepack = ⟨1, 0⟩
  mode : sp.mode = 0
  encryptedMeta : sp.encryptedMeta = .empty
  sender : ∀ a ∈ sp.sender, a.Known N.toSlatepackEnv

/-- A recipient opens the slatepack that was packed. -/
theorem Packed.opens (h : sp.Packed N) (hage : N.IdealAge)
    (hfile : sp.encryptPayload N none recipients = .ok file)
    (hkey : RecipientKey N recipients decKey) :
    { sp.sealed file with encryptedMeta := .empty }.tryDecryptPayload N (some decKey) = .ok sp := by
  have hnone : ∀ a ∈ sp.encryptedMeta.recipients, a.Known N.toSlatepackEnv := by
    rw [h.encryptedMeta]
    exact fun a ha => nomatch ha
  have hcount : sp.encryptedMeta.recipients.length ≤ 65535 := by
    rw [h.encryptedMeta]
    exact Nat.zero_le _
  obtain ⟨keys, plain, hkeys, hencrypt, hopens⟩ := encryptPayload_opens hfile h.sender hnone hcount
  rw [tryDecryptPayload_sealed sp hage hkey hkeys hencrypt, hopens]
  obtain ⟨version, mode, sender, encryptedMeta, payload⟩ := sp
  have hmode := h.mode
  have hmeta := h.encryptedMeta
  subst hmode
  subst hmeta
  rfl

theorem tryDecryptPayload_none (sp : Slatepack) : sp.tryDecryptPayload N none = .ok sp := by
  unfold tryDecryptPayload
  split_ifs <;> rfl

/-- Nobody else does. -/
theorem Packed.refuses (hage : N.IdealAge) (hexclusive : N.ExclusiveAge)
    (hfile : sp.encryptPayload N none recipients = .ok file)
    (hkey : ¬ RecipientKey N recipients decKey) :
    ∃ e, { sp.sealed file with encryptedMeta := .empty }.tryDecryptPayload N (some decKey) = .error e ∧
      ∀ reason, e ≠ .Panic reason := by
  obtain ⟨metaBytes, padded, keys, -, -, hkeys, hencrypt⟩ := encryptPayload_eq_ok.mp hfile
  obtain ⟨decrypt, hdecryptor, -⟩ := hage.decrypt _ _ _ hencrypt
  obtain ⟨identity, hid⟩ := hexclusive.identity decKey
  have hmem : N.ageRecipient identity ∉ keys := by
    intro hmem
    obtain ⟨a, ha, heq⟩ := except_mapM_mem_of_mem hkeys hmem
    exact hkey ⟨identity, hid, a, ha, heq⟩
  obtain ⟨e, he, hpanic⟩ := hexclusive.refuse _ _ _ _ hencrypt hdecryptor identity hmem
  refine ⟨e, ?_, hpanic⟩
  have hmode : ¬ (sp.sealed file).mode = 0 := Nat.one_ne_zero
  unfold tryDecryptPayload
  rw [if_neg hmode]
  simp only [hid, show (sp.sealed file).payload = file from rfl, hdecryptor, he, bind, Except.bind]

end Slatepack

/-! ## The message -/

section Message

variable {slate : Slate F E} {sender : Option SlatepackAddress} {recipients : List SlatepackAddress}
  {sent : Slatepack} {text : Bytes}

/-- A slate in its slatepack, before the payload is encrypted. -/
def packedSlate (N : PackerEnv F E) (sender : Option SlatepackAddress) (slate : Slate F E) : Slatepack :=
  { Slatepack.default with
    payload := SlateV4Bin.write N.toCodecs (.fromSlate slate)
    sender := sender }

/-- A message of a slate within the limits of its reader. -/
structure Message (N : PackerEnv F E) (sender : Option SlatepackAddress)
    (recipients : List SlatepackAddress) (slate : Slate F E) (sent : Slatepack) (text : Bytes) : Prop where
  create : Slatepacker.createSlatepack N ⟨sender, recipients, none⟩ slate = .ok sent
  armor : Slatepacker.armorSlatepack N sent = .ok text
  known : ∀ a ∈ sender, a.Known N.toSlatepackEnv
  length : sent.payload.length < 2 ^ 64
  payload : sent.payload.length ≤ N.readLimit
  size : text.length ≤ SlatepackArmor.maxSize N.toArmorEnv

/-- Who can open a message: anybody when it is for nobody in particular, else a recipient. -/
def CanOpen (N : PackerEnv F E) (recipients : List SlatepackAddress) (decKey : SecretKey) : Prop :=
  recipients = [] ∨ Slatepack.RecipientKey N recipients decKey

theorem packedSlate_packed (hknown : ∀ a ∈ sender, a.Known N.toSlatepackEnv) :
    (packedSlate N sender slate).Packed N :=
  ⟨rfl, rfl, rfl, hknown⟩

/-- A message is the packed slatepack, in plain or sealed. -/
theorem Message.sent_eq (h : Message N sender recipients slate sent text) :
    (recipients = [] ∧ sent = packedSlate N sender slate) ∨
      ∃ file, recipients ≠ [] ∧
        (packedSlate N sender slate).encryptPayload N none recipients = .ok file ∧
        sent = (packedSlate N sender slate).sealed file := by
  have hcreate : (packedSlate N sender slate).tryEncryptPayload N none recipients = .ok sent := h.create
  by_cases hne : recipients = []
  · subst hne
    exact .inl ⟨rfl, (Except.ok.inj hcreate).symm⟩
  · obtain ⟨file, hfile, hsent⟩ := (Slatepack.tryEncryptPayload_eq_ok hne).mp hcreate
    exact .inr ⟨file, hne, hfile, hsent⟩

theorem Message.deser (h : Message N sender recipients slate sent text) (args : SlatepackerArgs) (decrypt : Bool) :
    Slatepacker.deserSlatepack N args text decrypt =
      if decrypt then { sent with encryptedMeta := .empty }.tryDecryptPayload N args.decKey
      else .ok { sent with encryptedMeta := .empty } := by
  have hmajor : 1 < 2 ^ 8 := by decide
  have hminor : 0 < 2 ^ 8 := by decide
  rcases h.sent_eq with ⟨-, hsent⟩ | ⟨file, -, -, hsent⟩
  · subst hsent
    exact Slatepacker.deserSlatepack_written ⟨hmajor, hminor, h.length⟩ (Nat.zero_le 1) h.known
      h.payload h.armor h.size args decrypt
  · subst hsent
    exact Slatepacker.deserSlatepack_written ⟨hmajor, hminor, h.length⟩ (Nat.le_refl 1) (Slatepack.sealed_sender _ file) h.payload h.armor h.size args decrypt

theorem Message.opens (h : Message N sender recipients slate sent text) (hage : N.IdealAge)
    {decKey : SecretKey} (hkey : CanOpen N recipients decKey) :
    Slatepacker.deserSlatepack N ⟨none, [], some decKey⟩ text true = .ok (packedSlate N sender slate) := by
  rw [h.deser, if_pos rfl]
  rcases h.sent_eq with ⟨-, hsent⟩ | ⟨file, hne, hfile, hsent⟩
  · subst hsent
    rfl
  · subst hsent
    exact (packedSlate_packed h.known).opens hage hfile (hkey.resolve_left hne)

theorem Message.refuses (h : Message N sender recipients slate sent text) (hage : N.IdealAge)
    (hexclusive : N.ExclusiveAge) {decKey : SecretKey} (hkey : ¬ CanOpen N recipients decKey) :
    ∃ e, Slatepacker.deserSlatepack N ⟨none, [], some decKey⟩ text true = .error e ∧
      ∀ reason, e ≠ .Panic reason := by
  rw [h.deser, if_pos rfl]
  rcases h.sent_eq with ⟨hnil, -⟩ | ⟨file, hne, hfile, hsent⟩
  · exact (hkey (.inl hnil)).elim
  · subst hsent
    exact Slatepack.Packed.refuses hage hexclusive hfile fun hrec => hkey (.inr hrec)

open Classical in
/-- Of some keys the first that can opens the message; the ones before it are passed over. -/
theorem Message.openWithKeys_eq (h : Message N sender recipients slate sent text) (hage : N.IdealAge)
    (hexclusive : N.ExclusiveAge) (keys : List SecretKey) :
    Owner.openWithKeys N text keys = .ok
      (if ∃ decKey ∈ keys, CanOpen N recipients decKey then some (packedSlate N sender slate) else none) := by
  induction keys with
  | nil => simp [Owner.openWithKeys]
  | cons decKey rest ih =>
      unfold Owner.openWithKeys
      by_cases hkey : CanOpen N recipients decKey
      · rw [h.opens hage hkey, if_pos ⟨decKey, List.mem_cons_self, hkey⟩]
      · obtain ⟨e, he, hpanic⟩ := h.refuses hage hexclusive hkey
        have hrest : (∃ k ∈ decKey :: rest, CanOpen N recipients k) ↔ ∃ k ∈ rest, CanOpen N recipients k := by
          simp [hkey]
        rw [he]
        simp only [hrest, ← ih]

/-- Some index leads to a key that can open the message. -/
def OpensAt (N : PackerEnv F E) (env : Env F E) (recipients : List SlatepackAddress)
    (parentKeyId : Identifier) (secretIndices : List Nat) : Prop :=
  ∃ i ∈ secretIndices, CanOpen N recipients (env.keychain.addressKey parentKeyId i)

theorem exists_key_iff {env : Env F E} {p : Identifier} {indices : List Nat} :
    (∃ decKey ∈ Owner.secretKeysAt env p indices, CanOpen N recipients decKey) ↔
      OpensAt N env recipients p indices := by
  simp [Owner.secretKeysAt, OpensAt]

end Message

namespace Owner

variable {slate : Slate F E} {senderIndex : Option Nat} {recipients : List SlatepackAddress} {text : Bytes}

/-- What creating a message makes. -/
theorem createSlatepackMessage_eq_ok {env : Env F E} {w w' : WalletBackend F E}
    (h : createSlatepackMessage env N slate senderIndex recipients w = (.ok text, w')) :
    ∃ sent, w' = w ∧
      Slatepacker.createSlatepack N
        ⟨senderIndex.map (slatepackAddressAt env N w.parentKeyId), recipients, none⟩ slate = .ok sent ∧
      Slatepacker.armorSlatepack N sent = .ok text := by
  obtain ⟨sender, m, hsender, hrest⟩ := Eff.bind_eq_ok.mp h
  have hread : sender = senderIndex.map (slatepackAddressAt env N w.parentKeyId) ∧ m = w := by
    cases senderIndex with
    | none =>
        cases hsender
        exact ⟨rfl, rfl⟩
    | some i =>
        cases hsender
        exact ⟨rfl, rfl⟩
  obtain ⟨rfl, rfl⟩ := hread
  obtain ⟨sent, m', hcreate, harmor⟩ := Eff.bind_eq_ok.mp hrest
  obtain ⟨hsent, rfl⟩ := Eff.ofExcept_eq_ok.mp hcreate
  obtain ⟨htext, rfl⟩ := Eff.ofExcept_eq_ok.mp harmor
  exact ⟨sent, rfl, hsent, htext⟩

/-- The message that is read where its sender made it for these recipients. -/
theorem message_of_create {env : Env F E} {w w' : WalletBackend F E}
    (hkeys : ∀ secKey, N.dalekPublicKey.Valid (env.keychain.dalekPublicKey secKey))
    (hlimit : N.readLimit < 2 ^ 64)
    (hpayload : ∀ sent, Slatepacker.createSlatepack N
      ⟨senderIndex.map (slatepackAddressAt env N w.parentKeyId), recipients, none⟩ slate = .ok sent →
        sent.payload.length ≤ N.readLimit)
    (hsize : text.length ≤ SlatepackArmor.maxSize N.toArmorEnv)
    (h : createSlatepackMessage env N slate senderIndex recipients w = (.ok text, w')) :
    ∃ sent, Message N (senderIndex.map (slatepackAddressAt env N w.parentKeyId)) recipients slate sent text := by
  obtain ⟨sent, -, hcreate, harmor⟩ := createSlatepackMessage_eq_ok h
  have hlen := hpayload sent hcreate
  refine ⟨sent, hcreate, harmor, fun a ha => ?_, by omega, hlen, hsize⟩
  obtain ⟨i, -, rfl⟩ := Option.map_eq_some_iff.mp ha
  exact ⟨rfl, hkeys _⟩

theorem decodeSlatepackMessage_eq {env : Env F E} {v : WalletBackend F E} {indices : List Nat}
    {found : Option Slatepack}
    (h : openWithKeys N text (secretKeysAt env v.parentKeyId indices) = .ok found) :
    decodeSlatepackMessage env N text indices v =
      (found.elim (Slatepacker.deserSlatepack N ⟨none, [], none⟩ text false) .ok, v) := by
  unfold decodeSlatepackMessage
  rw [Eff.run_bind_ok (Eff.run_read v), Eff.run_bind_ok (Eff.ofExcept_eq_ok.mpr ⟨h, rfl⟩)]
  cases found <;> rfl

/-- A message shows its sender and its payload to a wallet with the key of a recipient at an index
it tries, or to any when it is for nobody in particular; to the others it shows neither. -/
theorem message_shown_iff {env env' : Env F E} {w w' v : WalletBackend F E} {indices : List Nat}
    (hage : N.IdealAge) (hexclusive : N.ExclusiveAge)
    (hkeys : ∀ secKey, N.dalekPublicKey.Valid (env.keychain.dalekPublicKey secKey))
    (hlimit : N.readLimit < 2 ^ 64)
    (hpayload : ∀ sent, Slatepacker.createSlatepack N
      ⟨senderIndex.map (slatepackAddressAt env N w.parentKeyId), recipients, none⟩ slate = .ok sent →
        sent.payload.length ≤ N.readLimit)
    (hsize : text.length ≤ SlatepackArmor.maxSize N.toArmorEnv)
    (h : createSlatepackMessage env N slate senderIndex recipients w = (.ok text, w')) :
    ∃ sp, decodeSlatepackMessage env' N text indices v = (.ok sp, v) ∧
      (recipients = [] ∨ OpensAt N env' recipients v.parentKeyId indices →
        sp.sender = senderIndex.map (slatepackAddressAt env N w.parentKeyId) ∧
          sp.payload = SlateV4Bin.write N.toCodecs (.fromSlate slate)) ∧
      (¬ (recipients = [] ∨ OpensAt N env' recipients v.parentKeyId indices) →
        sp.sender = none ∧ ∃ keys plain, recipients.mapM N.toAgePubkey = .ok keys ∧
          N.ageEncrypt keys plain = .ok sp.payload) := by
  obtain ⟨sent, hmsg⟩ := message_of_create hkeys hlimit hpayload hsize h
  have hopen := hmsg.openWithKeys_eq hage hexclusive (secretKeysAt env' v.parentKeyId indices)
  have hdecode := decodeSlatepackMessage_eq hopen
  rw [hmsg.deser, if_neg Bool.false_ne_true] at hdecode
  rcases hmsg.sent_eq with ⟨hnil, hsent⟩ | ⟨file, hne, hfile, hsent⟩
  · -- the message is plain: what the keys open and what is left without them is the same
    have hplain : decodeSlatepackMessage env' N text indices v = (.ok (packedSlate N
        (senderIndex.map (slatepackAddressAt env N w.parentKeyId)) slate), v) := by
      rw [hdecode, hsent]
      split_ifs <;> rfl
    exact ⟨_, hplain, fun _ => ⟨rfl, rfl⟩, fun hno => (hno (.inl hnil)).elim⟩
  · by_cases hkey : OpensAt N env' recipients v.parentKeyId indices
    · rw [if_pos (exists_key_iff.mpr hkey)] at hdecode
      exact ⟨_, hdecode, fun _ => ⟨rfl, rfl⟩, fun hno => (hno (.inr hkey)).elim⟩
    · rw [if_neg (mt exists_key_iff.mp hkey), hsent] at hdecode
      refine ⟨_, hdecode, fun hyes => ?_, fun _ => ⟨rfl, ?_⟩⟩
      · rcases hyes with hnil | hyes
        · exact (hne hnil).elim
        · exact (hkey hyes).elim
      · obtain ⟨_, padded, keys, -, -, hages, hencrypt⟩ := Slatepack.encryptPayload_eq_ok.mp hfile
        exact ⟨keys, _, hages, hencrypt⟩

section Slate

variable [CommRing F] [AddCommGroup E] [Module F E] [DecidableEq E]

theorem slateFromSlatepackMessage_eq {env : Env F E} {display : SerError → String}
    {v : WalletBackend F E} {indices : List Nat} {found : Option Slatepack} (hne : indices ≠ [])
    (h : openWithKeys N text (secretKeysAt env v.parentKeyId indices) = .ok found) :
    slateFromSlatepackMessage env N display text indices v =
      (found.elim (.error (.SlatepackDecryption
          "Could not decrypt slatepack with any provided index on the address derivation path"))
        fun sp => (Slatepacker.getSlate N env.keychain display sp).mapError .error, v) := by
  have hsome : indices.isEmpty = false := by simpa using hne
  have hrun : orMessageError (openWithKeys N text (secretKeysAt env v.parentKeyId indices)) v =
      (.ok found, v) := Eff.ofExcept_eq_ok.mpr ⟨by rw [h]; rfl, rfl⟩
  unfold slateFromSlatepackMessage
  rw [Eff.run_bind_ok (Eff.run_read v), hsome, if_neg Bool.false_ne_true, Eff.run_bind_ok hrun]
  cases found <;> rfl

theorem slateFromSlatepackMessage_nil (env : Env F E) (display : SerError → String)
    (v : WalletBackend F E) {sp : Slatepack}
    (h : Slatepacker.deserSlatepack N ⟨none, [], none⟩ text true = .ok sp) :
    slateFromSlatepackMessage env N display text [] v =
      ((Slatepacker.getSlate N env.keychain display sp).mapError .error, v) := by
  have hrun : orMessageError (Slatepacker.deserSlatepack N ⟨none, [], none⟩ text true) v = (.ok sp, v) :=
    Eff.ofExcept_eq_ok.mpr ⟨by rw [h]; rfl, rfl⟩
  have hempty : ([] : List Nat).isEmpty = true := rfl
  unfold slateFromSlatepackMessage
  rw [Eff.run_bind_ok (Eff.run_read v), if_pos hempty, Eff.run_bind_ok hrun]
  rfl

/-- A slate in the types of the code, of the kinds the binary form keeps. -/
structure Keepable (N : PackerEnv F E) (slate : Slate F E) : Prop where
  typed : (SlateV4.fromSlate slate).Typed N.toCodecs
  features : (SlateV4.fromSlate slate).FeaturesValid
  sigs : slate.participantData.length ≤ 255
  commits : ∀ tx ∈ slate.tx, tx.inputs.length + tx.outputs.length ≤ 65535
  notRecent : slate.kernelFeatures ≠ 3
  fee : slate.feeFields.fee = 0 → slate.feeFields = .zero

omit [CommRing F] [AddCommGroup E] [Module F E] [DecidableEq E] in
/-- The binary form of such a slate is read back. -/
theorem Keepable.read (h : Keepable N slate) :
    (SlateV4Bin.read N.toCodecs (SlateV4Bin.write N.toCodecs (.fromSlate slate))).1 =
      .ok (.fromSlate slate) := by
  have hsigs : (SlateV4.fromSlate slate).sigs.length ≤ 255 := by
    simpa [SlateV4.fromSlate] using h.sigs
  have hcoms : ∀ coms ∈ (SlateV4.fromSlate slate).coms, coms.length ≤ 65535 := by
    intro coms hmem
    obtain ⟨tx, htx, rfl⟩ := Option.map_eq_some_iff.mp hmem
    simpa using h.commits tx htx
  have hdecodes := SlateV4Bin.write_decodes h.typed hsigs hcoms
  have hfeatures : ∀ coms ∈ (SlateV4.fromSlate slate).coms, ∀ c ∈ coms, c.f ≤ 1 := by
    intro coms hmem c hc
    obtain ⟨tx, -, rfl⟩ := Option.map_eq_some_iff.mp hmem
    have hknown : ∀ f : OutputFeatures, OutputFeaturesV4.fromFeatures f ≤ 1 := by
      intro f
      cases f <;> decide
    rcases List.mem_append.mp hc with hc | hc
    · obtain ⟨i, -, rfl⟩ := List.mem_map.mp hc
      exact hknown i.features
    · obtain ⟨o, -, rfl⟩ := List.mem_map.mp hc
      exact hknown o.features
  rw [hdecodes.eq_ok, (SlateV4.received_eq_self h.features).mpr ⟨h.notRecent, h.fee, hfeatures⟩]

/-- The slate of a slatepack it was packed in. -/
theorem getSlate_packed (h : Keepable N slate) (K : Keychain F E) (display : SerError → String)
    (sender : Option SlatepackAddress) :
    Slatepacker.getSlate N K display (packedSlate N sender slate) =
      .ok { slate with tx := txFromSlateV4 K (.fromSlate slate) } := by
  have hread : (SlateV4Bin.read N.toCodecs (packedSlate N sender slate).payload).1 =
      .ok (.fromSlate slate) := h.read
  unfold Slatepacker.getSlate
  rw [hread, ← Slate.fromV4_fromSlate]

/-- A wallet that tries no index reads the payload as it came: the slate of a message for nobody
in particular, and the age file of any other. -/
theorem message_untried {env : Env F E} (env' : Env F E) (display : SerError → String)
    {w : WalletBackend F E} (v : WalletBackend F E) {sent : Slatepack} (hmsg : Message N
      (senderIndex.map (slatepackAddressAt env N w.parentKeyId)) recipients slate sent text) :
    slateFromSlatepackMessage env' N display text [] v =
      ((Slatepacker.getSlate N env'.keychain display sent).mapError .error, v) := by
  have hdeser := hmsg.deser ⟨none, [], none⟩ true
  rw [if_pos rfl, Slatepack.tryDecryptPayload_none] at hdeser
  rw [slateFromSlatepackMessage_nil env' display v hdeser]
  rfl

/-- A message gives its slate to a wallet with the key of a recipient at an index it tries, or to
any when it is for nobody in particular; a wallet that tries others is told so, and one that tries
none reads the age file as if it were the slate. -/
theorem message_delivers_iff {env env' : Env F E} {display : SerError → String}
    {w w' v : WalletBackend F E} {indices : List Nat} (hage : N.IdealAge) (hexclusive : N.ExclusiveAge)
    (hkeys : ∀ secKey, N.dalekPublicKey.Valid (env.keychain.dalekPublicKey secKey))
    (hlimit : N.readLimit < 2 ^ 64) (hslate : Keepable N slate)
    (hpayload : ∀ sent, Slatepacker.createSlatepack N
      ⟨senderIndex.map (slatepackAddressAt env N w.parentKeyId), recipients, none⟩ slate = .ok sent →
        sent.payload.length ≤ N.readLimit)
    (hsize : text.length ≤ SlatepackArmor.maxSize N.toArmorEnv)
    (h : createSlatepackMessage env N slate senderIndex recipients w = (.ok text, w')) :
    (recipients = [] ∨ indices ≠ [] →
      (slateFromSlatepackMessage env' N display text indices v =
          (.ok { slate with tx := txFromSlateV4 env'.keychain (.fromSlate slate) }, v) ↔
        recipients = [] ∨ OpensAt N env' recipients v.parentKeyId indices) ∧
      (¬ (recipients = [] ∨ OpensAt N env' recipients v.parentKeyId indices) →
        slateFromSlatepackMessage env' N display text indices v =
          (.error (.SlatepackDecryption
            "Could not decrypt slatepack with any provided index on the address derivation path"), v))) ∧
    (recipients ≠ [] → ∃ keys plain sp, recipients.mapM N.toAgePubkey = .ok keys ∧
      N.ageEncrypt keys plain = .ok sp.payload ∧
      slateFromSlatepackMessage env' N display text [] v =
        ((Slatepacker.getSlate N env'.keychain display sp).mapError .error, v)) := by
  obtain ⟨sent, hmsg⟩ := message_of_create hkeys hlimit hpayload hsize h
  have hopen := hmsg.openWithKeys_eq hage hexclusive (secretKeysAt env' v.parentKeyId indices)
  have huntried := message_untried env' display v hmsg
  refine ⟨fun hindices => ?_, fun hne => ?_⟩
  · by_cases hnone : indices = []
    · -- without indices only a message for nobody in particular is asked about
      have hnil := hindices.resolve_right (not_not.mpr hnone)
      rcases hmsg.sent_eq with ⟨-, hsent⟩ | ⟨_, hne, -, -⟩
      · rw [hsent, getSlate_packed hslate, ← hnone] at huntried
        exact ⟨⟨fun _ => .inl hnil, fun _ => huntried⟩, fun hno => (hno (.inl hnil)).elim⟩
      · exact (hne hnil).elim
    · have hfrom : slateFromSlatepackMessage env' N display text indices v = _ :=
        slateFromSlatepackMessage_eq hnone hopen
      by_cases hkey : OpensAt N env' recipients v.parentKeyId indices
      · rw [if_pos (exists_key_iff.mpr hkey), Option.elim_some, getSlate_packed hslate] at hfrom
        exact ⟨⟨fun _ => .inr hkey, fun _ => hfrom⟩, fun hno => (hno (.inr hkey)).elim⟩
      · rw [if_neg (mt exists_key_iff.mp hkey)] at hfrom
        have hno : ¬ (recipients = [] ∨ OpensAt N env' recipients v.parentKeyId indices) := by
          rintro (hnil | hyes)
          · obtain ⟨i, hi⟩ := List.exists_mem_of_ne_nil indices hnone
            exact hkey ⟨i, hi, .inl hnil⟩
          · exact hkey hyes
        refine ⟨⟨fun hgives => ?_, fun hyes => (hno hyes).elim⟩, fun _ => hfrom⟩
        rw [hfrom] at hgives
        cases hgives
  · rcases hmsg.sent_eq with ⟨hnil, -⟩ | ⟨file, -, hfile, hsent⟩
    · exact (hne hnil).elim
    · obtain ⟨_, padded, keys, -, -, hages, hencrypt⟩ := Slatepack.encryptPayload_eq_ok.mp hfile
      subst hsent
      exact ⟨keys, _, _, hages, hencrypt, huntried⟩

end Slate

end Owner

/-! ## A message to a known address -/

namespace SampleMessage

open SampleSlatepack

/-- A codec of other values by the numbers that stand for them. -/
def via {α β : Type} (enc : α → β) (dec : β → α) (C : Codec SerError β) : Codec SerError α where
  Valid a := C.Valid (enc a) ∧ dec (enc a) = a
  write a := C.write (enc a)
  read := dec <$> C.read
  decodes a h := by
    have hread := (C.decodes (enc a) h.1).map dec
    rwa [h.2] at hread

def pairNumber (p : ℤ × ℤ) : Nat := p.1.toNat + 2 ^ 100 * p.2.toNat

def numberPair (n : Nat) : ℤ × ℤ := ((n % 2 ^ 100 : Nat), (n / 2 ^ 100 : Nat))

def codecs : Codecs ℤ (ℤ × ℤ) where
  readLimit := 100000
  readLimit_ge := sampleCodecs.readLimit_ge
  blindingFactor := via Int.toNat (fun n => (n : ℤ)) (word .IOErr 32)
  publicKey := via pairNumber numberPair (word .IOErr 33)
  signature := via (fun sig => ⟨pairNumber sig.nonce, sig.s.toNat⟩) (fun sig => ⟨numberPair sig.nonce, sig.s⟩)
    SampleCodecs.signature
  commitment := via pairNumber numberPair (word .IOErr 33)
  rangeProof := SampleCodecs.prefixedWord 675 SampleCodecs.range_proof_fits
  dalekPublicKey := fixedWord 32
  dalekSignature := fixedWord 64

def packer : PackerEnv ℤ (ℤ × ℤ) where
  toCodecs := codecs
  slatepackHrp := "grin"
  bech32Encode := bech32Encode
  bech32Decode := bech32Decode
  bech32_address := bech32_address
  sha256 := sha256
  sha256_length := sha256_length
  base58Encode := base58Encode
  base58Decode := base58Decode
  base58_alphabet := base58_alphabet
  base58_inverse := base58_inverse
  maxTxWeight := 39976
  toAgePubkey a := .ok a.pubKey
  ageIdentity decKey := .ok decKey.toNat
  ageRecipient identity := identity
  ageEncrypt := sealAge
  ageDecryptor := openAge
  parseJson _ := .error (.SlatepackDeser "Error reading JSON slatepack")

theorem openAge_sealAge {keys : List Nat} {plain file : Bytes} (h : sealAge keys plain = .ok file) :
    openAge file = .ok (.Recipients fun identity =>
      if identity ∈ keys then .ok plain else .error (.Age "No matching keys found")) := by
  unfold sealAge at h
  split_ifs at h with hok
  unfold openAge
  rw [← Except.ok.inj h, readKeys_decodes hok.1 hok.2.1 plain]

theorem packer_ideal : packer.IdealAge where
  decrypt _ _ _ hfile := ⟨_, openAge_sealAge hfile, fun _ hid => if_pos hid⟩
  length keys plain file hfile := samplePacker_ideal.length keys plain file hfile

theorem packer_exclusive : packer.ExclusiveAge where
  refuse _ _ _ _ hfile hopen _ hid := by
    have hsame := (openAge_sealAge hfile).symm.trans hopen
    cases hsame
    exact ⟨_, if_neg hid, fun reason => by simp⟩
  identity decKey := ⟨decKey.toNat, rfl⟩

/-- What a sender offers. -/
def offer : Slate ℤ (ℤ × ℤ) :=
  { (Slate.blank 2 false 7 : Slate ℤ (ℤ × ℤ)) with
    tx := none
    amount := 5
    feeFields := ⟨11500000⟩
    offset := 6
    participantData := [⟨(3, 0), (4, 0), none⟩] }

def wallet : WalletBackend ℤ (ℤ × ℤ) := .new

/-- A message for the address at index 3, which the sender of index 0 has too. -/
def recipients : List SlatepackAddress :=
  [Owner.slatepackAddressAt SampleSend.env packer wallet.parentKeyId 3]

def created : Except Error Bytes × WalletBackend ℤ (ℤ × ℤ) :=
  Owner.createSlatepackMessage SampleSend.env packer offer (some 0) recipients wallet

def message : Bytes := returned created []

theorem created_eq : Owner.createSlatepackMessage SampleSend.env packer offer (some 0) recipients wallet =
    (.ok message, created.2) :=
  eq_returned [] (by decide +kernel)

theorem message_size : message.length ≤ SlatepackArmor.maxSize packer.toArmorEnv := by decide +kernel

theorem sent_size (sent : Slatepack) (h : Slatepacker.createSlatepack packer
    ⟨(some 0).map (Owner.slatepackAddressAt SampleSend.env packer wallet.parentKeyId), recipients, none⟩
      offer = .ok sent) : sent.payload.length ≤ packer.readLimit := by
  have hall : ∀ sp ∈ (Slatepacker.createSlatepack packer ⟨(some 0).map
      (Owner.slatepackAddressAt SampleSend.env packer wallet.parentKeyId), recipients, none⟩ offer).toOption,
        sp.payload.length ≤ packer.readLimit := by decide +kernel
  rw [h] at hall
  exact hall sent rfl

theorem keys_valid (secKey : SecretKey) :
    packer.dalekPublicKey.Valid (SampleSend.env.keychain.dalekPublicKey secKey) :=
  secKey.isLt

theorem offer_keepable : Owner.Keepable packer offer where
  typed := {
    version := by decide
    blockHeaderVersion := by decide
    id := by decide
    off := by
      show (6 : ℤ).toNat < 256 ^ 32 ∧ ((6 : ℤ).toNat : ℤ) = 6
      decide
    optFields := ⟨by decide, by decide, by decide, by decide, by decide⟩
    sigs := by
      intro s hs
      simp only [SlateV4.fromSlate, offer, List.map_cons, List.map_nil, List.mem_singleton] at hs
      subst hs
      refine ⟨?_, ?_, fun sig hsig => ?_⟩
      · show pairNumber (3, 0) < 256 ^ 33 ∧ numberPair (pairNumber (3, 0)) = (3, 0)
        decide +kernel
      · show pairNumber (4, 0) < 256 ^ 33 ∧ numberPair (pairNumber (4, 0)) = (4, 0)
        decide +kernel
      · cases hsig
    coms := fun coms hcoms => by cases hcoms
    proof := fun p hp => by cases hp
    featArgs := fun a ha => by cases ha }
  features := .inl ⟨rfl, rfl⟩
  sigs := by decide
  commits tx htx := by cases htx
  notRecent := by decide
  fee := by decide +kernel

/-- The wallet itself reads what it sent to its own address when it tries that address. -/
theorem message_shown_sample :
    ∃ sp, Owner.decodeSlatepackMessage SampleSend.env packer message [0, 3] wallet = (.ok sp, wallet) ∧
      sp.sender = some (Owner.slatepackAddressAt SampleSend.env packer wallet.parentKeyId 0) := by
  have hopens : OpensAt packer SampleSend.env recipients wallet.parentKeyId [0, 3] :=
    ⟨3, by decide, .inr ⟨4, by decide, _, List.mem_singleton_self _, rfl⟩⟩
  obtain ⟨sp, hdecode, hshown, -⟩ := Owner.message_shown_iff packer_ideal packer_exclusive keys_valid
    (by decide) sent_size message_size created_eq
  exact ⟨sp, hdecode, (hshown (.inr hopens)).1⟩

theorem message_delivers_sample :
    Owner.slateFromSlatepackMessage SampleSend.env packer (fun _ => "") message [0, 3] wallet =
      (.ok { offer with tx := txFromSlateV4 SampleSend.env.keychain (.fromSlate offer) }, wallet) := by
  have hopens : OpensAt packer SampleSend.env recipients wallet.parentKeyId [0, 3] :=
    ⟨3, by decide, .inr ⟨4, by decide, _, List.mem_singleton_self _, rfl⟩⟩
  exact ((Owner.message_delivers_iff packer_ideal packer_exclusive keys_valid (by decide) offer_keepable
    sent_size message_size created_eq).1 (.inr (by decide))).1.mpr (.inr hopens)

end SampleMessage

end GrinWallet
