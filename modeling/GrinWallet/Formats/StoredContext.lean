import GrinWallet.Model.SampleContext
import GrinWallet.Formats.BinarySlatepack

/-! # Stored contexts are read back

The context of a transaction that is not too heavy fits the limit on stored contexts, and
what is written is read back, however little a reader takes at a time.
-/

namespace GrinWallet

open Effect Wire Json

/-! ## Reading in chunks -/

/-- A reader that reads what its limit allows. No limit, or a limit of 0, allows all. -/
structure BytesReader.Lawful (R : BytesReader) : Prop where
  reads : ∀ n, (∀ limit, R.readLimit = some (limit + 1) → n ≤ limit + 1) →
    R.readFixedBytes n = takeBytes .IOErr n

theorem readChunks_decodes {R : BytesReader} (hR : R.Lawful) {limit : Nat} (hlimit : 0 < limit)
    (h : ∀ l, R.readLimit = some (l + 1) → limit = l + 1) (bs data : Bytes) :
    Decodes (readChunks R limit hlimit bs.length data) bs (data ++ bs) := by
  induction hlen : bs.length using Nat.strong_induction_on generalizing bs data with
  | _ len ih =>
      unfold readChunks
      by_cases hzero : len = 0
      · have hnil : bs = [] := List.length_eq_zero_iff.mp (by omega)
        subst hnil
        rw [dif_pos hzero, List.append_nil]
        exact .pure data
      · rw [dif_neg hzero]
        have hread : R.readFixedBytes (min len limit) = takeBytes .IOErr (min len limit) :=
          hR.reads _ fun l hl => by
            have := h l hl
            omega
        have htake : (bs.take (min len limit)).length = min len limit := by
          rw [List.length_take]
          omega
        have hdrop : (bs.drop (min len limit)).length = len - min len limit := by
          rw [List.length_drop, hlen]
        have hrest := ih (len - min len limit) (by omega) (bs.drop (min len limit))
          (data ++ bs.take (min len limit)) hdrop
        have hfirst : Decodes (R.readFixedBytes (min len limit)) (bs.take (min len limit))
            (bs.take (min len limit)) := by
          rw [hread]
          exact takeBytes_decodes _ htake
        have hall := hfirst.bind (f := fun readData =>
          readChunks R limit hlimit (len - min len limit) (data ++ readData)) hrest
        rw [List.take_append_drop, List.append_assoc, List.take_append_drop] at hall
        exact hall

/-- What stands behind its length is read back, whatever the reader's limit. -/
theorem readBytesLenPrefix_decodes {R : BytesReader} (hR : R.Lawful) {bs : Bytes}
    (hlen : bs.length ≤ MAX_CONTEXT_SIZE) :
    Decodes (readBytesLenPrefix R) (Ser.u64.write bs.length ++ bs) bs := by
  have hmax : MAX_CONTEXT_SIZE < 2 ^ 64 := by decide
  refine (Ser.u64.decodes bs.length (Ser.u64_valid.mpr (by omega))).bind ?_
  rw [if_neg (by omega)]
  have hwhole : (∀ l, R.readLimit = some (l + 1) → bs.length ≤ l + 1) →
      Decodes (R.readFixedBytes bs.length) bs bs := by
    intro hfits
    rw [hR.reads _ hfits]
    exact takeBytes_decodes _ rfl
  cases hlimit : R.readLimit with
  | none => exact hwhole fun l hl => by simp [hlimit] at hl
  | some limit =>
      cases limit with
      | zero => exact hwhole fun l hl => by simp [hlimit] at hl
      | succ limit =>
          refine readChunks_decodes hR _ (fun l hl => ?_) bs []
          rw [hlimit] at hl
          cases hl
          rfl

theorem readChunks_short {R : BytesReader} (hR : R.Lawful) {limit : Nat} (hlimit : 0 < limit)
    (h : ∀ l, R.readLimit = some (l + 1) → limit = l + 1) (len : Nat) (data input : Bytes)
    (hshort : input.length < len) :
    (readChunks R limit hlimit len data input).1 = .error .IOErr := by
  induction len using Nat.strong_induction_on generalizing data input with
  | _ len ih =>
      unfold readChunks
      rw [dif_neg (by omega)]
      have hread : R.readFixedBytes (min len limit) = takeBytes .IOErr (min len limit) :=
        hR.reads _ fun l hl => by
          have := h l hl
          omega
      rw [hread]
      by_cases hfits : min len limit ≤ input.length
      · have htake : (takeBytes .IOErr (min len limit) : Reader SerError Bytes) input =
            (.ok (input.take (min len limit)), input.drop (min len limit)) := if_pos hfits
        rw [Eff.run_bind_ok htake]
        apply ih (len - min len limit) (by omega)
        rw [List.length_drop]
        omega
      · have htake : (takeBytes .IOErr (min len limit) : Reader SerError Bytes) input =
            (.error .IOErr, input) := if_neg hfits
        rw [Eff.run_bind_error htake]

/-- What the loop amounts to: everything is read at once. -/
def readWhole : Reader SerError Bytes := do
  let len ← Ser.u64.read
  if len > MAX_CONTEXT_SIZE then throw .TooLargeReadErr
  else takeBytes .IOErr len

/-- Whatever its limit, a reader returns the bytes of one unlimited read, or its error. -/
theorem readBytesLenPrefix_fst {R : BytesReader} (hR : R.Lawful) (input : Bytes) :
    (readBytesLenPrefix R input).1 = (readWhole input).1 := by
  unfold readBytesLenPrefix readWhole
  rcases hlen : Ser.u64.read input with ⟨len | len, rest⟩
  · rw [Eff.run_bind_error hlen, Eff.run_bind_error hlen]
  · rw [Eff.run_bind_ok hlen, Eff.run_bind_ok hlen]
    by_cases hlarge : len > MAX_CONTEXT_SIZE
    · rw [if_pos hlarge, if_pos hlarge]
    · rw [if_neg hlarge, if_neg hlarge]
      have hwhole : (∀ l, R.readLimit = some (l + 1) → len ≤ l + 1) →
          (R.readFixedBytes len rest).1 = (takeBytes .IOErr len rest).1 := by
        intro hfits
        rw [hR.reads _ hfits]
      cases hlimit : R.readLimit with
      | none => exact hwhole fun l hl => by simp [hlimit] at hl
      | some limit =>
          cases limit with
          | zero => exact hwhole fun l hl => by simp [hlimit] at hl
          | succ limit =>
              have hl : ∀ l, R.readLimit = some (l + 1) → limit + 1 = l + 1 := by
                intro l hl
                rw [hlimit] at hl
                cases hl
                rfl
              show (readChunks R (limit + 1) (Nat.succ_pos limit) len [] rest).1 = _
              by_cases hshort : rest.length < len
              · rw [readChunks_short hR _ hl len [] rest hshort]
                simp [takeBytes, Nat.not_le.mpr hshort]
              · have htake : (rest.take len).length = len := List.length_take_of_le (by omega)
                have hchunks := readChunks_decodes hR (Nat.succ_pos limit) hl (rest.take len) []
                  (rest.drop len)
                rw [htake, List.take_append_drop] at hchunks
                rw [hchunks]
                simp [takeBytes, Nat.not_lt.mp hshort]

/-- A length above the limit is refused with nothing read behind it. -/
theorem readBytesLenPrefix_too_large (R : BytesReader) {n : Nat} (hn : n < 2 ^ 64)
    (hlarge : n > MAX_CONTEXT_SIZE) (rest : Bytes) :
    readBytesLenPrefix R (Ser.u64.write n ++ rest) = (.error .TooLargeReadErr, rest) := by
  have hread : Ser.u64.read (Ser.u64.write n ++ rest) = (.ok n, rest) :=
    Ser.u64.decodes n (Ser.u64_valid.mpr hn) rest
  unfold readBytesLenPrefix
  rw [Eff.run_bind_ok hread, if_pos hlarge]
  rfl

/-! ## The parts of a context -/

variable {F E : Type} {N : ContextEnv F E}

/-- Texts an account or a destination is given by. -/
def ShortText (s : Label) : Prop := s.length ≤ 2 ^ 16

/-- Arguments within the machine words of their fields, with short texts and an address of
the wallet's network. -/
structure InitTxArgs.Storable (N : ContextEnv F E) (args : InitTxArgs) : Prop where
  srcAcctName : ∀ s ∈ args.srcAcctName, ShortText s
  amount : args.amount < 2 ^ 64
  minimumConfirmations : args.minimumConfirmations < 2 ^ 64
  maxOutputs : args.maxOutputs < 2 ^ 32
  numChangeOutputs : args.numChangeOutputs < 2 ^ 32
  targetSlateVersion : ∀ v ∈ args.targetSlateVersion, v < 2 ^ 16
  ttlBlocks : ∀ n ∈ args.ttlBlocks, n < 2 ^ 64
  paymentProofRecipientAddress : ∀ a ∈ args.paymentProofRecipientAddress, a.Known N.toSlatepackEnv
  sendArgs : ∀ send ∈ args.sendArgs, ShortText send.dest

/-- An output or input within the machine words of its fields. -/
structure Context.EntryValid (N : ContextEnv F E) (entry : Identifier × Option Nat × Nat) : Prop where
  keyId : N.identifier.Valid entry.1
  mmrIndex : ∀ i ∈ entry.2.1, i < 2 ^ 64
  amount : entry.2.2 < 2 ^ 64

/-- A context within the machine words of its fields, whose arguments can be stored. -/
structure Context.Storable (N : ContextEnv F E) (c : Context E) : Prop where
  parentKeyId : N.identifier.Valid c.parentKeyId
  secKey : N.secretKey.Valid c.secKey
  secNonce : N.secretKey.Valid c.secNonce
  initialSecKey : N.secretKey.Valid c.initialSecKey
  initialSecNonce : N.secretKey.Valid c.initialSecNonce
  outputIds : ∀ entry ∈ c.outputIds, EntryValid N entry
  inputIds : ∀ entry ∈ c.inputIds, EntryValid N entry
  amount : c.amount < 2 ^ 64
  fee : ∀ fee ∈ c.fee, N.feeFields.Valid fee
  paymentProofDerivationIndex : ∀ i ∈ c.paymentProofDerivationIndex, i < 2 ^ 32
  lateLockArgs : ∀ args ∈ c.lateLockArgs, args.Storable N
  calculatedExcess : ∀ excess ∈ c.calculatedExcess, N.pedersenCommitment.Valid excess

/-! ## Sizes -/

theorem InitTxSendArgs.size_toJson {args : InitTxSendArgs} (h : ShortText args.dest) :
    size args.toJson ≤ 395000 := by
  have hdest : size (.string args.dest) ≤ 393218 := by
    have hsize := size_string_le args.dest
    unfold ShortText at h
    omega
  have hskip : size (option .bool args.skipTor) ≤ 5 :=
    size_option_le (by omega) fun b _ => size_bool_le b
  have hobject := size_object_bounded (b := 40) (by simp; decide)
    (.cons (a := ("dest", .string args.dest)) hdest <|
      .cons (a := ("post_tx", .bool args.postTx)) (size_bool_le args.postTx) <|
      .cons (a := ("fluff", .bool args.fluff)) (size_bool_le args.fluff) <|
      .cons (a := ("skip_tor", option .bool args.skipTor)) hskip .nil)
  exact Nat.le_trans hobject (by decide)

/-- The address of the wallet's network is a short text that is read back. -/
theorem SlatepackAddress.toJson_stored {a : SlatepackAddress} (h : a.Known N.toSlatepackEnv) :
    Stored (toJson N) (fromJson N) 1600 a := by
  obtain ⟨s, hs, hlen, hdecode⟩ := N.bech32_address (N.dalekPublicKey.toBytes a.pubKey)
    (N.dalekPublicKey.length_toBytes a.pubKey)
  have hencoded : a.encoded N.toSlatepackEnv = .ok s := by
    unfold encoded
    rw [h.hrp, hs]
  have htext : utf8 (s.map fun b => Char.ofNat b.toNat) = s := utf8_ascii (N.bech32_ascii _ _ _ hs)
  refine ⟨.string (s.map fun b => Char.ofNat b.toNat), by rw [toJson, hencoded], ?_, by simp, ?_⟩
  · have hsize := size_string_le (s.map fun b => Char.ofNat b.toNat)
    rw [List.length_map] at hsize
    omega
  · show (tryFrom N.toSlatepackEnv (utf8 _)).toOption = some a
    rw [htext]
    unfold tryFrom
    rw [hdecode]
    simp [N.dalekPublicKey.length_toBytes, N.dalekPublicKey.fromBytes_toBytes a.pubKey h.pubKey,
      ← h.hrp, Except.toOption]

theorem InitTxArgs.Storable.address_stored {args : InitTxArgs} (h : args.Storable N) :
    ∀ a ∈ args.paymentProofRecipientAddress,
      Stored (SlatepackAddress.toJson N) (SlatepackAddress.fromJson N) 1600 a :=
  fun a ha => SlatepackAddress.toJson_stored (h.paymentProofRecipientAddress a ha)

/-- Arguments take two short texts and some. -/
theorem InitTxArgs.size_toJson {args : InitTxArgs} (h : args.Storable N) :
    ∃ v, args.toJson N = .ok v ∧ size v ≤ 795000 := by
  obtain ⟨address, haddress, hsize, -⟩ := stored_option (by decide) h.address_stored
  refine ⟨_, by rw [toJson, haddress]; rfl, ?_⟩
  have hbool : ∀ o : Option Bool, size (option .bool o) ≤ 5 := fun o =>
    size_option_le (by omega) fun b _ => size_bool_le b
  have hname : size (option .string args.srcAcctName) ≤ 393218 :=
    size_option_le (by omega) fun s hs => by
      have hshort := h.srcAcctName s hs
      have hstring := size_string_le s
      unfold ShortText at hshort
      omega
  have hversion : size (option .number args.targetSlateVersion) ≤ 5 :=
    size_option_le (by omega) fun v hv => size_number_le (by decide) (by
      have := h.targetSlateVersion v hv
      omega)
  have hblocks : size (option decimal args.ttlBlocks) ≤ 122 :=
    size_option_le (by omega) fun n hn => size_decimal_le (by decide) (k := 20) (by
      have := h.ttlBlocks n hn
      omega)
  have hsend : size (option InitTxSendArgs.toJson args.sendArgs) ≤ 395000 :=
    size_option_le (by omega) fun send hs => InitTxSendArgs.size_toJson (h.sendArgs send hs)
  have hamount : size (decimal args.amount) ≤ 122 :=
    size_decimal_le (k := 20) (by decide) (by have := h.amount; omega)
  have hconfirmations : size (decimal args.minimumConfirmations) ≤ 122 :=
    size_decimal_le (k := 20) (by decide) (by have := h.minimumConfirmations; omega)
  have hmax : size (.number args.maxOutputs) ≤ 10 :=
    size_number_le (by decide) (by have := h.maxOutputs; omega)
  have hchange : size (.number args.numChangeOutputs) ≤ 10 :=
    size_number_le (by decide) (by have := h.numChangeOutputs; omega)
  have hall := size_bool_le args.selectionStrategyIsUseAll
  have hrefresh := size_bool_le args.refreshOutputsFromNode
  have hincludes := hbool args.amountIncludesFee
  have hestimate := hbool args.estimateOnly
  have hlate := hbool args.lateLock
  refine Nat.le_trans (size_object_bounded (b := 40) (by simp; decide)
    (.cons hname <| .cons hamount <| .cons hincludes <| .cons hconfirmations <| .cons hmax <|
      .cons hchange <| .cons hall <| .cons hrefresh <| .cons hversion <| .cons hblocks <|
      .cons hsize <| .cons hestimate <| .cons hlate <| .cons hsend .nil)) (by decide)

theorem Context.size_entryToJson {entry : Identifier × Option Nat × Nat} (h : EntryValid N entry) :
    size (entryToJson N entry) ≤ 81 := by
  have hid := N.identifier.size_le entry.1 h.keyId
  have hindex : size (option .number entry.2.1) ≤ 20 :=
    size_option_le (by omega) fun i hi => size_number_le (by decide) (by
      have := h.mmrIndex i hi
      omega)
  have hamount : size (.number entry.2.2) ≤ 20 :=
    size_number_le (by decide) (by have := h.amount; omega)
  have harray := size_array_three (N.identifier.write entry.1) (option .number entry.2.1)
    (.number entry.2.2)
  unfold entryToJson
  omega

/-- Entries take 82 bytes each with their comma, and an output weighs more than an input. -/
theorem Context.size_entries {entries : List (Identifier × Option Nat × Nat)}
    (h : ∀ entry ∈ entries, EntryValid N entry) :
    size (.array (entries.map (entryToJson N))) ≤ 2 + entries.length * 82 := by
  have harray : ∀ v ∈ entries.map (entryToJson N), size v ≤ 81 := by
    intro v hv
    obtain ⟨entry, hentry, rfl⟩ := List.mem_map.mp hv
    exact size_entryToJson (h entry hentry)
  have hsize := size_array_le harray
  rw [List.length_map] at hsize
  exact hsize

/-! ## Reading back -/

theorem InitTxSendArgs.fromJson_toJson (args : InitTxSendArgs) : fromJson args.toJson = some args := by
  have hskip : args.toJson.optional "skip_tor" (·.readBool) = some args.skipTor :=
    optional_option (f := .bool) (by simp [toJson, Value.member, List.lookup_cons]) (by simp) fun _ _ => rfl
  simp only [fromJson, hskip]
  simp [toJson, Value.member, List.lookup_cons, Value.readString, Value.readBool]

theorem InitTxArgs.fromJson_toJson {args : InitTxArgs} (h : args.Storable N) {v : Value}
    (hv : args.toJson N = .ok v) : fromJson N v = some args := by
  obtain ⟨address, haddress, -, hread⟩ := stored_option (by decide) h.address_stored
  rw [toJson, haddress] at hv
  have hobject := Except.ok.inj hv
  have hname : v.optional "src_acct_name" (·.readString) = some args.srcAcctName :=
    optional_option (f := .string) (by simp [← hobject, Value.member]) (by simp) fun _ _ => rfl
  have hincludes : v.optional "amount_includes_fee" (·.readBool) = some args.amountIncludesFee :=
    optional_option (f := .bool) (by simp [← hobject, Value.member, List.lookup_cons]) (by simp) fun _ _ => rfl
  have hversion : v.optional "target_slate_version" (·.readNumber (2 ^ 16)) =
      some args.targetSlateVersion :=
    optional_option (f := .number) (by simp [← hobject, Value.member, List.lookup_cons]) (by simp) fun n hn =>
      readNumber_number (h.targetSlateVersion n hn)
  have hblocks : v.optional "ttl_blocks" (·.readDecimal (2 ^ 64)) = some args.ttlBlocks :=
    optional_option (f := decimal) (by simp [← hobject, Value.member, List.lookup_cons]) (by simp [decimal]) fun n hn =>
      readDecimal_decimal (h.ttlBlocks n hn)
  have haddr := hread "payment_proof_recipient_address" v (by simp [← hobject, Value.member, List.lookup_cons])
  have hestimate : v.optional "estimate_only" (·.readBool) = some args.estimateOnly :=
    optional_option (f := .bool) (by simp [← hobject, Value.member, List.lookup_cons]) (by simp) fun _ _ => rfl
  have hlate : v.optional "late_lock" (·.readBool) = some args.lateLock :=
    optional_option (f := .bool) (by simp [← hobject, Value.member, List.lookup_cons]) (by simp) fun _ _ => rfl
  have hsend : v.optional "send_args" InitTxSendArgs.fromJson = some args.sendArgs :=
    optional_option (f := InitTxSendArgs.toJson) (by simp [← hobject, Value.member, List.lookup_cons])
      (by simp [InitTxSendArgs.toJson]) fun send _ => send.fromJson_toJson
  have hamount : (v.member "amount").bind (·.readDecimal (2 ^ 64)) = some args.amount :=
    member_bind (w := decimal args.amount) (by simp [← hobject, Value.member, List.lookup_cons])
      (readDecimal_decimal h.amount)
  have hconfirmations : (v.member "minimum_confirmations").bind (·.readDecimal (2 ^ 64)) =
      some args.minimumConfirmations :=
    member_bind (w := decimal args.minimumConfirmations)
      (by simp [← hobject, Value.member, List.lookup_cons])
      (readDecimal_decimal h.minimumConfirmations)
  have hmax : (v.member "max_outputs").bind (·.readNumber (2 ^ 32)) = some args.maxOutputs :=
    member_bind (w := .number args.maxOutputs) (by simp [← hobject, Value.member, List.lookup_cons])
      (readNumber_number h.maxOutputs)
  have hchange : (v.member "num_change_outputs").bind (·.readNumber (2 ^ 32)) =
      some args.numChangeOutputs :=
    member_bind (w := .number args.numChangeOutputs)
      (by simp [← hobject, Value.member, List.lookup_cons]) (readNumber_number h.numChangeOutputs)
  have hall : (v.member "selection_strategy_is_use_all").bind (·.readBool) =
      some args.selectionStrategyIsUseAll :=
    member_bind (w := .bool _) (by simp [← hobject, Value.member, List.lookup_cons]) rfl
  have hrefresh : ((v.member "refresh_outputs_from_node").getD (.bool true)).readBool =
      some args.refreshOutputsFromNode := by
    simp [← hobject, Value.member, List.lookup_cons, Value.readBool]
  unfold fromJson
  rw [hname, hamount, hincludes, hconfirmations, hmax, hchange, hall, hrefresh, hversion, hblocks,
    haddr, hestimate, hlate, hsend]
  rfl

theorem InitTxArgs.toJson_stored {args : InitTxArgs} (h : args.Storable N) :
    Stored (toJson N) (fromJson N) 795000 args := by
  obtain ⟨v, hv, hsize⟩ := size_toJson h
  have hread := fromJson_toJson h hv
  refine ⟨v, hv, hsize, ?_, hread⟩
  rintro rfl
  cases hread

theorem Context.Storable.lateLockArgs_stored {c : Context E} (h : c.Storable N) :
    ∀ args ∈ c.lateLockArgs, Stored (InitTxArgs.toJson N) (InitTxArgs.fromJson N) 795000 args :=
  fun args hargs => InitTxArgs.toJson_stored (h.lateLockArgs args hargs)

theorem Context.size_toJson {c : Context E} (h : c.Storable N)
    (hweight : weightByIok c.inputIds.length c.outputIds.length 1 ≤ MAINNET_MAX_TX_WEIGHT) :
    ∃ v, c.toJson N = .ok v ∧ size v ≤ MAX_CONTEXT_SIZE := by
  obtain ⟨lateLockArgs, hargs, hlate, -⟩ := stored_option (by decide) h.lateLockArgs_stored
  refine ⟨_, by rw [toJson, hargs]; rfl, ?_⟩
  have hparent := N.identifier.size_le c.parentKeyId h.parentKeyId
  have hkey := N.secretKey.size_le c.secKey h.secKey
  have hnonce := N.secretKey.size_le c.secNonce h.secNonce
  have hinitialKey := N.secretKey.size_le c.initialSecKey h.initialSecKey
  have hinitialNonce := N.secretKey.size_le c.initialSecNonce h.initialSecNonce
  have houtputs := size_entries h.outputIds
  have hinputs := size_entries h.inputIds
  have hamount : size (.number c.amount) ≤ 20 :=
    size_number_le (by decide) (by have := h.amount; omega)
  have hfee : size (option N.feeFields.write c.fee) ≤ 256 :=
    size_option_le (by omega) fun fee hf => N.feeFields.size_le fee (h.fee fee hf)
  have hindex : size (option .number c.paymentProofDerivationIndex) ≤ 10 :=
    size_option_le (by omega) fun i hi => size_number_le (by decide) (by
      have := h.paymentProofDerivationIndex i hi
      omega)
  have hexcess : size (option N.pedersenCommitment.write c.calculatedExcess) ≤ 256 :=
    size_option_le (by omega) fun excess he =>
      N.pedersenCommitment.size_le excess (h.calculatedExcess excess he)
  refine Nat.le_trans (size_object_bounded (b := 40) (by simp; decide)
    (.cons hparent <| .cons hkey <| .cons hnonce <| .cons hinitialKey <| .cons hinitialNonce <|
      .cons houtputs <| .cons hinputs <| .cons hamount <| .cons hfee <| .cons hindex <|
      .cons hlate <| .cons hexcess .nil)) ?_
  have hentries : c.inputIds.length + c.outputIds.length ≤ 39973 := by
    clear * - hweight
    unfold weightByIok MAINNET_MAX_TX_WEIGHT weightByIok at hweight
    omega
  have hmax : MAX_CONTEXT_SIZE = 4194304 := rfl
  rw [hmax]
  clear * - hentries
  repeat rw [List.map_cons, List.sum_cons]
  rw [List.map_nil, List.sum_nil]
  omega

theorem Context.entryFromJson_entryToJson {entry : Identifier × Option Nat × Nat}
    (h : EntryValid N entry) : entryFromJson N (entryToJson N entry) = some entry := by
  rcases entry with ⟨keyId, mmrIndex, amount⟩
  have hid := N.identifier.read_write keyId h.keyId
  have hamount := readNumber_number h.amount
  cases mmrIndex with
  | none =>
      show (do
        let keyId ← N.identifier.read (N.identifier.write keyId)
        let amount ← (Value.number amount).readNumber (2 ^ 64)
        return (keyId, none, amount)) = _
      rw [hid, hamount]
      rfl
  | some i =>
      have hi := readNumber_number (h.mmrIndex i rfl)
      show (do
        let keyId ← N.identifier.read (N.identifier.write keyId)
        let mmrIndex ← ((Value.number i).readNumber (2 ^ 64)).map some
        let amount ← (Value.number amount).readNumber (2 ^ 64)
        return (keyId, mmrIndex, amount)) = _
      rw [hid, hi, hamount]
      rfl

theorem Context.entriesFromJson_entryToJson {entries : List (Identifier × Option Nat × Nat)}
    (h : ∀ entry ∈ entries, EntryValid N entry) :
    entriesFromJson N (.array (entries.map (entryToJson N))) = some entries := by
  show (entries.map (entryToJson N)).mapM (entryFromJson N) = some entries
  induction entries with
  | nil => rfl
  | cons entry entries ih =>
      have hentry := entryFromJson_entryToJson (h entry List.mem_cons_self)
      have hrest := ih fun e he => h e (List.mem_cons_of_mem entry he)
      rw [List.map_cons, List.mapM_cons, hentry, hrest]
      rfl

theorem Context.fromJson_toJson {c : Context E} (h : c.Storable N) {v : Value}
    (hv : c.toJson N = .ok v) : fromJson N v = some c := by
  obtain ⟨lateLockArgs, hargs, -, hread⟩ := stored_option (by decide) h.lateLockArgs_stored
  rw [toJson, hargs] at hv
  have hobject := Except.ok.inj hv
  have hparent : (v.member "parent_key_id").bind N.identifier.read = some c.parentKeyId :=
    member_bind (by simp [← hobject, Value.member]) (N.identifier.read_write _ h.parentKeyId)
  have hkey : (v.member "sec_key").bind N.secretKey.read = some c.secKey :=
    member_bind (by simp [← hobject, Value.member, List.lookup_cons])
      (N.secretKey.read_write _ h.secKey)
  have hnonce : (v.member "sec_nonce").bind N.secretKey.read = some c.secNonce :=
    member_bind (by simp [← hobject, Value.member, List.lookup_cons])
      (N.secretKey.read_write _ h.secNonce)
  have hinitialKey : (v.member "initial_sec_key").bind N.secretKey.read = some c.initialSecKey :=
    member_bind (by simp [← hobject, Value.member, List.lookup_cons])
      (N.secretKey.read_write _ h.initialSecKey)
  have hinitialNonce : (v.member "initial_sec_nonce").bind N.secretKey.read =
      some c.initialSecNonce :=
    member_bind (by simp [← hobject, Value.member, List.lookup_cons])
      (N.secretKey.read_write _ h.initialSecNonce)
  have houtputs : (v.member "output_ids").bind (entriesFromJson N) = some c.outputIds :=
    member_bind (by simp [← hobject, Value.member, List.lookup_cons])
      (entriesFromJson_entryToJson h.outputIds)
  have hinputs : (v.member "input_ids").bind (entriesFromJson N) = some c.inputIds :=
    member_bind (by simp [← hobject, Value.member, List.lookup_cons])
      (entriesFromJson_entryToJson h.inputIds)
  have hamount : (v.member "amount").bind (·.readNumber (2 ^ 64)) = some c.amount :=
    member_bind (w := .number c.amount) (by simp [← hobject, Value.member, List.lookup_cons])
      (readNumber_number h.amount)
  have hfee : v.optional "fee" N.feeFields.read = some c.fee :=
    optional_option (f := N.feeFields.write)
      (by simp [← hobject, Value.member, List.lookup_cons]) N.feeFields.write_ne_null
      fun fee hf => N.feeFields.read_write fee (h.fee fee hf)
  have hindex : v.optional "payment_proof_derivation_index" (·.readNumber (2 ^ 32)) =
      some c.paymentProofDerivationIndex :=
    optional_option (f := .number) (by simp [← hobject, Value.member, List.lookup_cons]) (by simp)
      fun i hi => readNumber_number (h.paymentProofDerivationIndex i hi)
  have hlate := hread "late_lock_args" v (by simp [← hobject, Value.member, List.lookup_cons])
  have hexcess : v.optional "calculated_excess" N.pedersenCommitment.read = some c.calculatedExcess :=
    optional_option (f := N.pedersenCommitment.write)
      (by simp [← hobject, Value.member, List.lookup_cons]) N.pedersenCommitment.write_ne_null
      fun excess he => N.pedersenCommitment.read_write excess (h.calculatedExcess excess he)
  unfold fromJson
  rw [hparent, hkey, hnonce, hinitialKey, hinitialNonce, houtputs, hinputs, hamount, hfee, hindex,
    hlate, hexcess]
  rfl

/-! ## Contexts -/

theorem Context.write_of_toJson {c : Context E} {json : Value} (hjson : c.toJson N = .ok json)
    (hsize : (Json.render json).length ≤ MAX_CONTEXT_SIZE) :
    c.write N = .ok (Ser.u64.write (Json.render json).length ++ Json.render json) := by
  have hfits : ¬ (Json.render json).length > MAX_CONTEXT_SIZE := Nat.not_lt.mpr hsize
  unfold write
  rw [hjson]
  exact if_neg hfits

theorem Context.read_eq (N : ContextEnv F E) (R : BytesReader) :
    Context.read N R = readBytesLenPrefix R >>= fun data =>
      match (N.parse data).bind (Context.fromJson N) with
      | some c => pure c
      | none => throw .CorruptedData := rfl

theorem Context.read_run {R : BytesReader} {input data rest : Bytes} {c : Context E}
    (hdata : readBytesLenPrefix R input = (.ok data, rest))
    (hparse : (N.parse data).bind (fromJson N) = some c) : Context.read N R input = (.ok c, rest) := by
  rw [Context.read_eq, Eff.run_bind_ok hdata, hparse]
  rfl

theorem Context.read_run_error {R : BytesReader} {input rest : Bytes} {e : SerError}
    (hdata : readBytesLenPrefix R input = (.error e, rest)) :
    Context.read N R input = (.error e, rest) := by
  rw [Context.read_eq, Eff.run_bind_error hdata]

theorem Context.read_decodes {R : BytesReader} (hR : R.Lawful) {c : Context E} {json : Value}
    (hsize : (Json.render json).length ≤ MAX_CONTEXT_SIZE)
    (hparse : N.parse (Json.render json) = some json) (hread : fromJson N json = some c) :
    Decodes (Context.read N R) (Ser.u64.write (Json.render json).length ++ Json.render json) c := by
  have hcontext : (N.parse (Json.render json)).bind (fromJson N) = some c := by
    rw [hparse]
    exact hread
  have hdata := readBytesLenPrefix_decodes hR hsize
  intro rest
  exact read_run (hdata rest) hcontext

theorem InitTxArgs.dest_le_size {args : InitTxArgs} {send : InitTxSendArgs} {v : Value}
    (hsend : args.sendArgs = some send) (hv : args.toJson N = .ok v) : send.dest.length ≤ size v := by
  obtain ⟨address, -, hobject⟩ := except_bind_eq_ok.mp hv
  cases hobject
  have hdest : size (.string send.dest) ≤ size send.toJson := size_le_object (k := "dest") (by simp)
  have hlen := length_le_size_string send.dest
  apply (hlen.trans hdest).trans
  exact size_le_object (k := "send_args") (by simp [hsend, Json.option])

/-- A destination of more characters than a context may have bytes keeps it from being written. -/
theorem Context.write_long_destination {c : Context E} {args : InitTxArgs} {send : InitTxSendArgs}
    {v : Value} (hargs : c.lateLockArgs = some args) (hsend : args.sendArgs = some send)
    (hv : c.toJson N = .ok v) (hlong : MAX_CONTEXT_SIZE < send.dest.length) :
    c.write N = .error .TooLargeReadErr := by
  obtain ⟨lateLockArgs, hlate, hobject⟩ := except_bind_eq_ok.mp hv
  rw [hargs] at hlate
  obtain ⟨w, hw, hsome⟩ := except_bind_eq_ok.mp hlate
  cases hsome
  have hsize : size w ≤ size v := by
    cases hobject
    exact size_le_object (k := "late_lock_args") (by simp [Json.option])
  have hdest := InitTxArgs.dest_le_size hsend hw
  have htoo : (Json.render v).length > MAX_CONTEXT_SIZE := by
    rw [Json.render_length]
    omega
  unfold write
  rw [hv]
  exact if_pos htoo

/-- A context of a transaction that is not too heavy is written, and read back by every
reader. Readers agree on every input, and refuse a length above the limit at once. -/
theorem Context.write_read {c : Context E} (h : c.Storable N)
    (hweight : weightByIok c.inputIds.length c.outputIds.length 1 ≤ MAINNET_MAX_TX_WEIGHT)
    (hparse : ∀ json, c.toJson N = .ok json → N.parse (Json.render json) = some json) :
    (∃ json bytes, c.toJson N = .ok json ∧ (Json.render json).length ≤ MAX_CONTEXT_SIZE ∧
      c.write N = .ok bytes ∧
      ∀ R : BytesReader, R.Lawful → Decodes (Context.read N R) bytes c) ∧
    (∀ R : BytesReader, R.Lawful → ∀ input,
      (readBytesLenPrefix R input).1 = (readWhole input).1) ∧
    ∀ (R : BytesReader) (n : Nat) (rest : Bytes), n < 2 ^ 64 → n > MAX_CONTEXT_SIZE →
      readBytesLenPrefix R (Ser.u64.write n ++ rest) = (.error .TooLargeReadErr, rest) ∧
      Context.read N R (Ser.u64.write n ++ rest) = (.error .TooLargeReadErr, rest) := by
  refine ⟨?_, fun R hR => readBytesLenPrefix_fst hR, fun R n rest hn hlarge => ?_⟩
  · obtain ⟨json, hjson, hsize⟩ := size_toJson h hweight
    rw [← Json.render_length] at hsize
    exact ⟨json, _, hjson, hsize, write_of_toJson hjson hsize, fun R hR =>
      read_decodes hR hsize (hparse json hjson) (fromJson_toJson h hjson)⟩
  · have hrefused := readBytesLenPrefix_too_large R hn hlarge rest
    exact ⟨hrefused, read_run_error hrefused⟩

namespace SampleContext

theorem context_storable : context.Storable env where
  parentKeyId := ⟨by decide, by decide⟩
  secKey := trivial
  secNonce := trivial
  initialSecKey := trivial
  initialSecNonce := trivial
  outputIds entry h := by
    rcases List.mem_singleton.mp h with rfl
    exact ⟨⟨by decide, by decide⟩, by decide, by decide⟩
  inputIds entry h := by
    rcases List.mem_singleton.mp h with rfl
    exact ⟨⟨by decide, by decide⟩, by decide, by decide⟩
  amount := by decide
  fee fee h := by
    cases h
    show 5 < 2 ^ 64
    decide
  paymentProofDerivationIndex := by decide
  lateLockArgs args h := by
    cases h
    exact {
      srcAcctName s hs := by
        cases hs
        unfold ShortText
        decide
      amount := by decide
      minimumConfirmations := by decide
      maxOutputs := by decide
      numChangeOutputs := by decide
      targetSlateVersion := by decide
      ttlBlocks := by decide
      paymentProofRecipientAddress a ha := by
        cases ha
        refine ⟨rfl, ?_⟩
        show SampleSlatepack.key < 256 ^ 32
        decide
      sendArgs send hsend := by
        cases hsend
        unfold ShortText
        decide }
  calculatedExcess excess h := by
    cases h
    show 9 < 256 ^ 33
    decide

theorem reader_lawful (limit : Option Nat) : (reader limit).Lawful where
  reads n h := by
    apply if_neg
    cases limit with
    | none => simp
    | some l =>
        cases l with
        | zero => simp
        | succ l =>
            have hfits := h l rfl
            simp only [Option.any_some, decide_eq_true_eq]
            omega

theorem context_read :
    ∃ bytes, context.write env = .ok bytes ∧
      ∀ limit, Context.read env (reader limit) bytes = (.ok context, []) := by
  have hweight : weightByIok context.inputIds.length context.outputIds.length 1 ≤
      MAINNET_MAX_TX_WEIGHT := by decide
  have hparse : ∀ v, context.toJson env = .ok v → env.parse (Json.render v) = some v := by
    intro v h
    have hv : json = v := Except.ok.inj (context_toJson.symm.trans h)
    rw [← hv, env_parse, if_pos rfl]
  obtain ⟨-, bytes, -, -, hwrite, hread⟩ := (Context.write_read context_storable hweight hparse).1
  refine ⟨bytes, hwrite, fun limit => ?_⟩
  have hrun := hread (reader limit) (reader_lawful limit) []
  rw [List.append_nil] at hrun
  exact hrun

/-- A context without what it keeps for sending. -/
def withoutSendArgs (c : Context Nat) : Context Nat :=
  { c with lateLockArgs := c.lateLockArgs.map fun args => { args with sendArgs := none } }

theorem withoutSendArgs_storable {c : Context Nat} (h : c.Storable env) :
    (withoutSendArgs c).Storable env :=
  { h with
    lateLockArgs := by
      intro args hargs
      obtain ⟨args', hargs', rfl⟩ := Option.mem_map.mp hargs
      have hstored := h.lateLockArgs args' hargs'
      exact { hstored with sendArgs := fun send hsend => by cases hsend } }

/-- The sample with a destination of more characters than a context may have bytes. -/
def longDestination : Context Nat :=
  { context with
    lateLockArgs := context.lateLockArgs.map fun args =>
      { args with
        sendArgs := some {
          dest := List.replicate (MAX_CONTEXT_SIZE + 1) 'x'
          postTx := true
          fluff := false
          skipTor := none } } }

theorem long_destination_not_written :
    (withoutSendArgs longDestination).Storable env ∧
    weightByIok longDestination.inputIds.length longDestination.outputIds.length 1 ≤
      MAINNET_MAX_TX_WEIGHT ∧
    longDestination.write env = .error .TooLargeReadErr := by
  have hsame : withoutSendArgs longDestination = withoutSendArgs context := rfl
  have hstorable := withoutSendArgs_storable context_storable
  rw [← hsame] at hstorable
  refine ⟨hstorable, by decide, ?_⟩
  have hjson : ∃ v, longDestination.toJson env = .ok v := ⟨_, rfl⟩
  obtain ⟨v, hv⟩ := hjson
  apply Context.write_long_destination rfl rfl hv
  rw [List.length_replicate]
  exact Nat.lt_succ_self MAX_CONTEXT_SIZE

end SampleContext

end GrinWallet
