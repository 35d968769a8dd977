import GrinWallet.Model.Slatepack

/-! # The round trip of the binary slatepack

What is written for an address of the current network, and for a slatepack with
such a sender, is read back; the length in front of the optional fields is the
length of what follows.
-/

namespace GrinWallet

open Effect Wire

variable {F E : Type} {N : SlatepackEnv F E}

/-! ## Addresses -/

/-- An address of the current network with a key that is one. -/
structure SlatepackAddress.Known (N : SlatepackEnv F E) (a : SlatepackAddress) : Prop where
  hrp : a.hrp = N.slatepackHrp
  pubKey : N.dalekPublicKey.Valid a.pubKey

/-- Only addresses of the network are accepted. -/
theorem SlatepackAddress.tryFrom_eq_ok {encoded : Bytes} {a : SlatepackAddress}
    (h : tryFrom N encoded = .ok a) : a.hrp = N.slatepackHrp ∧
      ∃ data, N.bech32Decode encoded = some (N.slatepackHrp, data) ∧ data.length = 32 := by
  unfold tryFrom at h
  cases hd : N.bech32Decode encoded with
  | none => simp [hd] at h
  | some p =>
      simp only [hd] at h
      split_ifs at h with hhrp hlen
      cases hk : N.dalekPublicKey.fromBytes p.2 with
      | none => simp [hk] at h
      | some k =>
          simp only [hk, Except.ok.injEq] at h
          have hp : p.1 = N.slatepackHrp := not_not.mp hhrp
          rw [← h, ← hp]
          exact ⟨rfl, p.2, rfl, not_not.mp hlen⟩

/-- An address that is read, behind its length byte. -/
theorem SlatepackAddress.read_eq_ok {s s' : Bytes} {a : SlatepackAddress}
    (h : read N s = (.ok a, s')) : ∃ encoded : Bytes,
      s.length = 1 + encoded.length + s'.length ∧ tryFrom N encoded = .ok a := by
  obtain ⟨n, t, hn, hbytes⟩ := Eff.bind_eq_ok.mp h
  obtain ⟨encoded, t', hencoded, htry⟩ := Eff.bind_eq_ok.mp hbytes
  obtain ⟨b, hs, hb, -⟩ := word_read_eq_ok hn
  unfold Codecs.readFixedBytes at hencoded
  split_ifs at hencoded
  · cases hencoded
  have ht := (takeBytes_eq_ok hencoded).1
  cases haddr : tryFrom N encoded with
  | error e =>
      rw [haddr] at htry
      cases htry
  | ok a' =>
      rw [haddr] at htry
      cases htry
      refine ⟨encoded, ?_, haddr⟩
      rw [hs, ht, List.length_append, List.length_append, hb, Nat.add_assoc]

/-- The bytes of an address: what is written, how long it is and how it is read. -/
structure SlatepackAddress.WrittenAs (N : SlatepackEnv F E) (a : SlatepackAddress) (bs : Bytes) :
    Prop where
  write : a.write N = .ok bs
  encodedLen : a.encodedLen N = .ok bs.length
  length : bs.length ≤ 256
  decodes : Decodes (SlatepackAddress.read N) bs a

theorem SlatepackAddress.Known.written {a : SlatepackAddress} (h : a.Known N) :
    ∃ bs, a.WrittenAs N bs := by
  obtain ⟨s, hencode, hlen, hdecode⟩ :=
    N.bech32_address (N.dalekPublicKey.toBytes a.pubKey) (N.dalekPublicKey.length_toBytes _)
  have hencoded : a.encoded N = .ok s := by
    unfold encoded
    rw [h.hrp, hencode]
  have hcount : s.length % 2 ^ 8 = s.length := Nat.mod_eq_of_lt (by omega)
  have hparse : tryFrom N s = .ok a := by
    unfold tryFrom
    rw [hdecode]
    simp [N.dalekPublicKey.length_toBytes, N.dalekPublicKey.fromBytes_toBytes _ h.pubKey, ← h.hrp]
  have hlimit := N.readLimit_ge
  refine ⟨Ser.u8.write s.length ++ s, ?_, ?_, ?_, ?_⟩
  · unfold write
    rw [hencoded]
    simp only [hcount]
    rw [if_neg (by omega)]
  · unfold encodedLen
    rw [hencoded]
    simp [Ser.u8, word, Nat.add_comm, pure, Except.pure, bind, Except.bind]
  · simp only [Ser.u8, word, List.length_append, wordBytes_length]
    omega
  · apply (Ser.u8.decodes s.length (Ser.u8_valid.mpr (by omega))).bind
    apply (N.readFixedBytes_decodes rfl (by omega)).bind_last
    rw [hparse]
    exact .pure a

/-- An address that is read is counted with the bytes it took. -/
theorem readCounted_decodes {a : SlatepackAddress} {bs : Bytes} (h : a.WrittenAs N bs) {n : Nat}
    (hn : bs.length ≤ n) : Decodes (readCounted N n) bs (a, n - bs.length) := by
  have hlen : bs.length % 2 ^ 32 = bs.length := by
    have := h.length
    exact Nat.mod_eq_of_lt (by omega)
  have hsub : subU32 n (bs.length % 2 ^ 32) = .ok (n - bs.length) := by
    rw [hlen, subU32, if_pos hn]
  apply h.decodes.bind_last
  rw [h.encodedLen]
  exact Decodes.ofExcept_bind hsub (.pure _)

/-! ## The slatepack -/

/-- The version numbers and the lengths are in the range of their types. -/
structure Slatepack.Typed (sp : Slatepack) : Prop where
  major : sp.slatepack.major < 2 ^ 8
  minor : sp.slatepack.minor < 2 ^ 8
  payload : sp.payload.length < 2 ^ 64

namespace SlatepackBin

/-- The bytes of a sender, none when there is none. -/
structure SenderWrittenAs (N : SlatepackEnv F E) (sender : Option SlatepackAddress) (bs : Bytes) :
    Prop where
  write : sender.elim (.ok []) (·.write N) = .ok bs
  encodedLen : sender.elim (.ok 0) (·.encodedLen N) = .ok bs.length
  length : bs.length ≤ 256
  decodes : ∀ flags n, (flags &&& 0x01 > 0 ↔ sender.isSome) → bs.length ≤ n →
    Decodes (readSender N flags n) bs (sender, n - bs.length)

theorem sender_written {sender : Option SlatepackAddress} (h : ∀ a ∈ sender, a.Known N) :
    ∃ bs, SenderWrittenAs N sender bs := by
  cases sender with
  | none =>
      refine ⟨[], rfl, rfl, by decide, ?_⟩
      intro flags n hflags _
      unfold readSender
      rw [if_neg (by simpa using hflags)]
      exact .pure _
  | some a =>
      obtain ⟨bs, hbs⟩ := (h a rfl).written
      refine ⟨bs, hbs.write, hbs.encodedLen, hbs.length, ?_⟩
      intro flags n hflags hn
      unfold readSender
      rw [if_pos (by simpa using hflags)]
      exact (readCounted_decodes hbs hn).bind_last (.pure _)

theorem write_eq {sp : Slatepack} {bs : Bytes} (h : SenderWrittenAs N sp.sender bs) :
    write N sp = .ok
      (sp.slatepack.write ++ Ser.u8.write sp.mode ++
        Ser.u16.write (if sp.sender.isSome then 0x01 else 0) ++ Ser.u32.write bs.length ++ bs ++
        Ser.u64.write sp.payload.length ++ sp.payload) := by
  have hopt : sp.optFieldsLen N = .ok bs.length := by
    have hlen := h.encodedLen
    unfold Slatepack.optFieldsLen
    cases hs : sp.sender with
    | none => simpa [hs] using hlen
    | some a =>
        rw [hs] at hlen
        simp only [show a.encodedLen N = .ok bs.length from hlen]
  have hcount : bs.length % 2 ^ 32 = bs.length := by
    have := h.length
    exact Nat.mod_eq_of_lt (by omega)
  unfold write
  rw [hopt, h.write]
  simp only [bind, Except.bind, pure, Except.pure, hcount]

theorem readHeader_decodes {sp : Slatepack} (h : sp.Typed) (hmode : sp.mode ≤ 1) {flags n : Nat}
    (hflags : flags < 2 ^ 16) (hn : n < 2 ^ 32) :
    Decodes readHeader
      (sp.slatepack.write ++ Ser.u8.write sp.mode ++ Ser.u16.write flags ++ Ser.u32.write n)
      (sp.slatepack, sp.mode, flags, n) := by
  have hversion : Decodes SlatepackVersion.read sp.slatepack.write sp.slatepack := by
    apply (Ser.u8.decodes _ (Ser.u8_valid.mpr h.major)).bind
    apply (Ser.u8.decodes _ (Ser.u8_valid.mpr h.minor)).bind_last
    exact .pure _
  simp only [List.append_assoc]
  apply hversion.bind
  apply (Ser.u8.decodes _ (Ser.u8_valid.mpr (by omega))).bind
  rw [if_neg (by omega)]
  apply (Ser.u16.decodes _ (Ser.u16_valid.mpr hflags)).bind
  apply (Ser.u32.decodes _ (Ser.u32_valid.mpr hn)).bind_last
  exact .pure _

/-- What is written in front of the payload. -/
def front (sp : Slatepack) (bs : Bytes) : Bytes :=
  sp.slatepack.write ++ Ser.u8.write sp.mode ++
    Ser.u16.write (if sp.sender.isSome then 0x01 else 0) ++ Ser.u32.write bs.length ++ bs ++
    Ser.u64.write sp.payload.length

/-- Behind what is written in front of it, the payload is read in one piece. -/
theorem read_front {sp : Slatepack} (h : sp.Typed) (hmode : sp.mode ≤ 1) {bs : Bytes}
    (hbs : SenderWrittenAs N sp.sender bs) (rest : Bytes) :
    read N (front sp bs ++ rest) =
      (do
        let payload ← N.readFixedBytes sp.payload.length
        return { sp with encryptedMeta := .empty, payload }) rest := by
  have hlen := hbs.length
  have hflags : (if sp.sender.isSome then 0x01 else 0) < 2 ^ 16 := by
    split_ifs <;> decide
  have hpresent : (if sp.sender.isSome then 0x01 else 0) &&& 0x01 > 0 ↔ sp.sender.isSome := by
    split_ifs with hp <;> simp [hp]
  have hheader := readHeader_decodes h hmode hflags (show bs.length < 2 ^ 32 by omega)
  have hread := hbs.decodes _ _ hpresent (Nat.le_refl bs.length)
  rw [Nat.sub_self] at hread
  have hskip : Decodes (skipBytes SerError.IOErr 0) [] () := .pure ()
  have hword := Ser.u64.decodes _ (Ser.u64_valid.mpr h.payload)
  unfold front read
  rw [List.append_assoc, List.append_assoc, hheader.run_bind]
  dsimp only
  refine (hread.run_bind _ _).trans ?_
  rw [← List.nil_append (Ser.u64.write _ ++ _)]
  refine (hskip.run_bind _ _).trans ?_
  exact hword.run_bind _ _

/-- Reading what was written for a slatepack whose sender, if any, has an address
of the network. -/
theorem write_decodes {sp : Slatepack} (h : sp.Typed) (hmode : sp.mode ≤ 1)
    (hsender : ∀ a ∈ sp.sender, a.Known N) (hpayload : sp.payload.length ≤ N.readLimit) :
    ∃ bytes, write N sp = .ok bytes ∧
      Decodes (read N) bytes { sp with encryptedMeta := .empty } := by
  obtain ⟨bs, hbs⟩ := sender_written hsender
  refine ⟨_, write_eq hbs, ?_⟩
  intro rest
  rw [List.append_assoc]
  refine (read_front h hmode hbs _).trans ?_
  exact Eff.run_bind_ok (N.readFixedBytes_decodes rfl hpayload rest)

/-- A payload over the reader's limit is written and not read. -/
theorem read_too_large {sp : Slatepack} (h : sp.Typed) (hmode : sp.mode ≤ 1)
    (hsender : ∀ a ∈ sp.sender, a.Known N) (hpayload : sp.payload.length > N.readLimit) :
    ∃ bytes, write N sp = .ok bytes ∧ (read N bytes).1 = .error .TooLargeReadErr := by
  obtain ⟨bs, hbs⟩ := sender_written hsender
  refine ⟨_, write_eq hbs, ?_⟩
  have hread := read_front h hmode hbs sp.payload
  unfold front at hread
  rw [hread, Eff.run_bind, Codecs.readFixedBytes, if_pos hpayload]
  rfl

end SlatepackBin

end GrinWallet
