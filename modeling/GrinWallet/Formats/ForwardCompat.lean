import GrinWallet.Formats.Encryption
import GrinWallet.Formats.HostileInput

/-! # Forward compatibility of slatepacks

A later version may put fields behind the known ones, set flags for them, and add
their length to the length in front. The readers take the known fields off that
length and read past what is left, so they return what they return without the
unknown fields; and the payload of a decrypted slatepack is cut off behind them.
-/

namespace GrinWallet

open Effect Wire

variable {F E : Type}

section Fields

variable {N : SlatepackEnv F E} {addressLen : Nat}

/-! ## Written addresses -/

namespace SlatepackAddress

theorem write_eq_ok {a : SlatepackAddress} {bs : Bytes} (h : a.write N = .ok bs) :
    ∃ s : Bytes, a.encoded N = .ok s ∧ s.length ≤ 255 ∧ bs = Ser.u8.write s.length ++ s := by
  unfold write at h
  cases hs : a.encoded N with
  | error e => simp [hs] at h
  | ok s =>
      simp only [hs] at h
      split_ifs at h with hlen
      cases h
      exact ⟨s, rfl, by omega, by rw [Nat.mod_eq_of_lt (by omega)]⟩

theorem encodedLen_of_write {a : SlatepackAddress} {bs : Bytes} (h : a.write N = .ok bs) :
    a.encodedLen N = .ok bs.length ∧ bs.length ≤ 256 := by
  obtain ⟨s, hs, hlen, rfl⟩ := write_eq_ok h
  have hbytes : (Ser.u8.write s.length ++ s).length = s.length + 1 := by
    rw [List.length_append, Ser.u8, word_write_length, Nat.add_comm]
  rw [hbytes]
  refine ⟨?_, by omega⟩
  unfold encodedLen
  rw [hs]
  rfl

/-- The address a string is read as. -/
def parsed (N : SlatepackEnv F E) (s : Bytes) : Except SerError SlatepackAddress :=
  match tryFrom N s with
  | .ok a => .ok a
  | .error _ => .error .CorruptedData

theorem read_settles {s : Bytes} (h : s.length ≤ 255) :
    Settles (read N) (Ser.u8.write s.length ++ s) (parsed N s) := by
  have hlimit := N.readLimit_ge
  have hlen : Decodes Ser.u8.read (Ser.u8.write s.length) s.length :=
    Ser.u8.decodes s.length (Ser.u8_valid.mpr (by omega))
  have hstring : Decodes (N.readFixedBytes s.length) s s :=
    N.readFixedBytes_decodes rfl (by omega)
  refine hlen.settles.bind (y := fun _ => parsed N s) fun n hn => ?_
  cases hn
  refine hstring.settles.bind_last (y := fun _ => parsed N s) fun s' hs' => ?_
  cases hs'
  unfold parsed
  cases htry : tryFrom N s with
  | ok a => exact (Decodes.pure a).settles
  | error e => exact .throw _ _

/-- A read address is as long as the string it was read from. -/
theorem encodedLen_of_tryFrom (hN : N.AddressLength addressLen) {s : Bytes} {a : SlatepackAddress} {n : Nat}
    (h : tryFrom N s = .ok a) (hn : a.encodedLen N = .ok n) : n = s.length + 1 := by
  obtain ⟨hhrp, data, hdecode, hdata⟩ := tryFrom_eq_ok h
  obtain ⟨s', hs', hlen⟩ := except_bind_eq_ok.mp hn
  cases hlen
  unfold encoded at hs'
  rw [hhrp] at hs'
  cases hencode : N.bech32Encode N.slatepackHrp (N.dalekPublicKey.toBytes a.pubKey) with
  | none => simp [hencode] at hs'
  | some t =>
      simp only [hencode, Except.ok.injEq] at hs'
      subst hs'
      rw [hN.encode _ t (N.dalekPublicKey.length_toBytes a.pubKey) hencode,
        hN.decode s data hdecode hdata]

end SlatepackAddress

/-- What is read of the string of an address, when it can be counted. -/
def countedAddress (N : SlatepackEnv F E) (s : Bytes) : Except SerError SlatepackAddress := do
  let a ← SlatepackAddress.parsed N s
  match a.encodedLen N with
  | .ok _ => .ok a
  | .error _ => .error .CorruptedData

/-- What is left behind a counted address. -/
def leftBehind (N : SlatepackEnv F E) (left : Nat) (a : SlatepackAddress) :
    Except SerError (SlatepackAddress × Nat) :=
  match a.encodedLen N with
  | .ok _ => .ok (a, left)
  | .error _ => .error .CorruptedData

/-- The string of an address is counted with its own length, whatever is left behind it. -/
theorem readCounted_settles (hN : N.AddressLength addressLen) {s : Bytes} (hlen : s.length ≤ 255) {n : Nat}
    (hn : s.length + 1 ≤ n) :
    Settles (readCounted N n) (Ser.u8.write s.length ++ s)
      ((countedAddress N s).map fun a => (a, n - (s.length + 1))) := by
  have hmap : ((countedAddress N s).map fun a => (a, n - (s.length + 1)))
      = (SlatepackAddress.parsed N s >>= leftBehind N (n - (s.length + 1))) := by
    unfold countedAddress
    cases SlatepackAddress.parsed N s with
    | error e => rfl
    | ok a =>
        simp only [bind, Except.bind, leftBehind]
        cases a.encodedLen N <;> rfl
  rw [hmap]
  refine (SlatepackAddress.read_settles (N := N) hlen).bind_last fun a ha => ?_
  unfold leftBehind
  cases hcount : a.encodedLen N with
  | error e => exact .throw _ _
  | ok len =>
      have hparsed : SlatepackAddress.tryFrom N s = .ok a := by
        unfold SlatepackAddress.parsed at ha
        cases htry : SlatepackAddress.tryFrom N s with
        | error e => simp [htry] at ha
        | ok a' =>
            simp only [htry, Except.ok.injEq] at ha
            rw [ha]
      have hcounted : len % 2 ^ 32 = s.length + 1 := by
        rw [SlatepackAddress.encodedLen_of_tryFrom hN hparsed hcount]
        exact Nat.mod_eq_of_lt (by omega)
      have hsub : subU32 n (len % 2 ^ 32) = .ok (n - (s.length + 1)) := by
        rw [hcounted, subU32, if_pos hn]
      exact (Decodes.ofExcept_bind hsub (.pure (a, n - (s.length + 1)))).settles

/-! ## The known fields -/

theorem readSender_settles (hN : N.AddressLength addressLen) {sender : Option SlatepackAddress} {bs : Bytes}
    (h : sender.elim (.ok []) (·.write N) = .ok bs) :
    ∃ x : Except SerError (Option SlatepackAddress), ∀ flags n,
      (flags &&& 0x01 > 0 ↔ sender.isSome) → bs.length ≤ n →
        Settles (SlatepackBin.readSender N flags n) bs (x.map fun o => (o, n - bs.length)) := by
  cases sender with
  | none =>
      cases h
      refine ⟨.ok none, fun flags n hflags _ => ?_⟩
      unfold SlatepackBin.readSender
      rw [if_neg (by simpa using hflags)]
      exact (Decodes.pure _).settles
  | some a =>
      obtain ⟨s, hs, hlen, rfl⟩ := SlatepackAddress.write_eq_ok h
      have hbytes : (Ser.u8.write s.length ++ s).length = s.length + 1 := by
        rw [List.length_append, Ser.u8, word_write_length, Nat.add_comm]
      refine ⟨(countedAddress N s).map some, fun flags n hflags hn => ?_⟩
      unfold SlatepackBin.readSender
      rw [hbytes] at hn ⊢
      rw [if_pos (by simpa using hflags)]
      have hread := (readCounted_settles hN hlen hn).bind_last
        (f := fun p => pure (some p.1, p.2)) (y := fun p => .ok (some p.1, p.2))
        fun p hp => (Decodes.pure _).settles
      cases hcounted : countedAddress N s with
      | error e =>
          rw [hcounted] at hread
          exact hread
      | ok a' =>
          rw [hcounted] at hread
          exact hread

namespace SlatepackEncMetadataBin

/-- The first of the recipients that were written, as many as the count says. -/
theorem readRecipients_settles (hN : N.AddressLength addressLen) {rs : List SlatepackAddress}
    {bss : List Bytes} (h : rs.mapM (·.write N) = .ok bss) {count : Nat} (hcount : count ≤ rs.length) :
    ∃ x : Except SerError (List SlatepackAddress), ∀ n, (bss.take count).flatten.length ≤ n →
      Settles (readRecipients N count n) (bss.take count).flatten
        (x.map fun l => (l, n - (bss.take count).flatten.length)) := by
  induction rs generalizing bss count with
  | nil =>
      obtain rfl : count = 0 := Nat.le_zero.mp hcount
      exact ⟨.ok [], fun n _ => (Decodes.pure _).settles⟩
  | cons a rs ih =>
      rw [List.mapM_cons] at h
      obtain ⟨bs, hbs, h⟩ := except_bind_eq_ok.mp h
      obtain ⟨bss', hbss', h⟩ := except_bind_eq_ok.mp h
      cases h
      cases count with
      | zero => exact ⟨.ok [], fun n _ => (Decodes.pure _).settles⟩
      | succ count =>
          obtain ⟨s, hs, hlen, rfl⟩ := SlatepackAddress.write_eq_ok hbs
          obtain ⟨x, hx⟩ := ih hbss' (Nat.le_of_succ_le_succ hcount)
          have hbytes : (Ser.u8.write s.length ++ s).length = s.length + 1 := by
            rw [List.length_append, Ser.u8, word_write_length, Nat.add_comm]
          refine ⟨countedAddress N s >>= fun a => x.map (a :: ·), fun n hn => ?_⟩
          rw [List.take_succ_cons, List.flatten_cons, List.length_append, hbytes] at hn ⊢
          have hread := (readCounted_settles hN hlen (show s.length + 1 ≤ n by omega)).bind
            (f := fun p => do
              let q ← readRecipients N count p.2
              return (p.1 :: q.1, q.2))
            (c := (bss'.take count).flatten)
            (y := fun p => x.map fun l => (p.1 :: l, p.2 - (bss'.take count).flatten.length)) ?_
          · refine Eq.mp (congrArg (Settles _ _) ?_) hread
            cases countedAddress N s with
            | error e => rfl
            | ok a' =>
                cases x with
                | error e => rfl
                | ok l =>
                    show Except.ok (a' :: l, n - (s.length + 1) - _) = Except.ok (a' :: l, n - _)
                    rw [Nat.sub_sub]
          · intro p hp
            have hleft : p.2 = n - (s.length + 1) := by
              cases hcounted : countedAddress N s with
              | error e => simp [hcounted, Except.map] at hp
              | ok a' =>
                  rw [hcounted] at hp
                  cases hp
                  rfl
            have htail := hx p.2 (by omega)
            have hcons := htail.bind_last (f := fun q => pure (p.1 :: q.1, q.2))
              (y := fun q => .ok (p.1 :: q.1, q.2)) fun q hq => (Decodes.pure _).settles
            cases x with
            | error e => exact hcons
            | ok l => exact hcons

/-- The count of the recipients and as many of them as it says, nothing when there are
none. -/
def knownList (rs : List SlatepackAddress) (bss : List Bytes) : Bytes :=
  if rs.isEmpty then []
  else Ser.u16.write (rs.length % 2 ^ 16) ++ (bss.take (rs.length % 2 ^ 16)).flatten

/-- The recipients beyond a count of 16 bits. -/
def uncounted (rs : List SlatepackAddress) (bss : List Bytes) : Bytes :=
  (bss.drop (rs.length % 2 ^ 16)).flatten

theorem readList_settles (hN : N.AddressLength addressLen) {rs : List SlatepackAddress} {bss : List Bytes}
    (h : rs.mapM (·.write N) = .ok bss) :
    ∃ x : Except SerError (List SlatepackAddress), ∀ flags n,
      (flags &&& 0x02 > 0 ↔ ¬ rs.isEmpty) → (knownList rs bss).length ≤ n →
        Settles (readList N flags n) (knownList rs bss)
          (x.map fun l => (l, n - (knownList rs bss).length)) := by
  by_cases hempty : rs.isEmpty
  · refine ⟨.ok [], fun flags n hflags _ => ?_⟩
    unfold readList knownList
    rw [if_pos hempty, if_neg (by simpa using fun hf => hflags.mp hf hempty)]
    exact (Decodes.pure _).settles
  · obtain ⟨x, hx⟩ := readRecipients_settles hN h (Nat.mod_le rs.length (2 ^ 16))
    refine ⟨x, fun flags n hflags hn => ?_⟩
    have hknown : knownList rs bss = Ser.u16.write (rs.length % 2 ^ 16)
        ++ (bss.take (rs.length % 2 ^ 16)).flatten := if_neg hempty
    have hlen : (knownList rs bss).length
        = 2 + (bss.take (rs.length % 2 ^ 16)).flatten.length := by
      rw [hknown, List.length_append, Ser.u16, word_write_length]
    rw [hlen] at hn ⊢
    rw [hknown]
    unfold readList
    rw [if_pos (hflags.mpr hempty)]
    have hcount : Decodes Ser.u16.read (Ser.u16.write (rs.length % 2 ^ 16)) (rs.length % 2 ^ 16) :=
      Ser.u16.decodes _ (Ser.u16_valid.mpr (Nat.mod_lt _ (by decide)))
    have hsub : subU32 n 2 = .ok (n - 2) := by
      rw [subU32, if_pos (by omega)]
    refine hcount.settles.bind (y := fun _ => x.map fun l =>
      (l, n - (2 + (bss.take (rs.length % 2 ^ 16)).flatten.length))) fun c hc => ?_
    cases hc
    rw [hsub]
    have hread := hx (n - 2) (by omega)
    rw [Nat.sub_sub] at hread
    exact hread

theorem encodedLens_of_writes {rs : List SlatepackAddress} {bss : List Bytes}
    (h : rs.mapM (·.write N) = .ok bss) : rs.mapM (·.encodedLen N) = .ok (bss.map List.length) := by
  induction rs generalizing bss with
  | nil =>
      cases h
      rfl
  | cons a rs ih =>
      rw [List.mapM_cons] at h
      obtain ⟨bs, hbs, h⟩ := except_bind_eq_ok.mp h
      obtain ⟨bss', hbss', h⟩ := except_bind_eq_ok.mp h
      cases h
      rw [List.mapM_cons, (SlatepackAddress.encodedLen_of_write hbs).1, ih hbss']
      rfl

theorem knownList_append (rs : List SlatepackAddress) {bss : List Bytes}
    (hbss : rs.isEmpty → bss = []) : knownList rs bss ++ uncounted rs bss
      = (if rs.isEmpty then [] else Ser.u16.write (rs.length % 2 ^ 16)) ++ bss.flatten := by
  unfold knownList uncounted
  by_cases hempty : rs.isEmpty
  · rw [if_pos hempty, if_pos hempty, hbss hempty, List.drop_nil]
  · rw [if_neg hempty, if_neg hempty, List.append_assoc, ← List.flatten_append,
      List.take_append_drop]

/-- The bytes of metadata, taken apart. -/
theorem write_parts {m : SlatepackEncMetadata} {bytes : Bytes} (h : write N m = .ok bytes) :
    ∃ bs bss, m.sender.elim (.ok []) (·.write N) = .ok bs ∧
      m.recipients.mapM (·.write N) = .ok bss ∧
      bytes = Ser.u32.write ((Ser.u16.write (flags m) ++
          (bs ++ (knownList m.recipients bss ++ uncounted m.recipients bss))).length % 2 ^ 32) ++
        (Ser.u16.write (flags m) ++
          (bs ++ (knownList m.recipients bss ++ uncounted m.recipients bss))) := by
  unfold write at h
  obtain ⟨len, hlen, h⟩ := except_bind_eq_ok.mp h
  obtain ⟨bs, hbs, h⟩ := except_bind_eq_ok.mp h
  obtain ⟨bss, hbss, h⟩ := except_bind_eq_ok.mp h
  rw [if_neg (by omega)] at h
  cases h
  refine ⟨bs, bss, hbs, hbss, ?_⟩
  have hnone : m.recipients.isEmpty → bss = [] := by
    intro hempty
    rw [List.isEmpty_iff.mp hempty] at hbss
    cases hbss
    rfl
  have hsender : m.sender.elim (.ok 0) (·.encodedLen N) = .ok bs.length := by
    cases hm : m.sender with
    | none =>
        rw [hm] at hbs
        cases hbs
        rfl
    | some a =>
        rw [hm] at hbs
        exact (SlatepackAddress.encodedLen_of_write hbs).1
  have hsum : (bss.map List.length).sum = bss.flatten.length := List.length_flatten.symm
  rw [knownList_append m.recipients hnone]
  have hcount : len = (Ser.u16.write (flags m) ++ (bs ++ ((if m.recipients.isEmpty then []
      else Ser.u16.write (m.recipients.length % 2 ^ 16)) ++ bss.flatten))).length := by
    have hencoded := except_mapError_eq_ok.mp hlen
    unfold SlatepackEncMetadata.encodedLen at hencoded
    rw [hsender, encodedLens_of_writes hbss] at hencoded
    cases hencoded
    simp only [List.length_append, Ser.u16, word_write_length, hsum]
    by_cases hempty : m.recipients.isEmpty
    · rw [if_pos hempty, if_pos hempty, hnone hempty]
      simp
    · rw [if_neg hempty, if_neg hempty, word_write_length]
      omega
  rw [← hcount]
  simp only [flags, List.append_assoc]

/-- The reader comes to the same end with unknown data and flags for it as without. -/
theorem read_settles (hN : N.AddressLength addressLen) {m : SlatepackEncMetadata} {bs : Bytes}
    {bss : List Bytes} (hbs : m.sender.elim (.ok []) (·.write N) = .ok bs)
    (hbss : m.recipients.mapM (·.write N) = .ok bss) :
    ∃ x : Except SerError SlatepackEncMetadata, ∀ (flags : Nat) (extra : Bytes), flags < 2 ^ 16 →
      (flags &&& 0x01 > 0 ↔ m.sender.isSome) → (flags &&& 0x02 > 0 ↔ ¬ m.recipients.isEmpty) →
      2 + bs.length + (knownList m.recipients bss).length + extra.length < 2 ^ 32 →
      Settles (read N) (Ser.u32.write (2 + bs.length + (knownList m.recipients bss).length
          + extra.length) ++ (Ser.u16.write flags ++ (bs ++ (knownList m.recipients bss ++ extra)))) x := by
  obtain ⟨xs, hxs⟩ := readSender_settles hN hbs
  obtain ⟨xl, hxl⟩ := readList_settles hN hbss
  let x : Except SerError SlatepackEncMetadata :=
    xs >>= fun sender => xl.map fun recipients => ⟨sender, recipients⟩
  refine ⟨x, ?_⟩
  intro flags extra hflags hsender hrecipients hfits
  have hlen := Ser.u32.decodes _ (Ser.u32_valid.mpr hfits)
  have hflagsRead := Ser.u16.decodes flags (Ser.u16_valid.mpr hflags)
  have hsub : subU32 (2 + bs.length + (knownList m.recipients bss).length + extra.length) 2
      = .ok (bs.length + ((knownList m.recipients bss).length + extra.length)) := by
    rw [subU32, if_pos (by omega)]
    congr 1
    omega
  refine hlen.settles.bind (y := fun _ => x) fun n hn => ?_
  cases hn
  refine hflagsRead.settles.bind (y := fun _ => x) fun f hf => ?_
  cases hf
  rw [hsub]
  have hreadSender := hxs flags (bs.length + ((knownList m.recipients bss).length + extra.length))
    hsender (by omega)
  rw [Nat.add_sub_cancel_left] at hreadSender
  have hreadList := hxl flags ((knownList m.recipients bss).length + extra.length) hrecipients
    (by omega)
  rw [Nat.add_sub_cancel_left] at hreadList
  -- what is left behind the known fields is read past
  have hrest : ∀ sender : Option SlatepackAddress, Settles (do
      let q ← readList N flags ((knownList m.recipients bss).length + extra.length)
      skipBytes SerError.IOErr q.2
      return ⟨sender, q.1⟩ : Reader SerError SlatepackEncMetadata)
      (knownList m.recipients bss ++ extra) (xl.map fun recipients => ⟨sender, recipients⟩) := by
    intro sender
    have hskip := (skipBytes_decodes SerError.IOErr extra).settles
    have hread := hreadList.bind (f := fun p => do
        skipBytes SerError.IOErr p.2
        return SlatepackEncMetadata.mk sender p.1) (c := extra)
      (y := fun p => .ok (SlatepackEncMetadata.mk sender p.1)) fun p hp => ?_
    · cases xl with
      | error e => exact hread
      | ok l => exact hread
    · have hleft : p.2 = extra.length := by
        cases xl with
        | error e => simp [Except.map] at hp
        | ok l =>
            cases hp
            rfl
      rw [hleft]
      exact hskip.bind_last (y := fun _ => .ok (SlatepackEncMetadata.mk sender p.1)) fun _ _ => (Decodes.pure _).settles
  have hread := hreadSender.bind (f := fun p => do
      let q ← readList N flags p.2
      skipBytes SerError.IOErr q.2
      return SlatepackEncMetadata.mk p.1 q.1) (c := knownList m.recipients bss ++ extra)
    (y := fun p => xl.map fun recipients => SlatepackEncMetadata.mk p.1 recipients) fun p hp => ?_
  · cases xs with
    | error e => exact hread
    | ok sender => exact hread
  · have hleft : p.2 = (knownList m.recipients bss).length + extra.length := by
      cases xs with
      | error e => simp [Except.map] at hp
      | ok sender =>
          cases hp
          rfl
    rw [hleft]
    exact hrest p.1

/-- Metadata with unknown data behind its fields, flags for it, and its length added to
the length in front. -/
def extend (unknown : Nat) (extra bytes : Bytes) : Bytes :=
  Ser.u32.write (wordValue (bytes.take 4) + extra.length) ++
    (Ser.u16.write (wordValue ((bytes.drop 4).take 2) ||| unknown) ++ (bytes.drop 6 ++ extra))

theorem extend_eq (unknown : Nat) (extra fields : Bytes) {n f : Nat} (hn : n < 2 ^ 32)
    (hf : f < 2 ^ 16) :
    extend unknown extra (Ser.u32.write n ++ (Ser.u16.write f ++ fields))
      = Ser.u32.write (n + extra.length) ++ (Ser.u16.write (f ||| unknown) ++ (fields ++ extra)) := by
  have hlen : (Ser.u32.write n).length = 4 := word_write_length _ 4 n
  have hflags : (Ser.u16.write f).length = 2 := word_write_length _ 2 f
  have hfront : (Ser.u32.write n ++ Ser.u16.write f).length = 6 := by
    rw [List.length_append, hlen, hflags]
  have hvalue : wordValue (Ser.u32.write n) = n := wordValue_word_write (Ser.u32_valid.mpr hn)
  have hvalue' : wordValue (Ser.u16.write f) = f := wordValue_word_write (Ser.u16_valid.mpr hf)
  unfold extend
  rw [List.take_left' hlen, List.drop_left' hlen, List.take_left' hflags, hvalue, hvalue',
    ← List.append_assoc (Ser.u32.write n), List.drop_left' hfront]

end SlatepackEncMetadataBin

/-! ## Unknown flags -/

theorem or_and_eq {f unknown mask : Nat} (h : unknown &&& mask = 0) :
    (f ||| unknown) &&& mask = f &&& mask := by
  rw [Nat.and_or_distrib_right, h, Nat.or_zero]

theorem and_eq_zero_of_mask {unknown mask bit : Nat} (h : unknown &&& mask = 0)
    (hbit : mask &&& bit = bit) : unknown &&& bit = 0 := by
  rw [← hbit, ← Nat.and_assoc, h, Nat.zero_and]

namespace SlatepackEncMetadataBin

/-- A length in front announces what follows it. -/
theorem announced {n : Nat} {body : Bytes} (hn : n < 2 ^ 32) (hlen : body.length = n) :
    wordValue ((Ser.u32.write n ++ body).take 4) + 4 = (Ser.u32.write n ++ body).length := by
  have hword : (Ser.u32.write n).length = 4 := word_write_length _ 4 n
  have hvalue : wordValue (Ser.u32.write n) = n := wordValue_word_write (Ser.u32_valid.mpr hn)
  rw [List.take_left' hword, hvalue, List.length_append, hword, hlen, Nat.add_comm]

/-- The reader returns the same for extended metadata, and both lengths are those of
what follows them. -/
theorem read_extend (hN : N.AddressLength addressLen) {m : SlatepackEncMetadata} {bytes : Bytes}
    (h : write N m = .ok bytes) {unknown : Nat} (hunknown : unknown < 2 ^ 16)
    (hflags : unknown &&& 0x03 = 0) {extra : Bytes}
    (hfits : bytes.length - 4 + extra.length < 2 ^ 32) :
    (read N (extend unknown extra bytes)).1 = (read N bytes).1 ∧
      wordValue (bytes.take 4) + 4 = bytes.length ∧
      wordValue ((extend unknown extra bytes).take 4) + 4 = (extend unknown extra bytes).length := by
  obtain ⟨bs, bss, hbs, hbss, hbytes⟩ := write_parts h
  obtain ⟨x, hx⟩ := read_settles hN hbs hbss
  generalize knownList m.recipients bss = known at hx hbytes
  generalize uncounted m.recipients bss = beyond at hbytes
  have hbody : (Ser.u16.write (flags m) ++ (bs ++ (known ++ beyond))).length
      = 2 + bs.length + known.length + beyond.length := by
    simp only [List.length_append, Ser.u16, word_write_length]
    omega
  have hlen : ∀ n (b : Bytes), (Ser.u32.write n ++ b).length - 4 = b.length := by
    intro n b
    rw [List.length_append, Ser.u32, word_write_length, Nat.add_sub_cancel_left]
  have hsmall : 2 + bs.length + known.length + (beyond ++ extra).length < 2 ^ 32 := by
    rw [hbytes, hlen, hbody] at hfits
    rw [List.length_append]
    omega
  rw [List.length_append] at hsmall
  rw [hbody, Nat.mod_eq_of_lt (by omega)] at hbytes
  have hextended : extend unknown extra bytes
      = Ser.u32.write (2 + bs.length + known.length + (beyond ++ extra).length) ++
        (Ser.u16.write (flags m ||| unknown) ++ (bs ++ (known ++ (beyond ++ extra)))) := by
    rw [hbytes, extend_eq unknown extra _ (by omega) (flags_lt m), List.length_append, Nat.add_assoc,
      List.append_assoc bs, List.append_assoc known]
  have hone := and_eq_zero_of_mask hflags (show 0x03 &&& 0x01 = 0x01 from rfl)
  have htwo := and_eq_zero_of_mask hflags (show 0x03 &&& 0x02 = 0x02 from rfl)
  have horiginal := hx (flags m) beyond (flags_lt m) (flags_sender m) (flags_recipients m) (by omega)
  have hother := hx (flags m ||| unknown) (beyond ++ extra) (Nat.or_lt_two_pow (flags_lt m) hunknown)
    (by rw [or_and_eq hone]; exact flags_sender m)
    (by rw [or_and_eq htwo]; exact flags_recipients m) (by rw [List.length_append]; omega)
  refine ⟨?_, ?_, ?_⟩
  · have h₁ := horiginal.fst_eq []
    have h₂ := hother.fst_eq []
    rw [List.append_nil] at h₁ h₂
    rw [hextended, hbytes]
    exact h₂.trans h₁.symm
  · rw [hbytes]
    exact announced (by omega) hbody
  · rw [hextended]
    refine announced (by rw [List.length_append]; omega) ?_
    simp only [List.length_append, Ser.u16, word_write_length]
    omega

end SlatepackEncMetadataBin

/-! ## The slatepack -/

namespace SlatepackBin

/-- A slatepack with unknown data behind its optional fields, flags for it, and its length
added to their length. -/
def extend (unknown : Nat) (extra bytes : Bytes) : Bytes :=
  let optLen := wordValue ((bytes.drop 5).take 4)
  bytes.take 3 ++ (Ser.u16.write (wordValue ((bytes.drop 3).take 2) ||| unknown) ++
    (Ser.u32.write (optLen + extra.length) ++
      ((bytes.drop 9).take optLen ++ (extra ++ bytes.drop (9 + optLen)))))

theorem extend_eq (unknown : Nat) (extra rest : Bytes) {front fields : Bytes} {f : Nat}
    (hfront : front.length = 3) (hf : f < 2 ^ 16) (hfields : fields.length < 2 ^ 32) :
    extend unknown extra (front ++ (Ser.u16.write f ++ (Ser.u32.write fields.length ++
        (fields ++ rest))))
      = front ++ (Ser.u16.write (f ||| unknown) ++ (Ser.u32.write (fields.length + extra.length) ++
        (fields ++ (extra ++ rest)))) := by
  have hflags : (Ser.u16.write f).length = 2 := word_write_length _ 2 f
  have hlen : (Ser.u32.write fields.length).length = 4 := word_write_length _ 4 _
  have hfive : (front ++ Ser.u16.write f).length = 5 := by
    rw [List.length_append, hfront, hflags]
  have hnine : (front ++ (Ser.u16.write f ++ Ser.u32.write fields.length)).length = 9 := by
    rw [List.length_append, List.length_append, hfront, hflags, hlen]
  have hvalue : wordValue (Ser.u16.write f) = f := wordValue_word_write (Ser.u16_valid.mpr hf)
  have hvalue' : wordValue (Ser.u32.write fields.length) = fields.length :=
    wordValue_word_write (Ser.u32_valid.mpr hfields)
  have hopt : wordValue (((front ++ (Ser.u16.write f ++ (Ser.u32.write fields.length ++
      (fields ++ rest)))).drop 5).take 4) = fields.length := by
    rw [← List.append_assoc, List.drop_left' hfive, List.take_left' hlen, hvalue']
  have hbehind : (front ++ (Ser.u16.write f ++ (Ser.u32.write fields.length ++
      (fields ++ rest)))).drop 9 = fields ++ rest := by
    rw [← List.append_assoc (Ser.u16.write f), ← List.append_assoc front, List.drop_left' hnine]
  simp only [extend, hopt]
  rw [← List.drop_drop, hbehind, List.take_left' hfront, List.drop_left' hfront,
    List.take_left' hflags, hvalue, List.take_left, List.drop_left]

/-- The bytes of a slatepack, taken apart. -/
theorem write_parts {sp : Slatepack} {bytes : Bytes} (h : write N sp = .ok bytes) :
    ∃ bs, sp.sender.elim (.ok []) (·.write N) = .ok bs ∧ bs.length ≤ 256 ∧
      bytes = (sp.slatepack.write ++ Ser.u8.write sp.mode) ++
        (Ser.u16.write (if sp.sender.isSome then 0x01 else 0) ++ (Ser.u32.write bs.length ++
          (bs ++ (Ser.u64.write sp.payload.length ++ sp.payload)))) := by
  unfold write at h
  obtain ⟨optLen, hopt, h⟩ := except_bind_eq_ok.mp h
  obtain ⟨bs, hbs, h⟩ := except_bind_eq_ok.mp h
  cases h
  have hsender : optLen = bs.length ∧ bs.length ≤ 256 := by
    unfold Slatepack.optFieldsLen at hopt
    cases hs : sp.sender with
    | none =>
        rw [hs] at hbs hopt
        cases hbs
        cases hopt
        exact ⟨rfl, by decide⟩
    | some a =>
        have hwritten : a.write N = .ok bs := by
          rw [hs] at hbs
          exact hbs
        obtain ⟨hlen, hmax⟩ := SlatepackAddress.encodedLen_of_write hwritten
        simp only [hs, hlen, Except.ok.injEq] at hopt
        exact ⟨hopt.symm, hmax⟩
  refine ⟨bs, hbs, hsender.2, ?_⟩
  rw [hsender.1, Nat.mod_eq_of_lt (by omega)]
  simp only [List.append_assoc]

theorem payload_settles (payload : Bytes) (h : payload.length < 2 ^ 64) :
    ∃ x, Settles (do
        let len ← Ser.u64.read
        N.readFixedBytes len : Reader SerError Bytes) (Ser.u64.write payload.length ++ payload) x := by
  have hword := Ser.u64.decodes _ (Ser.u64_valid.mpr h)
  by_cases hlimit : payload.length > N.readLimit
  · refine ⟨.error .TooLargeReadErr, hword.settles.bind (y := fun _ => .error .TooLargeReadErr)
      fun n hn => ?_⟩
    cases hn
    unfold Codecs.readFixedBytes
    rw [if_pos hlimit]
    exact .throw _ _
  · exact ⟨.ok payload, (hword.bind (N.readFixedBytes_decodes rfl (by omega))).settles⟩

/-- The mode of a slatepack is checked right behind it. -/
theorem readHeader_unexpected {sp : Slatepack} (h : sp.Typed) (hmode : sp.mode < 2 ^ 8)
    (hbig : sp.mode > 1) (rest : Bytes) :
    (read N ((sp.slatepack.write ++ Ser.u8.write sp.mode) ++ rest)).1
      = .error (.UnexpectedData [0, 1] [sp.mode]) := by
  have hversion : Decodes SlatepackVersion.read sp.slatepack.write sp.slatepack := by
    apply (Ser.u8.decodes _ (Ser.u8_valid.mpr h.major)).bind
    apply (Ser.u8.decodes _ (Ser.u8_valid.mpr h.minor)).bind_last
    exact .pure _
  have hmodeRead := Ser.u8.decodes sp.mode (Ser.u8_valid.mpr hmode)
  have hheader : Settles readHeader (sp.slatepack.write ++ Ser.u8.write sp.mode)
      (.error (.UnexpectedData [0, 1] [sp.mode])) := by
    refine hversion.settles.bind (y := fun _ => .error (.UnexpectedData [0, 1] [sp.mode]))
      fun v hv => ?_
    refine hmodeRead.settles.bind_last (y := fun _ => .error (.UnexpectedData [0, 1] [sp.mode]))
      fun m hm => ?_
    cases hm
    rw [if_pos hbig]
    intro rest
    rfl
  have hread := hheader.bind_last (f := fun p => do
      let q ← readSender N p.2.2.1 p.2.2.2
      skipBytes .IOErr q.2
      let len ← Ser.u64.read
      let payload ← N.readFixedBytes len
      return Slatepack.mk p.1 p.2.1 q.1 .empty payload)
    (y := fun _ => .error (.UnexpectedData [0, 1] [sp.mode])) fun p hp => by cases hp
  exact hread.fst_eq rest

/-- The reader comes to the same end with unknown data and flags for it as without. -/
theorem read_settles (hN : N.AddressLength addressLen) {sp : Slatepack} (h : sp.Typed) (hmode : sp.mode ≤ 1)
    {bs : Bytes} (hbs : sp.sender.elim (.ok []) (·.write N) = .ok bs) :
    ∃ x : Except SerError Slatepack, ∀ (flags : Nat) (extra : Bytes), flags < 2 ^ 16 →
      (flags &&& 0x01 > 0 ↔ sp.sender.isSome) → bs.length + extra.length < 2 ^ 32 →
      Settles (read N) ((sp.slatepack.write ++ Ser.u8.write sp.mode) ++ (Ser.u16.write flags ++
        (Ser.u32.write (bs.length + extra.length) ++ (bs ++ (extra ++
          (Ser.u64.write sp.payload.length ++ sp.payload)))))) x := by
  obtain ⟨xs, hxs⟩ := readSender_settles hN hbs
  obtain ⟨xp, hxp⟩ := payload_settles (N := N) sp.payload h.payload
  let x : Except SerError Slatepack := xs >>= fun sender => xp.map fun payload =>
    { sp with sender := sender, encryptedMeta := .empty, payload := payload }
  refine ⟨x, ?_⟩
  intro flags extra hflags hsender hfits
  have hheader := readHeader_decodes h hmode hflags hfits
  have hreadSender := hxs flags (bs.length + extra.length) hsender (by omega)
  rw [Nat.add_sub_cancel_left] at hreadSender
  have hrest : ∀ sender : Option SlatepackAddress, Settles (do
      skipBytes SerError.IOErr extra.length
      let len ← Ser.u64.read
      let payload ← N.readFixedBytes len
      return Slatepack.mk sp.slatepack sp.mode sender .empty payload)
      (extra ++ (Ser.u64.write sp.payload.length ++ sp.payload))
      (xp.map fun payload => { sp with sender := sender, encryptedMeta := .empty, payload := payload }) := by
    intro sender
    refine (skipBytes_decodes SerError.IOErr extra).settles.bind (y := fun _ => xp.map fun payload =>
      { sp with sender := sender, encryptedMeta := .empty, payload := payload }) fun _ _ => ?_
    have hread := hxp.bind_last (f := fun payload =>
        pure (Slatepack.mk sp.slatepack sp.mode sender .empty payload))
      (y := fun payload => .ok (Slatepack.mk sp.slatepack sp.mode sender .empty payload))
      fun payload _ => (Decodes.pure _).settles
    rw [bind_assoc] at hread
    cases xp with
    | error e => exact hread
    | ok payload => exact hread
  have hread := hreadSender.bind (f := fun p => do
      skipBytes SerError.IOErr p.2
      let len ← Ser.u64.read
      let payload ← N.readFixedBytes len
      return Slatepack.mk sp.slatepack sp.mode p.1 .empty payload)
    (c := extra ++ (Ser.u64.write sp.payload.length ++ sp.payload))
    (y := fun p => xp.map fun payload =>
      { sp with sender := p.1, encryptedMeta := .empty, payload := payload }) fun p hp => ?_
  · have hfields := hheader.settles.bind (f := fun p => do
        let q ← readSender N p.2.2.1 p.2.2.2
        skipBytes .IOErr q.2
        let len ← Ser.u64.read
        let payload ← N.readFixedBytes len
        return Slatepack.mk p.1 p.2.1 q.1 .empty payload)
      (c := bs ++ (extra ++ (Ser.u64.write sp.payload.length ++ sp.payload))) (y := fun _ => x)
      fun p hp => ?_
    · simp only [List.append_assoc] at hfields ⊢
      exact hfields
    · cases hp
      cases xs with
      | error e => exact hread
      | ok sender => exact hread
  · have hleft : p.2 = extra.length := by
      cases xs with
      | error e => simp [Except.map] at hp
      | ok sender =>
          cases hp
          rfl
    rw [hleft]
    exact hrest p.1

/-- The reader returns the same for an extended slatepack. -/
theorem read_extend (hN : N.AddressLength addressLen) {sp : Slatepack} (hsp : sp.Typed)
    (hmode : sp.mode < 2 ^ 8) {bytes : Bytes} (h : write N sp = .ok bytes) {unknown : Nat}
    (hunknown : unknown < 2 ^ 16) (hflags : unknown &&& 0x01 = 0) {extra : Bytes}
    (hfits : wordValue ((bytes.drop 5).take 4) + extra.length < 2 ^ 32) :
    (read N (extend unknown extra bytes)).1 = (read N bytes).1 := by
  obtain ⟨bs, hbs, hlen, hbytes⟩ := write_parts h
  let f : Nat := if sp.sender.isSome then 0x01 else 0
  have hf : f < 2 ^ 16 := by
    show (if sp.sender.isSome then 0x01 else 0) < 2 ^ 16
    split_ifs <;> decide
  have hpresent : f &&& 0x01 > 0 ↔ sp.sender.isSome := by
    show (if sp.sender.isSome then 0x01 else 0) &&& 0x01 > 0 ↔ sp.sender.isSome
    split_ifs with hp <;> simp [hp]
  have hfront : (sp.slatepack.write ++ Ser.u8.write sp.mode).length = 3 := by
    simp only [SlatepackVersion.write, List.length_append, Ser.u8, word_write_length]
  have hextended := extend_eq unknown extra (Ser.u64.write sp.payload.length ++ sp.payload) hfront hf
    (show bs.length < 2 ^ 32 by omega)
  rw [show _ = bytes from hbytes.symm] at hextended
  by_cases hbig : sp.mode > 1
  · rw [hextended, hbytes, readHeader_unexpected hsp hmode hbig,
      readHeader_unexpected hsp hmode hbig]
  · have hopt : wordValue ((bytes.drop 5).take 4) = bs.length := by
      have hflagsLen : (Ser.u16.write f).length = 2 := word_write_length _ 2 f
      have hword : (Ser.u32.write bs.length).length = 4 := word_write_length _ 4 _
      have hfive : (sp.slatepack.write ++ Ser.u8.write sp.mode ++ Ser.u16.write f).length = 5 := by
        rw [List.length_append, hfront, hflagsLen]
      rw [hbytes, ← List.append_assoc, List.drop_left' hfive, List.take_left' hword]
      exact wordValue_word_write (Ser.u32_valid.mpr (by omega))
    rw [hopt] at hfits
    obtain ⟨x, hx⟩ := read_settles hN hsp (by omega) hbs
    have horiginal := (hx f [] hf hpresent (by simp; omega)).fst_eq []
    have hother := (hx (f ||| unknown) extra (Nat.or_lt_two_pow hf hunknown)
      (by rw [or_and_eq hflags]; exact hpresent) hfits).fst_eq []
    rw [List.append_nil] at horiginal hother
    rw [hextended, hother, hbytes]
    exact horiginal.symm

end SlatepackBin

end Fields

/-! ## The payload of a decrypted slatepack -/

namespace Slatepack

variable {N : PackerEnv F E} {addressLen : Nat}

/-- Behind metadata whose length in front is right, the payload is cut off where it begins. -/
theorem openPayload_eq (sp : Slatepack) {metaBytes : Bytes}
    (h : wordValue (metaBytes.take 4) + 4 = metaBytes.length) (payload : Bytes) :
    openPayload N sp (metaBytes ++ payload) =
      match (SlatepackEncMetadataBin.read N.toSlatepackEnv metaBytes).1 with
      | .error (.Panic reason) => .error (.Panic reason)
      | .error _ => .error .SlatepackSer
      | .ok inner =>
          .ok { sp with
            payload := payload
            sender := inner.sender
            encryptedMeta := { sp.encryptedMeta with recipients := inner.recipients }
            mode := 0 } := by
  have hfour : 4 ≤ metaBytes.length := by omega
  have htake : (metaBytes ++ payload).take 4 = metaBytes.take 4 :=
    List.take_append_of_le_length hfour
  unfold openPayload
  rw [if_neg (by rw [List.length_append]; omega)]
  simp only [htake, h]
  rewrite [if_neg (by rw [List.length_append]; omega), List.take_left, List.drop_left]
  cases (SlatepackEncMetadataBin.read N.toSlatepackEnv metaBytes).1 with
  | error e => cases e <;> rfl
  | ok inner => rfl

/-- The encrypted payload is replaced. -/
theorem openPayload_replaces (sp : Slatepack) (file file' decrypted : Bytes) :
    openPayload N { sp with payload := file' } decrypted
      = openPayload N { sp with payload := file } decrypted := by
  unfold openPayload
  split_ifs
  · rfl
  · rfl

/-- Extended metadata in front of a payload opens to the same slatepack. -/
theorem openPayload_extend (hN : N.AddressLength addressLen) {m : SlatepackEncMetadata} {metaBytes : Bytes}
    (h : SlatepackEncMetadataBin.write N.toSlatepackEnv m = .ok metaBytes) {unknown : Nat}
    (hunknown : unknown < 2 ^ 16) (hflags : unknown &&& 0x03 = 0) {extra : Bytes}
    (hfits : metaBytes.length - 4 + extra.length < 2 ^ 32) (sp : Slatepack) (payload : Bytes) :
    openPayload N sp (SlatepackEncMetadataBin.extend unknown extra metaBytes ++ payload)
      = openPayload N sp (metaBytes ++ payload) ∧
    ∀ sp', openPayload N sp (metaBytes ++ payload) = .ok sp' → sp'.payload = payload := by
  obtain ⟨hread, hlen, hlen'⟩ :=
    SlatepackEncMetadataBin.read_extend hN h hunknown hflags hfits
  refine ⟨?_, fun sp' hopen => ?_⟩
  · rw [openPayload_eq sp hlen, openPayload_eq sp hlen', hread]
  · rw [openPayload_eq sp hlen] at hopen
    cases hmeta : (SlatepackEncMetadataBin.read N.toSlatepackEnv metaBytes).1 with
    | error e =>
        rw [hmeta] at hopen
        cases e <;> cases hopen
    | ok inner =>
        rw [hmeta] at hopen
        cases hopen
        rfl

end Slatepack

/-! ## Forward compatibility -/

/-- What is encrypted in a file for a key. -/
def PackerEnv.Encrypts (N : PackerEnv F E) (decKey : SecretKey) (file plain : Bytes) : Prop :=
  ∃ key decrypt, N.ageIdentity decKey = .ok key ∧ N.ageDecryptor file = .ok (.Recipients decrypt) ∧
    decrypt key = .ok plain

/-- The slatepack reader, the metadata reader and the decryption of a payload return the
same with unknown data behind the known fields, unknown flags, and the length in front
increased, as without; and what is decrypted has the payload that was encrypted. -/
theorem slatepacks_forward_compatible {N : PackerEnv F E} {addressLen : Nat}
    (hN : N.AddressLength addressLen)
    (unknown : Nat) (hunknown : unknown < 2 ^ 16) (extra : Bytes) :
    (∀ sp bytes, sp.Typed → sp.mode < 2 ^ 8 → SlatepackBin.write N.toSlatepackEnv sp = .ok bytes →
      unknown &&& 0x01 = 0 → wordValue ((bytes.drop 5).take 4) + extra.length < 2 ^ 32 →
      (SlatepackBin.read N.toSlatepackEnv (SlatepackBin.extend unknown extra bytes)).1
        = (SlatepackBin.read N.toSlatepackEnv bytes).1) ∧
    ∀ m metaBytes, SlatepackEncMetadataBin.write N.toSlatepackEnv m = .ok metaBytes →
      unknown &&& 0x03 = 0 → metaBytes.length - 4 + extra.length < 2 ^ 32 →
      (SlatepackEncMetadataBin.read N.toSlatepackEnv
          (SlatepackEncMetadataBin.extend unknown extra metaBytes)).1
        = (SlatepackEncMetadataBin.read N.toSlatepackEnv metaBytes).1 ∧
      ∀ (sp : Slatepack) (decKey : SecretKey) (file file' payload : Bytes), sp.mode ≠ 0 →
        N.Encrypts decKey file (metaBytes ++ payload) →
        N.Encrypts decKey file'
          (SlatepackEncMetadataBin.extend unknown extra metaBytes ++ payload) →
        ({ sp with payload := file' } : Slatepack).tryDecryptPayload N (some decKey)
            = ({ sp with payload := file } : Slatepack).tryDecryptPayload N (some decKey) ∧
          ∀ sp', ({ sp with payload := file } : Slatepack).tryDecryptPayload N (some decKey) = .ok sp' →
            sp'.payload = payload := by
  refine ⟨fun sp bytes hsp hmode hwrite hflags hfits =>
    SlatepackBin.read_extend hN hsp hmode hwrite hunknown hflags hfits, ?_⟩
  intro m metaBytes hwrite hflags hfits
  refine ⟨(SlatepackEncMetadataBin.read_extend hN hwrite hunknown hflags hfits).1, ?_⟩
  intro sp decKey file file' payload hmode hfile hfile'
  obtain ⟨key, decrypt, hkey, hopen, hdecrypt⟩ := hfile
  obtain ⟨key', decrypt', hkey', hopen', hdecrypt'⟩ := hfile'
  have hsame := Slatepack.openPayload_extend hN hwrite hunknown hflags hfits
    ({ sp with payload := file } : Slatepack) payload
  have hpacked : ({ sp with payload := file } : Slatepack).tryDecryptPayload N (some decKey) = _ :=
    Slatepack.tryDecryptPayload_eq hmode hkey hopen hdecrypt
  have hpacked' : ({ sp with payload := file' } : Slatepack).tryDecryptPayload N (some decKey) = _ :=
    Slatepack.tryDecryptPayload_eq hmode hkey' hopen' hdecrypt'
  rw [hpacked', hpacked]
  exact ⟨(Slatepack.openPayload_replaces sp file file' _).trans hsame.1, hsame.2⟩

/-- What is read with unknown data is what was written without: the slatepack, and the metadata
with its sender and its recipients, which a decrypted slatepack takes over. -/
theorem extended_read_eq_written {N : PackerEnv F E} {addressLen : Nat} (hN : N.AddressLength addressLen)
    (unknown : Nat) (hunknown : unknown < 2 ^ 16) (extra : Bytes) :
    (∀ sp bytes, sp.Typed → sp.mode ≤ 1 → (∀ a ∈ sp.sender, a.Known N.toSlatepackEnv) →
      sp.payload.length ≤ N.readLimit → SlatepackBin.write N.toSlatepackEnv sp = .ok bytes →
      unknown &&& 0x01 = 0 → wordValue ((bytes.drop 5).take 4) + extra.length < 2 ^ 32 →
      (SlatepackBin.read N.toSlatepackEnv (SlatepackBin.extend unknown extra bytes)).1
        = .ok { sp with encryptedMeta := .empty }) ∧
    ∀ m metaBytes, (∀ a ∈ m.sender, a.Known N.toSlatepackEnv) →
      (∀ a ∈ m.recipients, a.Known N.toSlatepackEnv) → m.recipients.length ≤ 65535 →
      SlatepackEncMetadataBin.write N.toSlatepackEnv m = .ok metaBytes →
      unknown &&& 0x03 = 0 → metaBytes.length - 4 + extra.length < 2 ^ 32 →
      (SlatepackEncMetadataBin.read N.toSlatepackEnv
          (SlatepackEncMetadataBin.extend unknown extra metaBytes)).1 = .ok m ∧
      ∀ (sp : Slatepack) (decKey : SecretKey) (file payload : Bytes), sp.mode ≠ 0 →
        N.Encrypts decKey file
          (SlatepackEncMetadataBin.extend unknown extra metaBytes ++ payload) →
        ({ sp with payload := file } : Slatepack).tryDecryptPayload N (some decKey) =
          .ok { sp with
            payload := payload
            sender := m.sender
            encryptedMeta := { sp.encryptedMeta with recipients := m.recipients }
            mode := 0 } := by
  constructor
  · intro sp bytes hsp hmode hsender hpayload hwrite hflags hfits
    obtain ⟨bytes', hwrite', hdecodes⟩ := SlatepackBin.write_decodes hsp hmode hsender hpayload
    cases hwrite'.symm.trans hwrite
    rw [SlatepackBin.read_extend hN hsp (by omega) hwrite hunknown hflags hfits]
    exact congrArg Prod.fst hdecodes.eq_ok
  · intro m metaBytes hsender hrecipients hcount hwrite hflags hfits
    obtain ⟨body, hwrite', hbody, hdecodes⟩ :=
      SlatepackEncMetadataBin.write_decodes hsender hrecipients hcount
    cases hwrite'.symm.trans hwrite
    obtain ⟨hsame, -, hlen⟩ :=
      SlatepackEncMetadataBin.read_extend hN hwrite hunknown hflags hfits
    have hplain := hdecodes [] (by rw [List.length_nil]; omega)
    rw [List.append_nil, List.length_nil, Nat.add_zero] at hplain
    have hread := hsame.trans (congrArg Prod.fst hplain.eq_ok)
    refine ⟨hread, fun sp decKey file payload hmode hfile => ?_⟩
    obtain ⟨key, decrypt, hkey, hopen, hdecrypt⟩ := hfile
    have hpacked : ({ sp with payload := file } : Slatepack).tryDecryptPayload N (some decKey) = _ :=
      Slatepack.tryDecryptPayload_eq hmode hkey hopen hdecrypt
    rw [hpacked, Slatepack.openPayload_eq _ hlen, hread]

namespace SampleSlatepack

/-- Metadata with the sample's sender. -/
def metadata : SlatepackEncMetadata := ⟨some ⟨"grin", key⟩, []⟩

def metaBytes : Bytes := [0, 0, 0, 66, 0, 1, 63] ++ address

/-- A file for the identity 5. -/
def fileOf (plain : Bytes) : Bytes := Ser.u16.write 1 ++ wordBytes 32 5 ++ plain

theorem fileOf_encrypts (plain : Bytes) : uniformPacker.Encrypts 5 (fileOf plain) plain := by
  have hcount : Decodes Ser.u16.read (Ser.u16.write 1) 1 :=
    Ser.u16.decodes 1 (Ser.u16_valid.mpr (by decide))
  have hkeys : Decodes readKeys (Ser.u16.write 1 ++ wordBytes 32 5) [5] := by
    refine hcount.bind ?_
    have hkey : Decodes (word SerError.IOErr 32).read (wordBytes 32 5) 5 :=
      (word SerError.IOErr 32).decodes 5 (show 5 < 256 ^ 32 by decide)
    refine hkey.bind_last ?_
    exact .pure _
  have hopen : openAge (fileOf plain) = .ok (.Recipients fun identity =>
      if identity ∈ [5] then .ok plain else .error (.Age "No matching keys found")) := by
    unfold openAge fileOf
    rw [hkeys plain]
  have hkeyed : (fileOf plain).head? ≠ some 255 := by
    rw [fileOf, List.append_assoc, show Ser.u16.write 1 = [0, 1] by decide]
    simp
  have hage : openAnyAge (fileOf plain) = openAge (fileOf plain) := by
    rw [openAnyAge, if_neg hkeyed]
  have hpacker : uniformPacker.ageDecryptor = openAnyAge := rfl
  exact ⟨5, _, rfl, by rw [hpacker, hage]; exact hopen, rfl⟩

theorem slatepacks_forward_compatible_sample :
    (SlatepackBin.read uniformPacker.toSlatepackEnv (SlatepackBin.extend 0xff00 [1, 2, 3] bytes)).1
        = (SlatepackBin.read uniformPacker.toSlatepackEnv bytes).1 ∧
      (SlatepackEncMetadataBin.read uniformPacker.toSlatepackEnv
          (SlatepackEncMetadataBin.extend 0xff00 [1, 2, 3] metaBytes)).1
        = (SlatepackEncMetadataBin.read uniformPacker.toSlatepackEnv metaBytes).1 ∧
      ({ slatepack with
          mode := 1
          payload := fileOf (SlatepackEncMetadataBin.extend 0xff00 [1, 2, 3] metaBytes ++ [7, 8]) }
          : Slatepack).tryDecryptPayload uniformPacker (some 5)
        = ({ slatepack with mode := 1, payload := fileOf (metaBytes ++ [7, 8]) }
          : Slatepack).tryDecryptPayload uniformPacker (some 5) := by
  obtain ⟨hslatepack, hmeta⟩ := slatepacks_forward_compatible uniformPacker_addressLength 0xff00
    (by decide) [1, 2, 3]
  obtain ⟨hread, hpayload⟩ := hmeta metadata metaBytes (by decide +kernel) (by decide)
    (by decide +kernel)
  refine ⟨hslatepack slatepack bytes ⟨by decide, by decide, by decide⟩ (by decide)
    (by decide +kernel) (by decide) (by decide +kernel), hread, ?_⟩
  exact (hpayload { slatepack with mode := 1 } 5 _ _ [7, 8] (by decide) (fileOf_encrypts _)
    (fileOf_encrypts _)).1

end SampleSlatepack

end GrinWallet
