import GrinWallet.Formats.BinarySlatepack

/-! # The round trip of the encrypted metadata

The metadata is written behind its length, and a reader that is told of more
bytes than it knows reads past them: what is written for a sender and at most
65535 recipients with addresses of the network comes back, also with unknown data
behind it.
-/

namespace GrinWallet

open Effect Wire

variable {F E : Type} {N : SlatepackEnv F E}

namespace SlatepackEncMetadataBin

/-! ## The recipients -/

/-- The bytes of a list of recipients, one string for each. -/
structure ListWrittenAs (N : SlatepackEnv F E) (rs : List SlatepackAddress) (bss : List Bytes) :
    Prop where
  write : rs.mapM (·.write N) = .ok bss
  encodedLen : rs.mapM (·.encodedLen N) = .ok (bss.map List.length)
  length : bss.flatten.length ≤ 256 * rs.length
  decodes : ∀ n, bss.flatten.length ≤ n →
    Decodes (readRecipients N rs.length n) bss.flatten (rs, n - bss.flatten.length)

theorem list_written {rs : List SlatepackAddress} (h : ∀ a ∈ rs, a.Known N) :
    ∃ bss, ListWrittenAs N rs bss := by
  induction rs with
  | nil => exact ⟨[], rfl, rfl, Nat.le_refl _, fun _ _ => .pure _⟩
  | cons a rs ih =>
      obtain ⟨bs, hbs⟩ := (h a List.mem_cons_self).written
      obtain ⟨bss, hbss⟩ := ih fun b hb => h b (List.mem_cons_of_mem a hb)
      have hlen : (bs :: bss).flatten.length = bs.length + bss.flatten.length := by simp
      refine ⟨bs :: bss, ?_, ?_, ?_, ?_⟩
      · rw [List.mapM_cons, hbs.write, hbss.write]
        rfl
      · rw [List.mapM_cons, hbs.encodedLen, hbss.encodedLen]
        rfl
      · have hhead := hbs.length
        have htail := hbss.length
        rw [hlen, List.length_cons]
        omega
      · intro n hn
        rw [hlen] at hn ⊢
        have htail := hbss.decodes (n - bs.length) (by omega)
        rw [Nat.sub_sub] at htail
        exact (readCounted_decodes hbs (by omega)).bind (htail.bind_last (.pure _))

/-! ## The metadata -/

/-- The flags of the parts that are present. -/
def flags (m : SlatepackEncMetadata) : Nat :=
  (if m.sender.isSome then 0x01 else 0) ||| (if m.recipients.isEmpty then 0 else 0x02)

theorem flags_lt (m : SlatepackEncMetadata) : flags m < 2 ^ 16 := by
  unfold flags
  split_ifs <;> decide

theorem flags_sender (m : SlatepackEncMetadata) : flags m &&& 0x01 > 0 ↔ m.sender.isSome := by
  unfold flags
  split_ifs <;> simp_all

theorem flags_recipients (m : SlatepackEncMetadata) :
    flags m &&& 0x02 > 0 ↔ ¬ m.recipients.isEmpty := by
  unfold flags
  split_ifs <;> simp_all

/-- The recipients with their count in front, nothing when there are none. -/
def listBytes (rs : List SlatepackAddress) (bss : List Bytes) : Bytes :=
  if rs.isEmpty then [] else Ser.u16.write (rs.length % 2 ^ 16) ++ bss.flatten

theorem listBytes_length (rs : List SlatepackAddress) (bss : List Bytes) :
    (listBytes rs bss).length = if rs.isEmpty then 0 else 2 + bss.flatten.length := by
  unfold listBytes
  split_ifs
  · rfl
  · simp [Ser.u16, word]

theorem readList_decodes {m : SlatepackEncMetadata} {bss : List Bytes}
    (h : ListWrittenAs N m.recipients bss) (hcount : m.recipients.length ≤ 65535) {n : Nat}
    (hn : (listBytes m.recipients bss).length ≤ n) :
    Decodes (readList N (flags m) n) (listBytes m.recipients bss)
      (m.recipients, n - (listBytes m.recipients bss).length) := by
  have hmod : m.recipients.length % 2 ^ 16 = m.recipients.length := Nat.mod_eq_of_lt (by omega)
  rw [listBytes_length] at hn ⊢
  unfold readList listBytes
  rw [hmod]
  by_cases hempty : m.recipients.isEmpty
  · rw [if_neg (by simpa [flags_recipients] using hempty), if_pos hempty, if_pos hempty]
    rw [List.isEmpty_iff.mp hempty]
    exact .pure _
  · rw [if_pos ((flags_recipients m).mpr hempty), if_neg hempty, if_neg hempty]
    rw [if_neg hempty] at hn
    have hsub : subU32 n 2 = .ok (n - 2) := by
      rw [subU32, if_pos (by omega)]
    have hread := h.decodes (n - 2) (by omega)
    rw [Nat.sub_sub] at hread
    apply (Ser.u16.decodes _ (Ser.u16_valid.mpr (by omega))).bind
    exact Decodes.ofExcept_bind hsub hread

theorem encodedLen_eq {m : SlatepackEncMetadata} {bs : Bytes} {bss : List Bytes}
    (hbs : SlatepackBin.SenderWrittenAs N m.sender bs) (hbss : ListWrittenAs N m.recipients bss) :
    m.encodedLen N = .ok (2 + bs.length + (listBytes m.recipients bss).length) := by
  have hsum : (bss.map List.length).sum = bss.flatten.length := List.length_flatten.symm
  unfold SlatepackEncMetadata.encodedLen
  rw [hbs.encodedLen, hbss.encodedLen, listBytes_length, ← hsum]
  rfl

/-- The parts that are written. -/
theorem write_eq {m : SlatepackEncMetadata} {bs : Bytes} {bss : List Bytes}
    (hbs : SlatepackBin.SenderWrittenAs N m.sender bs)
    (hbss : ListWrittenAs N m.recipients bss) :
    write N m = .ok
      (Ser.u32.write ((2 + bs.length + (listBytes m.recipients bss).length) % 2 ^ 32) ++
        (Ser.u16.write (flags m) ++ (bs ++ listBytes m.recipients bss))) := by
  have hlist : (if m.recipients.isEmpty then []
      else Ser.u16.write (m.recipients.length % 2 ^ 16)) ++ bss.flatten = listBytes m.recipients bss := by
    unfold listBytes
    by_cases hempty : m.recipients.isEmpty
    · have hlen := hbss.length
      rw [List.isEmpty_iff.mp hempty] at hlen
      rw [if_pos hempty, if_pos hempty]
      exact List.length_eq_zero_iff.mp (Nat.le_zero.mp hlen)
    · rw [if_neg hempty, if_neg hempty]
  unfold write
  rw [encodedLen_eq hbs hbss, hbs.write, hbss.write]
  simp only [bind, Except.bind, Except.mapError]
  rw [if_neg (by omega), ← hlist]
  simp only [List.append_assoc]
  rfl

/-- Any number of recipients is written. -/
theorem write_ok {m : SlatepackEncMetadata} (hsender : ∀ a ∈ m.sender, a.Known N)
    (hrecipients : ∀ a ∈ m.recipients, a.Known N) :
    ∃ bytes, write N m = .ok bytes ∧ bytes.length ≤ 264 + 256 * m.recipients.length := by
  obtain ⟨bs, hbs⟩ := SlatepackBin.sender_written hsender
  obtain ⟨bss, hbss⟩ := list_written hrecipients
  have hlenbs := hbs.length
  have hlenbss := hbss.length
  have hlist : (listBytes m.recipients bss).length ≤ 2 + 256 * m.recipients.length := by
    rw [listBytes_length]
    split_ifs <;> omega
  refine ⟨_, write_eq hbs hbss, ?_⟩
  have h32 := word_write_length SerError.IOErr 4
    ((2 + bs.length + (listBytes m.recipients bss).length) % 2 ^ 32)
  have h16 := word_write_length SerError.IOErr 2 (flags m)
  simp only [List.length_append, Ser.u32, Ser.u16, h32, h16]
  omega

/-- What is written for the metadata, and how it is read, also with unknown data
announced and put behind it. -/
theorem write_decodes {m : SlatepackEncMetadata} (hsender : ∀ a ∈ m.sender, a.Known N)
    (hrecipients : ∀ a ∈ m.recipients, a.Known N) (hcount : m.recipients.length ≤ 65535) :
    ∃ body, write N m = .ok (Ser.u32.write body.length ++ body) ∧ body.length < 2 ^ 31 ∧
      ∀ extra : Bytes, body.length + extra.length < 2 ^ 32 →
        Decodes (read N) (Ser.u32.write (body.length + extra.length) ++ (body ++ extra)) m := by
  obtain ⟨bs, hbs⟩ := SlatepackBin.sender_written hsender
  obtain ⟨bss, hbss⟩ := list_written hrecipients
  have hlenbs := hbs.length
  have hlenbss := hbss.length
  have hlist := listBytes_length m.recipients bss
  have hlen : (Ser.u16.write (flags m) ++ (bs ++ listBytes m.recipients bss)).length =
      2 + bs.length + (listBytes m.recipients bss).length := by
    simp [Ser.u16, word, Nat.add_assoc]
  have hbound : (listBytes m.recipients bss).length ≤ 2 + 256 * 65535 := by
    rw [hlist]
    split_ifs <;> omega
  refine ⟨Ser.u16.write (flags m) ++ (bs ++ listBytes m.recipients bss), ?_, by omega, ?_⟩
  · rw [write_eq hbs hbss, hlen, Nat.mod_eq_of_lt (by omega)]
  · intro extra hextra
    rw [hlen] at hextra ⊢
    have hsub : subU32 (2 + bs.length + (listBytes m.recipients bss).length + extra.length) 2 =
        .ok (bs.length + (listBytes m.recipients bss).length + extra.length) := by
      rw [subU32, if_pos (by omega)]
      congr 1
      omega
    have hsenderRead := hbs.decodes (flags m)
      (bs.length + (listBytes m.recipients bss).length + extra.length) (flags_sender m) (by omega)
    have hleft : bs.length + (listBytes m.recipients bss).length + extra.length - bs.length =
        (listBytes m.recipients bss).length + extra.length := by omega
    rw [hleft] at hsenderRead
    have hlistRead := readList_decodes hbss hcount (n := (listBytes m.recipients bss).length +
      extra.length) (by omega)
    rw [Nat.add_sub_cancel_left] at hlistRead
    simp only [List.append_assoc]
    apply (Ser.u32.decodes _ (Ser.u32_valid.mpr hextra)).bind
    apply (Ser.u16.decodes _ (Ser.u16_valid.mpr (flags_lt m))).bind
    apply Decodes.ofExcept_bind hsub
    apply hsenderRead.bind
    apply hlistRead.bind
    apply (skipBytes_decodes SerError.IOErr extra).bind_last
    exact .pure m

end SlatepackEncMetadataBin

end GrinWallet
