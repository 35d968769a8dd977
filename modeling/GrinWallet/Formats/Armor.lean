import GrinWallet.Formats.BinarySlatepack
import GrinWallet.Model.SampleSlatepack

/-! # The round trip of the armor

The text of an armored slatepack is the header, a payload part and the footer.
The payload part is the base58 text with separators inserted, and none of its
characters is a period: the decoder cuts out that part and drops the separators,
together with any other characters of its whitespace list.
-/

namespace GrinWallet.SlatepackArmor

open Effect Wire Text

variable {F E : Type} {N : ArmorEnv F E}

/-- The character is on the whitespace list. -/
abbrev Blank (c : UInt8) : Prop := c ∈ WHITESPACE_LIST

/-! ## Characters -/

theorem base58_ne_period {c : UInt8} (h : c ∈ base58Alphabet) : c ≠ period := by
  rintro rfl
  exact absurd h (by decide)

theorem base58_not_blank {c : UInt8} (h : c ∈ base58Alphabet) : ¬ Blank c := by
  have hall : ∀ c ∈ base58Alphabet, ¬ Blank c := by decide +kernel
  exact hall c h

theorem blank_ne_period {c : UInt8} (h : Blank c) : c ≠ period := by
  rintro rfl
  exact absurd h (by decide)

theorem separator_blank (i : Nat) : ∀ c ∈ separator i, Blank c := by
  intro c hc
  unfold separator at hc
  split_ifs at hc <;> cases hc <;> decide

/-- No separator stands inside the header. -/
theorem separator_header {i : Nat} (h : i < HEADER.length) : separator i = none := by
  have hlen : HEADER.length = 15 := by decide
  unfold separator
  rw [if_neg]
  rintro ⟨hne, hmod⟩
  rw [show WORD_LENGTH = 15 from rfl] at hmod
  omega

/-! ## The text -/

/-- The payload part: base58 with separators. -/
def payloadPart (N : ArmorEnv F E) (bytes : Bytes) : Bytes :=
  separated separator HEADER.length (base58check N bytes)

theorem formatSlatepack_header (text : Bytes) :
    formatSlatepack (HEADER ++ text) = HEADER ++ separated separator HEADER.length text := by
  unfold formatSlatepack
  rw [separated_append, Nat.zero_add, separated_eq_self]
  intro i _ hi
  exact separator_header (by omega)

theorem payloadPart_padded (bytes : Bytes) :
    Padded Blank (base58check N bytes) (payloadPart N bytes) :=
  separated_padded separator_blank _ _

/-- A part the base58 text was padded to has no period. -/
theorem padded_ne_period {bytes part : Bytes} (h : Padded Blank (base58check N bytes) part) :
    ∀ c ∈ part, c ≠ period := by
  intro c hc
  rcases h.mem hc with hc | hc
  · exact base58_ne_period (N.base58_alphabet _ c hc)
  · exact blank_ne_period hc

/-- Cleaning such a part leaves the base58 text. -/
theorem padded_clean {bytes part : Bytes} (h : Padded Blank (base58check N bytes) part) :
    part.filter (· ∉ WHITESPACE_LIST) = base58check N bytes := by
  rw [h.filter_eq fun c hc => by simpa using hc]
  apply List.filter_eq_self.mpr
  intro c hc
  simpa using base58_not_blank (N.base58_alphabet _ c hc)

/-! ## Decoding -/

theorem generateCheck_length (payload : Bytes) : (generateCheck N payload).length = 4 := by
  rw [generateCheck, List.length_take, N.sha256_length]
  rfl

theorem takeWhile_period {l rest : Bytes} (h : ∀ c ∈ l, c ≠ period) :
    (l ++ period :: rest).takeWhile (· ≠ period) = l := by
  rw [List.takeWhile_append_of_pos (by simpa using h), List.takeWhile_cons_of_neg (by simp)]
  exact List.append_nil l

theorem header_ne_period : ∀ c ∈ ascii "BEGINSLATEPACK", c ≠ period := by decide +kernel

theorem footer_ne_period : ∀ c ∈ ascii " ENDSLATEPACK", c ≠ period := by decide +kernel

theorem checkHeader_ok : checkHeader (ascii "BEGINSLATEPACK") = .ok () := by decide +kernel

theorem checkFooter_ok : checkFooter (ascii " ENDSLATEPACK") = .ok () := by decide +kernel

/-- The armor, cut at its periods. -/
theorem framed_eq (part : Bytes) :
    HEADER ++ part ++ FOOTER ++ [10] =
      ascii "BEGINSLATEPACK" ++ period :: (part ++ period :: (ascii " ENDSLATEPACK" ++
        period :: [10])) := by
  have hheader : HEADER = ascii "BEGINSLATEPACK" ++ [period] := by decide
  have hfooter : FOOTER = period :: (ascii " ENDSLATEPACK" ++ [period]) := by decide
  rw [hheader, hfooter]
  simp only [List.append_assoc, List.cons_append, List.nil_append]

/-- What the decoder does with a text cut at its periods. -/
theorem decode_cut {head part foot rest : Bytes} (hhead : ∀ c ∈ head, c ≠ period)
    (hpart : ∀ c ∈ part, c ≠ period) (hfoot : ∀ c ∈ foot, c ≠ period)
    (hheader : checkHeader head = .ok ()) (hfooter : checkFooter foot = .ok ()) {decoded : Bytes}
    (hdecoded : N.base58Decode (part.filter (· ∉ WHITESPACE_LIST)) = some decoded)
    (hlen : 4 ≤ decoded.length)
    (hcheck : errorCheck N (decoded.take 4) (decoded.drop 4) = .ok ()) :
    decode N (head ++ period :: (part ++ period :: (foot ++ period :: rest))) =
      .ok (decoded.drop 4) := by
  have hdropHead (tail : Bytes) : (head ++ period :: tail).drop (head.length + 1) = tail := by
    rw [← List.drop_drop, List.drop_left]
    rfl
  have hdropPart (tail : Bytes) :
      (head ++ period :: (part ++ period :: tail)).drop (head.length + 1 + part.length + 1) =
        tail := by
    rw [Nat.add_assoc (head.length + 1), ← List.drop_drop, hdropHead, ← List.drop_drop,
      List.drop_left]
    rfl
  unfold decode
  simp only [takeWhile_period hhead, hheader, hdropHead, takeWhile_period hpart, hdropPart,
    takeWhile_period hfoot, hfooter, hdecoded, hcheck, bind, Except.bind, pure, Except.pure]
  rw [if_neg, if_neg, if_neg (by omega)]
  · simp only [List.length_append, List.length_cons]
    omega
  · simp only [List.length_append, List.length_cons]
    omega

/-- Decoding the frame around any padding of the base58 text. -/
theorem decode_framed {bytes part : Bytes} (h : Padded Blank (base58check N bytes) part) :
    decode N (HEADER ++ part ++ FOOTER ++ [10]) = .ok bytes := by
  have hlen := generateCheck_length (N := N) bytes
  have hdecoded : N.base58Decode (part.filter (· ∉ WHITESPACE_LIST)) =
      some (generateCheck N bytes ++ bytes) := by
    rw [padded_clean h]
    exact N.base58_inverse _
  have htake : (generateCheck N bytes ++ bytes).take 4 = generateCheck N bytes :=
    List.take_left' hlen
  have hdrop : (generateCheck N bytes ++ bytes).drop 4 = bytes := List.drop_left' hlen
  have hcheck : errorCheck N ((generateCheck N bytes ++ bytes).take 4)
      ((generateCheck N bytes ++ bytes).drop 4) = .ok () := by
    rw [htake, hdrop, errorCheck, if_pos rfl]
  rw [framed_eq, decode_cut header_ne_period (padded_ne_period h) footer_ne_period checkHeader_ok
    checkFooter_ok hdecoded (by simp [hlen]) hcheck, hdrop]

/-! ## Encoding -/

theorem encode_eq {sp : Slatepack} {bytes : Bytes}
    (h : SlatepackBin.write N.toSlatepackEnv sp = .ok bytes) :
    encode N sp = .ok (HEADER ++ payloadPart N bytes ++ FOOTER ++ [10]) := by
  unfold encode
  simp only [h]
  rw [formatSlatepack_header, payloadPart]

/-- The text of an armored slatepack decodes to the binary form, also after any
blank characters are inserted between its two periods, and the binary form reads
as the slatepack without its encrypted metadata. -/
theorem round_trip {sp : Slatepack} (h : sp.Typed) (hmode : sp.mode ≤ 1)
    (hsender : ∀ a ∈ sp.sender, a.Known N.toSlatepackEnv)
    (hpayload : sp.payload.length ≤ N.readLimit) :
    ∃ bytes part, SlatepackBin.write N.toSlatepackEnv sp = .ok bytes ∧
      encode N sp = .ok (HEADER ++ part ++ FOOTER ++ [10]) ∧
      decode N (HEADER ++ part ++ FOOTER ++ [10]) = .ok bytes ∧
      (∀ part', Padded Blank part part' →
        decode N (HEADER ++ part' ++ FOOTER ++ [10]) = .ok bytes) ∧
      SlatepackBin.read N.toSlatepackEnv bytes = (.ok { sp with encryptedMeta := .empty }, []) := by
  obtain ⟨bytes, hwrite, hread⟩ := SlatepackBin.write_decodes h hmode hsender hpayload
  have hpart : Padded Blank (base58check N bytes) (payloadPart N bytes) :=
    payloadPart_padded bytes
  refine ⟨bytes, payloadPart N bytes, hwrite, encode_eq hwrite, decode_framed hpart, ?_,
    hread.eq_ok⟩
  intro part' hpart'
  exact decode_framed (hpart.trans hpart')

theorem sample_round_trip :
    ∃ bytes part, SlatepackBin.write sampleArmor.toSlatepackEnv SampleSlatepack.slatepack =
        .ok bytes ∧
      encode sampleArmor SampleSlatepack.slatepack = .ok (HEADER ++ part ++ FOOTER ++ [10]) ∧
      decode sampleArmor (HEADER ++ part ++ FOOTER ++ [10]) = .ok bytes ∧
      (∀ part', Padded Blank part part' →
        decode sampleArmor (HEADER ++ part' ++ FOOTER ++ [10]) = .ok bytes) ∧
      SlatepackBin.read sampleArmor.toSlatepackEnv bytes =
        (.ok { SampleSlatepack.slatepack with encryptedMeta := .empty }, []) :=
  round_trip ⟨by decide, by decide, by decide⟩ (by decide)
    (by
      intro a ha
      cases ha
      exact ⟨rfl, by show SampleSlatepack.key < 256 ^ 32; decide⟩)
    (by decide)

end GrinWallet.SlatepackArmor
