import GrinWallet.Formats.Armor
import GrinWallet.Formats.HostileInput

/-! # Two recognizers of armor

The armor decoder skips blanks and quote marks in front of the header and around
its word. Unpacking looks for the header as its first bytes, and takes anything
else for a binary or a JSON slatepack. No text the decoder accepts is either.
-/

namespace GrinWallet

open Effect Wire

variable {F E : Type}

/-! ## What the decoder accepts -/

namespace SlatepackArmor

/-- A frame stands between blanks. -/
theorem isFrame_eq {frame text : Bytes} (h : isFrame frame text = true) :
    ∃ before behind, text = before ++ frame ++ behind ∧ (∀ c ∈ before, Blank c) ∧
      ∀ c ∈ behind, Blank c := by
  obtain ⟨before, behind, heq, hbefore, hbehind⟩ :=
    Text.eq_append_stripped (fun c => decide (c ∈ WHITESPACE_LIST)) text
  have hframe : Text.stripped (fun c => decide (c ∈ WHITESPACE_LIST)) text = frame := by
    simpa [isFrame, Text.stripped] using h
  rw [hframe] at heq
  exact ⟨before, behind, heq, fun c hc => of_decide_eq_true (hbefore c hc),
    fun c hc => of_decide_eq_true (hbehind c hc)⟩

variable {N : ArmorEnv F E}

/-- Accepted text opens with the word of the header, blanks around it. -/
theorem decode_opens {data bytes : Bytes} (h : decode N data = .ok bytes) :
    ∃ before rest, data = before ++ ascii "BEGINSLATEPACK" ++ rest ∧ ∀ c ∈ before, Blank c := by
  obtain ⟨_, hheader, -⟩ := except_bind_eq_ok.mp h
  unfold checkHeader checkFrame at hheader
  split_ifs at hheader with hutf hframe
  obtain ⟨before, behind, heq, hbefore, -⟩ := isFrame_eq hframe
  have hdata := List.takeWhile_append_dropWhile (p := fun c => decide (c ≠ period)) (l := data)
  rw [heq] at hdata
  refine ⟨before, behind ++ data.dropWhile (fun c => decide (c ≠ period)), ?_, hbefore⟩
  rw [← List.append_assoc]
  exact hdata.symm

/-- The third byte of accepted text is above the modes of a slatepack. -/
theorem decode_first {data bytes : Bytes} (h : decode N data = .ok bytes) :
    ∃ a b c rest, data = a :: b :: c :: rest ∧ 1 < c.toNat := by
  obtain ⟨before, rest, hdata, hbefore⟩ := decode_opens h
  have hblank : ∀ c ∈ WHITESPACE_LIST, 1 < c.toNat := by decide +kernel
  have hword : ∀ c ∈ ascii "BEGINSLATEPACK", 1 < c.toNat := by decide +kernel
  have hlen : (ascii "BEGINSLATEPACK").length = 14 := by decide +kernel
  have hfirst : ∀ c ∈ before ++ ascii "BEGINSLATEPACK", 1 < c.toNat := by
    intro c hc
    rcases List.mem_append.mp hc with hc | hc
    · exact hblank c (hbefore c hc)
    · exact hword c hc
  have hlong : 14 ≤ (before ++ ascii "BEGINSLATEPACK").length := by
    rw [List.length_append, hlen]
    omega
  generalize before ++ ascii "BEGINSLATEPACK" = head at hdata hfirst hlong
  match head, hlong with
  | a :: b :: c :: tail, _ =>
      exact ⟨a, b, c, tail ++ rest, by simpa using hdata, hfirst c (by simp)⟩

end SlatepackArmor

theorem Ser.u8_read_cons (a : UInt8) (rest : Bytes) :
    Ser.u8.read (a :: rest) = (.ok a.toNat, rest) := by
  have hdecodes := (takeBytes_decodes SerError.IOErr (List.length_singleton (a := a))).map wordValue
  have hrun := hdecodes rest
  change (wordValue <$> takeBytes SerError.IOErr 1) (a :: rest) = _
  simpa [wordValue] using hrun

/-- What has no slatepack mode is no binary slatepack. -/
theorem SlatepackBin.read_mode {N : SlatepackEnv F E} (a b c : UInt8) (rest : Bytes)
    (h : 1 < c.toNat) :
    (read N (a :: b :: c :: rest)).1 = .error (.UnexpectedData [0, 1] [c.toNat]) := by
  have hversion : SlatepackVersion.read (a :: b :: c :: rest) =
      (.ok ⟨a.toNat, b.toNat⟩, c :: rest) := by
    unfold SlatepackVersion.read
    rw [Eff.run_bind_ok (Ser.u8_read_cons a _), Eff.run_bind_ok (Ser.u8_read_cons b _)]
    rfl
  have hheader : readHeader (a :: b :: c :: rest) =
      (.error (.UnexpectedData [0, 1] [c.toNat]), rest) := by
    unfold readHeader
    rw [Eff.run_bind_ok hversion, Eff.run_bind_ok (Ser.u8_read_cons c _), if_pos h]
    rfl
  unfold read
  rw [Eff.run_bind_error hheader]

/-! ## What the JSON parser accepts -/

/-- The blanks of JSON. -/
def jsonBlanks : Bytes := ascii " \n\r\t"

/-- JSON of a record is an object or a list. -/
structure PackerEnv.JsonRecords (N : PackerEnv F E) : Prop where
  opens : ∀ data sp, N.parseJson data = .ok sp →
    ∃ c ∈ (data.dropWhile (· ∈ jsonBlanks)).head?, c ∈ ascii "\x7b["

namespace SlatepackArmor

/-- Behind its leading blanks of JSON, accepted text starts with another blank or
with the word of the header. -/
theorem head_opens {before : Bytes} (h : ∀ c ∈ before, Blank c) (rest : Bytes) :
    ∀ c ∈ ((before ++ 66 :: rest).dropWhile (· ∈ jsonBlanks)).head?, Blank c ∨ c = 66 := by
  induction before with
  | nil =>
      have hword : (66 : UInt8) ∉ jsonBlanks := by decide +kernel
      intro c hc
      rw [List.nil_append, List.dropWhile_cons_of_neg (by simpa using hword)] at hc
      exact .inr (Option.some.inj hc).symm
  | cons a before ih =>
      intro c hc
      rw [List.cons_append] at hc
      by_cases ha : a ∈ jsonBlanks
      · rw [List.dropWhile_cons_of_pos (by simpa using ha)] at hc
        exact ih (fun b hb => h b (List.mem_cons_of_mem a hb)) c hc
      · rw [List.dropWhile_cons_of_neg (by simpa using ha)] at hc
        obtain rfl := Option.some.inj hc
        exact .inl (h a List.mem_cons_self)

/-- Accepted text is no JSON. -/
theorem decode_not_json {N : PackerEnv F E} (hjson : N.JsonRecords) {data bytes : Bytes}
    (h : decode N.toArmorEnv data = .ok bytes) (sp : Slatepack) : N.parseJson data ≠ .ok sp := by
  intro hparse
  obtain ⟨c, hc, hopens⟩ := hjson.opens data sp hparse
  obtain ⟨before, rest, hdata, hbefore⟩ := decode_opens h
  have hword : ascii "BEGINSLATEPACK" = 66 :: ascii "EGINSLATEPACK" := by decide +kernel
  rw [hdata, hword, List.append_assoc, List.cons_append] at hc
  have hblank : ∀ c ∈ WHITESPACE_LIST, c ∉ ascii "\x7b[" := by decide +kernel
  rcases head_opens hbefore _ c hc with hb | rfl
  · exact hblank c hb hopens
  · exact absurd hopens (by decide +kernel)

end SlatepackArmor

namespace Slatepacker

variable {N : PackerEnv F E}

/-- The length is outside the limits. -/
def BadLength (N : PackerEnv F E) (data : Bytes) : Prop :=
  data.length < SlatepackArmor.minSize ∨ data.length > SlatepackArmor.maxSize N.toArmorEnv

/-- Armored text is unpacked exactly when it begins with the header. -/
theorem deserSlatepack_armored (hjson : N.JsonRecords) (args : SlatepackerArgs)
    {data bytes : Bytes} {sp : Slatepack} (hlen : ¬ BadLength N data)
    (hdecode : SlatepackArmor.decode N.toArmorEnv data = .ok bytes)
    (hread : (SlatepackBin.read N.toSlatepackEnv bytes).1 = .ok sp) :
    deserSlatepack N args data false = .ok sp ↔ data.take HEADER.length = HEADER := by
  unfold BadLength at hlen
  unfold deserSlatepack
  rw [if_neg hlen]
  constructor
  · intro h
    by_contra hheader
    rw [removeArmor, if_neg hheader] at h
    change (parseSlatepack N data >>= _) = _ at h
    obtain ⟨sp', hparse, -⟩ := except_bind_eq_ok.mp h
    obtain ⟨a, b, c, rest, rfl, hc⟩ := SlatepackArmor.decode_first hdecode
    simp only [parseSlatepack, SlatepackBin.read_mode a b c rest hc] at hparse
    exact SlatepackArmor.decode_not_json hjson hdecode sp' hparse
  · intro hheader
    rw [removeArmor, if_pos hheader]
    refine except_bind_eq_ok.mpr ⟨bytes, hdecode, except_bind_eq_ok.mpr ⟨sp, ?_, rfl⟩⟩
    unfold parseSlatepack
    rw [hread]

/-- What no parser takes is turned down, with an error unless the binary reader stops. -/
theorem deserSlatepack_unknown (hlib : N.Reports) (args : SlatepackerArgs) {data : Bytes}
    (decrypt : Bool) (harmor : ∀ bytes, SlatepackArmor.decode N.toArmorEnv data ≠ .ok bytes)
    (hbin : ∀ sp, (SlatepackBin.read N.toSlatepackEnv data).1 ≠ .ok sp)
    (hjson : ∀ sp, N.parseJson data ≠ .ok sp) :
    (∃ e, deserSlatepack N args data decrypt = .error e ∧ ∀ reason, e ≠ .Panic reason) ↔
      BadLength N data ∨ data.take HEADER.length = HEADER ∨
        SlatepackBin.Covers N.toSlatepackEnv data := by
  have herror : ∀ {α : Type} {r : Except Error α}, (∀ a, r ≠ .ok a) → ∃ e, r = .error e := by
    intro α r hr
    cases r with
    | ok a => exact (hr a rfl).elim
    | error e => exact ⟨e, rfl⟩
  by_cases hlen : BadLength N data
  · refine iff_of_true ⟨.SlatepackDeser "Data invalid length", ?_, nofun⟩ (.inl hlen)
    exact if_pos hlen
  have hrun : deserSlatepack N args data decrypt = (do
      let data ← removeArmor N data
      let sp ← parseSlatepack N data
      if decrypt then sp.tryDecryptPayload N args.decKey else return sp) := if_neg hlen
  rw [hrun, or_iff_right hlen]
  by_cases hheader : data.take HEADER.length = HEADER
  · obtain ⟨e, he⟩ := herror harmor
    refine iff_of_true ⟨e, ?_, fun reason hreason => ?_⟩ (.inl hheader)
    · rw [removeArmor, if_pos hheader, he]
      rfl
    · exact SlatepackArmor.not_stops_decode data ⟨reason, hreason ▸ he⟩
  · have hparse : ∀ sp, parseSlatepack N data ≠ .ok sp := by
      intro sp hsp
      unfold parseSlatepack at hsp
      cases hr : (SlatepackBin.read N.toSlatepackEnv data).1 with
      | ok sp' => exact hbin sp' hr
      | error e =>
          rw [hr] at hsp
          cases e with
          | Panic reason => cases hsp
          | IOErr | CorruptedData | TooLargeReadErr | UnexpectedData _ _
          | UnsupportedProtocolVersion | CountError => exact hjson sp hsp
    obtain ⟨e, he⟩ := herror hparse
    have hresult : (do
        let data ← removeArmor N data
        let sp ← parseSlatepack N data
        if decrypt then sp.tryDecryptPayload N args.decKey else return sp) = .error e := by
      rw [removeArmor, if_neg hheader]
      change (parseSlatepack N data >>= _) = _
      rw [he]
      rfl
    have hstops := stops_parseSlatepack hlib data
    rw [he] at hstops
    rw [hresult, or_iff_right hheader, ← not_not (a := SlatepackBin.Covers _ _), ← hstops]
    constructor
    · rintro ⟨e', he', hcalm⟩ ⟨reason, hreason⟩
      exact hcalm reason (Except.error.inj (he'.symm.trans hreason))
    · intro hcalm
      exact ⟨e, rfl, fun reason hreason => hcalm ⟨reason, by rw [hreason]⟩⟩

/-- Unpacking returns what the armor holds exactly where the text begins with the
header, and refuses what no parser takes with an error exactly where the binary
reader is not stopped by it. -/
theorem deserSlatepack_accepts_iff (hlib : N.Reports) (hjson : N.JsonRecords)
    (args : SlatepackerArgs) :
    (∀ data bytes sp, ¬ BadLength N data →
      SlatepackArmor.decode N.toArmorEnv data = .ok bytes →
      (SlatepackBin.read N.toSlatepackEnv bytes).1 = .ok sp →
      (deserSlatepack N args data false = .ok sp ↔ data.take HEADER.length = HEADER)) ∧
    ∀ data decrypt, (∀ bytes, SlatepackArmor.decode N.toArmorEnv data ≠ .ok bytes) →
      (∀ sp, (SlatepackBin.read N.toSlatepackEnv data).1 ≠ .ok sp) →
      (∀ sp, N.parseJson data ≠ .ok sp) →
      ((∃ e, deserSlatepack N args data decrypt = .error e ∧ ∀ reason, e ≠ .Panic reason) ↔
        BadLength N data ∨ data.take HEADER.length = HEADER ∨
          SlatepackBin.Covers N.toSlatepackEnv data) :=
  ⟨fun _ _ _ => deserSlatepack_armored hjson args,
    fun _ decrypt => deserSlatepack_unknown hlib args decrypt⟩

end Slatepacker

/-! ## A quoted slatepack -/

namespace SampleSlatepack

/-- The text of the sample. -/
def armored : Bytes :=
  HEADER ++ SlatepackArmor.payloadPart uniformPacker.toArmorEnv bytes ++ FOOTER ++ [10]

/-- The text as a mail program quotes it. -/
def quoted : Bytes := ascii "> " ++ armored

/-- The sample as it is read back. -/
def unpacked : Slatepack := { slatepack with encryptedMeta := .empty }

theorem uniformPacker_jsonRecords : uniformPacker.JsonRecords where
  opens _ _ h := nomatch h

theorem armored_decoded : SlatepackArmor.decode uniformPacker.toArmorEnv armored = .ok bytes := by
  decide +kernel

theorem bytes_read : (SlatepackBin.read uniformPacker.toSlatepackEnv bytes).1 = .ok unpacked := by
  decide +kernel

theorem armored_unpacked :
    Slatepacker.deserSlatepack uniformPacker ⟨none, [], none⟩ armored false = .ok unpacked :=
  ((Slatepacker.deserSlatepack_accepts_iff uniformPacker_reports uniformPacker_jsonRecords
    ⟨none, [], none⟩).1 armored bytes unpacked (by unfold Slatepacker.BadLength; decide +kernel)
    armored_decoded bytes_read).mpr (by decide +kernel)

/-- The decoder accepts the quoted text; unpacking does not. -/
theorem quoted_refused :
    ¬ Slatepacker.BadLength uniformPacker quoted ∧
      SlatepackArmor.decode uniformPacker.toArmorEnv quoted = .ok bytes ∧
      (SlatepackBin.read uniformPacker.toSlatepackEnv bytes).1 = .ok unpacked ∧
      Slatepacker.deserSlatepack uniformPacker ⟨none, [], none⟩ quoted false =
        .error (.SlatepackDeser "Error reading JSON slatepack") :=
  ⟨by unfold Slatepacker.BadLength; decide +kernel, by decide +kernel, bytes_read,
    by decide +kernel⟩

end SampleSlatepack

end GrinWallet
