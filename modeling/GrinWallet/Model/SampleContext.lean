import GrinWallet.Model.ContextSer
import GrinWallet.Model.SampleSlatepack

/-! # A small concrete context

Values for the parameters of stored contexts: identifiers and commitments in hexadecimal,
secret keys as lists of their bytes, fees as numbers. The sample address has its real text.
-/

namespace GrinWallet

open Effect Wire Json

namespace SampleContext

/-! ## Hexadecimal -/

def hexDigit (n : Nat) : Char := n.digitChar

def hexValue (c : Char) : Option Nat := "0123456789abcdef".toList.findIdx? (· = c)

def hex : Bytes → List Char
  | [] => []
  | b :: bs => hexDigit (b.toNat / 16) :: hexDigit (b.toNat % 16) :: hex bs

def unhex : List Char → Option Bytes
  | [] => some []
  | [_] => none
  | high :: low :: rest => do
      let high ← hexValue high
      let low ← hexValue low
      let bs ← unhex rest
      return UInt8.ofNat (16 * high + low) :: bs

theorem hexValue_hexDigit {n : Nat} (h : n < 16) : hexValue (hexDigit n) = some n := by
  have hall : ∀ n < 16, hexValue (hexDigit n) = some n := by decide +kernel
  exact hall n h

theorem unhex_hex (bs : Bytes) : unhex (hex bs) = some bs := by
  induction bs with
  | nil => rfl
  | cons b bs ih =>
      have hlt := b.toNat_lt
      have hhigh := hexValue_hexDigit (n := b.toNat / 16) (by omega)
      have hlow := hexValue_hexDigit (n := b.toNat % 16) (by omega)
      rw [hex, unhex, hhigh, hlow, ih]
      show some (UInt8.ofNat (16 * (b.toNat / 16) + b.toNat % 16) :: bs) = _
      rw [Nat.div_add_mod, UInt8.ofNat_toNat]

theorem hex_length (bs : Bytes) : (hex bs).length = 2 * bs.length := by
  induction bs with
  | nil => rfl
  | cons b bs ih =>
      rw [hex, List.length_cons, List.length_cons, List.length_cons, ih]
      omega

theorem hex_plain (bs : Bytes) : ∀ c ∈ hex bs, c.toNat < 128 ∧ escape c = [c] := by
  have hdigit : ∀ n < 16, (hexDigit n).toNat < 128 ∧ escape (hexDigit n) = [hexDigit n] := by
    decide +kernel
  induction bs with
  | nil => exact fun c hc => by cases hc
  | cons b bs ih =>
      intro c hc
      have hlt := b.toNat_lt
      rcases List.mem_cons.mp hc with rfl | hc
      · exact hdigit _ (by omega)
      · rcases List.mem_cons.mp hc with rfl | hc
        · exact hdigit _ (by omega)
        · exact ih c hc

/-! ## Values -/

/-- Values of `k` bytes in hexadecimal. -/
def hexJson {α : Type} {k limit : Nat} (K : FixedCodec α k) (h : 2 * k + 2 ≤ limit) :
    JsonCodec α limit where
  Valid := K.Valid
  write a := .string (hex (K.toBytes a))
  read v := (v.readString.bind unhex).bind K.fromBytes
  read_write a ha := by
    show ((unhex (hex (K.toBytes a))).bind K.fromBytes) = some a
    rw [unhex_hex]
    exact K.fromBytes_toBytes a ha
  write_ne_null a := by simp
  size_le a _ := by
    rw [size_string_plain (hex_plain _), hex_length, K.length_toBytes]
    exact h

def byteJson (b : UInt8) : Value := .number b.toNat

def jsonByte (v : Value) : Option UInt8 := (v.readNumber 256).map UInt8.ofNat

theorem mapM_jsonByte (bs : Bytes) : (bs.map byteJson).mapM jsonByte = some bs := by
  induction bs with
  | nil => rfl
  | cons b bs ih =>
      have hb : (byteJson b).readNumber 256 = some b.toNat := readNumber_number b.toNat_lt
      have hbyte : jsonByte (byteJson b) = some b := by
        rw [jsonByte, hb, Option.map_some, UInt8.ofNat_toNat]
      rw [List.map_cons, List.mapM_cons, hbyte, ih]
      rfl

section BytesJson

variable {α : Type} {k limit : Nat} (K : FixedCodec α k)

def readBytes : Value → Option α
  | .array elements => (elements.mapM jsonByte).bind K.fromBytes
  | _ => none

theorem readBytes_array (a : α) (ha : K.Valid a) :
    readBytes K (.array ((K.toBytes a).map byteJson)) = some a := by
  rw [readBytes, mapM_jsonByte]
  exact K.fromBytes_toBytes a ha

theorem size_byteArray (h : 4 * k + 2 ≤ limit) (a : α) (_ : K.Valid a) :
    size (.array ((K.toBytes a).map byteJson)) ≤ limit := by
  have hbytes : ∀ v ∈ (K.toBytes a).map byteJson, size v ≤ 3 := by
    intro v hv
    obtain ⟨b, -, rfl⟩ := List.mem_map.mp hv
    have hlt := b.toNat_lt
    exact size_number_le (by decide) (by omega)
  have hsize := size_array_le hbytes
  rw [List.length_map, K.length_toBytes] at hsize
  omega

/-- Values of `k` bytes as lists of numbers. -/
def bytesJson (h : 4 * k + 2 ≤ limit) : JsonCodec α limit where
  Valid := K.Valid
  write a := .array ((K.toBytes a).map byteJson)
  read := readBytes K
  read_write := readBytes_array K
  write_ne_null a := by simp
  size_le := size_byteArray K h

end BytesJson

theorem take_wordBytes (k v : Nat) (bs : Bytes) : (wordBytes k v ++ bs).take k = wordBytes k v :=
  List.take_left' (wordBytes_length k v)

theorem drop_wordBytes (k v : Nat) (bs : Bytes) : (wordBytes k v ++ bs).drop k = bs :=
  List.drop_left' (wordBytes_length k v)

def identifier : FixedCodec Identifier 17 where
  Valid id := id.depth < 256 ∧ ∀ n ∈ id.path, n < 256 ^ 4
  toBytes id := wordBytes 1 id.depth ++ (wordBytes 4 (id.path.getD 0 0) ++
    (wordBytes 4 (id.path.getD 1 0) ++ (wordBytes 4 (id.path.getD 2 0) ++
      wordBytes 4 (id.path.getD 3 0))))
  fromBytes bs :=
    let children := bs.drop 1
    some (.deriveKeyId (wordValue (bs.take 1)) (wordValue (children.take 4))
      (wordValue ((children.drop 4).take 4)) (wordValue (((children.drop 4).drop 4).take 4))
      (wordValue (((children.drop 4).drop 4).drop 4)))
  length_toBytes id := by simp
  fromBytes_toBytes id h := by
    obtain ⟨depth, path, hlen⟩ := id
    obtain ⟨d1, d2, d3, d4, rfl⟩ := List.length_eq_four.mp hlen
    obtain ⟨hdepth, hpath⟩ := h
    have h1 : d1 < 256 ^ 4 := hpath d1 (by simp)
    have h2 : d2 < 256 ^ 4 := hpath d2 (by simp)
    have h3 : d3 < 256 ^ 4 := hpath d3 (by simp)
    have h4 : d4 < 256 ^ 4 := hpath d4 (by simp)
    have hd : depth < 256 ^ 1 := hdepth
    simp only [take_wordBytes, drop_wordBytes, wordValue_wordBytes, Nat.mod_eq_of_lt hd,
      List.getD_cons_zero, List.getD_cons_succ, Nat.mod_eq_of_lt h1, Nat.mod_eq_of_lt h2,
      Nat.mod_eq_of_lt h3, Nat.mod_eq_of_lt h4]
    rfl

theorem length_secretKey (k : SecretKey) : (wordBytes 32 k.toNat).length = 32 :=
  wordBytes_length 32 k.toNat

def secretKey : FixedCodec SecretKey 32 where
  Valid _ := True
  toBytes k := wordBytes 32 k.toNat
  fromBytes bs := some (BitVec.ofNat 256 (wordValue bs))
  length_toBytes := length_secretKey
  fromBytes_toBytes k _ := by
    have hlt : k.toNat < 256 ^ 32 := by
      have := k.isLt
      omega
    rw [wordValue_wordBytes, Nat.mod_eq_of_lt hlt, BitVec.ofNat_toNat, BitVec.setWidth_eq]

def feeFields : JsonCodec FeeFields 256 where
  Valid fee := fee.raw < 2 ^ 64
  write fee := .number fee.raw
  read v := (v.readNumber (2 ^ 64)).map FeeFields.mk
  read_write fee h := by rw [readNumber_number h]; rfl
  write_ne_null fee := by simp
  size_le fee h := by
    have hsize : size (.number fee.raw) ≤ 20 := size_number_le (by decide) (by omega)
    omega

/-! ## Addresses -/

open SampleSlatepack

/-- The address of the sample key; another key has a base58 text. -/
def bech32Encode (hrp : String) (data : Bytes) : Option Bytes :=
  if hrp ≠ "grin" then none
  else some (if data = wordBytes 32 key then address else base58Encode data)

def bech32Decode (s : Bytes) : Option (String × Bytes) :=
  if s = address then some ("grin", wordBytes 32 key) else (base58Decode s).map ("grin", ·)

/-- The sample address has a letter that base58 leaves out. -/
theorem base58Encode_ne_address (data : Bytes) : base58Encode data ≠ address := by
  have hletter : (108 : UInt8) ∈ address ∧ (108 : UInt8) ∉ base58Alphabet := by decide +kernel
  intro he
  apply hletter.2
  apply base58_alphabet data
  rw [he]
  exact hletter.1

theorem base58Encode_length {data : Bytes} (h : data.length = 32) : (base58Encode data).length ≤ 64 := by
  have hlt : ∀ d ∈ data.map UInt8.toNat, d < 256 := by
    intro d hd
    obtain ⟨b, -, rfl⟩ := List.mem_map.mp hd
    exact b.toNat_lt
  have hsize : ∀ n, 256 ^ n ≤ 58 ^ (2 * n) := by
    intro n
    rw [Nat.pow_mul]
    exact Nat.pow_le_pow_left (by decide) n
  have hlen := Digits.length_convert_le (by decide) (by decide) hlt hsize (by omega)
  rw [List.length_map, h] at hlen
  rw [base58Encode, List.length_map]
  exact hlen

theorem bech32_address (data : Bytes) (h : data.length = 32) :
    ∃ s, bech32Encode "grin" data = some s ∧ s.length ≤ 255 ∧
      bech32Decode s = some ("grin", data) := by
  have haddress : address.length = 63 := by decide
  by_cases hkey : data = wordBytes 32 key
  · exact ⟨address, by simp [bech32Encode, hkey], by omega, by simp [bech32Decode, hkey]⟩
  · have hlen := base58Encode_length h
    refine ⟨base58Encode data, by simp [bech32Encode, hkey], by omega, ?_⟩
    rw [bech32Decode, if_neg (base58Encode_ne_address data), base58_inverse]
    rfl

theorem bech32_ascii (hrp : String) (data s : Bytes) (h : bech32Encode hrp data = some s) :
    ∀ b ∈ s, b.toNat < 128 := by
  have haddress : ∀ b ∈ address, b.toNat < 128 := by decide +kernel
  have halphabet : ∀ b ∈ base58Alphabet, b.toNat < 128 := by decide +kernel
  unfold bech32Encode at h
  split_ifs at h with hhrp hkey
  · cases h
    exact haddress
  · cases h
    exact fun b hb => halphabet b (base58_alphabet data b hb)

/-! ## The context -/

/-- The context a sender keeps for a send of 5 nanogrin that is locked late. -/
def context : Context Nat where
  parentKeyId := .deriveKeyId 2 0 0 0 0
  secKey := 1
  secNonce := 2
  initialSecKey := 1
  initialSecNonce := 2
  outputIds := [(.deriveKeyId 3 0 0 1 0, none, 60)]
  inputIds := [(.deriveKeyId 3 0 0 0 0, some 7, 70)]
  amount := 5
  fee := some ⟨5⟩
  paymentProofDerivationIndex := some 0
  lateLockArgs := some {
    srcAcctName := some "default".toList
    amount := 5
    amountIncludesFee := none
    minimumConfirmations := 10
    maxOutputs := 500
    numChangeOutputs := 1
    selectionStrategyIsUseAll := false
    refreshOutputsFromNode := true
    targetSlateVersion := none
    ttlBlocks := some 1440
    paymentProofRecipientAddress := some ⟨"grin", key⟩
    estimateOnly := none
    lateLock := some true
    sendArgs := some { dest := "https://example.com".toList, postTx := true, fluff := false, skipTor := none } }
  calculatedExcess := some 9

end SampleContext

open SampleContext in
def sampleContextEnv (parse : Bytes → Option Value) : ContextEnv Nat Nat where
  toCodecs := sampleCodecs
  slatepackHrp := "grin"
  bech32Encode := bech32Encode
  bech32Decode := bech32Decode
  bech32_address := bech32_address
  identifier := hexJson identifier (by decide)
  secretKey := bytesJson secretKey (by decide)
  feeFields := feeFields
  pedersenCommitment := hexJson (fixedWord 33) (by decide)
  bech32_ascii := bech32_ascii
  parse := parse

namespace SampleContext

/-- The JSON form of the sample. -/
def json : Value :=
  match context.toJson (sampleContextEnv fun _ => none) with
  | .ok v => v
  | .error _ => .null

/-- A parser that knows the text of the sample. -/
def env : ContextEnv Nat Nat := sampleContextEnv fun text => if text = render json then some json else none

theorem env_parse (text : Bytes) : env.parse text = if text = render json then some json else none := rfl

theorem context_toJson : context.toJson env = .ok json := rfl

/-- A reader over memory that refuses to read more than its limit at once. -/
def reader (limit : Option Nat) : BytesReader where
  readLimit := limit
  readFixedBytes n :=
    if limit.any fun l => l ≠ 0 ∧ l < n then throw .TooLargeReadErr else takeBytes .IOErr n

end SampleContext

end GrinWallet
