import GrinWallet.Lib.Digits
import GrinWallet.Model.Sample
import GrinWallet.Model.Slatepacker

/-! # A small concrete slatepack

Values for the parameters of the slatepack formats: base58 is the real one, the
bech32 encoding and the hash have their real values on the sample. An `age` file
lists the keys it is for in front of the plain text.
-/

namespace GrinWallet

open Effect Wire

namespace SampleSlatepack

/-! ## Base58 -/

def base58Char (d : Nat) : UInt8 := base58Alphabet.getD d 0

def base58Value (c : UInt8) : Option Nat := base58Alphabet.findIdx? (· = c)

def base58Encode (bs : Bytes) : Bytes :=
  (Digits.convert 256 58 (bs.map UInt8.toNat)).map base58Char

def base58Decode (cs : Bytes) : Option Bytes :=
  (cs.mapM base58Value).map fun ds => (Digits.convert 58 256 ds).map UInt8.ofNat

theorem base58Char_mem {d : Nat} (h : d < 58) : base58Char d ∈ base58Alphabet := by
  have hall : ∀ d < 58, base58Char d ∈ base58Alphabet := by decide +kernel
  exact hall d h

theorem base58Value_base58Char {d : Nat} (h : d < 58) : base58Value (base58Char d) = some d := by
  have hall : ∀ d < 58, base58Value (base58Char d) = some d := by decide +kernel
  exact hall d h

theorem mapM_base58Value {ds : List Nat} (h : ∀ d ∈ ds, d < 58) :
    (ds.map base58Char).mapM base58Value = some ds := by
  induction ds with
  | nil => rfl
  | cons d ds ih =>
      have hd := base58Value_base58Char (h d List.mem_cons_self)
      have hds := ih fun e he => h e (List.mem_cons_of_mem d he)
      rw [List.map_cons, List.mapM_cons, hd, hds]
      rfl

theorem base58_inverse (bs : Bytes) : base58Decode (base58Encode bs) = some bs := by
  have hlt : ∀ d ∈ bs.map UInt8.toNat, d < 256 := by
    intro d hd
    obtain ⟨b, -, rfl⟩ := List.mem_map.mp hd
    exact b.toNat_lt
  have hbytes : (bs.map UInt8.toNat).map UInt8.ofNat = bs := by
    rw [List.map_map]
    exact List.map_id'' (by simp) bs
  unfold base58Decode base58Encode
  rw [mapM_base58Value (Digits.convert_lt (by decide)), Option.map_some,
    Digits.convert_convert (by decide) hlt, hbytes]

theorem base58_alphabet (bs : Bytes) : ∀ c ∈ base58Encode bs, c ∈ base58Alphabet := by
  intro c hc
  obtain ⟨d, hd, rfl⟩ := List.mem_map.mp hc
  exact base58Char_mem (Digits.convert_lt (by decide) d hd)

/-! ## The sender -/

def key : DalekPublicKey :=
  48428522593749544282773302650646363543156831130603736273440396677419803730773

def address : Bytes := ascii "grin1dvge9z4uqgqlpspmljrd7smh3grrw9xu2r9lkz3u67s3emj3ud2sd5gk9p"

/-- The address of the sample key; another key stands for itself. -/
def bech32Encode (hrp : String) (data : Bytes) : Option Bytes :=
  if hrp ≠ "grin" then none else if data = wordBytes 32 key then some address else some data

def bech32Decode (s : Bytes) : Option (String × Bytes) :=
  if s = address then some ("grin", wordBytes 32 key)
  else if s.length = 32 then some ("grin", s)
  else none

theorem bech32_address (data : Bytes) (h : data.length = 32) :
    ∃ s, bech32Encode "grin" data = some s ∧ s.length ≤ 255 ∧
      bech32Decode s = some ("grin", data) := by
  have haddress : address.length = 63 := by decide
  by_cases hkey : data = wordBytes 32 key
  · refine ⟨address, ?_, by omega, ?_⟩
    · simp [bech32Encode, hkey]
    · simp [bech32Decode, hkey]
  · have hne : data ≠ address := by
      intro he
      rw [he] at h
      omega
    refine ⟨data, ?_, by omega, ?_⟩
    · simp [bech32Encode, hkey]
    · simp [bech32Decode, hne, h]

/-! ## The slatepack -/

def slatepack : Slatepack :=
  { Slatepack.default with
    sender := some ⟨"grin", key⟩
    payload := [1, 2, 3] }

/-- The binary form of the sample. -/
def bytes : Bytes :=
  [1, 0, 0, 0, 1, 0, 0, 0, 64, 63] ++ address ++ [0, 0, 0, 0, 0, 0, 0, 3, 1, 2, 3]

def digest : Nat :=
  50230549706629939518475422736470589352227394942984107637355420989954832203421

def doubleDigest : Nat :=
  99714673831124200776975368056794470829019920503580253633173455428772225853727

/-- The hashes of the sample and of its hash. -/
def sha256 (bs : Bytes) : Bytes :=
  wordBytes 32 (if bs = bytes then digest else if bs = wordBytes 32 digest then doubleDigest else 0)

theorem sha256_length (bs : Bytes) : (sha256 bs).length = 32 := wordBytes_length 32 _

end SampleSlatepack

open SampleSlatepack in
def sampleArmor : ArmorEnv Nat Nat where
  toCodecs := sampleCodecs
  slatepackHrp := "grin"
  bech32Encode := bech32Encode
  bech32Decode := bech32Decode
  bech32_address := bech32_address
  sha256 := sha256
  sha256_length := sha256_length
  base58Encode := base58Encode
  base58Decode := base58Decode
  base58_alphabet := base58_alphabet
  base58_inverse := base58_inverse
  maxTxWeight := 39976

namespace SampleSlatepack

def sealAge (keys : List Nat) (plain : Bytes) : Except Error Bytes :=
  if keys.length < 2 ^ 16 ∧ (∀ k ∈ keys, k < 256 ^ 32) ∧
      2 + 32 * keys.length + plain.length < 2 ^ 64 then
    .ok (Ser.u16.write keys.length ++ keys.flatMap (wordBytes 32) ++ plain)
  else .error (.Age "too long")

def readKeys : Reader SerError (List Nat) := do
  let count ← Ser.u16.read
  times count (word .IOErr 32).read

def openAge (file : Bytes) : Except Error AgeDecryptor :=
  match readKeys file with
  | (.ok keys, plain) =>
      .ok (.Recipients fun identity =>
        if identity ∈ keys then .ok plain else .error (.Age "No matching keys found"))
  | (.error _, _) => .error (.Age "invalid file")

end SampleSlatepack

open SampleSlatepack in
/-- Keys stand for themselves. -/
def samplePacker : PackerEnv Nat Nat where
  toArmorEnv := sampleArmor
  toAgePubkey a := .ok a.pubKey
  ageIdentity decKey := .ok decKey.toNat
  ageRecipient identity := identity
  ageEncrypt := sealAge
  ageDecryptor := openAge
  parseJson _ := .error (.SlatepackDeser "Error reading JSON slatepack")

end GrinWallet
