import GrinWallet.Lib.Text
import GrinWallet.Model.Slatepack

/-! # Slatepack armor

A binary slatepack as text: a checksum in front, base58, a header and a footer
that end in periods, and separators between words and lines. The hash and the
base58 encoding are parameters.
-/

namespace GrinWallet

open Effect Wire

/-- A string of ASCII characters. -/
def ascii (s : String) : Bytes := s.toList.map fun c => UInt8.ofNat c.toNat

/-- The alphabet of `bs58::encode`. -/
def base58Alphabet : Bytes := ascii "123456789ABCDEFGHJKLMNPQRSTUVWXYZabcdefghijkmnopqrstuvwxyz"

/-- What the armor takes from its environment. -/
structure ArmorEnv (F E : Type) extends SlatepackEnv F E where
  sha256 : Bytes → Bytes
  sha256_length : ∀ bs, (sha256 bs).length = 32
  base58Encode : Bytes → Bytes
  base58Decode : Bytes → Option Bytes
  base58_alphabet : ∀ bs, ∀ c ∈ base58Encode bs, c ∈ base58Alphabet
  base58_inverse : ∀ bs, base58Decode (base58Encode bs) = some bs
  /-- `global::max_tx_weight`. -/
  maxTxWeight : Nat

/-! ## Framing and formatting -/

def HEADER : Bytes := ascii "BEGINSLATEPACK."

def FOOTER : Bytes := ascii ". ENDSLATEPACK."

def WORD_LENGTH : Nat := 15

def WORDS_PER_LINE : Nat := 200

def WEIGHT_RATIO : Nat := 32

def WHITESPACE_LIST : Bytes := ascii ">\n\r\t "

/-- A period, which ends each part of the frame. -/
def period : UInt8 := 46

namespace SlatepackArmor

variable {F E : Type}

/-- The longest armored slatepack, in saturating arithmetic. -/
def maxSize (N : ArmorEnv F E) : Nat :=
  min (min (min (N.maxTxWeight * WEIGHT_RATIO) (2 ^ 64 - 1) + HEADER.length) (2 ^ 64 - 1)
    + FOOTER.length) (2 ^ 64 - 1)

def minSize : Nat := HEADER.length

/-- A frame with characters of the whitespace list on either side. -/
def isFrame (frame text : Bytes) : Bool :=
  let text := text.dropWhile (· ∈ WHITESPACE_LIST)
  (text.reverse.dropWhile (· ∈ WHITESPACE_LIST)).reverse = frame

/-- Checks framing bytes: UTF-8, and the frame between whitespace. -/
def checkFrame (frame : Bytes) (reason : String) (framing : Bytes) : Except Error Unit :=
  if ¬ (ByteArray.mk framing.toArray).validateUTF8 then .error (.SlatepackDeser "Bad bytes")
  else if isFrame frame framing then .ok ()
  else .error (.InvalidSlatepackData reason)

def checkHeader (header : Bytes) : Except Error Unit :=
  checkFrame (ascii "BEGINSLATEPACK") "Bad armor header" header

def checkFooter (footer : Bytes) : Except Error Unit :=
  checkFrame (ascii "ENDSLATEPACK") "Bad armor footer" footer

/-- The first four bytes of a double hash. -/
def generateCheck (N : ArmorEnv F E) (payload : Bytes) : Bytes :=
  (N.sha256 (N.sha256 payload)).take 4

def errorCheck (N : ArmorEnv F E) (errorCode slateBytes : Bytes) : Except Error Unit :=
  if errorCode = generateCheck N slateBytes then .ok ()
  else .error (.InvalidSlatepackData "Bad slate error code- some data was corrupted")

/-- Base58 of the checksum and the bytes. -/
def base58check (N : ArmorEnv F E) (slate : Bytes) : Bytes :=
  N.base58Encode (generateCheck N slate ++ slate)

/-- What goes in front of the character at a position. -/
def separator (i : Nat) : Option UInt8 :=
  if i ≠ 0 ∧ i % WORD_LENGTH = 0 then
    if WORDS_PER_LINE ≠ 0 ∧ i % (WORD_LENGTH * WORDS_PER_LINE) = 0 then some 10 else some 32
  else none

def formatSlatepack (slatepack : Bytes) : Bytes := Text.separated separator 0 slatepack

/-- Decode an armored slatepack to its binary form. -/
def decode (N : ArmorEnv F E) (armorBytes : Bytes) : Except Error Bytes := do
  let headerBytes := armorBytes.takeWhile (· ≠ period)
  checkHeader headerBytes
  let headerLen := headerBytes.length + 1
  if armorBytes.length < headerLen then .error (.InvalidSlatepackData "Bad armor header")
  else
    let payloadBytes := (armorBytes.drop headerLen).takeWhile (· ≠ period)
    let consumedBytes := headerLen + payloadBytes.length + 1
    if armorBytes.length < consumedBytes then .error (.InvalidSlatepackData "Bad armor footer")
    else do
      checkFooter ((armorBytes.drop consumedBytes).takeWhile (· ≠ period))
      let cleanPayload := payloadBytes.filter (· ∉ WHITESPACE_LIST)
      match N.base58Decode cleanPayload with
      | none => .error (.SlatepackDeser "Bad bytes")
      | some baseDecode =>
          if baseDecode.length < 4 then .error (.SlatepackDeser "Payload too short")
          else do
            errorCheck N (baseDecode.take 4) (baseDecode.drop 4)
            return baseDecode.drop 4

/-- Encode an armored slatepack. -/
def encode (N : ArmorEnv F E) (slatepack : Slatepack) : Except Error Bytes :=
  match SlatepackBin.write N.toSlatepackEnv slatepack with
  | .error (.Panic reason) => .error (.Panic reason)
  | .error _ => .error .SlatepackSer
  | .ok slatepackBytes =>
      .ok (formatSlatepack (HEADER ++ base58check N slatepackBytes) ++ FOOTER ++ [10])

end SlatepackArmor

end GrinWallet
