import GrinWallet.Lib.Wire
import GrinWallet.Model.Crypto

/-! # Binary serialization

The readers and writers of `grin_core::ser` the wallet's formats are made of.
Words are big-endian. What one call reads at most, and the codecs of the scalars,
points, signatures and proofs, are parameters.
-/

namespace GrinWallet

open Effect Wire

/-- `grin_core::ser::Error`. -/
inductive SerError
  | IOErr
  | CorruptedData
  | TooLargeReadErr
  | UnexpectedData (expected received : List Nat)
  | UnsupportedProtocolVersion
  | CountError
  /-- A Rust panic: a subtraction below zero. -/
  | Panic (reason : String)
deriving DecidableEq

namespace Ser

def u8 : Codec SerError Nat := word .IOErr 1

def u16 : Codec SerError Nat := word .IOErr 2

def u32 : Codec SerError Nat := word .IOErr 4

def u64 : Codec SerError Nat := word .IOErr 8

theorem u8_valid {n : Nat} : u8.Valid n ↔ n < 2 ^ 8 := Iff.rfl

theorem u16_valid {n : Nat} : u16.Valid n ↔ n < 2 ^ 16 := by
  show n < 256 ^ 2 ↔ n < 2 ^ 16
  omega

theorem u32_valid {n : Nat} : u32.Valid n ↔ n < 2 ^ 32 := by
  show n < 256 ^ 4 ↔ n < 2 ^ 32
  omega

theorem u64_valid {n : Nat} : u64.Valid n ↔ n < 2 ^ 64 := by
  show n < 256 ^ 8 ↔ n < 2 ^ 64
  omega

def feeFields : Codec SerError FeeFields where
  Valid fee := u64.Valid fee.raw
  write fee := u64.write fee.raw
  read := FeeFields.mk <$> u64.read
  decodes fee h := (u64.decodes fee.raw h).map FeeFields.mk

/-- `OutputFeatures::read`. -/
def readOutputFeatures : Reader SerError OutputFeatures := do
  match ← u8.read with
  | 0 => return .Plain
  | 1 => return .Coinbase
  | _ => throw .CorruptedData

def outputFeatures : Codec SerError OutputFeatures where
  Valid _ := True
  write f := u8.write (if f = .Plain then 0 else 1)
  read := readOutputFeatures
  decodes f _ := by
    cases f with
    | Plain => exact (u8.decodes 0 (u8_valid.mpr (by decide))).bind_last (.pure _)
    | Coinbase => exact (u8.decodes 1 (u8_valid.mpr (by decide))).bind_last (.pure _)

end Ser

/-- The codecs of the types of `grin_core`, `secp256k1-zkp` and `ed25519_dalek`. -/
structure Codecs (F E : Type) where
  /-- The most bytes one call of the reader returns. -/
  readLimit : Nat
  readLimit_ge : 255 ≤ readLimit
  blindingFactor : Codec SerError F
  publicKey : Codec SerError E
  signature : Codec SerError (Signature F E)
  commitment : Codec SerError E
  rangeProof : Codec SerError RangeProof
  dalekPublicKey : FixedCodec DalekPublicKey 32
  dalekSignature : FixedCodec DalekSignature 64

namespace Codecs

variable {F E : Type}

/-- `Reader::read_fixed_bytes`. -/
def readFixedBytes (C : Codecs F E) (n : Nat) : Reader SerError Bytes :=
  if n > C.readLimit then throw .TooLargeReadErr else takeBytes .IOErr n

theorem readFixedBytes_decodes (C : Codecs F E) {n : Nat} {bs : Bytes} (hlen : bs.length = n)
    (hn : n ≤ C.readLimit) : Decodes (C.readFixedBytes n) bs bs := by
  unfold readFixedBytes
  rw [if_neg (by omega)]
  exact takeBytes_decodes _ hlen

/-- Read a value of a fixed width. -/
def readFixed {α : Type} {n : Nat} (C : Codecs F E) (K : FixedCodec α n) : Reader SerError α := do
  let bytes ← C.readFixedBytes n
  Eff.ofExcept ((K.fromBytes bytes).elim (.error .CorruptedData) .ok)

theorem readFixed_decodes {α : Type} {n : Nat} (C : Codecs F E) (K : FixedCodec α n) {a : α}
    (ha : K.Valid a) (hn : n ≤ C.readLimit) : Decodes (C.readFixed K) (K.toBytes a) a := by
  apply (C.readFixedBytes_decodes (K.length_toBytes a) hn).bind_last
  rw [K.fromBytes_toBytes a ha]
  exact .pure a

end Codecs

end GrinWallet
