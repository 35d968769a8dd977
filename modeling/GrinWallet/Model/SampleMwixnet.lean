import GrinWallet.Model.Mwixnet
import GrinWallet.Model.Sample
import Mathlib.Algebra.Field.ZMod
import Mathlib.Algebra.Module.Prod
import Mathlib.Data.ZMod.Basic

/-! # A small curve

A curve over the field of seven elements whose points are pairs of scalars, with a
hash that reads the last byte of a message, for the inputs the theorems are tried on.
-/

namespace GrinWallet

open Effect Wire

namespace Mwixnet

namespace SampleCurve

abbrev Scalar := ZMod 7

abbrev Point := ZMod 7 × ZMod 7

instance prime_seven : Fact (Nat.Prime 7) := ⟨by decide⟩

def commitment (P : Point) : Commitment :=
  ⟨UInt8.ofNat P.1.val :: UInt8.ofNat P.2.val :: List.replicate 31 0, rfl⟩

def toPubkey (c : Commitment) : Option Point :=
  let P : Point := ((c.bytes.getD 0 0).toNat, (c.bytes.getD 1 0).toNat)
  if P = 0 then none else some P

/-- Numbers below 7, 0 excepted. -/
def secretKey : FixedCodec Scalarˣ 32 where
  Valid _ := True
  toBytes k := wordBytes 32 (k : Scalar).val
  fromBytes bs :=
    if h : (wordValue bs : Scalar) = 0 then none
    else if wordValue bs < 7 then some (Units.mk0 _ h) else none
  length_toBytes k := wordBytes_length 32 _
  fromBytes_toBytes k _ := by
    have hlt : (k : Scalar).val < 7 := ZMod.val_lt (k : Scalar)
    have hvalue : wordValue (wordBytes 32 (k : Scalar).val) = (k : Scalar).val := by
      rw [wordValue_wordBytes, Nat.mod_eq_of_lt (lt_of_lt_of_le hlt (by norm_num))]
    have hcast : ((wordValue (wordBytes 32 (k : Scalar).val) : Nat) : Scalar) = k := by
      rw [hvalue, ZMod.natCast_zmod_val]
    rw [dif_neg (by rw [hcast]; exact k.ne_zero), if_pos (by omega)]
    exact congrArg some (Units.ext hcast)

end SampleCurve

open SampleCurve in
def sampleCurve : Secp256k1 Scalar Point where
  G := (0, 1)
  H := (1, 0)
  independent := LinearIndependent.pair_iff.mpr (by decide)
  commitment := SampleCurve.commitment
  toPubkey := SampleCurve.toPubkey
  toPubkey_commitment := by decide +kernel
  toPubkey_ne_zero c P h := by
    simp only [SampleCurve.toPubkey] at h
    split at h
    · cases h
    · cases h
      assumption
  secretKey := SampleCurve.secretKey
  secretKey_valid _ := trivial
  secretKey_value bs k h := by
    simp only [SampleCurve.secretKey] at h
    split at h
    · cases h
    · split at h
      · cases h
        rfl
      · cases h
  blake2b bs := List.replicate 31 0 ++ [UInt8.ofNat ((bs.getLastD 0).toNat % 6 + 1)]
  testSecret := 1

/-- A codec of a type the onions do not use. -/
def unusedCodec (α : Type) : Codec SerError α where
  Valid _ := False
  write _ := []
  read := throw .CorruptedData
  decodes _ h := h.elim

open SampleCurve in
def sampleCurveCodecs : Codecs Scalar Point where
  readLimit := 100000
  readLimit_ge := sampleCodecs.readLimit_ge
  blindingFactor := unusedCodec _
  publicKey := unusedCodec _
  signature := unusedCodec _
  commitment := unusedCodec _
  rangeProof := SampleCodecs.prefixedWord 675 SampleCodecs.range_proof_fits
  dalekPublicKey := fixedWord 32
  dalekSignature := fixedWord 64

/-- Keys are numbers, a shared secret is their product, and a keystream repeats its key. -/
def sampleOnionEnv : OnionEnv SampleCurve.Scalar SampleCurve.Point where
  toSecp256k1 := sampleCurve
  codecs := sampleCurveCodecs
  xPublicKey sk := ⟨wordBytes 32 sk.toNat, wordBytes_length 32 _⟩
  diffieHellman sk pk := wordBytes 32 (sk.toNat * wordValue pk.bytes)
  diffieHellman_comm a b := by
    have hvalue : ∀ c : SecretKey, wordValue (wordBytes 32 c.toNat) = c.toNat := by
      intro c
      rw [wordValue_wordBytes, Nat.mod_eq_of_lt (lt_of_lt_of_le c.isLt (by norm_num))]
    simp only [hvalue, Nat.mul_comm]
  hmacSha256 _ msg := msg
  chacha20 key _ n := key.getD (n % 32) 0

/-- A hop of the server with a key, for a fee of 1. -/
def sampleHop (key : SecretKey) (excess : SampleCurve.Scalarˣ) (rangeproof : Option RangeProof) :
    Hop SampleCurve.Scalar :=
  ⟨sampleOnionEnv.xPublicKey key, excess, ⟨1⟩, rangeproof⟩

end Mwixnet

end GrinWallet
