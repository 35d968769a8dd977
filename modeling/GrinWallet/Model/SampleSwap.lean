import GrinWallet.Model.SampleMwixnet
import GrinWallet.Model.SwapReq

/-! # A wallet at a mix net

A curve over the field of 61 elements, large enough for the values of a small coin and
the fees of two servers, with a wallet over it.
-/

namespace GrinWallet

open Effect Wire WalletBackend

namespace Mwixnet

namespace SampleSwap

abbrev Scalar := ZMod 61

abbrev Point := ZMod 61 × ZMod 61

instance prime_sixty_one : Fact (Nat.Prime 61) := ⟨by decide⟩

def commitment (P : Point) : Commitment :=
  ⟨UInt8.ofNat P.1.val :: UInt8.ofNat P.2.val :: List.replicate 31 0, rfl⟩

def toPubkey (c : Commitment) : Option Point :=
  let P : Point := ((c.bytes.getD 0 0).toNat, (c.bytes.getD 1 0).toNat)
  if P = 0 then none else some P

theorem scalar_byte (x : Scalar) : (((UInt8.ofNat x.val).toNat : Nat) : Scalar) = x := by
  have hlt : x.val < 61 := ZMod.val_lt x
  rw [UInt8.toNat_ofNat', Nat.mod_eq_of_lt (by omega), ZMod.natCast_zmod_val]

theorem toPubkey_commitment (P : Point) (h : P ≠ 0) : toPubkey (commitment P) = some P := by
  have hpair : ((((UInt8.ofNat P.1.val).toNat : Nat) : Scalar),
      (((UInt8.ofNat P.2.val).toNat : Nat) : Scalar)) = P := by
    rw [scalar_byte, scalar_byte]
  show (if _ then none else some _) = some P
  rw [if_neg]
  · exact congrArg some hpair
  · intro hzero
    exact h (hpair.symm.trans hzero)

theorem toPubkey_ne_zero (c : Commitment) (P : Point) (h : toPubkey c = some P) : P ≠ 0 := by
  unfold toPubkey at h
  dsimp only at h
  split at h
  · cases h
  · cases h
    assumption

/-- Numbers below 61, 0 excepted. -/
def readSecret (bs : Bytes) : Option Scalarˣ :=
  if h : (wordValue bs : Scalar) = 0 then none
  else if wordValue bs < 61 then some (Units.mk0 _ h) else none

theorem readSecret_wordBytes (k : Scalarˣ) :
    readSecret (wordBytes 32 (k : Scalar).val) = some k := by
  have hlt : (k : Scalar).val < 61 := ZMod.val_lt (k : Scalar)
  have hvalue : wordValue (wordBytes 32 (k : Scalar).val) = (k : Scalar).val := by
    rw [wordValue_wordBytes, Nat.mod_eq_of_lt (lt_of_lt_of_le hlt (by norm_num))]
  have hcast : ((wordValue (wordBytes 32 (k : Scalar).val) : Nat) : Scalar) = k := by
    rw [hvalue, ZMod.natCast_zmod_val]
  unfold readSecret
  rw [dif_neg (by rw [hcast]; exact k.ne_zero), if_pos (by omega)]
  exact congrArg some (Units.ext hcast)

theorem readSecret_value (bs : Bytes) (k : Scalarˣ) (h : readSecret bs = some k) :
    (k : Scalar) = wordValue bs := by
  unfold readSecret at h
  split at h
  · cases h
  · split at h
    · cases h
      rfl
    · cases h

theorem independent : LinearIndependent Scalar ![((1, 0) : Point), (0, 1)] := by
  refine LinearIndependent.pair_iff.mpr fun s t h => ?_
  simpa using h

def curve : Secp256k1 Scalar Point where
  G := (0, 1)
  H := (1, 0)
  independent := independent
  commitment := commitment
  toPubkey := toPubkey
  toPubkey_commitment := toPubkey_commitment
  toPubkey_ne_zero := toPubkey_ne_zero
  secretKey :=
    { Valid := fun _ => True
      toBytes := fun k => wordBytes 32 (k : Scalar).val
      fromBytes := readSecret
      length_toBytes := fun _ => wordBytes_length 32 _
      fromBytes_toBytes := fun k _ => readSecret_wordBytes k }
  secretKey_valid _ := trivial
  secretKey_value := readSecret_value
  blake2b bs := List.replicate 31 0 ++ [UInt8.ofNat ((bs.getLastD 0).toNat % 60 + 1)]
  testSecret := 1

def codecs : Codecs Scalar Point where
  readLimit := 100000
  readLimit_ge := sampleCodecs.readLimit_ge
  blindingFactor := unusedCodec _
  publicKey := unusedCodec _
  signature := unusedCodec _
  commitment := unusedCodec _
  rangeProof := SampleCodecs.prefixedWord 675 SampleCodecs.range_proof_fits
  dalekPublicKey := fixedWord 32
  dalekSignature := fixedWord 64

def tools : OnionEnv Scalar Point where
  toSecp256k1 := curve
  codecs := codecs
  xPublicKey := sampleOnionEnv.xPublicKey
  diffieHellman := sampleOnionEnv.diffieHellman
  diffieHellman_comm := sampleOnionEnv.diffieHellman_comm
  hmacSha256 := sampleOnionEnv.hmacSha256
  chacha20 := sampleOnionEnv.chacha20

/-- Keys of even children are 1, the others -1. -/
def deriveSecret (id : Identifier) : Scalarˣ := if id.lastPathIndex % 2 = 0 then 1 else -1

def keychain : Keychain Scalar Point where
  G := (0, 1)
  H := (1, 0)
  scalar x := x.toNat
  challenge _ _ _ := 7
  dalekPublicKey x := x.toNat
  dalekSign x m := x.toNat + m.amount
  dalekVerify p m s := s = p + m.amount
  deriveKey _ id := deriveSecret id
  rangeProof _ _ := 8
  rewind _ _ _ := .ok none
  addressKey _ i := BitVec.ofNat 256 (i + 1)
  privateCtxXorKeys id := (BitVec.ofNat 256 id, BitVec.ofNat 256 id)

def offline {α : Type} : Except Error α := .error (.GenericError "offline")

/-- A node nobody asks. -/
def node : NodeClient Scalar Point where
  getChainTip := offline
  getKernel _ _ _ := offline
  getOutputsFromNode _ := offline
  getOutputsByPmmrIndex _ _ _ := offline
  heightRangeToPmmrIndices _ _ := offline
  postTx _ _ := offline

theorem id_perm {α : Type} (l : List α) : (id l).Perm l := List.Perm.refl l

/-- Maps are read in the order they were filled. -/
def keptOrder (α : Type) : IterOrder α := ⟨id, id_perm⟩

/-- A server takes a fee of 25. -/
def env : MixnetEnv Scalar Point where
  wallet :=
    { keychain := keychain
      consensus := { (mainnet : Consensus Scalar Point) with acceptFeeBase := 1 }
      node := fun _ => node
      secret := fun _ => (1, 2)
      uuid := fun t => t
      now := fun t => t
      addressHrp := "grin"
      walletOutputOrder := keptOrder _
      foundParentOrder := keptOrder _ }
  tools := tools
  same_G := rfl
  same_H := rfl
  deriveSecret _ id := deriveSecret id
  deriveSecret_eq _ _ := rfl

/-- A coin of 60 nanogrin under the first key of the default account. -/
def coin : OutputData Point where
  rootKeyId := defaultPath
  keyId := defaultPath.child 0
  nChild := 0
  commit := none
  mmrIndex := none
  value := 60
  status := .Unspent
  height := 1
  lockHeight := 0
  isCoinbase := false
  txLogEntry := none

def wallet : WalletBackend Scalar Point :=
  let store := (Store.fresh.saveChildIndex defaultPath 1).save coin
  { (WalletBackend.new : WalletBackend Scalar Point) with store := store }

def draws : Draws Scalar := ⟨fun _ => 1, fun i => BitVec.ofNat 256 (i + 1), 1, 1⟩

def request : Except Error (SwapReq Scalar) × WalletBackend Scalar Point :=
  createMwixnetReq env draws ⟨[5, 9], 0⟩ (commitment (60, 1)) true wallet

end SampleSwap

end Mwixnet

end GrinWallet
