import GrinWallet.Model.Ser
import GrinWallet.Model.Update
import Mathlib.Algebra.Module.Prod
import Mathlib.Algebra.Module.NatInt

/-! # A small concrete wallet

Values for the parameters of the model, small enough to compute with: the main
network's constants, and a seed over pairs of integers, where a commitment is
the pair of its blinding factor and its value.
-/

namespace GrinWallet

/-- The constants of the main network; every transaction validates. -/
def mainnet {F E : Type} : Consensus F E where
  acceptFeeBase := 500000
  maxTxWeight := 40000
  coinbaseMaturity := 1440
  reward := fun fees => 60000000000 + fees
  validHeaderVersion := fun _ version => version = 3
  validate := fun _ => .ok ()

/-- Read the child numbers of a path as the digits of a number, the depth first. -/
def pathNumber (id : Identifier) : Nat := id.path.foldl (fun n child => n * 1000 + child) id.depth

/-- The path a number was read from. -/
def numberPath (n : Nat) : Identifier :=
  .deriveKeyId (n / 1000 ^ 4) (n / 1000 ^ 3 % 1000) (n / 1000 ^ 2 % 1000) (n / 1000 % 1000)
    (n % 1000)

/-- A seed whose blinding factors are the numbers of the paths. -/
def sampleKeychain : Keychain ℤ (ℤ × ℤ) where
  G := (1, 0)
  H := (0, 1)
  scalar := fun x => x.toNat
  challenge := fun _ _ _ => 7
  dalekPublicKey := fun x => x.toNat
  dalekSign := fun x m => x.toNat + m.amount
  dalekVerify := fun p m s => s = p + m.amount
  deriveKey := fun _ id => pathNumber id
  rangeProof := fun _ id => pathNumber id
  rewind := fun legacy commit _ =>
    if legacy then .ok none else .ok (some (commit.2.toNat, numberPath commit.1.toNat))
  addressKey := fun _ i => BitVec.ofNat 256 (i + 1)
  privateCtxXorKeys := fun id => (BitVec.ofNat 256 (id + 85), BitVec.ofNat 256 (id + 170))

/-- A node at height 100 with the given unspent outputs and kernels. -/
def sampleNode (outputs : List (ChainOutput (ℤ × ℤ))) (kernels : List (ℤ × ℤ)) :
    NodeClient ℤ (ℤ × ℤ) where
  getChainTip := .ok (100, "tip")
  getKernel := fun excess _ _ => .ok (if excess ∈ kernels then some (100, 0) else none)
  getOutputsFromNode := fun _ => .ok fun commit =>
    (outputs.find? fun o => o.commit = commit).map fun o => (o.height, o.mmrIndex)
  getOutputsByPmmrIndex := fun _ last _ => .ok (last.getD 0, last.getD 0, outputs)
  heightRangeToPmmrIndices := fun _ _ => .ok (0, outputs.length)
  postTx := fun _ _ => .ok ()

/-- The sample wallet's environment: the `t`-th draw and identifier are made of `t`. -/
def sampleEnv (node : Nat → NodeClient ℤ (ℤ × ℤ)) : Env ℤ (ℤ × ℤ) where
  keychain := sampleKeychain
  consensus := mainnet
  node := node
  secret := fun t => (BitVec.ofNat 256 (2 * t + 1), BitVec.ofNat 256 (2 * t + 2))
  uuid := fun t => t
  now := fun t => t
  addressHrp := "grin"
  walletOutputOrder := ⟨id, fun _ => List.Perm.refl _⟩
  foundParentOrder := ⟨id, fun _ => List.Perm.refl _⟩

/-- An unspent output under the `n`-th key of the default account. -/
def sampleCoin (value n : Nat) : OutputData (ℤ × ℤ) where
  rootKeyId := defaultPath
  keyId := defaultPath.child n
  nChild := n
  commit := none
  mmrIndex := none
  value := value
  status := .Unspent
  height := 1
  lockHeight := 0
  isCoinbase := false
  txLogEntry := none

/-- A wallet with nothing but the given outputs. -/
def sampleWallet (coins : List (OutputData (ℤ × ℤ))) : WalletBackend ℤ (ℤ × ℤ) :=
  let store := coins.foldl (fun s o => s.save o)
    (Store.fresh.saveChildIndex defaultPath coins.length)
  { (WalletBackend.new : WalletBackend ℤ (ℤ × ℤ)) with store := store }

/-- A plain send from the active account, with one change output. -/
def sampleSend (amount : Nat) : InitTxArgs where
  srcAcctName := none
  amount := amount
  amountIncludesFee := none
  minimumConfirmations := 1
  maxOutputs := 500
  numChangeOutputs := 1
  selectionStrategyIsUseAll := false
  refreshOutputsFromNode := false
  targetSlateVersion := none
  ttlBlocks := none
  paymentProofRecipientAddress := none
  estimateOnly := none
  lateLock := none

/-! ## Codecs

Scalars and points are numbers of the width they have on the wire.
-/

namespace SampleCodecs

open Effect Wire

def signature : Codec SerError (Signature Nat Nat) where
  Valid sig := sig.nonce < 256 ^ 32 ∧ sig.s < 256 ^ 32
  write sig := wordBytes 32 sig.nonce ++ wordBytes 32 sig.s
  read := do
    let nonce ← (word .IOErr 32).read
    let s ← (word .IOErr 32).read
    return ⟨nonce, s⟩
  decodes sig h := by
    apply ((word SerError.IOErr 32).decodes sig.nonce h.1).bind
    apply ((word SerError.IOErr 32).decodes sig.s h.2).bind_last
    exact .pure sig

/-- Numbers of `k` bytes with their length in front. -/
def prefixedWord (k : Nat) (hk : k < 2 ^ 64) : Codec SerError Nat where
  Valid v := v < 256 ^ k
  write v := Ser.u64.write k ++ wordBytes k v
  read := do
    let len ← Ser.u64.read
    let bytes ← takeBytes .IOErr len
    return wordValue bytes
  decodes v h := by
    have hvalue : wordValue (wordBytes k v) = v := by
      rw [wordValue_wordBytes, Nat.mod_eq_of_lt h]
    apply (Ser.u64.decodes k (Ser.u64_valid.mpr hk)).bind
    apply (takeBytes_decodes _ (wordBytes_length k v)).bind_last
    rw [hvalue]
    exact .pure v

theorem prefixedWord_valid {k v : Nat} (hk : k < 2 ^ 64) (hpos : k ≠ 0) (hv : v < 256) :
    (prefixedWord k hk).Valid v :=
  Nat.lt_of_lt_of_le hv (Nat.le_self_pow hpos 256)

theorem range_proof_fits : 675 < 2 ^ 64 := by decide

end SampleCodecs

open SampleCodecs Wire in
def sampleCodecs : Codecs Nat Nat where
  readLimit := 100000
  readLimit_ge := by decide
  blindingFactor := word .IOErr 32
  publicKey := word .IOErr 33
  signature := SampleCodecs.signature
  commitment := word .IOErr 33
  rangeProof := prefixedWord 675 range_proof_fits
  dalekPublicKey := fixedWord 32
  dalekSignature := fixedWord 64

/-- The value a run returned, or one given for a run that failed. -/
def returned {ε α σ : Type} (r : Except ε α × σ) (a : α) : α :=
  match r.1 with
  | .ok b => b
  | .error _ => a

theorem eq_returned {ε α σ : Type} {r : Except ε α × σ} (a : α) (h : r.1.isOk = true) :
    r = (.ok (returned r a), r.2) := by
  obtain ⟨b | b, s⟩ := r
  · cases h
  · rfl

/-! ## A send of 5 nanogrin

The sender draws the key 1 and the nonce 2, the recipient the given ones.
-/

namespace SampleSend

def env : Env ℤ (ℤ × ℤ) := sampleEnv fun _ => sampleNode [] []

def noSlate : Slate ℤ (ℤ × ℤ) := Slate.blank 2 false 0

def initiated : Except Error (Slate ℤ (ℤ × ℤ)) × WalletBackend ℤ (ℤ × ℤ) :=
  Owner.initSendTx { env with secret := fun _ => (1, 2) } (sampleSend 5)
    (sampleWallet [sampleCoin 30000000 0])

def offer : Slate ℤ (ℤ × ℤ) := returned initiated noSlate

/-- The sender's wallet once the outputs are locked. -/
def locked : WalletBackend ℤ (ℤ × ℤ) := (Owner.txLockOutputs env offer initiated.2).2

def received (draw : SecretKey × SecretKey) :
    Except Error (Slate ℤ (ℤ × ℤ)) × WalletBackend ℤ (ℤ × ℤ) :=
  Foreign.receiveTx { env with secret := fun _ => draw } offer none .new

def answer (draw : SecretKey × SecretKey) : Slate ℤ (ℤ × ℤ) := returned (received draw) noSlate

/-- The context the sender stored. -/
def context : Context (ℤ × ℤ) :=
  returned (initiated.2.store.getPrivateContext sampleKeychain offer.id, ())
    (.withExcess 0 0 defaultPath)

end SampleSend

/-! ## A late-locked send to the same wallet -/

namespace SampleLateLock

open SampleSend (env noSlate)

def initiated : Except Error (Slate ℤ (ℤ × ℤ)) × WalletBackend ℤ (ℤ × ℤ) :=
  Owner.initSendTx { env with secret := fun _ => (1, 2) } { sampleSend 5 with lateLock := some true }
    (sampleWallet [sampleCoin 30000000 0])

def offer : Slate ℤ (ℤ × ℤ) := returned initiated noSlate

def received : Except Error (Slate ℤ (ℤ × ℤ)) × WalletBackend ℤ (ℤ × ℤ) :=
  Foreign.receiveTx { env with secret := fun _ => (3, 4) } offer none initiated.2

def answer : Slate ℤ (ℤ × ℤ) := returned received noSlate

end SampleLateLock

end GrinWallet
