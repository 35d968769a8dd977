import GrinWallet.Model.Types
import Mathlib.Algebra.Module.Basic

/-! # Commitments, signatures and transactions

The parts of `grin_core`, `grin_keychain` and `secp256k1-zkp` the wallet builds
on, over an abstract scalar ring `F` and group `E`. A commitment is
`value * H + blind * G`, a partial signature is `k + e * x`, and the transaction
builder inserts each input and each output once. Key derivation, range proofs,
the signature challenge, `ed25519` and transaction validation are parameters.
-/

namespace GrinWallet

/-! ## Transactions -/

inductive KernelFeatures
  | Plain (fee : FeeFields)
  | HeightLocked (fee : FeeFields) (lockHeight : Nat)
  | NoRecentDuplicate (fee : FeeFields) (relativeHeight : Nat)
deriving DecidableEq

namespace KernelFeatures

def feeFields : KernelFeatures → FeeFields
  | Plain fee => fee
  | HeightLocked fee _ => fee
  | NoRecentDuplicate fee _ => fee

end KernelFeatures

inductive OutputFeatures
  | Plain | Coinbase
deriving DecidableEq

/-- A signature: the public nonce it was made for and its scalar. -/
structure Signature (F E : Type) where
  nonce : E
  s : F
deriving DecidableEq

structure Input (E : Type) where
  features : OutputFeatures
  commit : E
deriving DecidableEq

structure Output (E : Type) where
  features : OutputFeatures
  commit : E
  proof : RangeProof
deriving DecidableEq

structure TxKernel (F E : Type) where
  features : KernelFeatures
  excess : E
  excessSig : Signature F E
deriving DecidableEq

structure Transaction (F E : Type) where
  offset : F
  inputs : List (Input E)
  outputs : List (Output E)
  kernels : List (TxKernel F E)
deriving DecidableEq

/-- `Transaction::weight_by_iok`, which saturates. -/
def weightByIok (inputs outputs kernels : Nat) : Nat :=
  min (inputs + outputs * 21 + kernels * 3) (2 ^ 64 - 1)

/-- The consensus rules the wallet consults. -/
structure Consensus (F E : Type) where
  acceptFeeBase : Nat
  maxTxWeight : Nat
  coinbaseMaturity : Nat
  reward : Nat → Nat
  /-- Whether a height still belongs to the given header version. -/
  validHeaderVersion : Nat → Nat → Bool
  /-- `Transaction::validate`. -/
  validate : Transaction F E → Except Error Unit

/-- `libtx::tx_fee`. -/
def txFee {F E : Type} (C : Consensus F E) (inputs outputs kernels : Nat) : Nat :=
  u64 (weightByIok inputs outputs kernels * C.acceptFeeBase)

namespace Transaction

variable {F E : Type}

/-- The fee of the kernels. -/
def fee (tx : Transaction F E) : Nat := (tx.kernels.map fun k => k.features.feeFields.fee).sum

def replaceKernel (tx : Transaction F E) (k : TxKernel F E) : Transaction F E :=
  { tx with kernels := [k] }

variable [DecidableEq E]

/-- Insert an input unless it is there. -/
def withInput (tx : Transaction F E) (i : Input E) : Transaction F E :=
  if i ∈ tx.inputs then tx else { tx with inputs := tx.inputs ++ [i] }

/-- Insert an output unless it is there. -/
def withOutput (tx : Transaction F E) (o : Output E) : Transaction F E :=
  if o ∈ tx.outputs then tx else { tx with outputs := tx.outputs ++ [o] }

end Transaction

/-! ## Keys -/

/-- What the payment proof of a transaction signs. -/
structure PaymentProofMessage (E : Type) where
  amount : Nat
  kernelCommitment : E
  senderAddress : DalekPublicKey
deriving DecidableEq

/-- The two generators and the signature schemes, shared by all wallets. -/
structure Curve (F E : Type) where
  G : E
  H : E
  /-- The scalar a secret key stands for. -/
  scalar : SecretKey → F
  challenge : E → E → KernelFeatures → F
  dalekPublicKey : SecretKey → DalekPublicKey
  dalekSign : SecretKey → PaymentProofMessage E → DalekSignature
  dalekVerify : DalekPublicKey → PaymentProofMessage E → DalekSignature → Bool

/-- What a wallet derives from its seed. -/
structure Keychain (F E : Type) extends Curve F E where
  deriveKey : Nat → Identifier → F
  /-- The range proof of an output built for a key. -/
  rangeProof : Nat → Identifier → RangeProof
  /-- `proof::rewind`, with the legacy builder or the current one. -/
  rewind : Bool → E → RangeProof → Except Error (Option (Nat × Identifier))
  /-- `address_from_derivation_path`. -/
  addressKey : Identifier → Nat → SecretKey
  privateCtxXorKeys : Uuid → SecretKey × SecretKey

section Keys

variable {F E : Type} [CommRing F] [AddCommGroup E] [Module F E]

namespace Curve

def publicKey (K : Curve F E) (x : SecretKey) : E := K.scalar x • K.G

/-- `aggsig::calculate_partial_sig`. -/
def calculatePartialSig (K : Curve F E) (secKey secNonce : SecretKey) (nonceSum pubkeySum : E)
    (msg : KernelFeatures) : Signature F E where
  nonce := K.publicKey secNonce
  s := K.scalar secNonce + K.challenge nonceSum pubkeySum msg * K.scalar secKey

/-- The verification equation of a partial signature. -/
def PartialSigValid (K : Curve F E) (sig : Signature F E) (nonceSum pubkey pubkeySum : E)
    (msg : KernelFeatures) : Prop :=
  sig.s • K.G = sig.nonce + K.challenge nonceSum pubkeySum msg • pubkey

/-- The verification equation of a completed signature. -/
def CompletedSigValid (K : Curve F E) (sig : Signature F E) (pubkey pubkeySum : E)
    (msg : KernelFeatures) : Prop :=
  sig.s • K.G = sig.nonce + K.challenge sig.nonce pubkeySum msg • pubkey

instance [DecidableEq E] (K : Curve F E) (sig : Signature F E) (n p q : E) (m : KernelFeatures) :
    Decidable (K.PartialSigValid sig n p q m) :=
  inferInstanceAs (Decidable (_ = _))

instance [DecidableEq E] (K : Curve F E) (sig : Signature F E) (p q : E) (m : KernelFeatures) :
    Decidable (K.CompletedSigValid sig p q m) :=
  inferInstanceAs (Decidable (_ = _))

end Curve

namespace Keychain

/-- `Keychain::commit`, with the regular switch commitment. -/
def commit (K : Keychain F E) (value : Nat) (id : Identifier) : E :=
  value • K.H + K.deriveKey value id • K.G

end Keychain

/-! ## Building transactions -/

/-- One element of a transaction under construction. -/
inductive Append
  | input (value : Nat) (keyId : Identifier)
  | coinbaseInput (value : Nat) (keyId : Identifier)
  | output (value : Nat) (keyId : Identifier)
deriving DecidableEq

/-- What an element adds to the transaction. -/
def Append.apply [DecidableEq E] (K : Keychain F E) (tx : Transaction F E) :
    Append → Transaction F E
  | .input value keyId => tx.withInput ⟨.Plain, K.commit value keyId⟩
  | .coinbaseInput value keyId => tx.withInput ⟨.Coinbase, K.commit value keyId⟩
  | .output value keyId => tx.withOutput ⟨.Plain, K.commit value keyId, K.rangeProof value keyId⟩

/-- `build::partial_transaction`, without the blinding sum its callers drop. -/
def partialTransaction [DecidableEq E] (K : Keychain F E) (tx : Transaction F E)
    (elems : List Append) : Transaction F E :=
  elems.foldl (Append.apply K) tx

end Keys

end GrinWallet
