import GrinWallet.Lib.Keystream
import GrinWallet.Lib.Pedersen
import GrinWallet.Model.Selection
import GrinWallet.Model.Ser

/-! # Commitment signatures and onions

The packets a wallet sends to a mix net: a commitment signature proves that its
owner knows the amount and the blinding factor, and an onion carries one encrypted
payload for each server. Commitments and keys are the bytes the source handles;
the curve behind them, the hash, Diffie-Hellman and the cipher are parameters.
-/

namespace GrinWallet

open Effect Wire Keystream

namespace Mwixnet

/-- `[u8; n]`. -/
structure FixedBytes (n : Nat) where
  bytes : Bytes
  length_bytes : bytes.length = n
deriving DecidableEq

abbrev Commitment := FixedBytes 33

abbrev XPublicKey := FixedBytes 32

/-- `vec_to_array`. -/
def vecToArray (n : Nat) (vec : Bytes) : Except SerError (FixedBytes n) :=
  if h : vec.length < n then .error .CountError
  else .ok ⟨vec.take n, by rw [List.length_take]; omega⟩

/-! ## The curve -/

/-- `secp256k1zkp::Error`. -/
inductive Secp256k1Error
  | InvalidSecretKey
  | InvalidPublicKey
  | IncorrectCommitSum
deriving DecidableEq

/-- `secp256k1-zkp`. A commitment is 33 bytes, which need not be those of a point; a secret
key that was read or drawn is a nonzero scalar, and no public key is the point at infinity. -/
structure Secp256k1 (F E : Type) [Field F] [AddCommGroup E] [Module F E] where
  G : E
  H : E
  independent : LinearIndependent F ![H, G]
  /-- The bytes a commitment to a point is written as. -/
  commitment : E → Commitment
  /-- `Commitment::to_pubkey`. -/
  toPubkey : Commitment → Option E
  toPubkey_commitment : ∀ P, P ≠ 0 → toPubkey (commitment P) = some P
  toPubkey_ne_zero : ∀ c P, toPubkey c = some P → P ≠ 0
  /-- The bytes of a secret key and `SecretKey::from_slice`. -/
  secretKey : FixedCodec Fˣ 32
  secretKey_valid : ∀ k, secretKey.Valid k
  /-- A secret key is read as a big-endian number. -/
  secretKey_value : ∀ bs k, secretKey.fromBytes bs = some k → (k : F) = wordValue bs
  blake2b : Bytes → Bytes
  /-- `random_secret(true)`. -/
  testSecret : Fˣ

namespace Secp256k1

variable {F E : Type} [Field F] [AddCommGroup E] [Module F E] (S : Secp256k1 F E)

/-- `SecretKey::from_slice`. -/
def fromSlice (bs : Bytes) : Except Secp256k1Error Fˣ :=
  (S.secretKey.fromBytes bs).elim (.error .InvalidSecretKey) .ok

/-- `SecretKey::add_assign`, which refuses a sum of zero. -/
def addAssign [DecidableEq F] (a b : Fˣ) : Except Secp256k1Error Fˣ :=
  if h : (a : F) + b = 0 then .error .InvalidSecretKey else .ok (Units.mk0 _ h)

/-- `Secp256k1::commit_blind`. -/
def commitBlind (value blind : F) : Commitment := S.commitment (value • S.H + blind • S.G)

/-- `Secp256k1::commit`. -/
def commit (value : Nat) (blind : F) : Commitment := S.commitBlind value blind

/-- The points of some commitments. -/
def points (cs : List Commitment) : Except Secp256k1Error (List E) :=
  cs.mapM fun c => (S.toPubkey c).elim (.error .IncorrectCommitSum) .ok

/-- `Secp256k1::commit_sum`, which fails when the sum is the point at infinity. -/
def commitSum [DecidableEq E] (positive negative : List Commitment) :
    Except Secp256k1Error Commitment := do
  let pos ← S.points positive
  let neg ← S.points negative
  let sum := pos.sum - neg.sum
  if sum = 0 then .error .IncorrectCommitSum else .ok (S.commitment sum)

/-- `secp::add_excess`. -/
def addExcess [DecidableEq E] (commitment : Commitment) (excess : Fˣ) :
    Except Secp256k1Error Commitment :=
  S.commitSum [commitment, S.commit 0 excess] []

/-- `secp::sub_value`. -/
def subValue [DecidableEq E] (commitment : Commitment) (value : Nat) :
    Except Secp256k1Error Commitment :=
  S.commitSum [commitment] [S.commit value 0]

/-- `secp::read_secret_key`. -/
def readSecretKey (C : Codecs F E) : Reader SerError Fˣ := do
  let buf ← C.readFixedBytes 32
  Eff.ofExcept ((S.secretKey.fromBytes buf).elim (.error .CorruptedData) .ok)

end Secp256k1

/-! ## Commitment signatures -/

inductive ComSigError
  | InvalidSig
  | Secp256k1zkp (e : Secp256k1Error)
deriving DecidableEq

/-- A Schnorr signature with the value and the blinding factor of a commitment as its keys. -/
structure ComSignature (F : Type) [Field F] where
  pubNonce : Commitment
  s : Fˣ
  t : Fˣ
deriving DecidableEq

namespace ComSignature

variable {F E : Type} [Field F] [AddCommGroup E] [Module F E]

def calcChallenge (S : Secp256k1 F E) (commit nonceCommit : Commitment) (msg : Bytes)
    (useTestRng : Bool) : Except ComSigError Fˣ :=
  if useTestRng then .ok S.testSecret
  else (S.fromSlice (S.blake2b (commit.bytes ++ nonceCommit.bytes ++ msg))).mapError .Secp256k1zkp

/-- The nonces `k1` and `k2` are the random draws. -/
def sign [DecidableEq F] (S : Secp256k1 F E) (amount : Nat) (blind : Fˣ) (msg : Bytes)
    (useTestRng : Bool) (k1 k2 : Fˣ) : Except ComSigError (ComSignature F) := do
  let kAmt ← (S.fromSlice (List.replicate 24 0 ++ wordBytes 8 amount)).mapError .Secp256k1zkp
  let commitment := S.commit amount blind
  let nonceCommitment := S.commitBlind k1 k2
  let e ← calcChallenge S commitment nonceCommitment msg useTestRng
  let s ← (Secp256k1.addAssign (kAmt * e) k1).mapError .Secp256k1zkp
  let t ← (Secp256k1.addAssign (blind * e) k2).mapError .Secp256k1zkp
  return ⟨nonceCommitment, s, t⟩

def verify [DecidableEq E] (S : Secp256k1 F E) (sig : ComSignature F) (commit : Commitment)
    (msg : Bytes) : Except ComSigError Unit := do
  let s1 := S.commitBlind sig.s sig.t
  let ce ← (S.toPubkey commit).elim (.error (.Secp256k1zkp .InvalidPublicKey)) .ok
  let e ← calcChallenge S commit sig.pubNonce msg false
  let commits := [S.commitment ((e : F) • ce), sig.pubNonce]
  let s2 ← (S.commitSum commits []).mapError .Secp256k1zkp
  if s1 ≠ s2 then .error .InvalidSig else .ok ()

def write (S : Secp256k1 F E) (sig : ComSignature F) : Bytes :=
  sig.pubNonce.bytes ++ S.secretKey.toBytes sig.s ++ S.secretKey.toBytes sig.t

/-- `Commitment::read` takes any 33 bytes. -/
def readCommitment (C : Codecs F E) : Reader SerError Commitment := do
  let bytes ← C.readFixedBytes 33
  Eff.ofExcept (vecToArray 33 bytes)

def read (S : Secp256k1 F E) (C : Codecs F E) : Reader SerError (ComSignature F) := do
  let pubNonce ← readCommitment C
  let s ← S.readSecretKey C
  let t ← S.readSecretKey C
  return ⟨pubNonce, s, t⟩

end ComSignature

/-! ## Onions -/

inductive OnionError
  | DeserializationError (e : SerError)
  | CalcCommitError (e : Secp256k1Error)
  /-- A Rust panic: an index past the end. -/
  | Panic (reason : String)
deriving DecidableEq

/-- The curve, the codecs, `x25519_dalek`, HMAC with SHA-256 and the keystream of ChaCha20. -/
structure OnionEnv (F E : Type) [Field F] [AddCommGroup E] [Module F E]
    extends Secp256k1 F E where
  codecs : Codecs F E
  /-- `PublicKey::from(&StaticSecret)`. -/
  xPublicKey : SecretKey → XPublicKey
  diffieHellman : SecretKey → XPublicKey → Bytes
  diffieHellman_comm : ∀ a b, diffieHellman a (xPublicKey b) = diffieHellman b (xPublicKey a)
  hmacSha256 : Bytes → Bytes → Bytes
  /-- The keystream for a key and a nonce. -/
  chacha20 : Bytes → Bytes → Nat → UInt8

structure Hop (F : Type) [Field F] where
  serverPubkey : XPublicKey
  excess : Fˣ
  fee : FeeFields
  rangeproof : Option RangeProof

/-- What one server reads. -/
structure Payload (F : Type) [Field F] where
  nextEphemeralPk : XPublicKey
  excess : Fˣ
  fee : FeeFields
  rangeproof : Option RangeProof
deriving DecidableEq

structure Onion where
  ephemeralPubkey : XPublicKey
  commit : Commitment
  encPayloads : List Bytes
deriving DecidableEq

structure PeeledOnion (F : Type) [Field F] where
  payload : Payload F
  onion : Onion

def currentOnionVersion : Nat := 0

/-- `xPublicKey::from([0u8; 32])`. -/
def zeroPubkey : XPublicKey := ⟨List.replicate 32 0, List.length_replicate⟩

/-- `write_optional`. -/
def writeOptional {α : Type} (K : Codec SerError α) (o : Option α) : Bytes :=
  match o with
  | some a => Ser.u8.write 1 ++ K.write a
  | none => Ser.u8.write 0

/-- `read_optional`: any byte but 0 announces a value. -/
def readOptional {α : Type} (K : Codec SerError α) : Reader SerError (Option α) := do
  let present ← Ser.u8.read
  if present = 0 then return none
  else return some (← K.read)

variable {F E : Type} [Field F] [AddCommGroup E] [Module F E]

namespace Payload

def serialize (N : OnionEnv F E) (p : Payload F) : Bytes :=
  Ser.u8.write currentOnionVersion ++ (p.nextEphemeralPk.bytes ++ (N.secretKey.toBytes p.excess ++
    (Ser.u64.write p.fee.raw ++ writeOptional N.codecs.rangeProof p.rangeproof)))

def read (N : OnionEnv F E) : Reader SerError (Payload F) := do
  let version ← Ser.u8.read
  Eff.throwIf (version ≠ currentOnionVersion) .UnsupportedProtocolVersion
  let bytes ← N.codecs.readFixedBytes 32
  let nextEphemeralPk ← Eff.ofExcept (vecToArray 32 bytes)
  let excess ← N.readSecretKey N.codecs
  let raw ← Ser.u64.read
  let fee ← Eff.ofExcept ((Selection.feeFieldsOf raw).mapError fun _ => .CorruptedData)
  let rangeproof ← readOptional N.codecs.rangeProof
  return ⟨nextEphemeralPk, excess, fee, rangeproof⟩

/-- Bytes behind the payload are not looked at. -/
def deserialize (N : OnionEnv F E) (bytes : Bytes) : Except SerError (Payload F) :=
  (read N bytes).1

end Payload

/-- The ASCII bytes of a key or nonce literal. -/
def ascii (s : List Char) : Bytes := s.map fun c => UInt8.ofNat c.toNat

/-- `new_stream_cipher`: the keystream for a shared secret. -/
def newStreamCipher (N : OnionEnv F E) (sharedSecret : Bytes) : Nat → UInt8 :=
  N.chacha20 ((N.hmacSha256 (ascii ['M', 'W', 'I', 'X', 'N', 'E', 'T']) sharedSecret).take 32)
    (ascii ['N', 'O', 'N', 'C', 'E', '1', '2', '3', '4', '5', '6', '7'])

/-- The first loop of `create_onion`: the keystream and the payload of each hop. The secret
`draws i` is the ephemeral key of hop `i`. -/
def hopLayers (N : OnionEnv F E) (draws : Nat → SecretKey) :
    Nat → List (Hop F) → List ((Nat → UInt8) × Bytes)
  | _, [] => []
  | i, hop :: hops =>
      let sharedSecret := N.diffieHellman (draws i) hop.serverPubkey
      let nextEphemeralPk :=
        if hops = [] then zeroPubkey else N.xPublicKey (draws (i + 1))
      let payload : Payload F := ⟨nextEphemeralPk, hop.excess, hop.fee, hop.rangeproof⟩
      (newStreamCipher N sharedSecret, payload.serialize N) :: hopLayers N draws (i + 1) hops

/-- The second loop goes from the last hop to the first and applies the keystream of each
to its own payload and to all that are encrypted already. -/
def createOnion (N : OnionEnv F E) (commitment : Commitment) (hops : List (Hop F))
    (draws : Nat → SecretKey) : Onion :=
  if hops = [] then ⟨zeroPubkey, commitment, []⟩
  else ⟨N.xPublicKey (draws 0), commitment, layers (hopLayers N draws 0 hops)⟩

namespace Onion

def peelLayer [DecidableEq E] (N : OnionEnv F E) (onion : Onion) (serverKey : SecretKey) :
    Except OnionError (PeeledOnion F) :=
  let sharedSecret := N.diffieHellman serverKey onion.ephemeralPubkey
  let cipher := Cipher.start (newStreamCipher N sharedSecret)
  match onion.encPayloads with
  | [] => .error (.Panic "index out of bounds: the len is 0 but the index is 0")
  | first :: rest => do
      let (decryptedBytes, cipher) := cipher.applyKeystream first
      let payload ← (Payload.deserialize N decryptedBytes).mapError .DeserializationError
      let encPayloads := cipher.applyEach rest
      let commitment ← (N.addExcess onion.commit payload.excess).mapError .CalcCommitError
      let commitment ← (N.subValue commitment payload.fee.raw).mapError .CalcCommitError
      return ⟨payload, ⟨payload.nextEphemeralPk, commitment, encPayloads⟩⟩

end Onion

end Mwixnet

end GrinWallet
