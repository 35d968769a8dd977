import GrinWallet.Lib.Json
import GrinWallet.Model.Mwixnet
import GrinWallet.Model.Updater

/-! # Swap requests

The wallet asks a mix net to replace one of its outputs by a new one under its next
key. The hops carry the difference of the two blinding factors between them: each but
the last a random excess, the last the rest and the range proof of the new output. The
request is the onion with a signature for the output's commitment over the onion's bytes.
-/

namespace GrinWallet

open Effect Wire WalletBackend Json

namespace Mwixnet

variable {F E : Type} [Field F] [AddCommGroup E] [Module F E]

/-- A wallet and the tools of the mix net over one curve. The keys it derives are secret keys. -/
structure MixnetEnv (F E : Type) [Field F] [AddCommGroup E] [Module F E] where
  wallet : Env F E
  tools : OnionEnv F E
  same_G : wallet.keychain.G = tools.G
  same_H : wallet.keychain.H = tools.H
  deriveSecret : Nat → Identifier → Fˣ
  deriveSecret_eq : ∀ value id, (deriveSecret value id : F) = wallet.keychain.deriveKey value id

structure MixnetReqCreationParams where
  /-- The secret keys of the servers. -/
  serverKeys : List SecretKey
  /-- No request reads it. -/
  feePerHop : Nat

structure SwapReq (F : Type) [Field F] where
  comsig : ComSignature F
  onion : Onion

structure BuiltOutput (F E : Type) where
  blind : F
  keyId : Identifier
  output : Output E

/-- What is drawn at random: the excesses of the hops, the ephemeral keys of the onion and
the nonces of the signature. -/
structure Draws (F : Type) [Field F] where
  excess : Nat → Fˣ
  ephemeral : Nat → SecretKey
  k1 : Fˣ
  k2 : Fˣ

def buildOutput (K : Keychain F E) (features : OutputFeatures) (amount : Nat) :
    WalletM F E (BuiltOutput F E) := do
  let keyId ← nextChild
  let output : Output E := ⟨features, K.commit amount keyId, K.rangeProof amount keyId⟩
  return ⟨K.deriveKey amount keyId, keyId, output⟩

/-- A remainder of zero is no secret key: a server would not read it back. -/
def remainderKey [DecidableEq F] (blind : F) : Except Error Fˣ :=
  if h : blind = 0 then .error (.GenericError "zero key") else .ok (Units.mk0 blind h)

/-- The hops from the `i`-th on, for what is left of the blinding factor. -/
def swapHops [DecidableEq F] (N : OnionEnv F E) (fee : FeeFields) (proof : RangeProof)
    (excess : Nat → Fˣ) : Nat → F → List SecretKey → Except Error (List (Hop F))
  | _, _, [] => .ok []
  | _, blindSum, [key] => do
      let last ← remainderKey blindSum
      return [⟨N.xPublicKey key, last, fee, some proof⟩]
  | i, blindSum, key :: next :: keys => do
      let hops ← swapHops N fee proof excess (i + 1) (blindSum - excess i) (next :: keys)
      return ⟨N.xPublicKey key, excess i, fee, none⟩ :: hops

/-! ## The bytes of an onion -/

namespace Onion

def writePayload (p : Bytes) : Bytes := Ser.u64.write p.length ++ p

def serialize (onion : Onion) : Bytes :=
  onion.ephemeralPubkey.bytes ++ (onion.commit.bytes ++
    (Ser.u64.write onion.encPayloads.length ++ onion.encPayloads.flatMap writePayload))

def readPayload (C : Codecs F E) : Reader SerError Bytes := do
  let size ← Ser.u64.read
  C.readFixedBytes size

def read (C : Codecs F E) : Reader SerError Onion := do
  let bytes ← C.readFixedBytes 32
  let ephemeralPubkey ← Eff.ofExcept (vecToArray 32 bytes)
  let commit ← ComSignature.readCommitment C
  let len ← Ser.u64.read
  let encPayloads ← times len (readPayload C)
  return ⟨ephemeralPubkey, commit, encPayloads⟩

end Onion

/-! ## Making a request -/

/-- Lock the record under a key and no position, whichever record was swapped. -/
def lockSwapped (keyId : Identifier) : WalletM F E Unit := batch fun s => do
  let output ← s.get keyId none
  return ((), s.lockOutput output.lock)

/-- The first unspent record of the account with the commitment. -/
def findOutput [DecidableEq E] (M : MixnetEnv F E) (commitment : Commitment)
    (w : WalletBackend F E) : Except Error (OutputData E) :=
  let outputs := Updater.retrieveOutputs M.wallet.keychain w.store false none (some w.parentKeyId)
  match outputs.find? fun o => M.tools.commitment o.commit = commitment with
  | some o => .ok o.output
  | none => .error (.GenericError "output not found")

def createMwixnetReq [DecidableEq F] [DecidableEq E] (M : MixnetEnv F E) (draws : Draws F)
    (params : MixnetReqCreationParams) (commitment : Commitment) (lockOutput : Bool) :
    WalletM F E (SwapReq F) := do
  let w ← Eff.read
  let output ← Eff.ofExcept (findOutput M commitment w)
  let inputBlind := M.deriveSecret output.value output.keyId
  let fee := txFee M.wallet.consensus 1 1 1
  let newAmount := wrappingSub output.value (u64 (fee * params.serverKeys.length))
  let newOutput ← buildOutput M.wallet.keychain .Plain newAmount
  let hops ← Eff.ofExcept (swapHops M.tools ⟨u32 fee⟩ newOutput.output.proof draws.excess 0
    (newOutput.blind - inputBlind) params.serverKeys)
  let onion := createOnion M.tools commitment hops draws.ephemeral
  let comsig ← Eff.ofExcept ((ComSignature.sign M.tools.toSecp256k1 output.value inputBlind
    onion.serialize false draws.k1 draws.k2).mapError
      fun _ => .Panic "called `Result::unwrap()` on an `Err` value")
  Eff.runIf (lockOutput = true) (lockSwapped output.keyId)
  return ⟨comsig, onion⟩

/-! ## JSON -/

/-- `grin_util::to_hex` and `grin_util::from_hex`. -/
structure Hex where
  toHex : Bytes → List Char
  fromHex : List Char → Option Bytes
  fromHex_toHex : ∀ bs, fromHex (toHex bs) = some bs

inductive JsonError
  | Invalid (message : String)
  /-- A Rust panic: a field that was not there. -/
  | Panic (reason : String)
deriving DecidableEq

namespace Hex

def value (X : Hex) (bs : Bytes) : Value := .string (X.toHex bs)

def readValue (X : Hex) (v : Value) : Except JsonError Bytes :=
  match v.readString.bind X.fromHex with
  | some bs => .ok bs
  | none => .error (.Invalid "invalid hex")

end Hex

/-- `Commitment::from_vec`: bytes that are missing are zero, bytes behind the 33 are dropped. -/
def commitmentFromVec (bs : Bytes) : Commitment :=
  ⟨(bs ++ List.replicate 33 0).take 33, by simp⟩

namespace Onion

def toValue (X : Hex) (onion : Onion) : Value :=
  .object [("pubkey", X.value onion.ephemeralPubkey.bytes), ("commit", X.value onion.commit.bytes),
    ("data", .array (onion.encPayloads.map X.value))]

/-- The fields read so far. -/
structure Fields where
  pubkey : Option XPublicKey
  commit : Option Commitment
  data : Option (List Bytes)

def readElements (X : Hex) : Value → Except JsonError (List Bytes)
  | .array vs => vs.mapM X.readValue
  | _ => .error (.Invalid "expected a sequence")

/-- One step of the loop of `visit_map`: a key that comes again takes the place of the first. -/
def visitMember (X : Hex) (fields : Fields) (member : String × Value) : Except JsonError Fields :=
  if member.1 = "pubkey" then do
    let bytes ← X.readValue member.2
    let pubkey ← (vecToArray 32 bytes).mapError fun _ => .Invalid "Invalid length pubkey"
    return { fields with pubkey := some pubkey }
  else if member.1 = "commit" then do
    let bytes ← X.readValue member.2
    return { fields with commit := some (commitmentFromVec bytes) }
  else if member.1 = "data" then do
    let data ← readElements X member.2
    return { fields with data := some data }
  else .error (.Invalid "unknown field")

/-- The three `unwrap`s behind the loop. -/
def ofFields (fields : Fields) : Except JsonError Onion :=
  match fields.pubkey, fields.commit, fields.data with
  | some pubkey, some commit, some data => .ok ⟨pubkey, commit, data⟩
  | _, _, _ => .error (.Panic "called `Option::unwrap()` on a `None` value")

def ofValue (X : Hex) : Value → Except JsonError Onion
  | .object members => do
      let fields ← members.foldlM (visitMember X) ⟨none, none, none⟩
      ofFields fields
  | _ => .error (.Invalid "expected an Onion")

end Onion

namespace SwapReq

def toValue (X : Hex) (N : OnionEnv F E) (req : SwapReq F) : Value :=
  .object [("comsig", X.value (req.comsig.write N.toSecp256k1)), ("onion", req.onion.toValue X)]

/-- `comsig_serde::deserialize`: bytes behind the signature are not looked at. -/
def readComsig (X : Hex) (N : OnionEnv F E) (v : Value) : Except JsonError (ComSignature F) := do
  let bytes ← X.readValue v
  ((ComSignature.read N.toSecp256k1 N.codecs) bytes).1.mapError fun _ => .Invalid "invalid signature"

def field (key : String) (v : Value) : Except JsonError Value :=
  match v.member key with
  | some v => .ok v
  | none => .error (.Invalid "missing field")

def ofValue (X : Hex) (N : OnionEnv F E) (v : Value) : Except JsonError (SwapReq F) := do
  let comsig ← readComsig X N (← field "comsig" v)
  let onion ← Onion.ofValue X (← field "onion" v)
  return ⟨comsig, onion⟩

end SwapReq

end Mwixnet

end GrinWallet
