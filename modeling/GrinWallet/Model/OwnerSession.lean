import GrinWallet.Lib.Sections
import GrinWallet.Lib.Wire
import GrinWallet.Model.Crypto

/-! # The encrypted session of the owner API

The HTTP handler of the owner API: a client agrees on a key with
`init_secure_api`, and every later request and response is a JSON value sealed
under it. The handler serves its requests concurrently, so one call is a thread
that takes the lock of the shared key several times. The JSON-RPC framework and
the methods behind it, the JSON text, base64, hexadecimal, the AEAD and the
random draws are parameters.
-/

namespace GrinWallet

open Effect Sections Wire

/-- `serde_json::Value`, its numbers integers. -/
inductive JsonValue
  | null
  | bool (b : Bool)
  | number (n : Int)
  | string (s : String)
  | array (elements : List JsonValue)
  | object (members : List (String × JsonValue))

namespace JsonValue

def get (key : String) : JsonValue → Option JsonValue
  | object members => members.lookup key
  | _ => none

/-- `val[key]`, which is `null` where there is no such member. -/
def index (key : String) (v : JsonValue) : JsonValue := (v.get key).getD null

def asStr : JsonValue → Option String
  | string s => some s
  | _ => none

/-- The fields of a serialized record: the members of an object by their names, or the
elements of an array in their order. -/
def fields (names : List String) : JsonValue → Option (List JsonValue)
  | object members => names.mapM fun name => members.lookup name
  | array elements => if elements.length = names.length then some elements else none
  | _ => none

end JsonValue

namespace OwnerV3

/-! ## Encrypted values -/

inductive JsonId
  | IntId (n : UInt32)
  | StrId (s : String)
deriving DecidableEq

def JsonId.toValue : JsonId → JsonValue
  | IntId n => .number n.toNat
  | StrId s => .string s

def JsonId.fromValue : JsonValue → Option JsonId
  | .number n => if 0 ≤ n ∧ n < 2 ^ 32 then some (IntId (UInt32.ofNat n.toNat)) else none
  | .string s => some (StrId s)
  | _ => none

structure EncryptedBody where
  nonce : String
  bodyEnc : String
deriving DecidableEq

structure EncryptedRequest where
  jsonrpc : String
  method : String
  id : JsonId
  params : EncryptedBody
deriving DecidableEq

structure EncryptedResponse where
  jsonrpc : String
  id : JsonId
  result : List (String × EncryptedBody)
deriving DecidableEq

/-- The variant of `Error` these functions return. -/
inductive ApiError
  | APIEncryption (reason : String)
deriving DecidableEq

def ApiError.display : ApiError → String
  | APIEncryption reason => reason

/-- The sealing of JSON values. -/
structure Sealing where
  toString : JsonValue → String
  fromStr : String → Option JsonValue
  /-- The text of the error for a value that is no encrypted request. -/
  fromValueError : JsonValue → String
  /-- AES-256-GCM with a key and a nonce; opening leaves the tag behind the message. -/
  sealInPlaceAppendTag : SecretKey → Bytes → Bytes → Option Bytes
  openInPlace : SecretKey → Bytes → Bytes → Option Bytes
  base64Encode : Bytes → String
  base64Decode : String → Option Bytes
  toHex : Bytes → String
  fromHex : String → Option Bytes

def utf8Bytes (s : String) : Bytes := s.toUTF8.data.toList

def fromUtf8 (bs : Bytes) : Option String := String.fromUTF8? ⟨bs.toArray⟩

namespace EncryptedBody

/-- Seal a value under a key, with the twelve bytes drawn for it. -/
def fromJson (S : Sealing) (nonce : Bytes) (jsonIn : JsonValue) (encKey : SecretKey) :
    Except ApiError EncryptedBody :=
  match S.sealInPlaceAppendTag encKey nonce (utf8Bytes (S.toString jsonIn)) with
  | some toEncrypt => .ok ⟨S.toHex nonce, S.base64Encode toEncrypt⟩
  | none => .error (.APIEncryption "EncryptedBody: encryption failed")

def toValue (body : EncryptedBody) : JsonValue :=
  .object [("nonce", .string body.nonce), ("body_enc", .string body.bodyEnc)]

def fromValue (v : JsonValue) : Option EncryptedBody :=
  match v.fields ["nonce", "body_enc"] with
  | some [.string nonce, .string bodyEnc] => some ⟨nonce, bodyEnc⟩
  | _ => none

/-- Open a value. Only the first twelve bytes of its nonce count. -/
def decrypt (S : Sealing) (body : EncryptedBody) (decKey : SecretKey) : Except ApiError JsonValue := do
  let toDecrypt ← (S.base64Decode body.bodyEnc).elim (.error (.APIEncryption
    "EncryptedBody Dec: Encrypted request contains invalid Base64")) .ok
  let nonce ← (S.fromHex body.nonce).elim
    (.error (.APIEncryption "EncryptedBody Dec: Invalid Nonce")) .ok
  if nonce.length < 12 then
    .error (.APIEncryption "EncryptedBody Dec: Invalid Nonce length")
  else
    let opened ← (S.openInPlace decKey (nonce.take 12) toDecrypt).elim
      (.error (.APIEncryption "EncryptedBody: decryption failed")) .ok
    let decrypted ← (fromUtf8 (opened.take (opened.length - 16))).elim
      (.error (.APIEncryption "EncryptedBody Dec: Invalid UTF-8")) .ok
    (S.fromStr decrypted).elim (.error (.APIEncryption "EncryptedBody Dec: Invalid JSON")) .ok

end EncryptedBody

namespace EncryptedRequest

def fromJson (S : Sealing) (nonce : Bytes) (id : JsonId) (jsonIn : JsonValue) (encKey : SecretKey) :
    Except ApiError EncryptedRequest := do
  let params ← EncryptedBody.fromJson S nonce jsonIn encKey
  return ⟨"2.0", "encrypted_request_v3", id, params⟩

def asJsonValue (req : EncryptedRequest) : JsonValue :=
  .object [("jsonrpc", .string req.jsonrpc), ("method", .string req.method), ("id", req.id.toValue),
    ("params", req.params.toValue)]

/-- `serde_json::from_value`. The method is not compared with anything. -/
def fromValue (v : JsonValue) : Option EncryptedRequest :=
  match v.fields ["jsonrpc", "method", "id", "params"] with
  | some [.string jsonrpc, .string method, id, params] => do
      return ⟨jsonrpc, method, ← JsonId.fromValue id, ← EncryptedBody.fromValue params⟩
  | _ => none

def decrypt (S : Sealing) (req : EncryptedRequest) (decKey : SecretKey) : Except ApiError JsonValue :=
  req.params.decrypt S decKey

end EncryptedRequest

namespace EncryptedResponse

def fromJson (S : Sealing) (nonce : Bytes) (id : JsonId) (jsonIn : JsonValue) (encKey : SecretKey) :
    Except ApiError EncryptedResponse := do
  let body ← EncryptedBody.fromJson S nonce jsonIn encKey
  return ⟨"2.0", id, [("Ok", body)]⟩

def asJsonValue (res : EncryptedResponse) : JsonValue :=
  .object [("jsonrpc", .string res.jsonrpc), ("id", res.id.toValue),
    ("result", .object (res.result.map fun (k, body) => (k, body.toValue)))]

def fromValue (v : JsonValue) : Option EncryptedResponse :=
  match v.fields ["jsonrpc", "id", "result"] with
  | some [.string jsonrpc, id, .object result] => do
      return ⟨jsonrpc, ← JsonId.fromValue id,
        ← result.mapM fun (k, v) => (EncryptedBody.fromValue v).map fun body => (k, body)⟩
  | _ => none

/-- Open the `Ok` result; without one the `unwrap` panics. -/
def decrypt (S : Sealing) (res : EncryptedResponse) (decKey : SecretKey) :
    Option (Except ApiError JsonValue) :=
  (res.result.lookup "Ok").map fun body => body.decrypt S decKey

end EncryptedResponse

/-- `EncryptionErrorResponse::new(..).as_json_value()`. -/
def encryptionErrorResponse (id : Nat) (code : Int) (message : String) : JsonValue :=
  .object [("jsonrpc", .string "2.0"), ("id", .string (toString id)),
    ("error", .object [("code", .number code), ("message", .string message)])]

/-! ## The handler -/

/-- What the threads of the handler share. -/
structure HandlerState (W : Type) where
  /-- The key of the handler. -/
  sharedKey : Option SecretKey
  keychainMask : Option SecretKey
  /-- The key of the owner API behind it. -/
  apiSharedKey : Option SecretKey
  /-- How many random values were drawn. -/
  draws : Nat
  /-- What the other methods of the API read and write. -/
  world : W
  /-- History: the keys `init_secure_api` made. -/
  negotiated : List SecretKey

/-- `OwnerAPIHandlerV3::new`. -/
def HandlerState.new {W : Type} (keychainMask : Option SecretKey) (draws : Nat) (world : W) : HandlerState W :=
  ⟨none, keychainMask, none, draws, world, []⟩

/-- The sections of a call, with the key its request was sealed under. -/
inductive Section
  | checkEncryptionStarted
  | decryptRequest
  | handleRequest (val : JsonValue) (sealedUnder : Option SecretKey)
  | updateMask
  | encryptResponse
  | updateSharedKey (reply : JsonValue)
  | respond (val reply : JsonValue)
  | panic

/-- An `unwrap` of nothing. -/
inductive Panic
  | unwrapNone

abbrev HandlerM (W α : Type) := Eff (HandlerState W) Panic α

abbrev HandlerThread (W α : Type) := Thread Section (HandlerState W) Panic α

/-- What the framework makes of a call of `init_secure_api`: an error to reply with, or a
public key to run the method with, for a notification without a reply. -/
inductive InitCall (E : Type)
  | invalid (reply : JsonValue)
  | run (ecdhPubkey : E) (notification : Bool)

structure OwnerEnv (F E W : Type) where
  curve : Curve F E
  sealing : Sealing
  secretKey : Nat → SecretKey
  nonce : Nat → Bytes
  /-- `SecretKey::from_slice` of the x coordinate of a point. -/
  xCoordKey : E → Option SecretKey
  pubkeyHex : E → String
  secretKeyFromSlice : Bytes → Option SecretKey
  initCall : JsonValue → InitCall E
  /-- The framework on any other request, with the key it was sealed under. -/
  dispatch : Option SecretKey → JsonValue → HandlerThread W (Option JsonValue)
  /-- The order a hash map iterates in. -/
  hashOrder : {α : Type} → List (String × α) → List (String × α)

/-- Whether encryption is enabled, or else the error to reply with. -/
def checkEncryptionStarted (sharedKey : Option SecretKey) : Except JsonValue Unit :=
  if sharedKey.isSome then .ok ()
  else .error (encryptionErrorResponse 1 (-32001)
    "Encryption must be enabled. Please call 'init_secure_api` first")

def isInitSecureApi (val : JsonValue) : Bool := (val.index "method").asStr = some "init_secure_api"

def isOpenWallet (val : JsonValue) : Bool := (val.index "method").asStr = some "open_wallet"

/-- The text of the `Ok` result of a reply. -/
def okString (val : JsonValue) : Option String := ((val.index "result").index "Ok").asStr

/-- An entry of an error map as text; of several the last one iterated stays. -/
def lastEntry (entries : List (String × String)) : String :=
  entries.foldl (fun _ (k, v) => k ++ ": " ++ v) ""

section Handler

variable {F E W : Type} (env : OwnerEnv F E W)

def errorMessage : JsonValue → Option String
  | .object members =>
      match members.mapM fun (k, v) => v.asStr.map fun s => (k, s) with
      | some strings => some (lastEntry (env.hashOrder strings))
      | none => some (lastEntry ((env.hashOrder members).map fun (k, v) => (k, env.sealing.toString v)))
  | .string s => some s
  | _ => none

/-- Convert an internal error into a JSON-RPC error. -/
def checkErrorResponse (val : JsonValue) : Bool × JsonValue :=
  match errorMessage env ((val.index "result").index "Err") with
  | some s => (true, .object [("jsonrpc", .string "2.0"), ("id", val.index "id"),
      ("error", .object [("message", .string s), ("code", .number (-32099))])])
  | none => (false, val)

def decryptRequest (sharedKey : SecretKey) (req : JsonValue) : Except JsonValue (JsonId × JsonValue) :=
  match EncryptedRequest.fromValue req with
  | none => .error (encryptionErrorResponse 1 (-32002)
      ("Encrypted request format error: " ++ env.sealing.fromValueError req))
  | some encReq =>
      match encReq.decrypt env.sealing sharedKey with
      | .ok res => .ok (encReq.id, res)
      | .error e => .error (encryptionErrorResponse 1 (-32002) ("Decryption error: " ++ e.display))

def encryptResponse (sharedKey : SecretKey) (nonce : Bytes) (id : JsonId) (res : JsonValue) :
    Except JsonValue JsonValue :=
  match EncryptedResponse.fromJson env.sealing nonce id res sharedKey with
  | .ok encRes => .ok encRes.asJsonValue
  | .error e => .error (encryptionErrorResponse 1 (-32003) ("EncryptionError: " ++ e.display))

/-- Keep the mask an opened wallet answered with, for the foreign API. -/
def updateMask (val : JsonValue) : HandlerM W Unit :=
  match okString val with
  | some key =>
      match (env.sealing.fromHex key).bind env.secretKeyFromSlice with
      | some sk => Eff.modify fun s => { s with keychainMask := some sk }
      | none => pure ()
  | none => pure ()

/-- `update_owner_api_shared_key`, run while the lock of the API's key is held. -/
def updateOwnerApiSharedKey (val : JsonValue) : HandlerM W Unit :=
  Eff.runIf ((okString val).isSome = true) (Eff.modify fun s => { s with sharedKey := s.apiSharedKey })

/-- Lock the key and unwrap it. -/
def unwrapKey {α : Type} (label : Section) (body : HandlerM W (Option SecretKey × α)) :
    HandlerThread W (SecretKey × α) := do
  let (key, a) ← Thread.atomic label body
  match key with
  | some key => return (key, a)
  | none => Thread.atomic .panic (throw .unwrapNone)

def readKey : HandlerM W (Option SecretKey × Unit) := do
  let s ← Eff.read
  return (s.sharedKey, ())

/-- Read the key and draw a nonce. -/
def readKeyAndNonce : HandlerM W (Option SecretKey × Bytes) := do
  let s ← Eff.read
  Eff.modify fun s => { s with draws := s.draws + 1 }
  return (s.sharedKey, env.nonce s.draws)

variable [CommRing F] [AddCommGroup E] [Module F E] [DecidableEq F]

/-- The key a Diffie-Hellman exchange ends with. -/
def sharedSecret (secKey : SecretKey) (ecdhPubkey : E) : Option SecretKey :=
  if env.curve.scalar secKey = 0 then none
  else env.xCoordKey (env.curve.scalar secKey • ecdhPubkey)

/-- `Owner::init_secure_api`. -/
def initSecureApi (ecdhPubkey : E) : HandlerM W (Except String E) := do
  let s ← Eff.read
  let secKey := env.secretKey s.draws
  Eff.modify fun s => { s with draws := s.draws + 1 }
  match sharedSecret env secKey ecdhPubkey with
  | some sharedKey =>
      Eff.modify fun s => { s with
        apiSharedKey := some sharedKey
        negotiated := sharedKey :: s.negotiated }
      return .ok (env.curve.publicKey secKey)
  | none => return .error "InvalidSecretKey"

/-- The reply of the framework to a call of `init_secure_api`. -/
def initReply (val : JsonValue) (r : Except String E) : JsonValue :=
  .object [("jsonrpc", .string "2.0"), ("id", val.index "id"), ("result",
    match r with
    | .ok pubkey => .object [("Ok", .string (env.pubkeyHex pubkey))]
    | .error e => .object [("Err", .object [("Secp", .string e)])])]

/-- `OwnerRpc::handle_request`. -/
def handleRequest (sealedUnder : Option SecretKey) (val : JsonValue) : HandlerThread W (Option JsonValue) :=
  if isInitSecureApi val then
    match env.initCall val with
    | .invalid reply => return some reply
    | .run ecdhPubkey notification => do
        let r ← Thread.atomic (.handleRequest val sealedUnder) (initSecureApi env ecdhPubkey)
        return if notification then none else some (initReply env val r)
  else env.dispatch sealedUnder val

/-- The reply as it leaves: sealed where the request was. -/
def protect (encrypted : Option (JsonId × SecretKey)) (r intercept : JsonValue) :
    HandlerThread W (Except JsonValue JsonValue) :=
  match encrypted with
  | none => return .ok r
  | some (id, _) => do
      let (key, nonce) ← unwrapKey .encryptResponse (readKeyAndNonce env)
      return encryptResponse env key nonce id intercept

/-- `call_api` from where the request is decrypted, with the id of an encrypted request and the
key that opened it. -/
def answer (runningForeign : Bool) (encrypted : Option (JsonId × SecretKey)) (val : JsonValue) :
    HandlerThread W JsonValue := do
  match ← handleRequest env (encrypted.map Prod.snd) val with
  | none => return .array []
  | some r =>
      let intercept := (checkErrorResponse env r).2
      Thread.runIf (isOpenWallet val = true ∧ runningForeign = true)
        (Thread.atomic .updateMask (updateMask env r))
      match ← protect env encrypted r intercept with
      | .error v => return v
      | .ok reply =>
          Thread.runIf (isInitSecureApi val = true)
            (Thread.atomic (.updateSharedKey intercept) (updateOwnerApiSharedKey intercept))
          return reply

/-- `OwnerAPIHandlerV3::call_api`, on the JSON value of a request. -/
def callApi (runningForeign : Bool) (val : JsonValue) : HandlerThread W JsonValue := do
  if isInitSecureApi val then answer env runningForeign none val
  else
    let s ← Thread.atomic .checkEncryptionStarted Eff.read
    match checkEncryptionStarted s.sharedKey with
    | .error v => return v
    | .ok () =>
        let (sharedKey, _) ← unwrapKey .decryptRequest readKey
        match decryptRequest env sharedKey val with
        | .error v => return v
        | .ok (id, val) => answer env runningForeign (some (id, sharedKey)) val

/-- `handle_post_request`. -/
def handlePostRequest (runningForeign : Bool) (val : JsonValue) : HandlerThread W Unit := do
  let reply ← callApi env runningForeign val
  Thread.atomic (.respond val reply) (pure ())

end Handler

end OwnerV3

end GrinWallet
