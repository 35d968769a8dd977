import GrinWallet.Model.SlatepackArmor
import GrinWallet.Model.SlateV4Bin

/-! # Packing and unpacking slates

Encryption of a slatepack's payload to a list of recipients, its decryption, and
the way from a slate to an armored slatepack and back. Randomness of a run, the
`age` file format, its keys and the JSON parser are parameters.
-/

namespace GrinWallet

open Effect Wire

/-- A parsed `age` file: for recipients, or for a passphrase. -/
inductive AgeDecryptor
  | Recipients (decrypt : Nat → Except Error Bytes)
  | Passphrase

/-- What packing takes from its environment. -/
structure PackerEnv (F E : Type) extends ArmorEnv F E where
  /-- The `age` recipient of an address. -/
  toAgePubkey : SlatepackAddress → Except Error Nat
  /-- The `age` identity of an ed25519 secret key. -/
  ageIdentity : SecretKey → Except Error Nat
  /-- The recipient an identity decrypts for. -/
  ageRecipient : Nat → Nat
  ageEncrypt : List Nat → Bytes → Except Error Bytes
  /-- `age::Decryptor::new`. -/
  ageDecryptor : Bytes → Except Error AgeDecryptor
  /-- A slatepack as JSON text. -/
  parseJson : Bytes → Except Error Slatepack

namespace Slatepack

variable {F E : Type}

/-- `pad_test_data`: announce and append unknown data. -/
def padTestData (extraBytes : Vector UInt8 139) (data : Bytes) : Except Error Bytes :=
  let metaLen := wordValue (data.take 4)
  if metaLen + 139 < 2 ^ 32 then
    .ok (Ser.u32.write (metaLen + 139) ++ data.drop 4 ++ extraBytes.toList)
  else .error (.Panic "attempt to add with overflow")

/-- The encrypted payload: metadata with its sender, test data in test mode, and
the payload. -/
def encryptPayload (N : PackerEnv F E) (sp : Slatepack) (testData : Option (Vector UInt8 139))
    (recipients : List SlatepackAddress) : Except Error Bytes := do
  let toEncrypt ← (SlatepackEncMetadataBin.write N.toSlatepackEnv
    { sp.encryptedMeta with sender := sp.sender }).mapError fun _ => .SlatepackSer
  let toEncrypt ← testData.elim (.ok toEncrypt) fun extraBytes => padTestData extraBytes toEncrypt
  let keys ← recipients.mapM N.toAgePubkey
  N.ageEncrypt keys (toEncrypt ++ sp.payload)

/-- Encrypt the payload for the given addresses, if there are any. -/
def tryEncryptPayload (N : PackerEnv F E) (sp : Slatepack)
    (testData : Option (Vector UInt8 139)) (recipients : List SlatepackAddress) :
    Except Error Slatepack :=
  if recipients.isEmpty then .ok sp
  else do
    let encrypted ← sp.encryptPayload N testData recipients
    return { sp with
      encryptedMeta := { sp.encryptedMeta with sender := sp.sender }
      sender := none
      payload := encrypted
      mode := 1 }

/-- Cut the metadata off a decrypted payload. -/
def openPayload (N : PackerEnv F E) (sp : Slatepack) (decrypted : Bytes) :
    Except Error Slatepack :=
  if decrypted.length < 4 then
    .error (.SlatepackDeser "Encrypted payload missing metadata length")
  else
    let payloadStart := wordValue (decrypted.take 4) + 4
    if payloadStart > decrypted.length then
      .error (.SlatepackDeser "Encrypted metadata length exceeds payload")
    else
      match (SlatepackEncMetadataBin.read N.toSlatepackEnv (decrypted.take payloadStart)).1 with
      | .error (.Panic reason) => .error (.Panic reason)
      | .error _ => .error .SlatepackSer
      | .ok inner =>
          .ok { sp with
            payload := decrypted.drop payloadStart
            sender := inner.sender
            encryptedMeta := { sp.encryptedMeta with recipients := inner.recipients }
            mode := 0 }

/-- Decrypt the payload, if it is encrypted and there is a key. -/
def tryDecryptPayload (N : PackerEnv F E) (sp : Slatepack) (decKey : Option SecretKey) :
    Except Error Slatepack :=
  if sp.mode = 0 then .ok sp
  else
    match decKey with
    | none => .ok sp
    | some decKey => do
        let key ← N.ageIdentity decKey
        match ← N.ageDecryptor sp.payload with
        | .Passphrase => .error (.Panic "internal error: entered unreachable code")
        | .Recipients decrypt => do
            let decrypted ← decrypt key
            openPayload N sp decrypted

end Slatepack

structure SlatepackerArgs where
  sender : Option SlatepackAddress
  recipients : List SlatepackAddress
  decKey : Option SecretKey

namespace Slatepacker

variable {F E : Type}

/-- The binary form of the data: what the armor holds, or the data itself. -/
def removeArmor (N : PackerEnv F E) (data : Bytes) : Except Error Bytes :=
  if data.take HEADER.length = HEADER then SlatepackArmor.decode N.toArmorEnv data else .ok data

/-- Try as binary first, then as JSON. -/
def parseSlatepack (N : PackerEnv F E) (data : Bytes) : Except Error Slatepack :=
  match (SlatepackBin.read N.toSlatepackEnv data).1 with
  | .ok sp => .ok sp
  | .error (.Panic reason) => .error (.Panic reason)
  | .error _ => N.parseJson data

def deserSlatepack (N : PackerEnv F E) (args : SlatepackerArgs) (data : Bytes) (decrypt : Bool) :
    Except Error Slatepack :=
  if data.length < SlatepackArmor.minSize ∨ data.length > SlatepackArmor.maxSize N.toArmorEnv then
    .error (.SlatepackDeser "Data invalid length")
  else do
    let data ← removeArmor N data
    let sp ← parseSlatepack N data
    if decrypt then sp.tryDecryptPayload N args.decKey else return sp

def createSlatepack (N : PackerEnv F E) (args : SlatepackerArgs) (slate : Slate F E) :
    Except Error Slatepack :=
  let payload := SlateV4Bin.write N.toCodecs (.fromSlate slate)
  { Slatepack.default with payload, sender := args.sender }.tryEncryptPayload N none
    args.recipients

def armorSlatepack (N : PackerEnv F E) (sp : Slatepack) : Except Error Bytes :=
  SlatepackArmor.encode N.toArmorEnv sp

end Slatepacker

end GrinWallet
