import GrinWallet.Model.Api
import GrinWallet.Model.Slatepacker

/-! # Slatepack messages

The owner API's way from a slate to an armored message and back: the sender is one
of the wallet's own addresses, and a message is opened by trying the keys of the
addresses at given indices in order. The wallet's account does not change while a
message is opened.
-/

namespace GrinWallet

open Effect Wire

namespace Slatepacker

variable {F E : Type} [CommRing F] [AddCommGroup E] [Module F E] [DecidableEq E]

/-- Return the slate of a slatepack; `display` is the text of a reading error. -/
def getSlate (N : PackerEnv F E) (K : Keychain F E) (display : SerError → String) (sp : Slatepack) :
    Except Error (Slate F E) :=
  match (SlateV4Bin.read N.toCodecs sp.payload).1 with
  | .ok v4 => .ok (.fromV4 K v4)
  | .error (.Panic reason) => .error (.Panic reason)
  | .error e => .error (.SlatepackDeser (display e))

end Slatepacker

/-- The errors of opening a message. -/
inductive MessageError
  | error (e : Error)
  | SlatepackDecryption (reason : String)
deriving DecidableEq

/-- Run a pure computation whose errors are those of the wallet. -/
def orMessageError {σ α : Type} (r : Except Error α) : Eff σ MessageError α :=
  Eff.ofExcept (r.mapError .error)

namespace Owner

variable {F E : Type}

/-- The address of the active account at an index. -/
def slatepackAddressAt (env : Env F E) (N : PackerEnv F E) (parentKeyId : Identifier) (index : Nat) :
    SlatepackAddress where
  hrp := N.slatepackHrp
  pubKey := env.keychain.dalekPublicKey (env.keychain.addressKey parentKeyId index)

def getSlatepackAddress (env : Env F E) (N : PackerEnv F E) (index : Nat) :
    WalletM F E SlatepackAddress := do
  let w ← Eff.read
  return slatepackAddressAt env N w.parentKeyId index

/-- The sender a message is to name, if any. -/
def senderAddress (env : Env F E) (N : PackerEnv F E) :
    Option Nat → WalletM F E (Option SlatepackAddress)
  | some i => some <$> getSlatepackAddress env N i
  | none => pure none

def createSlatepackMessage (env : Env F E) (N : PackerEnv F E) (slate : Slate F E)
    (senderIndex : Option Nat) (recipients : List SlatepackAddress) : WalletM F E Bytes := do
  let sender ← senderAddress env N senderIndex
  let slatepack ← Eff.ofExcept (Slatepacker.createSlatepack N ⟨sender, recipients, none⟩ slate)
  Eff.ofExcept (Slatepacker.armorSlatepack N slatepack)

/-- Open a message with the first of some keys that opens it; an error of one key is passed over. -/
def openWithKeys (N : PackerEnv F E) (slatepack : Bytes) : List SecretKey → Except Error (Option Slatepack)
  | [] => .ok none
  | decKey :: rest =>
      match Slatepacker.deserSlatepack N ⟨none, [], some decKey⟩ slatepack true with
      | .ok sp => .ok (some sp)
      | .error (.Panic reason) => .error (.Panic reason)
      | .error _ => openWithKeys N slatepack rest

/-- The decryption keys of the active account at some indices. -/
def secretKeysAt (env : Env F E) (parentKeyId : Identifier) (secretIndices : List Nat) :
    List SecretKey :=
  secretIndices.map (env.keychain.addressKey parentKeyId)

/-- Decode a message to view it; what no key opens stays as it came. -/
def decodeSlatepackMessage (env : Env F E) (N : PackerEnv F E) (slatepack : Bytes)
    (secretIndices : List Nat) : WalletM F E Slatepack := do
  let w ← Eff.read
  match ← Eff.ofExcept (openWithKeys N slatepack (secretKeysAt env w.parentKeyId secretIndices)) with
  | some sp => return sp
  | none => Eff.ofExcept (Slatepacker.deserSlatepack N ⟨none, [], none⟩ slatepack false)

variable [CommRing F] [AddCommGroup E] [Module F E] [DecidableEq E]

/-- Unpack a slate from a message, decrypting it when there are indices. -/
def slateFromSlatepackMessage (env : Env F E) (N : PackerEnv F E) (display : SerError → String)
    (slatepack : Bytes) (secretIndices : List Nat) :
    Eff (WalletBackend F E) MessageError (Slate F E) := do
  let w ← Eff.read
  if secretIndices.isEmpty then
    let sp ← orMessageError (Slatepacker.deserSlatepack N ⟨none, [], none⟩ slatepack true)
    orMessageError (Slatepacker.getSlate N env.keychain display sp)
  else
    match ← orMessageError (openWithKeys N slatepack (secretKeysAt env w.parentKeyId secretIndices)) with
    | some sp => orMessageError (Slatepacker.getSlate N env.keychain display sp)
    | none => throw (.SlatepackDecryption
        "Could not decrypt slatepack with any provided index on the address derivation path")

end Owner

end GrinWallet
