import GrinWallet.Model.Ser

/-! # Slatepacks

The container a slate travels in, its binary form and the encryption of its
payload. A string is the list of its UTF-8 bytes. The bech32 encoding, the
network and the `age` encryption are parameters.
-/

namespace GrinWallet

open Effect Wire

/-- What the slatepack formats take from their environment. -/
structure SlatepackEnv (F E : Type) extends Codecs F E where
  /-- `slatepack_hrp` of the current network. -/
  slatepackHrp : String
  bech32Encode : String → Bytes → Option Bytes
  bech32Decode : Bytes → Option (String × Bytes)
  /-- The keys of the current network have short addresses that are read back. -/
  bech32_address : ∀ data, data.length = 32 →
    ∃ s, bech32Encode slatepackHrp data = some s ∧ s.length ≤ 255 ∧
      bech32Decode s = some (slatepackHrp, data)

/-! ## Addresses -/

namespace SlatepackAddress

variable {F E : Type}

/-- `String::try_from`. -/
def encoded (N : SlatepackEnv F E) (a : SlatepackAddress) : Except Error Bytes :=
  match N.bech32Encode a.hrp (N.dalekPublicKey.toBytes a.pubKey) with
  | some s => .ok s
  | none => .error (.SlatepackAddress "bech32")

/-- `SlatepackAddress::try_from`, of a string. -/
def tryFrom (N : SlatepackEnv F E) (encoded : Bytes) : Except Error SlatepackAddress :=
  match N.bech32Decode encoded with
  | none => .error (.SlatepackAddress "bech32")
  | some (hrp, bytes) =>
      if hrp ≠ N.slatepackHrp then .error (.SlatepackAddress "wrong address prefix for chain")
      else if bytes.length ≠ 32 then .error (.SlatepackAddress "Wrong encoded data")
      else
        match N.dalekPublicKey.fromBytes bytes with
        | none => .error (.ED25519Key "invalid key")
        | some pubKey => .ok { hrp, pubKey }

/-- The length of the encoding with its length byte. -/
def encodedLen (N : SlatepackEnv F E) (a : SlatepackAddress) : Except Error Nat := do
  let encoded ← a.encoded N
  return encoded.length + 1

def write (N : SlatepackEnv F E) (a : SlatepackAddress) : Except SerError Bytes :=
  match a.encoded N with
  | .error _ => .error .CorruptedData
  | .ok bytes =>
      if bytes.length > 255 then .error .CorruptedData
      else .ok (Ser.u8.write (bytes.length % 2 ^ 8) ++ bytes)

def read (N : SlatepackEnv F E) : Reader SerError SlatepackAddress := do
  let len ← Ser.u8.read
  let encoded ← N.readFixedBytes len
  match tryFrom N encoded with
  | .ok a => return a
  | .error _ => throw .CorruptedData

end SlatepackAddress

/-- A subtraction of `u32` values: below zero it stops the program. -/
def subU32 (a b : Nat) : Except SerError Nat :=
  if b ≤ a then .ok (a - b) else .error (.Panic "attempt to subtract with overflow")

/-- Read an address, and take its length off the bytes that are left. -/
def readCounted {F E : Type} (N : SlatepackEnv F E) (bytesLeft : Nat) :
    Reader SerError (SlatepackAddress × Nat) := do
  let addr ← SlatepackAddress.read N
  match addr.encodedLen N with
  | .error _ => throw .CorruptedData
  | .ok len => do
      let bytesLeft ← Eff.ofExcept (subU32 bytesLeft (len % 2 ^ 32))
      return (addr, bytesLeft)

/-! ## The slatepack -/

structure SlatepackVersion where
  major : Nat
  minor : Nat
deriving DecidableEq

structure SlatepackEncMetadata where
  sender : Option SlatepackAddress
  recipients : List SlatepackAddress
deriving DecidableEq

namespace SlatepackEncMetadata

/-- `default_enc_metadata`. -/
def empty : SlatepackEncMetadata := ⟨none, []⟩

/-- Length of the encoding without the length in front of it. -/
def encodedLen {F E : Type} (N : SlatepackEnv F E) (m : SlatepackEncMetadata) :
    Except Error Nat := do
  let sender ← m.sender.elim (.ok 0) (·.encodedLen N)
  let recipients ← m.recipients.mapM (·.encodedLen N)
  return 2 + sender + (if m.recipients.isEmpty then 0 else 2 + recipients.sum)

end SlatepackEncMetadata

/-- A slatepack, without the flag of its test mode. -/
structure Slatepack where
  slatepack : SlatepackVersion
  /-- 0: plain text, 1: encrypted with `age`. -/
  mode : Nat
  sender : Option SlatepackAddress
  encryptedMeta : SlatepackEncMetadata
  payload : Bytes
deriving DecidableEq

namespace Slatepack

/-- `Slatepack::default`. -/
def default : Slatepack where
  slatepack := ⟨1, 0⟩
  mode := 0
  sender := none
  encryptedMeta := .empty
  payload := []

variable {F E : Type}

/-- The length of the optional fields; the sender's address is taken to encode. -/
def optFieldsLen (N : SlatepackEnv F E) (sp : Slatepack) : Except SerError Nat :=
  match sp.sender with
  | none => .ok 0
  | some s =>
      match s.encodedLen N with
      | .ok len => .ok len
      | .error _ => .error (.Panic "called `Result::unwrap()` on an `Err` value")

end Slatepack

/-! ## The binary slatepack -/

namespace SlatepackVersion

def write (v : SlatepackVersion) : Bytes := Ser.u8.write v.major ++ Ser.u8.write v.minor

def read : Reader SerError SlatepackVersion := do
  let major ← Ser.u8.read
  let minor ← Ser.u8.read
  return { major, minor }

end SlatepackVersion

namespace SlatepackBin

variable {F E : Type}

def write (N : SlatepackEnv F E) (sp : Slatepack) : Except SerError Bytes := do
  let optLen ← sp.optFieldsLen N
  let sender ← sp.sender.elim (.ok []) (·.write N)
  return sp.slatepack.write ++ Ser.u8.write sp.mode ++
    Ser.u16.write (if sp.sender.isSome then 0x01 else 0) ++
    -- bytes to skip from the start of the optional fields to the payload
    Ser.u32.write (optLen % 2 ^ 32) ++ sender ++
    -- the encrypted metadata is part of the payload only
    Ser.u64.write sp.payload.length ++ sp.payload

/-- The parts of the header: the version, the mode, the flags and the bytes to
the payload. -/
def readHeader : Reader SerError (SlatepackVersion × Nat × Nat × Nat) := do
  let slatepack ← SlatepackVersion.read
  let mode ← Ser.u8.read
  if mode > 1 then throw (.UnexpectedData [0, 1] [mode])
  let optFlags ← Ser.u16.read
  let bytesToPayload ← Ser.u32.read
  return (slatepack, mode, optFlags, bytesToPayload)

/-- The sender when there is one, and the bytes left up to the payload. -/
def readSender (N : SlatepackEnv F E) (optFlags bytesLeft : Nat) :
    Reader SerError (Option SlatepackAddress × Nat) :=
  if optFlags &&& 0x01 > 0 then do
    let (addr, bytesLeft) ← readCounted N bytesLeft
    return (some addr, bytesLeft)
  else pure (none, bytesLeft)

def read (N : SlatepackEnv F E) : Reader SerError Slatepack := do
  let (slatepack, mode, optFlags, bytesToPayload) ← readHeader
  let (sender, bytesToPayload) ← readSender N optFlags bytesToPayload
  -- unknown fields of the future
  skipBytes .IOErr bytesToPayload
  let len ← Ser.u64.read
  let payload ← N.readFixedBytes len
  return {
    slatepack, mode, sender
    encryptedMeta := .empty
    payload }

end SlatepackBin

/-! ## The encrypted metadata -/

namespace SlatepackEncMetadataBin

variable {F E : Type}

def write (N : SlatepackEnv F E) (inner : SlatepackEncMetadata) : Except SerError Bytes := do
  let len ← (inner.encodedLen N).mapError fun _ => .CorruptedData
  let sender ← inner.sender.elim (.ok []) (·.write N)
  let recipients ← inner.recipients.mapM (·.write N)
  let count := inner.recipients.length
  if ¬ inner.recipients.isEmpty ∧ count % 2 ^ 16 > 2 ^ 16 - 1 then
    .error .CorruptedData
  else
    .ok (Ser.u32.write (len % 2 ^ 32) ++
      Ser.u16.write
        ((if inner.sender.isSome then 0x01 else 0) |||
          (if inner.recipients.isEmpty then 0 else 0x02)) ++
      sender ++
      (if inner.recipients.isEmpty then [] else Ser.u16.write (count % 2 ^ 16)) ++
      recipients.flatten)

/-- Read a number of addresses, and take their lengths off the bytes left. -/
def readRecipients (N : SlatepackEnv F E) :
    Nat → Nat → Reader SerError (List SlatepackAddress × Nat)
  | 0, bytesRemaining => pure ([], bytesRemaining)
  | count + 1, bytesRemaining => do
      let (addr, bytesRemaining) ← readCounted N bytesRemaining
      let (rest, bytesRemaining) ← readRecipients N count bytesRemaining
      return (addr :: rest, bytesRemaining)

/-- The recipients when there are any, and the bytes left behind them. -/
def readList (N : SlatepackEnv F E) (optFlags bytesRemaining : Nat) :
    Reader SerError (List SlatepackAddress × Nat) :=
  if optFlags &&& 0x02 > 0 then do
    let count ← Ser.u16.read
    let bytesRemaining ← Eff.ofExcept (subU32 bytesRemaining 2)
    readRecipients N count bytesRemaining
  else pure ([], bytesRemaining)

def read (N : SlatepackEnv F E) : Reader SerError SlatepackEncMetadata := do
  let bytesRemaining ← Ser.u32.read
  let optFlags ← Ser.u16.read
  let bytesRemaining ← Eff.ofExcept (subU32 bytesRemaining 2)
  let (sender, bytesRemaining) ← SlatepackBin.readSender N optFlags bytesRemaining
  let (recipients, bytesRemaining) ← readList N optFlags bytesRemaining
  -- unknown data beyond this
  skipBytes .IOErr bytesRemaining
  return { sender, recipients }

end SlatepackEncMetadataBin

end GrinWallet
