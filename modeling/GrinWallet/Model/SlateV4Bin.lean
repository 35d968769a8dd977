import GrinWallet.Model.Ser
import GrinWallet.Model.SlateV4

/-! # The binary V4 slate

Each optional part of the slate is written behind a status byte that says whether
it is there. A read takes the parts the status bytes announce and puts the
defaults in place of the others.
-/

namespace GrinWallet

open Effect Wire

variable {F E : Type}

/-! ## Single fields -/

namespace SlateStateV4

def write (s : SlateStateV4) : Bytes :=
  Ser.u8.write <|
    match s with
    | Unknown => 0
    | Standard1 => 1
    | Standard2 => 2
    | Standard3 => 3
    | Invoice1 => 4
    | Invoice2 => 5
    | Invoice3 => 6

def read : Reader SerError SlateStateV4 := do
  match ← Ser.u8.read with
  | 0 => return Unknown
  | 1 => return Standard1
  | 2 => return Standard2
  | 3 => return Standard3
  | 4 => return Invoice1
  | 5 => return Invoice2
  | 6 => return Invoice3
  | _ => return Unknown

end SlateStateV4

namespace UuidWrap

def write (id : Uuid) : Bytes := wordBytes 16 id

def read (C : Codecs F E) : Reader SerError Uuid := do
  let bytes ← C.readFixedBytes 16
  return wordValue bytes

end UuidWrap

/-! ## The optional fields -/

structure SlateOptFields where
  /-- Default 2. -/
  numParts : Nat
  /-- Default 0. -/
  amt : Nat
  /-- Default zero. -/
  fee : FeeFields
  /-- Default 0. -/
  feat : Nat
  /-- Default 0. -/
  ttl : Nat
deriving DecidableEq

namespace SlateOptFields

/-- Which fields are written. -/
def status (o : SlateOptFields) : Nat :=
  (if o.numParts ≠ 2 then 0x01 else 0) ||| (if o.amt > 0 then 0x02 else 0) |||
    (if o.fee.fee > 0 then 0x04 else 0) ||| (if o.feat > 0 then 0x08 else 0) |||
    (if o.ttl > 0 then 0x10 else 0)

def write (o : SlateOptFields) : Bytes :=
  Ser.u8.write o.status ++
    (if o.status &&& 0x01 > 0 then Ser.u8.write o.numParts else []) ++
    (if o.status &&& 0x02 > 0 then Ser.u64.write o.amt else []) ++
    (if o.status &&& 0x04 > 0 then Ser.feeFields.write o.fee else []) ++
    (if o.status &&& 0x08 > 0 then Ser.u8.write o.feat else []) ++
    (if o.status &&& 0x10 > 0 then Ser.u64.write o.ttl else [])

def read : Reader SerError SlateOptFields := do
  let status ← Ser.u8.read
  let numParts ← readIf (status &&& 0x01 > 0) Ser.u8.read 2
  let amt ← readIf (status &&& 0x02 > 0) Ser.u64.read 0
  let fee ← readIf (status &&& 0x04 > 0) Ser.feeFields.read .zero
  let feat ← readIf (status &&& 0x08 > 0) Ser.u8.read 0
  let ttl ← readIf (status &&& 0x10 > 0) Ser.u64.read 0
  return { numParts, amt, fee, feat, ttl }

end SlateOptFields

/-! ## The participants -/

namespace ParticipantDataV4

/-- The first byte says whether the partial signature is there. -/
def write (C : Codecs F E) (s : ParticipantDataV4 F E) : Bytes :=
  Ser.u8.write (if s.part.isSome then 1 else 0) ++ C.publicKey.write s.xs ++
    C.publicKey.write s.nonce ++ s.part.elim [] C.signature.write

def read (C : Codecs F E) : Reader SerError (ParticipantDataV4 F E) := do
  let hasPartial ← Ser.u8.read
  let xs ← C.publicKey.read
  let nonce ← C.publicKey.read
  let part ← readIf (hasPartial = 1) (some <$> C.signature.read) none
  return { xs, nonce, part }

end ParticipantDataV4

namespace SigsWrap

def write (C : Codecs F E) (sigs : List (ParticipantDataV4 F E)) : Bytes :=
  Ser.u8.write (sigs.length % 2 ^ 8) ++ sigs.flatMap (·.write C)

def read (C : Codecs F E) : Reader SerError (List (ParticipantDataV4 F E)) := do
  let sigsLen ← Ser.u8.read
  times sigsLen (ParticipantDataV4.read C)

end SigsWrap

/-! ## The optional structures -/

namespace CommitsV4

/-- The first byte is 0 for an input, 1 for an output with its proof. -/
def write (C : Codecs F E) (o : CommitsV4 E) : Bytes :=
  Ser.u8.write (if o.p.isSome then 1 else 0) ++ Ser.outputFeatures.write (.fromV4 o.f) ++
    C.commitment.write o.c ++ o.p.elim [] C.rangeProof.write

def read (C : Codecs F E) : Reader SerError (CommitsV4 E) := do
  let isOutput ← Ser.u8.read
  let f ← Ser.outputFeatures.read
  let c ← C.commitment.read
  let p ← readIf (isOutput = 1) (some <$> C.rangeProof.read) none
  return { f := .fromFeatures f, c, p }

end CommitsV4

namespace ComsWrap

def write (C : Codecs F E) (coms : List (CommitsV4 E)) : Bytes :=
  Ser.u16.write (coms.length % 2 ^ 16) ++ coms.flatMap (·.write C)

def read (C : Codecs F E) : Reader SerError (List (CommitsV4 E)) := do
  let comsLen ← Ser.u16.read
  times comsLen (CommitsV4.read C)

end ComsWrap

namespace ProofWrap

def write (C : Codecs F E) (p : PaymentInfoV4) : Bytes :=
  C.dalekPublicKey.toBytes p.saddr ++ C.dalekPublicKey.toBytes p.raddr ++
    p.rsig.elim (Ser.u8.write 0) fun s => Ser.u8.write 1 ++ C.dalekSignature.toBytes s

def read (C : Codecs F E) : Reader SerError PaymentInfoV4 := do
  let saddr ← C.readFixed C.dalekPublicKey
  let raddr ← C.readFixed C.dalekPublicKey
  let signed ← Ser.u8.read
  let rsig ← readIf (signed ≠ 0) (some <$> C.readFixed C.dalekSignature) none
  return { saddr, raddr, rsig }

end ProofWrap

structure SlateOptStructs (E : Type) where
  /-- Default none. -/
  coms : Option (List (CommitsV4 E))
  /-- Default none. -/
  proof : Option PaymentInfoV4

namespace SlateOptStructs

def status (o : SlateOptStructs E) : Nat :=
  (if o.coms.isSome then 0x01 else 0) ||| (if o.proof.isSome then 0x02 else 0)

def write (C : Codecs F E) (o : SlateOptStructs E) : Bytes :=
  Ser.u8.write o.status ++ o.coms.elim [] (ComsWrap.write C) ++ o.proof.elim [] (ProofWrap.write C)

def read (C : Codecs F E) : Reader SerError (SlateOptStructs E) := do
  let status ← Ser.u8.read
  let coms ← readIf (status &&& 0x01 > 0) (some <$> ComsWrap.read C) none
  let proof ← readIf (status &&& 0x02 > 0) (some <$> ProofWrap.read C) none
  return { coms, proof }

end SlateOptStructs

/-! ## The slate -/

namespace SlateV4

def optFields (v : SlateV4 F E) : SlateOptFields := ⟨v.numParts, v.amt, v.fee, v.feat, v.ttl⟩

def optStructs (v : SlateV4 F E) : SlateOptStructs E := ⟨v.coms, v.proof⟩

end SlateV4

namespace SlateV4Bin

def write (C : Codecs F E) (v4 : SlateV4 F E) : Bytes :=
  Ser.u16.write v4.ver.version ++ Ser.u16.write v4.ver.blockHeaderVersion ++
    UuidWrap.write v4.id ++ v4.sta.write ++ C.blindingFactor.write v4.off ++
    v4.optFields.write ++ SigsWrap.write C v4.sigs ++ v4.optStructs.write C ++
    -- the lock height, for height locked kernels
    (if v4.feat = 2 then Ser.u64.write (v4.featArgs.elim 0 (·.lockHgt)) else [])

def read (C : Codecs F E) : Reader SerError (SlateV4 F E) := do
  let version ← Ser.u16.read
  let blockHeaderVersion ← Ser.u16.read
  let id ← UuidWrap.read C
  let sta ← SlateStateV4.read
  let off ← C.blindingFactor.read
  let opts ← SlateOptFields.read
  let sigs ← SigsWrap.read C
  let optStructs ← SlateOptStructs.read C
  let featArgs ← readIf (opts.feat = 2) (some <$> KernelFeaturesArgsV4.mk <$> Ser.u64.read) none
  return {
    ver := ⟨version, blockHeaderVersion⟩
    id, sta, off
    numParts := opts.numParts
    amt := opts.amt
    fee := opts.fee
    feat := opts.feat
    ttl := opts.ttl
    sigs
    coms := optStructs.coms
    proof := optStructs.proof
    featArgs }

end SlateV4Bin

end GrinWallet
