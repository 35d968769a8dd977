import GrinWallet.Model.Slate

/-! # The V4 slate

The version of the slate that is sent, and the conversions between it and the
slate the wallet works on. The inputs and outputs of the transaction travel as
one list of commitments; its kernel does not travel, it is computed again from
the other fields.
-/

namespace GrinWallet

inductive SlateStateV4
  | Unknown | Standard1 | Standard2 | Standard3 | Invoice1 | Invoice2 | Invoice3
deriving DecidableEq

structure VersionCompatInfoV4 where
  version : Nat
  blockHeaderVersion : Nat
deriving DecidableEq

structure KernelFeaturesArgsV4 where
  lockHgt : Nat
deriving DecidableEq

structure ParticipantDataV4 (F E : Type) where
  xs : E
  nonce : E
  part : Option (Signature F E)
deriving DecidableEq

structure PaymentInfoV4 where
  saddr : DalekPublicKey
  raddr : DalekPublicKey
  rsig : Option DalekSignature
deriving DecidableEq

/-- The features of an output as one byte. -/
abbrev OutputFeaturesV4 := Nat

/-- An input, or an output when it has a range proof. -/
structure CommitsV4 (E : Type) where
  f : OutputFeaturesV4
  c : E
  p : Option RangeProof
deriving DecidableEq

structure SlateV4 (F E : Type) where
  ver : VersionCompatInfoV4
  id : Uuid
  sta : SlateStateV4
  off : F
  numParts : Nat
  amt : Nat
  fee : FeeFields
  feat : Nat
  ttl : Nat
  sigs : List (ParticipantDataV4 F E)
  coms : Option (List (CommitsV4 E))
  proof : Option PaymentInfoV4
  featArgs : Option KernelFeaturesArgsV4
deriving DecidableEq

/-! ## From the slate -/

section From

variable {F E : Type}

def SlateStateV4.fromState : SlateState → SlateStateV4
  | .Unknown => .Unknown
  | .Standard1 => .Standard1
  | .Standard2 => .Standard2
  | .Standard3 => .Standard3
  | .Invoice1 => .Invoice1
  | .Invoice2 => .Invoice2
  | .Invoice3 => .Invoice3

def ParticipantDataV4.fromData (d : ParticipantData F E) : ParticipantDataV4 F E where
  xs := d.publicBlindExcess
  nonce := d.publicNonce
  part := d.partSig

def PaymentInfoV4.fromInfo (p : PaymentInfo) : PaymentInfoV4 where
  saddr := p.senderAddress
  raddr := p.receiverAddress
  rsig := p.receiverSignature

def OutputFeaturesV4.fromFeatures : OutputFeatures → OutputFeaturesV4
  | .Plain => 0
  | .Coinbase => 1

def CommitsV4.fromInput (i : Input E) : CommitsV4 E where
  f := .fromFeatures i.features
  c := i.commit
  p := none

def CommitsV4.fromOutput (o : Output E) : CommitsV4 E where
  f := .fromFeatures o.features
  c := o.commit
  p := some o.proof

/-- The inputs of the transaction, then its outputs. -/
def Slate.commits (s : Slate F E) : Option (List (CommitsV4 E)) :=
  s.tx.map fun tx => tx.inputs.map .fromInput ++ tx.outputs.map .fromOutput

def SlateV4.fromSlate (s : Slate F E) : SlateV4 F E where
  numParts := s.numParticipants
  id := s.id
  sta := .fromState s.state
  coms := s.commits
  amt := s.amount
  fee := s.feeFields
  feat := s.kernelFeatures
  ttl := s.ttlCutoffHeight
  off := s.offset
  sigs := s.participantData.map .fromData
  ver := ⟨s.version, s.blockHeaderVersion⟩
  proof := s.paymentProof.map .fromInfo
  featArgs := s.kernelFeaturesArgs.map .mk

end From

/-! ## Back to the slate -/

section Into

variable {F E : Type}

def SlateState.fromV4 : SlateStateV4 → SlateState
  | .Unknown => .Unknown
  | .Standard1 => .Standard1
  | .Standard2 => .Standard2
  | .Standard3 => .Standard3
  | .Invoice1 => .Invoice1
  | .Invoice2 => .Invoice2
  | .Invoice3 => .Invoice3

def ParticipantData.fromV4 (d : ParticipantDataV4 F E) : ParticipantData F E where
  publicBlindExcess := d.xs
  publicNonce := d.nonce
  partSig := d.part

def PaymentInfo.fromV4 (p : PaymentInfoV4) : PaymentInfo where
  senderAddress := p.saddr
  receiverAddress := p.raddr
  receiverSignature := p.rsig

def OutputFeatures.fromV4 : OutputFeaturesV4 → OutputFeatures
  | 1 => .Coinbase
  | _ => .Plain

def CommitsV4.toInput (c : CommitsV4 E) : Option (Input E) :=
  match c.p with
  | some _ => none
  | none => some ⟨.fromV4 c.f, c.c⟩

def CommitsV4.toOutput (c : CommitsV4 E) : Option (Output E) :=
  c.p.map fun proof => ⟨.fromV4 c.f, c.c, proof⟩

/-- The features of the kernel that is put in place of the one that did not travel. -/
def SlateV4.kernelFeatures (v : SlateV4 F E) : KernelFeatures :=
  match v.feat with
  | 0 => .Plain v.fee
  | 1 =>
      .HeightLocked v.fee
        (match v.featArgs with
        | some a => a.lockHgt
        | none => 0)
  | _ => .Plain v.fee

variable [CommRing F] [AddCommGroup E] [Module F E] [DecidableEq E]

/-- The helper slate the excess and the signature are computed from; the
identifier it draws is not read. -/
def SlateV4.calcSlate (v : SlateV4 F E) : Slate F E :=
  { Slate.blank 2 false 0 with
    feeFields := v.fee
    participantData := v.sigs.map .fromV4 }

/-- The kernel computed again; what cannot be computed is zero. -/
def SlateV4.kernel (K : Keychain F E) (v : SlateV4 F E) : TxKernel F E where
  features := v.kernelFeatures
  excess :=
    match v.calcSlate.calcExcess with
    | .ok e => e
    | .error _ => 0
  excessSig :=
    match v.calcSlate.finalizeSignature K with
    | .ok s => s
    | .error _ => ⟨0, 0⟩

def txFromSlateV4 (K : Keychain F E) (v : SlateV4 F E) : Option (Transaction F E) :=
  v.coms.map fun coms =>
    { offset := v.off
      inputs := coms.filterMap (·.toInput)
      outputs := coms.filterMap (·.toOutput)
      kernels := [v.kernel K] }

def Slate.fromV4 (K : Keychain F E) (v : SlateV4 F E) : Slate F E where
  numParticipants := v.numParts
  id := v.id
  state := .fromV4 v.sta
  tx := txFromSlateV4 K v
  amount := v.amt
  feeFields := v.fee
  kernelFeatures := v.feat
  ttlCutoffHeight := v.ttl
  offset := v.off
  participantData := v.sigs.map .fromV4
  version := v.ver.version
  blockHeaderVersion := v.ver.blockHeaderVersion
  paymentProof := v.proof.map .fromV4
  kernelFeaturesArgs := v.featArgs.map (·.lockHgt)

end Into

end GrinWallet
