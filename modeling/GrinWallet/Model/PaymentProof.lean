import GrinWallet.Model.Update

/-! # Exporting a payment proof

A finalized send keeps the signatures of its payment proof in the log. They are
exported with the amount, which is worked out again from what the record says was
debited, credited and paid as a fee; anyone can check the result.
-/

namespace GrinWallet

open Effect WalletBackend Sections

/-- An exported payment proof. -/
structure PaymentProof (E : Type) where
  amount : Nat
  excess : E
  recipientAddress : SlatepackAddress
  recipientSig : DalekSignature
  senderAddress : SlatepackAddress
  senderSig : DalekSignature
deriving DecidableEq

namespace TxLogEntry

variable {E : Type}

/-- A field that an export cannot do without. -/
def required {α : Type} (field : Option α) (reason : String) : Except Error α :=
  match field with
  | some a => .ok a
  | none => .error (.PaymentProofRetrieval reason)

/-- The amount of a transaction, from its record. -/
def recordedAmount (tx : TxLogEntry E) : Nat :=
  if tx.amountCredited ≥ tx.amountDebited then tx.amountCredited - tx.amountDebited
  else wrappingSub (tx.amountDebited - tx.amountCredited) ((tx.fee.map (·.fee)).getD 0)

/-- The payment proof a record exports. -/
def exportedProof (hrp : String) (tx : TxLogEntry E) : Except Error (PaymentProof E) := do
  let proof ← required tx.paymentProof "Transaction does not contain a payment proof"
  let amount := tx.recordedAmount
  let excess ← required tx.kernelExcess "Transaction does not contain kernel excess"
  let rSig ← required proof.receiverSignature "Proof does not contain receiver signature "
  let sSig ← required proof.senderSignature "Proof does not contain sender signature "
  return {
    amount := amount
    excess := excess
    recipientAddress := ⟨hrp, proof.receiverAddress⟩
    recipientSig := rSig
    senderAddress := ⟨hrp, proof.senderAddress⟩
    senderSig := sSig }

end TxLogEntry

namespace Owner

variable {F E : Type} [CommRing F] [AddCommGroup E] [Module F E] [DecidableEq E]

/-- Update the wallet first, when asked to. -/
def refreshIf (env : Env F E) (lastPart : List (Identifier × Nat) → WalletThread F E Unit)
    (fuel : Nat) (refreshFromNode : Bool) : WalletThread F E Bool :=
  if refreshFromNode then updateWalletState env lastPart fuel false else pure false

/-- Retrieve the payment proof of a transaction of the active account. -/
def retrievePaymentProof (env : Env F E)
    (lastPart : List (Identifier × Nat) → WalletThread F E Unit) (fuel : Nat)
    (refreshFromNode : Bool) (txId : Option Nat) (txSlateId : Option Uuid) :
    WalletThread F E (PaymentProof E) := do
  if txId.isNone ∧ txSlateId.isNone then
    Thread.ofExcept (.error
      (.PaymentProofRetrieval "Transaction ID or Slate UUID must be specified"))
  else
    let _ ← refreshIf env lastPart fuel refreshFromNode
    -- `retrieve_txs`, which may update the wallet once more
    let _ ← refreshIf env lastPart fuel refreshFromNode
    let w ← Thread.atomic .readActive Eff.read
    match Updater.retrieveTxs w.store txId txSlateId (some w.parentKeyId) false with
    | [tx] => Thread.ofExcept (tx.exportedProof env.addressHrp)
    | _ => Thread.ofExcept (.error (.PaymentProofRetrieval "Transaction doesn't exist"))

/-- The message of a payment proof. -/
def paymentProofMessage (proof : PaymentProof E) : PaymentProofMessage E :=
  ⟨proof.amount, proof.excess, proof.senderAddress.pubKey⟩

/-- Verify a payment proof: its kernel is on chain, and both parties signed it.
Tells whether this wallet is the sender, and whether it is the recipient. -/
def verifyPaymentProof (env : Env F E) (proof : PaymentProof E) : WalletM F E (Bool × Bool) := do
  let K := env.keychain
  let msg := paymentProofMessage proof
  let w ← Eff.read
  let kernel ← Eff.attempt (ask fun t => (env.node t).getKernel proof.excess none none)
  match kernel with
  -- the texts go on with the error of the node, and with the commitment
  | .error _ => throw (.PaymentProof "Error retrieving kernel from chain")
  | .ok none => throw (.PaymentProof "Transaction kernel not found on chain")
  | .ok (some _) =>
      let recipientPubkey := proof.recipientAddress.pubKey
      Eff.throwIf (K.dalekVerify recipientPubkey msg proof.recipientSig = false)
        (.PaymentProof "Invalid recipient signature")
      let senderPubkey := proof.senderAddress.pubKey
      Eff.throwIf (K.dalekVerify senderPubkey msg proof.senderSig = false)
        (.PaymentProof "Invalid sender signature")
      let myAddressPubkey := K.dalekPublicKey (K.addressKey w.parentKeyId 0)
      return (decide (myAddressPubkey = senderPubkey), decide (myAddressPubkey = recipientPubkey))

end Owner

end GrinWallet
