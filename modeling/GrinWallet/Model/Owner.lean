import GrinWallet.Model.PaymentProof

/-! # The owner's questions

What the owner API answers from the wallet's records, after it has updated them.
-/

namespace GrinWallet

open Effect Sections WalletBackend Selection

namespace Owner

variable {F E : Type}

/-- The amount a send of everything pays its recipient, with its fee and its number of inputs. -/
def maxSendable (C : Consensus F E) (s : Store E) (parentKeyId : Identifier)
    (minimumConfirmations : Nat) : Except Error (Nat × Nat × Nat) :=
  let walletInfo := Updater.retrieveInfo s parentKeyId minimumConfirmations
  let currentHeight := s.confirmedHeight parentKeyId
  match selectCoinsAndFee C s walletInfo.amountCurrentlySpendable true currentHeight
      minimumConfirmations 500 1 true parentKeyId with
  | .ok (coins, _, amount, fee) => .ok (amount, fee, u32 coins.length)
  | .error (.BigAmountError amount fee inputCount) =>
      if amount < fee then
        .error (.GenericError "Transaction amount is too small to include fee")
      else .ok (amount - fee, fee, inputCount)
  | .error e => .error e

variable [CommRing F] [AddCommGroup E] [Module F E] [DecidableEq E]

def estimateMaxSendable (env : Env F E)
    (lastPart : List (Identifier × Nat) → WalletThread F E Unit) (fuel : Nat)
    (refreshFromNode : Bool) (minimumConfirmations : Nat) :
    WalletThread F E (Bool × Nat × Nat × Nat) := do
  let validated ← refreshIf env lastPart fuel refreshFromNode
  let w ← Thread.atomic .readActive Eff.read
  let most ← Thread.ofExcept (maxSendable env.consensus w.store w.parentKeyId minimumConfirmations)
  return (validated, most)

end Owner

end GrinWallet
