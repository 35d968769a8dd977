import GrinWallet.Model.Backend
import GrinWallet.Model.Seed

/-! # The lifecycle provider

Creating, opening and closing the wallet of a data directory, and the keychain of an open
wallet. A wallet opened with a mask keeps its master key XORed with it; whoever asks for
the keychain has to supply the mask, and a hash of the root key tells whether it was the
right one. Key derivation and the hash are parameters.
-/

namespace GrinWallet

open Effect SeedFile

namespace Lifecycle

/-- `ExtKeychain`: the secret key of the master key, and the rest of it. -/
structure MasterKey (R : Type) where
  secretKey : SecretKey
  rest : R
deriving DecidableEq

/-- `mask_master_key`. -/
def MasterKey.mask {R : Type} (k : MasterKey R) (m : SecretKey) : MasterKey R :=
  { k with secretKey := k.secretKey ^^^ m }

inductive LcError
  | Seed (e : SeedError)
  | KeychainDoesntExist
  | InvalidKeychainMask
  | Keychain
  | Store
deriving DecidableEq

def LcError.lifecycle (reason : String) : LcError := .Seed (.Lifecycle reason)

/-- Key derivation. -/
structure KeyEnv (R H : Type) where
  deriveKeychain : WalletSeed → Option (MasterKey R)
  /-- The hash of the root key derived from a master key. -/
  rootHash : MasterKey R → Except LcError H

/-- The keychain of `WalletBackend` with its check value. -/
structure Backend (R H : Type) where
  keychain : Option (MasterKey R)
  masterChecksum : Option H
deriving DecidableEq

/-- `DefaultLCProvider` with its data directory. -/
structure Provider (E R H : Type) where
  dir : DataDir
  db : Store E
  backend : Option (Backend R H)

/-- Which operations of the database fail. -/
structure DbFaults where
  opening : Bool
  saving : Bool
deriving DecidableEq

abbrev LcM (E R H : Type) := Eff (Provider E R H) LcError

variable {E R H : Type}

namespace Backend

/-- The mask is a random draw, for a wallet that is opened with one. -/
def setKeychain (K : KeyEnv R H) (k : MasterKey R) (mask : Option SecretKey) :
    Except LcError (Backend R H × Option SecretKey) := do
  let checksum ← K.rootHash k
  match mask with
  | some m => return (⟨some (k.mask m), some checksum⟩, some m)
  | none => return (⟨some k, some checksum⟩, none)

def close (b : Backend R H) : Backend R H := { b with keychain := none }

def getKeychain [DecidableEq H] (K : KeyEnv R H) (b : Backend R H) (mask : Option SecretKey) :
    Except LcError (MasterKey R) :=
  match b.keychain with
  | some k => do
      let k := match mask with
        | some m => k.mask m
        | none => k
      let checksum ← K.rootHash k
      if b.masterChecksum ≠ some checksum then .error .InvalidKeychainMask else .ok k
  | none => .error .KeychainDoesntExist

end Backend

/-! ## Calls -/

/-- Run an operation of the seed file. -/
def onSeed {α : Type} (x : SeedM α) : LcM E R H α := fun p =>
  match x p.dir with
  | (.ok a, dir) => (.ok a, { p with dir := dir })
  | (.error e, dir) => (.error (.Seed e), { p with dir := dir })

/-- `WalletBackend::new`: the directories, and the default account in the database. -/
def newBackend (reason : String) (faults : DbFaults) : LcM E R H Unit := do
  Eff.throwIf (faults.opening = true) (.lifecycle reason)
  Eff.modify fun p => { p with
    dir := p.dir.createDirAll
    db := p.db.saveAcctPath ⟨"default".toList, defaultPath⟩ }

def createWallet (env : SeedEnv) (faults : DbFaults) (mnemonic : Option ZeroingString)
    (mnemonicLength : Nat) (password : ZeroingString) (testMode : Bool) : LcM E R H Unit := do
  let p ← Eff.read
  Eff.throwIf (testMode = false ∧ p.dir.present .walletSeed = true) (.Seed .WalletSeedExists)
  let _ ← onSeed (orLifecycle "Error creating wallet seed (is mnemonic valid?)"
    (WalletSeed.initFile env mnemonicLength mnemonic password testMode))
  newBackend "Error creating wallet" faults
  Eff.throwIf (faults.saving = true) .Store
  Eff.modify fun p => { p with
    db := p.db.saveInitStatus (if mnemonic.isSome then .InitNeedsScanning else .InitNoScanning) }

/-- Open the database, read the seed and set the keychain. -/
def openBackend (K : KeyEnv R H) (env : SeedEnv) (faults : DbFaults) (password : ZeroingString)
    (mask : Option SecretKey) : LcM E R H (Backend R H × Option SecretKey) := do
  newBackend "Error opening wallet" faults
  let walletSeed ← onSeed (orLifecycle "Error opening wallet (is password correct?)"
    (WalletSeed.fromFile env .opening password))
  let keychain ← Eff.ofExcept ((K.deriveKeychain walletSeed).elim
    (.error (.lifecycle "Error deriving keychain")) .ok)
  Eff.ofExcept (Backend.setKeychain K keychain mask)

def openWallet (K : KeyEnv R H) (env : SeedEnv) (faults : DbFaults) (password : ZeroingString)
    (mask : Option SecretKey) : LcM E R H (Option SecretKey) := do
  let opened ← openBackend K env faults password mask
  Eff.modify fun p => { p with backend := some opened.1 }
  return opened.2

def closeWallet : LcM E R H Unit := do
  Eff.modify fun p => { p with backend := p.backend.map Backend.close }
  Eff.modify fun p => { p with backend := none }

def recoverFromMnemonic (env : SeedEnv) (mnemonic password : ZeroingString) : LcM E R H Unit :=
  onSeed (orLifecycle "Error recovering from mnemonic"
    (WalletSeed.recoverFromPhrase env mnemonic password))

def changePassword (env : SeedEnv) (old new : ZeroingString) : LcM E R H Unit :=
  onSeed (SeedFile.changePassword env old new)

/-- `wallet_inst` and then `keychain`. -/
def keychain [DecidableEq H] (K : KeyEnv R H) (mask : Option SecretKey) :
    LcM E R H (MasterKey R) := do
  let p ← Eff.read
  match p.backend with
  | some b => Eff.ofExcept (b.getKeychain K mask)
  | none => throw (.lifecycle "Wallet has not been opened")

/-- A call of the provider, with what it runs in. -/
inductive Call
  | createWallet (env : SeedEnv) (faults : DbFaults) (mnemonic : Option ZeroingString)
      (mnemonicLength : Nat) (password : ZeroingString) (testMode : Bool)
  | openWallet (env : SeedEnv) (faults : DbFaults) (password : ZeroingString)
      (mask : Option SecretKey)
  | closeWallet
  | recoverFromMnemonic (env : SeedEnv) (mnemonic password : ZeroingString)
  | changePassword (env : SeedEnv) (old new : ZeroingString)

/-- What a call does; only opening returns a mask. -/
def Call.run (K : KeyEnv R H) : Call → LcM E R H (Option SecretKey)
  | .createWallet env faults mnemonic mnemonicLength password testMode => do
      Lifecycle.createWallet env faults mnemonic mnemonicLength password testMode
      return none
  | .openWallet env faults password mask => Lifecycle.openWallet K env faults password mask
  | .closeWallet => do
      Lifecycle.closeWallet
      return none
  | .recoverFromMnemonic env mnemonic password => do
      Lifecycle.recoverFromMnemonic env mnemonic password
      return none
  | .changePassword env old new => do
      Lifecycle.changePassword env old new
      return none

end Lifecycle

end GrinWallet
