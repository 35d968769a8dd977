import GrinWallet.Lib.Effect
import GrinWallet.Lib.Wire
import Mathlib.Order.Nat

/-! # The seed file

The files of the wallet directory that hold the encrypted seed, and the operations
that move and rewrite them. Every file operation can fail; a failed write leaves
some part of what was written. Asking whether a name exists reads the directory.
The mnemonic, the cipher, hexadecimal and JSON are parameters.
-/

namespace GrinWallet

open Effect Wire

namespace SeedFile

/-- `wallet.seed`, and its backups `wallet.seed.bak`, `wallet.seed.bak.1`, `wallet.seed.bak.2`
and so on. -/
inductive FileName
  | walletSeed
  | backup (i : Nat)
deriving DecidableEq

/-- The wallet directory. -/
structure DataDir where
  dirExists : Bool
  files : FileName → Option Bytes
  /-- There are finitely many backups. -/
  finite : ∃ n, ∀ i, n ≤ i → files (.backup i) = none
  in_dir : dirExists = false → ∀ name, files name = none

namespace DataDir

def present (d : DataDir) (name : FileName) : Bool := (d.files name).isSome

theorem exists_free (d : DataDir) : ∃ i, d.files (.backup i) = none := by
  obtain ⟨n, hn⟩ := d.finite
  exact ⟨n, hn n le_rfl⟩

/-- The loop of `backup_seed`: the first backup name not taken. -/
def freeBackup (d : DataDir) : Nat := Nat.find d.exists_free

def createDirAll (d : DataDir) : DataDir := { d with
  dirExists := true
  in_dir := fun h => nomatch h }

/-- Give a file some contents. -/
def put (d : DataDir) (name : FileName) (content : Bytes) : DataDir where
  dirExists := true
  files := Function.update d.files name (some content)
  finite := by
    obtain ⟨n, hn⟩ := d.finite
    cases name with
    | walletSeed => exact ⟨n, fun i hi => by rw [Function.update_of_ne (by simp), hn i hi]⟩
    | backup j =>
        refine ⟨max n (j + 1), fun i hi => ?_⟩
        have hne : FileName.backup i ≠ .backup j := by
          simp only [ne_eq, FileName.backup.injEq]
          omega
        rw [Function.update_of_ne hne, hn i (by omega)]
  in_dir h := nomatch h

/-- Take a file away. -/
def erase (d : DataDir) (name : FileName) : DataDir where
  dirExists := d.dirExists
  files := Function.update d.files name none
  finite := by
    obtain ⟨n, hn⟩ := d.finite
    refine ⟨n, fun i hi => ?_⟩
    by_cases h : FileName.backup i = name
    · rw [h, Function.update_self]
    · rw [Function.update_of_ne h, hn i hi]
  in_dir h name' := by
    by_cases hn : name' = name
    · rw [hn, Function.update_self]
    · rw [Function.update_of_ne hn, d.in_dir h name']

end DataDir

inductive FsOp
  | createDirAll | openFile | read | rename | create | write | remove
deriving DecidableEq

/-- The parts of a call; each performs every kind of file operation at most once. -/
inductive Phase
  | opening | backingUp | deleting | initializing | verifying | confirming
deriving DecidableEq

inductive SeedError
  | Io
  | Format
  | Encryption
  | Mnemonic
  | WalletSeedDoesntExist
  | WalletSeedExists
  | WalletDoesntExist
  | GenericError (reason : String)
  | Lifecycle (reason : String)
  /-- A Rust panic: a slice past the end of a nonce. -/
  | Panic (reason : String)
deriving DecidableEq

abbrev ZeroingString := Bytes

/-- The strings of the encrypted seed, in hexadecimal. -/
structure EncryptedWalletSeed where
  encryptedSeed : Bytes
  salt : Bytes
  nonce : Bytes
deriving DecidableEq

/-- What the operations run in. -/
structure SeedEnv where
  fault : Phase → FsOp → Bool
  /-- What a failed write leaves in the file. -/
  torn : Bytes → Bytes
  /-- `mnemonic::to_entropy` and `mnemonic::from_entropy`. -/
  toEntropy : ZeroingString → Option Bytes
  fromEntropy : Bytes → Option ZeroingString
  initNew : Nat → Bool → ZeroingString → Bytes
  /-- The random salt and nonce. -/
  salt : Bytes
  nonce : Bytes
  pbkdf2 : Bytes → ZeroingString → Bytes
  /-- ChaCha20-Poly1305 with a key and a nonce; opening leaves the tag behind the message. -/
  sealInPlace : Bytes → Bytes → Bytes → Option Bytes
  openInPlace : Bytes → Bytes → Bytes → Option Bytes
  toHex : Bytes → Bytes
  fromHex : Bytes → Option Bytes
  toStringPretty : EncryptedWalletSeed → Option Bytes
  fromStr : Bytes → Option EncryptedWalletSeed

/-- The bytes of a wallet's seed. -/
abbrev WalletSeed := Bytes

abbrev SeedM := Eff DataDir SeedError

/-! ## Files -/

/-- A file operation that may fail, and then leaves the directory as it is. -/
def fsOp (env : SeedEnv) (phase : Phase) (op : FsOp) (e : SeedError) (f : DataDir → DataDir) :
    SeedM Unit := fun d =>
  if env.fault phase op then (.error e, d) else (.ok (), f d)

/-- `File::create`, which empties a file that exists. -/
def createFile (env : SeedEnv) (phase : Phase) (name : FileName) : SeedM Unit := fun d =>
  if env.fault phase .create || !d.dirExists then (.error .Io, d) else (.ok (), d.put name [])

def writeAll (env : SeedEnv) (phase : Phase) (name : FileName) (content : Bytes) : SeedM Unit :=
  fun d =>
    if env.fault phase .write then (.error .Io, d.put name (env.torn content))
    else (.ok (), d.put name content)

/-! ## The encrypted seed -/

namespace EncryptedWalletSeed

def fromSeed (env : SeedEnv) (seed : WalletSeed) (password : ZeroingString) :
    Except SeedError EncryptedWalletSeed :=
  let key := env.pbkdf2 env.salt password
  match env.sealInPlace key env.nonce seed with
  | some encBytes => .ok ⟨env.toHex encBytes, env.toHex env.salt, env.toHex env.nonce⟩
  | none => .error .Encryption

/-- The 16 bytes of the tag stay behind the message and are dropped. -/
def decrypt (env : SeedEnv) (enc : EncryptedWalletSeed) (password : ZeroingString) :
    Except SeedError WalletSeed := do
  let encryptedSeed ← (env.fromHex enc.encryptedSeed).elim (.error .Encryption) .ok
  let salt ← (env.fromHex enc.salt).elim (.error .Encryption) .ok
  let nonce ← (env.fromHex enc.nonce).elim (.error .Encryption) .ok
  let key := env.pbkdf2 salt password
  if nonce.length < 12 then
    .error (.Panic "range end index 12 out of range")
  else
    match env.openInPlace key (nonce.take 12) encryptedSeed with
    | some buffer => .ok (buffer.take (buffer.length - 16))
    | none => .error .Encryption

end EncryptedWalletSeed

/-! ## The seed -/

namespace WalletSeed

def fromMnemonic (env : SeedEnv) (wordList : ZeroingString) : Except SeedError WalletSeed :=
  (env.toEntropy wordList).elim (.error .Mnemonic) .ok

def toMnemonic (env : SeedEnv) (seed : WalletSeed) : Except SeedError ZeroingString :=
  (env.fromEntropy seed).elim (.error .Mnemonic) .ok

/-- Move the seed file to the first backup name not taken. -/
def backupSeed (env : SeedEnv) : SeedM Nat := fun d =>
  let i := d.freeBackup
  match d.files .walletSeed with
  | some content =>
      if env.fault .backingUp .rename then
        (.error (.GenericError "Can't rename wallet seed file"), d)
      else (.ok i, (d.erase .walletSeed).put (.backup i) content)
  | none => (.error (.GenericError "Can't rename wallet seed file"), d)

/-- The last lines of `recover_from_phrase` and of `init_file`. -/
def writeSeedFile (env : SeedEnv) (seed : WalletSeed) (password : ZeroingString) : SeedM Unit := do
  let encSeed ← Eff.ofExcept (EncryptedWalletSeed.fromSeed env seed password)
  let encSeedJson ← Eff.ofExcept ((env.toStringPretty encSeed).elim (.error .Format) .ok)
  createFile env .initializing .walletSeed
  writeAll env .initializing .walletSeed encSeedJson

def recoverFromPhrase (env : SeedEnv) (wordList password : ZeroingString) : SeedM Unit := do
  let d ← Eff.read
  if d.present .walletSeed then
    let _ ← backupSeed env
  let d ← Eff.read
  Eff.throwIf (d.dirExists = false) .WalletDoesntExist
  let seed ← Eff.ofExcept (fromMnemonic env wordList)
  writeSeedFile env seed password

def initFile (env : SeedEnv) (seedLength : Nat) (recoveryPhrase : Option ZeroingString)
    (password : ZeroingString) (testMode : Bool) : SeedM WalletSeed := do
  fsOp env .initializing .createDirAll .Io DataDir.createDirAll
  let d ← Eff.read
  Eff.throwIf (d.present .walletSeed = true ∧ testMode = false) .WalletSeedExists
  let seed ← Eff.ofExcept (match recoveryPhrase with
    | some p => fromMnemonic env p
    | none => .ok (env.initNew seedLength testMode password))
  writeSeedFile env seed password
  return seed

/-- What the contents of a seed file decrypt to. -/
def parse (env : SeedEnv) (content : Bytes) (password : ZeroingString) :
    Except SeedError WalletSeed := do
  let encSeed ← (env.fromStr content).elim (.error .Format) .ok
  encSeed.decrypt env password

def fromFile (env : SeedEnv) (phase : Phase) (password : ZeroingString) : SeedM WalletSeed := do
  fsOp env phase .createDirAll .Io DataDir.createDirAll
  let d ← Eff.read
  match d.files .walletSeed with
  | none => throw .WalletSeedDoesntExist
  | some buffer =>
      fsOp env phase .openFile .Io id
      fsOp env phase .read .Io id
      Eff.ofExcept (parse env buffer password)

def deleteSeedFile (env : SeedEnv) : SeedM Unit := do
  let d ← Eff.read
  Eff.runIf (d.present .walletSeed = true)
    (fsOp env .deleting .remove .Io fun d => d.erase .walletSeed)

end WalletSeed

/-- `map_err` to an error of the lifecycle provider. -/
def orLifecycle {α : Type} (reason : String) (x : SeedM α) : SeedM α := do
  match ← Eff.attempt x with
  | .ok a => return a
  | .error (.Panic r) => throw (.Panic r)
  | .error _ => throw (.Lifecycle reason)

/-- Change the password of the seed file. The outcome of writing the new file is not looked at. -/
def changePassword (env : SeedEnv) (old new : ZeroingString) : SeedM Unit := do
  let origWalletSeed ← orLifecycle "Error opening wallet seed file"
    (WalletSeed.fromFile env .opening old)
  let origMnemonic ← orLifecycle "Error recovering mnemonic"
    (Eff.ofExcept (WalletSeed.toMnemonic env origWalletSeed))
  let backupName ← orLifecycle "Error temporarily backing up existing seed"
    (WalletSeed.backupSeed env)
  orLifecycle "Unable to delete seed file for password change" (WalletSeed.deleteSeedFile env)
  let _ ← Eff.attempt (WalletSeed.initFile env 0 (some origMnemonic) new false)
  let newWalletSeed ← orLifecycle "Error opening wallet seed file"
    (WalletSeed.fromFile env .verifying new)
  Eff.throwIf (origWalletSeed ≠ newWalletSeed) (.Lifecycle
    "New and Old wallet seeds are not equal on password change, not removing backups.")
  fsOp env .confirming .remove .Io fun d => d.erase (.backup backupName)

end SeedFile

end GrinWallet
