import GrinWallet.Model.Seed

/-! # Keeping the seed

Recovering from a phrase and changing the password both move the seed file to a
backup before the steps that can fail, and neither moves it back. No backup is
ever overwritten and the old seed is always in some file, but after most failures
it is no longer in the seed file.
-/

namespace GrinWallet

open Effect Wire

namespace SeedFile

/-! ## The directory -/

namespace DataDir

variable {d : DataDir} {name name' : FileName} {c : Bytes}

@[simp] theorem put_files_self : (d.put name c).files name = some c := Function.update_self ..

theorem put_files_of_ne (h : name' ≠ name) : (d.put name c).files name' = d.files name' :=
  Function.update_of_ne h ..

@[simp] theorem erase_files_self : (d.erase name).files name = none := Function.update_self ..

theorem erase_files_of_ne (h : name' ≠ name) : (d.erase name).files name' = d.files name' :=
  Function.update_of_ne h ..

@[simp] theorem createDirAll_files : d.createDirAll.files = d.files := rfl

theorem freeBackup_free (d : DataDir) : d.files (.backup d.freeBackup) = none :=
  Nat.find_spec d.exists_free

theorem present_eq_false (h : d.files name = none) : d.present name = false := by
  rw [present, h]
  rfl

/-- The directory once the seed file, with these contents, is a backup. -/
def moved (d : DataDir) (c : Bytes) : DataDir :=
  (d.erase .walletSeed).put (.backup d.freeBackup) c

@[simp] theorem moved_walletSeed : (d.moved c).files .walletSeed = none := by
  rw [moved, put_files_of_ne (by simp), erase_files_self]

@[simp] theorem moved_backup : (d.moved c).files (.backup d.freeBackup) = some c := put_files_self

theorem moved_kept {i : Nat} {b : Bytes} (h : d.files (.backup i) = some b) :
    (d.moved c).files (.backup i) = some b := by
  have hne : FileName.backup i ≠ .backup d.freeBackup := by
    intro heq
    rw [heq, freeBackup_free] at h
    cases h
  rw [moved, put_files_of_ne hne, erase_files_of_ne (by simp), h]

end DataDir

/-! ## What is asked for -/

/-- A call that failed left the seed file as it was; every backup is as it was; and what the seed
file held is in some file, or the call succeeded and the seed was encrypted anew. -/
structure SeedKept (reencrypted : Bytes → DataDir → Prop) (d d' : DataDir)
    (r : Except SeedError Unit) : Prop where
  error_restores : ∀ e, r = .error e → d'.files .walletSeed = d.files .walletSeed
  backups_kept : ∀ i b, d.files (.backup i) = some b → d'.files (.backup i) = some b
  seed_survives : ∀ c, d.files .walletSeed = some c →
    (∃ name, d'.files name = some c) ∨ r = .ok () ∧ reencrypted c d'

section Kept

variable {reencrypted : Bytes → DataDir → Prop} {d d' : DataDir} {r : Except SeedError Unit}
  {c : Bytes}

/-- Nothing changed. -/
theorem SeedKept.of_files_eq (h : d'.files = d.files) : SeedKept reencrypted d d' r where
  error_restores _ _ := by rw [h]
  backups_kept _ _ hb := by rw [h, hb]
  seed_survives c hc := .inl ⟨.walletSeed, by rw [h, hc]⟩

/-- Once the seed file was moved, a call that fails has kept the seed exactly if the seed file it
leaves has the same contents. -/
theorem seedKept_error_iff {e : SeedError} (hc : d.files .walletSeed = some c)
    (hbackups : ∀ i, d'.files (.backup i) = (d.moved c).files (.backup i)) :
    SeedKept reencrypted d d' (.error e) ↔ d'.files .walletSeed = some c := by
  constructor
  · intro h
    rw [h.error_restores e rfl, hc]
  · intro h
    exact ⟨fun _ _ => by rw [h, hc], fun i b hb => by rw [hbackups, DataDir.moved_kept hb],
      fun c' hc' => .inl ⟨.walletSeed, by rw [h, ← hc, hc']⟩⟩

end Kept

/-! ## The parts of a call -/

variable {env : SeedEnv}

/-- What a seed is written as. -/
def Encodes (env : SeedEnv) (seed : WalletSeed) (password : ZeroingString) (json : Bytes) : Prop :=
  ∃ enc, EncryptedWalletSeed.fromSeed env seed password = .ok enc ∧
    env.toStringPretty enc = some json

/-- What writing leaves in the seed file. -/
def left (env : SeedEnv) (json : Bytes) : Bytes :=
  if env.fault .initializing .write then env.torn json else json

/-- The outcome of writing. -/
def writeOutcome (env : SeedEnv) : Except SeedError Unit :=
  if env.fault .initializing .write then .error .Io else .ok ()

theorem writeSeedFile_of_encodes {seed : WalletSeed} {password : ZeroingString} {json : Bytes}
    {d : DataDir} (h : Encodes env seed password json) (hdir : d.dirExists = true)
    (hcreate : env.fault .initializing .create = false) :
    WalletSeed.writeSeedFile env seed password d
      = (writeOutcome env, (d.put .walletSeed []).put .walletSeed (left env json)) := by
  obtain ⟨enc, henc, hjson⟩ := h
  have hrun : createFile env .initializing .walletSeed d
      = (.ok (), d.put .walletSeed []) := by
    unfold createFile
    rw [hcreate, hdir]
    rfl
  unfold WalletSeed.writeSeedFile
  rw [henc, Eff.run_bind_ok (Eff.run_ofExcept _ _), hjson, Option.elim_some,
    Eff.run_bind_ok (Eff.run_ofExcept _ _), Eff.run_bind_ok hrun]
  unfold writeAll writeOutcome left
  cases env.fault .initializing .write <;> rfl

theorem writeSeedFile_of_not {seed : WalletSeed} {password : ZeroingString} {d : DataDir}
    (h : ¬ ∃ json, Encodes env seed password json ∧ env.fault .initializing .create = false) :
    ∃ e, WalletSeed.writeSeedFile env seed password d = (.error e, d) := by
  unfold WalletSeed.writeSeedFile
  cases henc : EncryptedWalletSeed.fromSeed env seed password with
  | error e => exact ⟨e, rfl⟩
  | ok enc =>
      rw [Eff.run_bind_ok (Eff.run_ofExcept _ _)]
      cases hjson : env.toStringPretty enc with
      | none => exact ⟨.Format, rfl⟩
      | some json =>
          rw [Option.elim_some, Eff.run_bind_ok (Eff.run_ofExcept _ _)]
          have hcreate : env.fault .initializing .create = true := by
            by_contra hne
            exact h ⟨json, ⟨enc, henc, hjson⟩, by simpa using hne⟩
          refine ⟨.Io, Eff.run_bind_error ?_⟩
          unfold createFile
          rw [hcreate]
          rfl

section Run

variable {phase : Phase} {op : FsOp} {e : SeedError} {f : DataDir → DataDir} {d d' : DataDir}

theorem fsOp_ok (h : env.fault phase op = false) : fsOp env phase op e f d = (.ok (), f d) := by
  rw [fsOp, h]
  rfl

theorem fsOp_error (h : env.fault phase op = true) : fsOp env phase op e f d = (.error e, d) := by
  rw [fsOp, h]
  rfl

variable {α : Type} {x : SeedM α} {a : α} {reason : String}

theorem orLifecycle_ok (h : x d = (.ok a, d')) : orLifecycle reason x d = (.ok a, d') := by
  have hattempt : Eff.attempt x d = (.ok (.ok a), d') := by rw [Eff.attempt, h]
  exact Eff.run_bind_ok hattempt

theorem orLifecycle_error (h : x d = (.error e, d')) :
    ∃ e', orLifecycle reason x d = (.error e', d') := by
  have hattempt : Eff.attempt x d = (.ok (.error e), d') := by rw [Eff.attempt, h]
  rw [orLifecycle, Eff.run_bind_ok hattempt]
  cases e <;> exact ⟨_, rfl⟩

end Run

/-- No operation of reading the seed file fails. -/
structure Reads (env : SeedEnv) (phase : Phase) : Prop where
  createDirAll : env.fault phase .createDirAll = false
  openFile : env.fault phase .openFile = false
  read : env.fault phase .read = false

section FromFile

variable {phase : Phase} {password : ZeroingString} {d : DataDir} {c : Bytes}

theorem fromFile_run (h : Reads env phase) (hc : d.files .walletSeed = some c) :
    WalletSeed.fromFile env phase password d = (WalletSeed.parse env c password, d.createDirAll) := by
  unfold WalletSeed.fromFile
  rw [Eff.run_bind_ok (fsOp_ok h.createDirAll), Eff.run_bind_ok (Eff.run_read _),
    DataDir.createDirAll_files, hc]
  show (fsOp env phase .openFile .Io id >>= _) _ = _
  rw [Eff.run_bind_ok (fsOp_ok h.openFile), Eff.run_bind_ok (fsOp_ok h.read)]
  rfl

/-- Without the file, or when an operation fails, reading fails and changes no file. -/
theorem fromFile_error (h : ¬ (Reads env phase ∧ ∃ c, d.files .walletSeed = some c)) :
    ∃ e d', WalletSeed.fromFile env phase password d = (.error e, d') ∧ d'.files = d.files := by
  unfold WalletSeed.fromFile
  cases hdir : env.fault phase .createDirAll with
  | true => exact ⟨_, _, Eff.run_bind_error (fsOp_error hdir), rfl⟩
  | false =>
      rw [Eff.run_bind_ok (fsOp_ok hdir), Eff.run_bind_ok (Eff.run_read _),
        DataDir.createDirAll_files]
      cases hc : d.files .walletSeed with
      | none => exact ⟨_, _, rfl, rfl⟩
      | some c =>
          show ∃ e d', (fsOp env phase .openFile .Io id >>= _) _ = _ ∧ _
          cases hopen : env.fault phase .openFile with
          | true => exact ⟨_, _, Eff.run_bind_error (fsOp_error hopen), rfl⟩
          | false =>
              rw [Eff.run_bind_ok (fsOp_ok hopen)]
              cases hread : env.fault phase .read with
              | true => exact ⟨_, _, Eff.run_bind_error (fsOp_error hread), rfl⟩
              | false => exact absurd ⟨⟨hdir, hopen, hread⟩, c, hc⟩ h

/-- A seed that is read leaves the files as they are; one that is not, too. -/
theorem fromFile_cases (env : SeedEnv) (phase : Phase) (password : ZeroingString) (d : DataDir) :
    (∃ seed, (∃ c, d.files .walletSeed = some c ∧ WalletSeed.parse env c password = .ok seed) ∧
      Reads env phase ∧
      WalletSeed.fromFile env phase password d = (.ok seed, d.createDirAll)) ∨
    (¬ (Reads env phase ∧ ∃ c seed, d.files .walletSeed = some c ∧
        WalletSeed.parse env c password = .ok seed) ∧
      ∃ e d', WalletSeed.fromFile env phase password d = (.error e, d') ∧ d'.files = d.files) := by
  by_cases h : Reads env phase ∧ ∃ c, d.files .walletSeed = some c
  · obtain ⟨hreads, c, hc⟩ := h
    have hrun := @fromFile_run env phase password d c hreads hc
    cases hp : WalletSeed.parse env c password with
    | ok seed => exact .inl ⟨seed, ⟨c, hc, hp⟩, hreads, by rw [hrun, hp]⟩
    | error e =>
        refine .inr ⟨fun ⟨_, c', seed, hc', hp'⟩ => ?_, e, d.createDirAll, by rw [hrun, hp], rfl⟩
        rw [hc] at hc'
        cases hc'
        rw [hp] at hp'
        cases hp'
  · exact .inr ⟨fun ⟨hreads, c, seed, hc, _⟩ => h ⟨hreads, c, hc⟩, fromFile_error h⟩

end FromFile

/-! ## Recovering from a phrase -/

/-- The new seed file is created, to hold these bytes. -/
structure Restores (env : SeedEnv) (wordList password : ZeroingString) (json : Bytes) : Prop where
  encodes : ∃ seed, WalletSeed.fromMnemonic env wordList = .ok seed ∧
    Encodes env seed password json
  create : env.fault .initializing .create = false

theorem Restores.unique {wordList password : ZeroingString} {json json' : Bytes}
    (h : Restores env wordList password json) (h' : Restores env wordList password json') :
    json = json' := by
  obtain ⟨seed, hseed, enc, henc, hjson⟩ := h.encodes
  obtain ⟨seed', hseed', enc', henc', hjson'⟩ := h'.encodes
  rw [hseed] at hseed'
  cases hseed'
  rw [henc] at henc'
  cases henc'
  rw [hjson] at hjson'
  cases hjson'
  rfl

/-- The seed of a phrase, and its file. -/
def restore (env : SeedEnv) (wordList password : ZeroingString) : SeedM Unit := do
  let d ← Eff.read
  Eff.throwIf (d.dirExists = false) .WalletDoesntExist
  let seed ← Eff.ofExcept (WalletSeed.fromMnemonic env wordList)
  WalletSeed.writeSeedFile env seed password

theorem restore_of_restores {wordList password : ZeroingString} {json : Bytes} {d : DataDir}
    (h : Restores env wordList password json) (hdir : d.dirExists = true) :
    restore env wordList password d
      = (writeOutcome env, (d.put .walletSeed []).put .walletSeed (left env json)) := by
  obtain ⟨⟨seed, hseed, hjson⟩, hcreate⟩ := h
  have hthere : Eff.throwIf (d.dirExists = false) SeedError.WalletDoesntExist d = (.ok (), d) :=
    Eff.throwIf_eq_ok.mpr ⟨by simp [hdir], rfl⟩
  unfold restore
  rw [Eff.run_bind_ok (Eff.run_read _), Eff.run_bind_ok hthere, hseed,
    Eff.run_bind_ok (Eff.run_ofExcept _ _)]
  exact writeSeedFile_of_encodes hjson hdir hcreate

theorem restore_of_not {wordList password : ZeroingString} {d : DataDir}
    (h : ¬ (d.dirExists = true ∧ ∃ json, Restores env wordList password json)) :
    ∃ e, restore env wordList password d = (.error e, d) := by
  unfold restore
  rw [Eff.run_bind_ok (Eff.run_read _)]
  cases hdir : d.dirExists with
  | false => exact ⟨_, rfl⟩
  | true =>
      have hthere : Eff.throwIf (true = false) SeedError.WalletDoesntExist d = (.ok (), d) :=
        Eff.throwIf_eq_ok.mpr ⟨by simp, rfl⟩
      rw [Eff.run_bind_ok hthere]
      cases hseed : WalletSeed.fromMnemonic env wordList with
      | error e => exact ⟨e, rfl⟩
      | ok seed =>
          rw [Eff.run_bind_ok (Eff.run_ofExcept _ _)]
          exact writeSeedFile_of_not fun ⟨json, hjson, hcreate⟩ =>
            h ⟨hdir, json, ⟨seed, hseed, hjson⟩, hcreate⟩

/-- When recovering keeps the seed: without a seed file, if the new one is not left half written;
with one, if it cannot be moved, or if the new one is created and either written or left with the
very contents of the old one. -/
def RecoverKeeps (env : SeedEnv) (d : DataDir) (wordList password : ZeroingString) : Prop :=
  match d.files .walletSeed with
  | none => d.dirExists = true → ∀ json, Restores env wordList password json →
      env.fault .initializing .write = false
  | some c => env.fault .backingUp .rename = true ∨ ∃ json, Restores env wordList password json ∧
      (env.fault .initializing .write = true → env.torn json = c)

theorem recoverFromPhrase_absent {wordList password : ZeroingString} {d : DataDir}
    (h : d.files .walletSeed = none) :
    WalletSeed.recoverFromPhrase env wordList password d = restore env wordList password d := by
  unfold WalletSeed.recoverFromPhrase
  rw [Eff.run_bind_ok (Eff.run_read _), DataDir.present_eq_false h]
  rfl

theorem recoverFromPhrase_present {wordList password : ZeroingString} {d : DataDir} {c : Bytes}
    (h : d.files .walletSeed = some c) (hrename : env.fault .backingUp .rename = false) :
    WalletSeed.recoverFromPhrase env wordList password d
      = restore env wordList password (d.moved c) := by
  have hbackup : WalletSeed.backupSeed env d = (.ok d.freeBackup, d.moved c) := by
    simp only [WalletSeed.backupSeed, h, hrename]
    rfl
  have hpresent : d.present .walletSeed = true := by
    rw [DataDir.present, h]
    rfl
  unfold WalletSeed.recoverFromPhrase
  rw [Eff.run_bind_ok (Eff.run_read _), hpresent, if_pos rfl]
  exact Eff.run_bind_ok hbackup

theorem recoverFromPhrase_stuck {wordList password : ZeroingString} {d : DataDir} {c : Bytes}
    (h : d.files .walletSeed = some c) (hrename : env.fault .backingUp .rename = true) :
    ∃ e, WalletSeed.recoverFromPhrase env wordList password d = (.error e, d) := by
  have hbackup : WalletSeed.backupSeed env d
      = (.error (.GenericError "Can't rename wallet seed file"), d) := by
    simp only [WalletSeed.backupSeed, h, hrename]
    rfl
  have hpresent : d.present .walletSeed = true := by
    rw [DataDir.present, h]
    rfl
  unfold WalletSeed.recoverFromPhrase
  rw [Eff.run_bind_ok (Eff.run_read _), hpresent, if_pos rfl]
  exact ⟨_, Eff.run_bind_error hbackup⟩

/-- Recovering keeps the seed exactly under that condition. -/
theorem recover_keeps_iff (env : SeedEnv) (d : DataDir) (wordList password : ZeroingString) :
    SeedKept (fun _ _ => False) d (WalletSeed.recoverFromPhrase env wordList password d).2
        (WalletSeed.recoverFromPhrase env wordList password d).1 ↔
      RecoverKeeps env d wordList password := by
  unfold RecoverKeeps
  cases hc : d.files .walletSeed with
  | none =>
      rw [recoverFromPhrase_absent hc]
      by_cases hrestores : d.dirExists = true ∧ ∃ json, Restores env wordList password json
      · obtain ⟨hdir, json, hjson⟩ := hrestores
        rw [restore_of_restores hjson hdir]
        unfold writeOutcome
        cases hwrite : env.fault .initializing .write with
        | false =>
            rw [if_neg Bool.false_ne_true]
            refine iff_of_true ⟨(fun _ h => nomatch h), fun i b hb => ?_, fun c' hc' => ?_⟩
              fun _ _ _ => rfl
            · rw [DataDir.put_files_of_ne (by simp), DataDir.put_files_of_ne (by simp), hb]
            · rw [hc] at hc'
              cases hc'
        | true =>
            -- a file is left where there was none
            refine iff_of_false (fun h => ?_) fun h => by cases h hdir json hjson
            have hsame := h.error_restores .Io rfl
            rw [DataDir.put_files_self, hc] at hsame
            cases hsame
      · obtain ⟨e, hrun⟩ := restore_of_not hrestores
        rw [hrun]
        exact iff_of_true (.of_files_eq rfl) fun hdir json hjson =>
          absurd ⟨hdir, json, hjson⟩ hrestores
  | some c =>
      cases hrename : env.fault .backingUp .rename with
      | true =>
          obtain ⟨e, hrun⟩ := recoverFromPhrase_stuck hc hrename
          rw [hrun]
          exact iff_of_true (.of_files_eq rfl) (.inl rfl)
      | false =>
          rw [recoverFromPhrase_present hc hrename]
          by_cases hrestores : ∃ json, Restores env wordList password json
          · obtain ⟨json, hjson⟩ := hrestores
            have hbackups : ∀ i, (((d.moved c).put .walletSeed []).put .walletSeed
                (left env json)).files (.backup i) = (d.moved c).files (.backup i) := by
              intro i
              rw [DataDir.put_files_of_ne (by simp), DataDir.put_files_of_ne (by simp)]
            rw [restore_of_restores hjson rfl]
            unfold writeOutcome
            cases hwrite : env.fault .initializing .write with
            | false =>
                rw [if_neg Bool.false_ne_true]
                refine iff_of_true ⟨(fun _ h => nomatch h), fun i b hb => ?_, fun c' hc' => ?_⟩
                  (.inr ⟨json, hjson, fun h => nomatch h⟩)
                · rw [hbackups, DataDir.moved_kept hb]
                · rw [hc] at hc'
                  cases hc'
                  exact .inl ⟨.backup d.freeBackup, by rw [hbackups, DataDir.moved_backup]⟩
            | true =>
                have hleft : left env json = env.torn json := by rw [left, hwrite, if_pos rfl]
                rw [if_pos rfl, seedKept_error_iff hc hbackups, DataDir.put_files_self, hleft,
                  Option.some.injEq]
                constructor
                · intro h
                  exact .inr ⟨json, hjson, fun _ => h⟩
                · rintro (h | ⟨json', hjson', h⟩)
                  · cases h
                  · rw [Restores.unique hjson hjson']
                    exact h rfl
          · obtain ⟨e, hrun⟩ := restore_of_not fun h => hrestores h.2
            rw [hrun, seedKept_error_iff hc fun _ => rfl, DataDir.moved_walletSeed]
            refine iff_of_false (fun h => by cases h) ?_
            rintro (h | ⟨json, hjson, -⟩)
            · cases h
            · exact hrestores ⟨json, hjson⟩

/-! ## Changing the password -/

/-- The old password opens the seed file, and the seed has a phrase. -/
structure Opens (env : SeedEnv) (d : DataDir) (old : ZeroingString) (c : Bytes) (orig : WalletSeed)
    (phrase : ZeroingString) : Prop where
  reads : Reads env .opening
  content : d.files .walletSeed = some c
  parse : WalletSeed.parse env c old = .ok orig
  mnemonic : WalletSeed.toMnemonic env orig = .ok phrase

theorem Opens.unique {d : DataDir} {old : ZeroingString} {c c' : Bytes} {orig orig' : WalletSeed}
    {phrase phrase' : ZeroingString} (h : Opens env d old c orig phrase)
    (h' : Opens env d old c' orig' phrase') : c' = c ∧ orig' = orig ∧ phrase' = phrase := by
  have hc := h'.content
  rw [h.content] at hc
  cases hc
  have horig := h'.parse
  rw [h.parse] at horig
  cases horig
  have hphrase := h'.mnemonic
  rw [h.mnemonic] at hphrase
  cases hphrase
  exact ⟨rfl, rfl, rfl⟩

/-- When changing the password keeps the seed: if the seed file, once opened and moved, is created
anew and either confirmed to hold the same seed, with the backup removed, or left with the very
contents of the old one. -/
def ChangeKeeps (env : SeedEnv) (d : DataDir) (old new : ZeroingString) : Prop :=
  ∀ c orig phrase, Opens env d old c orig phrase → env.fault .backingUp .rename = false →
    env.fault .initializing .createDirAll = false ∧ ∃ json, Restores env phrase new json ∧
      (left env json = c ∨ Reads env .verifying ∧
        WalletSeed.parse env (left env json) new = .ok orig ∧
        env.fault .confirming .remove = false)

/-- The seed was encrypted under the new password and read back. -/
def Reencrypted (env : SeedEnv) (old new : ZeroingString) (c : Bytes) (d' : DataDir) : Prop :=
  ∃ seed c', WalletSeed.parse env c old = .ok seed ∧ d'.files .walletSeed = some c' ∧
    WalletSeed.parse env c' new = .ok seed

/-- The new file, when there is none. -/
theorem initFile_cases (env : SeedEnv) (phrase new : ZeroingString) {d : DataDir}
    (h : d.files .walletSeed = none) :
    (∃ json r d', (env.fault .initializing .createDirAll = false ∧ Restores env phrase new json) ∧
      WalletSeed.initFile env 0 (some phrase) new false d = (r, d') ∧
      d'.files .walletSeed = some (left env json) ∧
      ∀ i, d'.files (.backup i) = d.files (.backup i)) ∨
    (¬ (env.fault .initializing .createDirAll = false ∧ ∃ json, Restores env phrase new json) ∧
      ∃ r d', WalletSeed.initFile env 0 (some phrase) new false d = (r, d') ∧
        d'.files = d.files) := by
  have habsent : Eff.throwIf (d.createDirAll.present .walletSeed = true ∧ false = false)
      SeedError.WalletSeedExists d.createDirAll = (.ok (), d.createDirAll) := by
    refine Eff.throwIf_eq_ok.mpr ⟨fun hp => ?_, rfl⟩
    rw [DataDir.present_eq_false (by rw [DataDir.createDirAll_files, h])] at hp
    cases hp.1
  cases hdir : env.fault .initializing .createDirAll with
  | true =>
      refine .inr ⟨fun h => (by cases h.1), .error .Io, d, ?_, rfl⟩
      exact Eff.run_bind_error (fsOp_error hdir)
  | false =>
      have hrun : WalletSeed.initFile env 0 (some phrase) new false d = (do
          let seed ← Eff.ofExcept (WalletSeed.fromMnemonic env phrase)
          WalletSeed.writeSeedFile env seed new
          return seed) d.createDirAll := by
        unfold WalletSeed.initFile
        rw [Eff.run_bind_ok (fsOp_ok hdir), Eff.run_bind_ok (Eff.run_read _),
          Eff.run_bind_ok habsent]
      rw [hrun]
      cases hseed : WalletSeed.fromMnemonic env phrase with
      | error e =>
          refine .inr ⟨fun h => ?_, .error e, d.createDirAll, rfl, rfl⟩
          obtain ⟨json, hjson⟩ := h.2
          obtain ⟨seed, hseed', -⟩ := hjson.encodes
          rw [hseed] at hseed'
          cases hseed'
      | ok seed =>
          rw [Eff.run_bind_ok (Eff.run_ofExcept _ _)]
          by_cases hencodes : ∃ json, Encodes env seed new json ∧
              env.fault .initializing .create = false
          · obtain ⟨json, hjson, hcreate⟩ := hencodes
            have hwrite := writeSeedFile_of_encodes (d := d.createDirAll) hjson rfl hcreate
            obtain ⟨d', hd'⟩ : ∃ d', d' = (d.createDirAll.put .walletSeed []).put .walletSeed
                (left env json) := ⟨_, rfl⟩
            obtain ⟨r, hend⟩ : ∃ r, (WalletSeed.writeSeedFile env seed new >>= fun _ =>
                (pure seed : SeedM WalletSeed)) d.createDirAll = (r, d') := by
              rw [← hd'] at hwrite
              cases hout : writeOutcome env with
              | ok u => exact ⟨_, Eff.run_bind_ok (hwrite.trans (by rw [hout]))⟩
              | error e => exact ⟨_, Eff.run_bind_error (hwrite.trans (by rw [hout]))⟩
            refine .inl ⟨json, r, d', ⟨rfl, ⟨seed, hseed, hjson⟩, hcreate⟩, hend, ?_, fun i => ?_⟩
            · rw [hd', DataDir.put_files_self]
            · rw [hd', DataDir.put_files_of_ne (by simp), DataDir.put_files_of_ne (by simp),
                DataDir.createDirAll_files]
          · obtain ⟨e, hwrite⟩ := writeSeedFile_of_not (d := d.createDirAll) hencodes
            refine .inr ⟨fun h => ?_, .error e, d.createDirAll, Eff.run_bind_error hwrite, rfl⟩
            obtain ⟨json, hjson⟩ := h.2
            obtain ⟨seed', hseed', hjson'⟩ := hjson.encodes
            rw [hseed] at hseed'
            cases hseed'
            exact hencodes ⟨json, hjson', hjson.create⟩

/-- Confirm that the new file holds the seed, and remove the backup. -/
def confirm (env : SeedEnv) (backupName : Nat) (orig : WalletSeed) (new : ZeroingString) :
    SeedM Unit := do
  let newWalletSeed ← orLifecycle "Error opening wallet seed file"
    (WalletSeed.fromFile env .verifying new)
  Eff.throwIf (orig ≠ newWalletSeed) (.Lifecycle
    "New and Old wallet seeds are not equal on password change, not removing backups.")
  fsOp env .confirming .remove .Io fun d => d.erase (.backup backupName)

theorem confirm_cases (env : SeedEnv) (backupName : Nat) (orig : WalletSeed) (new : ZeroingString)
    (d : DataDir) :
    ((Reads env .verifying ∧ (∃ c, d.files .walletSeed = some c ∧
        WalletSeed.parse env c new = .ok orig) ∧ env.fault .confirming .remove = false) ∧
      confirm env backupName orig new d
        = (.ok (), d.createDirAll.erase (.backup backupName))) ∨
    (¬ (Reads env .verifying ∧ (∃ c, d.files .walletSeed = some c ∧
        WalletSeed.parse env c new = .ok orig) ∧ env.fault .confirming .remove = false) ∧
      ∃ e d', confirm env backupName orig new d = (.error e, d') ∧ d'.files = d.files) := by
  rcases fromFile_cases env .verifying new d with ⟨seed, hparse, hreads, hrun⟩ | ⟨hnot, e, d', hrun, hd'⟩
  · obtain ⟨c, hc, hparse⟩ := hparse
    unfold confirm
    rw [Eff.run_bind_ok (orLifecycle_ok hrun)]
    by_cases hseed : orig = seed
    · subst hseed
      have hsame : Eff.throwIf (orig ≠ orig) (SeedError.Lifecycle
          "New and Old wallet seeds are not equal on password change, not removing backups.")
          d.createDirAll = (.ok (), d.createDirAll) :=
        Eff.throwIf_eq_ok.mpr ⟨fun h => h rfl, rfl⟩
      rw [Eff.run_bind_ok hsame]
      cases hremove : env.fault .confirming .remove with
      | false => exact .inl ⟨⟨hreads, ⟨c, hc, hparse⟩, rfl⟩, fsOp_ok hremove⟩
      | true =>
          refine .inr ⟨fun h => ?_, _, _, fsOp_error hremove, rfl⟩
          cases h.2.2
    · have hdiffer : Eff.throwIf (orig ≠ seed) (SeedError.Lifecycle
          "New and Old wallet seeds are not equal on password change, not removing backups.")
          d.createDirAll = (.error (.Lifecycle
          "New and Old wallet seeds are not equal on password change, not removing backups."),
          d.createDirAll) := by
        rw [Eff.throwIf, if_pos hseed]
        rfl
      refine .inr ⟨fun ⟨_, ⟨c', hc', hparse'⟩, _⟩ => hseed ?_, _, d.createDirAll,
        Eff.run_bind_error hdiffer, rfl⟩
      rw [hc] at hc'
      cases hc'
      rw [hparse] at hparse'
      cases hparse'
      rfl
  · obtain ⟨e', hrun'⟩ := orLifecycle_error hrun
    exact .inr ⟨fun ⟨hreads, ⟨c, hc, hparse⟩, _⟩ => hnot ⟨hreads, c, orig, hc, hparse⟩,
      e', d', Eff.run_bind_error hrun', hd'⟩

/-- A password change that cannot open or move the seed file changes no file. -/
theorem changePassword_stuck {d : DataDir} {old : ZeroingString} (new : ZeroingString)
    (h : ¬ ∃ c orig phrase, Opens env d old c orig phrase ∧
      env.fault .backingUp .rename = false) :
    ∃ e d', changePassword env old new d = (.error e, d') ∧ d'.files = d.files := by
  unfold changePassword
  rcases fromFile_cases env .opening old d with ⟨orig, hparse, hreads, hrun⟩ | ⟨-, e, d', hrun, hd'⟩
  · obtain ⟨c, hc, hparse⟩ := hparse
    rw [Eff.run_bind_ok (orLifecycle_ok hrun)]
    cases hphrase : WalletSeed.toMnemonic env orig with
    | error e =>
        obtain ⟨e', hrun'⟩ := orLifecycle_error
          (Eff.run_ofExcept (.error e : Except SeedError ZeroingString) d.createDirAll)
        exact ⟨e', _, Eff.run_bind_error hrun', rfl⟩
    | ok phrase =>
        rw [Eff.run_bind_ok (orLifecycle_ok (Eff.run_ofExcept _ _))]
        have hrename : env.fault .backingUp .rename = true := by
          by_contra hne
          exact h ⟨c, orig, phrase, ⟨hreads, hc, hparse, hphrase⟩, by simpa using hne⟩
        have hbackup : WalletSeed.backupSeed env d.createDirAll
            = (.error (.GenericError "Can't rename wallet seed file"), d.createDirAll) := by
          simp only [WalletSeed.backupSeed, DataDir.createDirAll_files, hc, hrename]
          rfl
        obtain ⟨e', hrun'⟩ := orLifecycle_error hbackup
        exact ⟨e', _, Eff.run_bind_error hrun', rfl⟩
  · obtain ⟨e', hrun'⟩ := orLifecycle_error hrun
    exact ⟨e', d', Eff.run_bind_error hrun', hd'⟩

/-- A password change that opened and moved the seed file writes a new one and confirms it. -/
theorem changePassword_moved {d : DataDir} {old : ZeroingString} (new : ZeroingString) {c : Bytes}
    {orig : WalletSeed} {phrase : ZeroingString} (h : Opens env d old c orig phrase)
    (hrename : env.fault .backingUp .rename = false) {r : Except SeedError WalletSeed}
    {d' : DataDir}
    (hinit : WalletSeed.initFile env 0 (some phrase) new false (d.createDirAll.moved c) = (r, d')) :
    changePassword env old new d = confirm env d.freeBackup orig new d' := by
  have hrun : WalletSeed.fromFile env .opening old d = (.ok orig, d.createDirAll) := by
    rw [fromFile_run h.reads h.content, h.parse]
  have hbackup : WalletSeed.backupSeed env d.createDirAll
      = (.ok d.freeBackup, d.createDirAll.moved c) := by
    simp only [WalletSeed.backupSeed, DataDir.createDirAll_files, h.content, hrename]
    rfl
  have hdelete : WalletSeed.deleteSeedFile env (d.createDirAll.moved c)
      = (.ok (), d.createDirAll.moved c) := by
    unfold WalletSeed.deleteSeedFile
    rw [Eff.run_bind_ok (Eff.run_read _), DataDir.present_eq_false DataDir.moved_walletSeed]
    rfl
  have hattempt : Eff.attempt (WalletSeed.initFile env 0 (some phrase) new false)
      (d.createDirAll.moved c) = (.ok r, d') := by rw [Eff.attempt, hinit]
  unfold changePassword
  rw [Eff.run_bind_ok (orLifecycle_ok hrun), h.mnemonic,
    Eff.run_bind_ok (orLifecycle_ok (Eff.run_ofExcept _ _)), Eff.run_bind_ok (orLifecycle_ok hbackup),
    Eff.run_bind_ok (orLifecycle_ok hdelete), Eff.run_bind_ok hattempt]
  rfl

/-- Changing the password keeps the seed exactly under that condition. -/
theorem change_keeps_iff (env : SeedEnv) (d : DataDir) (old new : ZeroingString) :
    SeedKept (Reencrypted env old new) d (changePassword env old new d).2
        (changePassword env old new d).1 ↔
      ChangeKeeps env d old new := by
  by_cases hopens : ∃ c orig phrase, Opens env d old c orig phrase ∧
      env.fault .backingUp .rename = false
  · obtain ⟨c, orig, phrase, hopen, hrename⟩ := hopens
    have hkeeps : ChangeKeeps env d old new ↔ env.fault .initializing .createDirAll = false ∧
        ∃ json, Restores env phrase new json ∧ (left env json = c ∨ Reads env .verifying ∧
          WalletSeed.parse env (left env json) new = .ok orig ∧
          env.fault .confirming .remove = false) := by
      constructor
      · exact fun h => h c orig phrase hopen hrename
      · intro h c' orig' phrase' hopen' _
        obtain ⟨rfl, rfl, rfl⟩ := Opens.unique hopen hopen'
        exact h
    rw [hkeeps]
    rcases initFile_cases env phrase new (DataDir.moved_walletSeed (d := d.createDirAll) (c := c))
      with ⟨json, r, d', ⟨hdir, hjson⟩, hinit, hleft, hbackups⟩ | ⟨hnot, r, d', hinit, hd'⟩
    · rw [changePassword_moved new hopen hrename hinit]
      rcases confirm_cases env d.freeBackup orig new d' with
        ⟨⟨hreads, ⟨c', hc', hparse⟩, hremove⟩, hrun⟩ | ⟨hnot, e, d'', hrun, hd''⟩
      · -- confirmed: the backup goes, the seed is in the new file
        rw [hleft] at hc'
        cases hc'
        rw [hrun]
        refine iff_of_true ⟨(fun _ h => nomatch h), fun i b hb => ?_, fun c' hc' => ?_⟩
          ⟨hdir, json, hjson, .inr ⟨hreads, hparse, hremove⟩⟩
        · have hne : FileName.backup i ≠ .backup d.freeBackup := by
            intro heq
            rw [heq, DataDir.freeBackup_free] at hb
            cases hb
          rw [DataDir.erase_files_of_ne hne, DataDir.createDirAll_files, hbackups]
          exact DataDir.moved_kept (d := d.createDirAll) hb
        · rw [hopen.content] at hc'
          cases hc'
          refine .inr ⟨rfl, orig, left env json, hopen.parse, ?_, hparse⟩
          rw [DataDir.erase_files_of_ne (by simp), DataDir.createDirAll_files, hleft]
      · rw [hrun, seedKept_error_iff hopen.content fun i => by rw [hd'', hbackups]; rfl, hd'', hleft,
          Option.some.injEq]
        constructor
        · intro h
          exact ⟨hdir, json, hjson, .inl h⟩
        · rintro ⟨-, json', hjson', h⟩
          rw [← Restores.unique hjson hjson'] at h
          rcases h with h | ⟨hreads, hparse, hremove⟩
          · exact h
          · exact absurd ⟨hreads, ⟨_, hleft, hparse⟩, hremove⟩ hnot
    · -- nothing was created
      rw [changePassword_moved new hopen hrename hinit]
      have habsent : d'.files .walletSeed = none := by rw [hd', DataDir.moved_walletSeed]
      refine iff_of_false (fun h => ?_) fun h => hnot ⟨h.1, h.2.imp fun _ hj => hj.1⟩
      rcases confirm_cases env d.freeBackup orig new d' with
        ⟨⟨-, ⟨c', hc', -⟩, -⟩, -⟩ | ⟨-, e, d'', hrun, hd''⟩
      · rw [habsent] at hc'
        cases hc'
      · rw [hrun, seedKept_error_iff hopen.content fun i => by rw [hd'', hd']; rfl, hd'',
          habsent] at h
        cases h
  · obtain ⟨e, d', hrun, hd'⟩ := changePassword_stuck new hopens
    rw [hrun]
    exact iff_of_true (.of_files_eq hd') fun c orig phrase h hrename =>
      absurd ⟨c, orig, phrase, h, hrename⟩ hopens

/-- The two calls keep the seed exactly under their conditions. -/
theorem seed_is_kept_iff (env : SeedEnv) (d : DataDir) :
    (∀ wordList password,
      SeedKept (fun _ _ => False) d (WalletSeed.recoverFromPhrase env wordList password d).2
          (WalletSeed.recoverFromPhrase env wordList password d).1 ↔
        RecoverKeeps env d wordList password) ∧
    ∀ old new,
      SeedKept (Reencrypted env old new) d (changePassword env old new d).2
          (changePassword env old new d).1 ↔
        ChangeKeeps env d old new :=
  ⟨recover_keeps_iff env d, change_keeps_iff env d⟩

/-! ## A phrase that is no mnemonic -/

/-- Nothing fails, but no phrase is a mnemonic. -/
def noMnemonics : SeedEnv where
  fault _ _ := false
  torn := id
  toEntropy _ := none
  fromEntropy _ := none
  initNew _ _ password := password
  salt := List.replicate 8 1
  nonce := List.replicate 12 1
  pbkdf2 _ password := password
  sealInPlace _ _ bytes := some (bytes ++ List.replicate 16 0)
  openInPlace _ _ bytes := some bytes
  toHex := id
  fromHex := some
  toStringPretty enc := some enc.encryptedSeed
  fromStr bytes := some ⟨bytes, [], List.replicate 12 1⟩

/-- A directory with nothing but a seed file. -/
def seedOnly (content : Bytes) : DataDir where
  dirExists := true
  files name := if name = .walletSeed then some content else none
  finite := ⟨0, fun _ _ => rfl⟩
  in_dir h := nomatch h

/-- A phrase with a mistake in it leaves the wallet without its seed file. -/
theorem mistyped_phrase_moves_seed_away :
    let after := WalletSeed.recoverFromPhrase noMnemonics [120] [121] (seedOnly [1, 2, 3])
    after.1 = .error .Mnemonic ∧ after.2.files .walletSeed = none ∧
      (seedOnly [1, 2, 3]).files .walletSeed = some [1, 2, 3] :=
  ⟨rfl, rfl, rfl⟩

end SeedFile

end GrinWallet
