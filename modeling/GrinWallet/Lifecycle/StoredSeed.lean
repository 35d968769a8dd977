import GrinWallet.Lifecycle.Sessions

/-! # The seed a wallet opens with

What a successful call wrote to the seed file is what the file still holds when the wallet is opened
under that password, whatever calls that do not write it came in between; changing the password
keeps the seed. Nothing is said of the file after a call that may have written it and failed.
-/

namespace GrinWallet.Lifecycle

open Effect SeedFile Wire

variable {E R H : Type} {K : KeyEnv R H}

/-! ## Reading what was written -/

/-- The codes and the cipher read back what they made. -/
structure LawfulTools (tools : SeedEnv) : Prop where
  open_seal : ∀ {key nonce msg sealed}, tools.sealInPlace key nonce msg = some sealed →
    ∃ tag, tag.length = 16 ∧ tools.openInPlace key nonce sealed = some (msg ++ tag)
  hex : ∀ bs, tools.fromHex (tools.toHex bs) = some bs
  json : ∀ {enc text}, tools.toStringPretty enc = some text → tools.fromStr text = some enc

/-- A call runs with these codes and this cipher; its random draws and what fails are its own. -/
structure RunsWith (tools env : SeedEnv) : Prop where
  nonce_length : env.nonce.length = 12
  pbkdf2 : env.pbkdf2 = tools.pbkdf2
  sealInPlace : env.sealInPlace = tools.sealInPlace
  openInPlace : env.openInPlace = tools.openInPlace
  toHex : env.toHex = tools.toHex
  fromHex : env.fromHex = tools.fromHex
  toStringPretty : env.toStringPretty = tools.toStringPretty
  fromStr : env.fromStr = tools.fromStr

section Tools

variable {tools env : SeedEnv} {seed : WalletSeed} {password : ZeroingString} {json : Bytes}

theorem parse_tools (h : RunsWith tools env) : WalletSeed.parse env = WalletSeed.parse tools := by
  unfold WalletSeed.parse EncryptedWalletSeed.decrypt
  rw [h.fromStr, h.fromHex, h.pbkdf2, h.openInPlace]

theorem decrypt_fromSeed (hlaw : LawfulTools tools) (h : RunsWith tools env)
    {enc : EncryptedWalletSeed} (henc : EncryptedWalletSeed.fromSeed env seed password = .ok enc) :
    enc.decrypt tools password = .ok seed := by
  unfold EncryptedWalletSeed.fromSeed at henc
  rw [h.sealInPlace, h.toHex, h.pbkdf2] at henc
  dsimp only at henc
  cases hseal : tools.sealInPlace (tools.pbkdf2 env.salt password) env.nonce seed with
  | none =>
      rw [hseal] at henc
      cases henc
  | some sealed =>
      rw [hseal] at henc
      cases henc
      obtain ⟨tag, htag, hopen⟩ := hlaw.open_seal hseal
      have hlong : ¬ env.nonce.length < 12 := by
        rw [h.nonce_length]
        omega
      have hall : env.nonce.take 12 = env.nonce := List.take_of_length_le (by rw [h.nonce_length])
      have hmsg : (seed ++ tag).take ((seed ++ tag).length - 16) = seed := by
        rw [List.length_append, htag, Nat.add_sub_cancel, List.take_left]
      simp only [EncryptedWalletSeed.decrypt, hlaw.hex, Option.elim, bind, Except.bind,
        if_neg hlong, hall, hopen, hmsg]

/-- What a seed was written as gives it back, for the password it was written with. -/
theorem parse_of_encodes (hlaw : LawfulTools tools) (h : RunsWith tools env)
    (hencodes : Encodes env seed password json) :
    WalletSeed.parse tools json password = .ok seed := by
  obtain ⟨enc, henc, hjson⟩ := hencodes
  rw [h.toStringPretty] at hjson
  unfold WalletSeed.parse
  rw [hlaw.json hjson]
  exact decrypt_fromSeed hlaw h henc

end Tools

/-! ## The calls that write the seed file -/

section Writing

variable {env : SeedEnv} {password : ZeroingString} {d d' : DataDir}

/-- The seed file holds what the seed was written as. -/
def Wrote (env : SeedEnv) (seed : WalletSeed) (password : ZeroingString) (d : DataDir) : Prop :=
  ∃ json, Encodes env seed password json ∧ d.files .walletSeed = some json

theorem writeSeedFile_eq_ok {seed : WalletSeed} {u : Unit}
    (h : WalletSeed.writeSeedFile env seed password d = (.ok u, d')) :
    Wrote env seed password d' := by
  obtain ⟨enc, d₁, henc, h⟩ := Eff.bind_eq_ok.mp h
  obtain ⟨json, d₂, hjson, h⟩ := Eff.bind_eq_ok.mp h
  obtain ⟨_, d₃, -, h⟩ := Eff.bind_eq_ok.mp h
  obtain ⟨henc, -⟩ := Eff.ofExcept_eq_ok.mp henc
  obtain ⟨hjson, -⟩ := Eff.ofExcept_eq_ok.mp hjson
  refine ⟨json, ⟨enc, henc, elim_eq_ok hjson⟩, ?_⟩
  unfold writeAll at h
  cases hfault : env.fault .initializing .write with
  | true =>
      rw [hfault] at h
      cases h
  | false =>
      rw [hfault] at h
      cases h
      exact DataDir.put_files_self

/-- The seed of a new wallet. -/
def createdSeed (env : SeedEnv) (mnemonic : Option ZeroingString) (mnemonicLength : Nat)
    (password : ZeroingString) (testMode : Bool) : Option WalletSeed :=
  match mnemonic with
  | some m => env.toEntropy m
  | none => some (env.initNew mnemonicLength testMode password)

theorem initFile_eq_ok {mnemonicLength : Nat} {mnemonic : Option ZeroingString} {testMode : Bool}
    {seed : WalletSeed}
    (h : WalletSeed.initFile env mnemonicLength mnemonic password testMode d = (.ok seed, d')) :
    createdSeed env mnemonic mnemonicLength password testMode = some seed ∧
      Wrote env seed password d' := by
  obtain ⟨_, d₁, -, h⟩ := Eff.bind_eq_ok.mp h
  obtain ⟨_, d₂, -, h⟩ := Eff.bind_eq_ok.mp h
  obtain ⟨_, d₃, -, h⟩ := Eff.bind_eq_ok.mp h
  obtain ⟨seed', d₄, hseed, h⟩ := Eff.bind_eq_ok.mp h
  obtain ⟨_, d₅, hwrite, h⟩ := Eff.bind_eq_ok.mp h
  cases h
  obtain ⟨hseed, -⟩ := Eff.ofExcept_eq_ok.mp hseed
  refine ⟨?_, writeSeedFile_eq_ok hwrite⟩
  cases mnemonic with
  | none =>
      cases hseed
      rfl
  | some m => exact elim_eq_ok hseed

theorem restore_eq_ok {mnemonic : ZeroingString} {u : Unit}
    (h : restore env mnemonic password d = (.ok u, d')) :
    ∃ seed, env.toEntropy mnemonic = some seed ∧ Wrote env seed password d' := by
  obtain ⟨_, d₁, -, h⟩ := Eff.bind_eq_ok.mp h
  obtain ⟨_, d₂, -, h⟩ := Eff.bind_eq_ok.mp h
  obtain ⟨seed, d₃, hseed, h⟩ := Eff.bind_eq_ok.mp h
  obtain ⟨hseed, -⟩ := Eff.ofExcept_eq_ok.mp hseed
  exact ⟨seed, elim_eq_ok hseed, writeSeedFile_eq_ok h⟩

theorem recoverFromPhrase_eq_ok {mnemonic : ZeroingString} {u : Unit}
    (h : WalletSeed.recoverFromPhrase env mnemonic password d = (.ok u, d')) :
    ∃ seed, env.toEntropy mnemonic = some seed ∧ Wrote env seed password d' := by
  cases hc : d.files .walletSeed with
  | none =>
      rw [recoverFromPhrase_absent hc] at h
      exact restore_eq_ok h
  | some c =>
      cases hrename : env.fault .backingUp .rename with
      | false =>
          rw [recoverFromPhrase_present hc hrename] at h
          exact restore_eq_ok h
      | true =>
          obtain ⟨e, herror⟩ :=
            @recoverFromPhrase_stuck env mnemonic password d c hc hrename
          rw [herror] at h
          cases h

/-- A password change that succeeds has read the seed under both passwords. -/
theorem changePassword_eq_ok {old new : ZeroingString} {u : Unit}
    (h : SeedFile.changePassword env old new d = (.ok u, d')) :
    ∃ c, d.files .walletSeed = some c ∧ Reencrypted env old new c d' := by
  obtain ⟨orig, d₁, horig, h⟩ := Eff.bind_eq_ok.mp h
  obtain ⟨_, d₂, -, h⟩ := Eff.bind_eq_ok.mp h
  obtain ⟨i, d₃, -, h⟩ := Eff.bind_eq_ok.mp h
  obtain ⟨_, d₄, -, h⟩ := Eff.bind_eq_ok.mp h
  obtain ⟨_, d₅, -, h⟩ := Eff.bind_eq_ok.mp h
  obtain ⟨seed, d₆, hseed, h⟩ := Eff.bind_eq_ok.mp h
  obtain ⟨_, d₇, hthrow, hremove⟩ := Eff.bind_eq_ok.mp h
  obtain ⟨hsame, hd₇⟩ := Eff.throwIf_eq_ok.mp hthrow
  obtain ⟨⟨c, hc, hparse⟩, -⟩ := fromFile_eq_ok (orLifecycle_eq_ok horig)
  obtain ⟨⟨c', hc', hparse'⟩, -, hd₆⟩ := fromFile_eq_ok (orLifecycle_eq_ok hseed)
  have heq : orig = seed := by
    by_contra hne
    exact hsame hne
  refine ⟨c, hc, orig, c', hparse, ?_, heq ▸ hparse'⟩
  cases hfault : env.fault .confirming .remove with
  | true =>
      rw [fsOp_error hfault] at hremove
      cases hremove
  | false =>
      rw [fsOp_ok hfault] at hremove
      cases hremove
      rw [DataDir.erase_files_of_ne (by simp), hd₇, hd₆, DataDir.createDirAll_files, hc']

end Writing

/-! ## What is stored -/

/-- A seed, and the password it is stored under. -/
structure Stored where
  seed : WalletSeed
  password : ZeroingString
deriving DecidableEq

/-- What a call that succeeded wrote, or a call that does not write the seed file left. -/
def Event.stored (ev : Event E R H) (last : Option Stored) : Option Stored :=
  match ev.call with
  | .createWallet env _ mnemonic mnemonicLength password testMode =>
      match ev.result with
      | .ok _ => (createdSeed env mnemonic mnemonicLength password testMode).map (Stored.mk · password)
      -- a wallet that is there is written over in test mode only
      | .error _ => if testMode then none else last
  | .openWallet .. => last
  | .closeWallet => last
  | .recoverFromMnemonic env mnemonic password =>
      match ev.result with
      | .ok _ => (env.toEntropy mnemonic).map (Stored.mk · password)
      | .error _ => none
  | .changePassword _ old new =>
      match ev.result with
      | .ok _ => (last.filter fun s => s.password = old).map fun s => ⟨s.seed, new⟩
      | .error _ => none

def lastStored (evs : List (Event E R H)) (last : Option Stored) : Option Stored :=
  evs.foldl (fun last ev => ev.stored last) last

/-- The seed file holds what is stored. -/
def Keeps (tools : SeedEnv) (d : DataDir) (s : Stored) : Prop :=
  ∃ c, d.files .walletSeed = some c ∧ WalletSeed.parse tools c s.password = .ok s.seed

def Call.RunsWith (tools : SeedEnv) : Call → Prop
  | .createWallet env .. => Lifecycle.RunsWith tools env
  | .openWallet env .. => Lifecycle.RunsWith tools env
  | .closeWallet => True
  | .recoverFromMnemonic env .. => Lifecycle.RunsWith tools env
  | .changePassword env .. => Lifecycle.RunsWith tools env

section Step

variable {tools env : SeedEnv} {seed : WalletSeed} {password : ZeroingString} {d d' : DataDir}
  {s : Stored}

theorem keeps_of_wrote (hlaw : LawfulTools tools) (h : RunsWith tools env)
    (hwrote : Wrote env seed password d) : Keeps tools d ⟨seed, password⟩ := by
  obtain ⟨json, hencodes, hfile⟩ := hwrote
  exact ⟨json, hfile, parse_of_encodes hlaw h hencodes⟩

theorem Keeps.of_files_eq (h : Keeps tools d s) (hd : d'.files = d.files) : Keeps tools d' s := by
  obtain ⟨c, hc, hparse⟩ := h
  exact ⟨c, by rw [hd, hc], hparse⟩

theorem Keeps.present (h : Keeps tools d s) : d.present .walletSeed = true := by
  obtain ⟨c, hc, -⟩ := h
  rw [DataDir.present, hc]
  rfl

theorem Keeps.reencrypted {new : ZeroingString} {c : Bytes} (h : Keeps tools d s)
    (henv : RunsWith tools env) (hc : d.files .walletSeed = some c)
    (hnew : Reencrypted env s.password new c d') : Keeps tools d' ⟨s.seed, new⟩ := by
  obtain ⟨c₀, hc₀, hparse₀⟩ := h
  obtain ⟨seed, c', hparse, hc', hparse'⟩ := hnew
  rw [hc] at hc₀
  cases hc₀
  rw [parse_tools henv, hparse₀] at hparse
  cases hparse
  exact ⟨c', hc', by rw [← parse_tools henv, hparse']⟩

end Step

/-- A part of a call that leaves the files. -/
def SameFiles (p p' : Provider E R H) : Prop := p'.dir.files = p.dir.files

instance sameFiles_refl : Std.Refl (SameFiles (E := E) (R := R) (H := H)) := ⟨fun _ => rfl⟩

instance sameFiles_trans : IsTrans (Provider E R H) SameFiles :=
  ⟨fun _ _ _ h h' => h'.trans h⟩

theorem newBackend_sameFiles (reason : String) (faults : DbFaults) :
    Eff.Moves SameFiles (newBackend reason faults : LcM E R H Unit) :=
  (Eff.Moves.throwIf _).bind fun _ => Eff.Moves.modify fun _ => rfl

theorem orLifecycle_dir {α : Type} {x : SeedM α} {reason : String} {d : DataDir} :
    (orLifecycle reason x d).2 = (x d).2 := by
  cases hx : x d with
  | mk r d' =>
      cases r with
      | ok a => rw [orLifecycle_ok hx]
      | error e =>
          have herror : ∃ e', orLifecycle reason x d = (.error e', d') := orLifecycle_error hx
          obtain ⟨e', he'⟩ := herror
          rw [he']

theorem fromFile_files (env : SeedEnv) (phase : Phase) (password : ZeroingString) (d : DataDir) :
    (WalletSeed.fromFile env phase password d).2.files = d.files := by
  rcases fromFile_cases env phase password d with
    ⟨seed, -, -, hrun⟩ | ⟨-, e, d', hrun, hfiles⟩
  · rw [hrun, DataDir.createDirAll_files]
  · rw [hrun, hfiles]

theorem onSeed_dir {α : Type} (x : SeedM α) (p : Provider E R H) :
    (onSeed x p).2.dir = (x p.dir).2 := by
  unfold onSeed
  cases hx : x p.dir with
  | mk r dir => cases r <;> rfl

theorem openWallet_sameFiles (env : SeedEnv) (faults : DbFaults) (password : ZeroingString)
    (mask : Option SecretKey) :
    Eff.Moves SameFiles
      (openWallet K env faults password mask : LcM E R H (Option SecretKey)) := by
  have hread : Eff.Moves SameFiles (onSeed (orLifecycle "Error opening wallet (is password correct?)"
      (WalletSeed.fromFile env .opening password)) : LcM E R H WalletSeed) := by
    intro p
    show _ = p.dir.files
    rw [onSeed_dir, orLifecycle_dir, fromFile_files]
  have hopen : Eff.Moves SameFiles
      (openBackend K env faults password mask : LcM E R H (Backend R H × Option SecretKey)) :=
    (newBackend_sameFiles _ _).bind fun _ => hread.bind fun _ =>
      (Eff.Moves.ofExcept _).bind fun _ => Eff.Moves.ofExcept _
  exact hopen.bind fun _ _ => rfl

/-- What creating a wallet wrote. -/
theorem createWallet_eq_ok {env : SeedEnv} {faults : DbFaults} {mnemonic : Option ZeroingString}
    {mnemonicLength : Nat} {password : ZeroingString} {testMode : Bool} {p p' : Provider E R H}
    {u : Unit}
    (h : createWallet env faults mnemonic mnemonicLength password testMode p = (.ok u, p')) :
    ∃ seed, createdSeed env mnemonic mnemonicLength password testMode = some seed ∧
      Wrote env seed password p'.dir := by
  obtain ⟨_, p₁, -, h⟩ := Eff.bind_eq_ok.mp h
  obtain ⟨_, p₂, -, h⟩ := Eff.bind_eq_ok.mp h
  obtain ⟨seed, p₃, hinit, h⟩ := Eff.bind_eq_ok.mp h
  obtain ⟨_, p₄, hnew, h⟩ := Eff.bind_eq_ok.mp h
  obtain ⟨_, p₅, hthrow, hsave⟩ := Eff.bind_eq_ok.mp h
  obtain ⟨-, h₅⟩ := Eff.throwIf_eq_ok.mp hthrow
  cases hsave
  obtain ⟨hseed, json, hencodes, hfile⟩ := initFile_eq_ok (orLifecycle_eq_ok (onSeed_eq_ok hinit))
  have hsame : SameFiles p₃ p₄ := (newBackend_sameFiles _ _).of_run hnew
  refine ⟨seed, hseed, json, hencodes, ?_⟩
  rw [← hfile, h₅]
  exact congrFun hsame _

/-- A wallet is not created over another. -/
theorem createWallet_refused {env : SeedEnv} {faults : DbFaults} {mnemonic : Option ZeroingString}
    {mnemonicLength : Nat} {password : ZeroingString} {p : Provider E R H}
    (h : p.dir.present .walletSeed = true) :
    createWallet env faults mnemonic mnemonicLength password false p
      = (.error (.Seed .WalletSeedExists), p) := by
  unfold createWallet
  rw [Eff.run_bind_ok (Eff.run_read _)]
  refine Eff.run_bind_error ?_
  rw [Eff.throwIf, if_pos ⟨rfl, h⟩, Eff.run_throw]

/-- What one call that succeeded answered, when it answers with no mask. -/
theorem then_none_eq_ok {x : LcM E R H Unit} {p p' : Provider E R H} {r : Option SecretKey}
    (h : (do x; return none : LcM E R H (Option SecretKey)) p = (.ok r, p')) :
    x p = (.ok (), p') := by
  obtain ⟨_, p₁, hx, h⟩ := Eff.bind_eq_ok.mp h
  cases h
  exact hx

/-- The seed file holds what the events say is stored in it. -/
def Holding (tools : SeedEnv) (p : Provider E R H) (last : Option Stored) : Prop :=
  ∀ s ∈ last, Keeps tools p.dir s

theorem Holding.of_sameFiles {tools : SeedEnv} {p p' : Provider E R H} {last : Option Stored}
    (h : Holding tools p last) (hp : SameFiles p p') : Holding tools p' last :=
  fun s hs => (h s hs).of_files_eq hp

theorem Holding.of_wrote {tools env : SeedEnv} (hlaw : LawfulTools tools) (henv : RunsWith tools env)
    {p : Provider E R H} {source : Option WalletSeed} {seed : WalletSeed} {password : ZeroingString}
    (hseed : source = some seed) (hwrote : Wrote env seed password p.dir) :
    Holding tools p (source.map (Stored.mk · password)) := by
  intro s hs
  obtain ⟨seed', hseed', rfl⟩ := Option.mem_map.mp hs
  rw [hseed] at hseed'
  cases hseed'
  exact keeps_of_wrote hlaw henv hwrote

/-- What one call does to the stored seed. -/
theorem Holding.step {tools : SeedEnv} (hlaw : LawfulTools tools) {p : Provider E R H}
    {last : Option Stored} (h : Holding tools p last) {call : Call} (hcall : call.RunsWith tools) :
    Holding tools (call.run K p).2 (Event.stored ⟨p, call, (call.run K p).1⟩ last) := by
  cases call with
  | createWallet env faults mnemonic mnemonicLength password testMode =>
      cases hrun : (Call.createWallet env faults mnemonic mnemonicLength password testMode).run K p with
      | mk r p' =>
          cases r with
          | ok given =>
              obtain ⟨seed, hseed, hwrote⟩ := createWallet_eq_ok (then_none_eq_ok hrun)
              exact Holding.of_wrote hlaw hcall hseed hwrote
          | error e =>
              cases testMode with
              | true =>
                  intro s hs
                  cases hs
              | false =>
                  intro s hs
                  have hkeeps : Keeps tools p.dir s := h s hs
                  have hrefused : (Call.createWallet env faults mnemonic mnemonicLength password
                      false).run K p = (.error (.Seed .WalletSeedExists), p) :=
                    Eff.run_bind_error (createWallet_refused hkeeps.present)
                  rw [hrefused] at hrun
                  cases hrun
                  exact hkeeps
  | openWallet env faults password mask =>
      exact h.of_sameFiles (openWallet_sameFiles env faults password mask p)
  | closeWallet => exact h
  | recoverFromMnemonic env mnemonic password =>
      cases hrun : (Call.recoverFromMnemonic env mnemonic password).run K p with
      | mk r p' =>
          cases r with
          | ok given =>
              obtain ⟨seed, hseed, hwrote⟩ := recoverFromPhrase_eq_ok
                (orLifecycle_eq_ok (onSeed_eq_ok (then_none_eq_ok hrun)))
              exact Holding.of_wrote hlaw hcall hseed hwrote
          | error e =>
              intro s hs
              cases hs
  | changePassword env old new =>
      cases hrun : (Call.changePassword env old new).run K p with
      | mk r p' =>
          cases r with
          | ok given =>
              obtain ⟨c, hc, hnew⟩ := changePassword_eq_ok (onSeed_eq_ok (then_none_eq_ok hrun))
              intro s hs
              obtain ⟨s₀, hs₀, rfl⟩ := Option.mem_map.mp hs
              obtain ⟨hlast, hold⟩ := Option.mem_filter_iff.mp hs₀
              have hpassword : s₀.password = old := by simpa using hold
              subst hpassword
              exact (h s₀ hlast).reencrypted hcall hc hnew
          | error e =>
              intro s hs
              cases hs

theorem Holding.run {tools : SeedEnv} (hlaw : LawfulTools tools) {p : Provider E R H}
    {last : Option Stored} (h : Holding tools p last) {calls : List Call}
    (hcalls : ∀ call ∈ calls, call.RunsWith tools) :
    Holding tools (runCalls K calls p).2 (lastStored (runCalls K calls p).1 last) := by
  induction calls generalizing p last with
  | nil => exact h
  | cons call calls ih =>
      have hstep := h.step (K := K) hlaw (hcalls call List.mem_cons_self)
      exact ih hstep fun c hc => hcalls c (List.mem_cons_of_mem call hc)

/-! ## Opening it -/

section Opening

variable {tools env : SeedEnv} {faults : DbFaults} {password : ZeroingString}
  {mask : Option SecretKey} {p : Provider E R H} {s : Stored} {k : MasterKey R} {checksum : H}

theorem Keeps.unlocks_iff {d : DataDir} (h : Keeps tools d s) (henv : RunsWith tools env) :
    Unlocks K env d s.password k ↔ K.deriveKeychain s.seed = some k := by
  obtain ⟨c, hc, hparse⟩ := h
  constructor
  · intro hunlocks
    obtain ⟨c', seed, hc', hparse', hderive⟩ := hunlocks.seed
    rw [hc] at hc'
    cases hc'
    rw [parse_tools henv, hparse] at hparse'
    cases hparse'
    exact hderive
  · intro hderive
    exact ⟨c, s.seed, hc, by rw [parse_tools henv, hparse], hderive⟩

theorem onSeed_ok {α : Type} {x : SeedM α} {a : α} {d : DataDir} (h : x p.dir = (.ok a, d)) :
    onSeed x p = (.ok a, { p with dir := d }) := by
  rw [onSeed, h]

/-- Opening returns when nothing fails and the seed is there. -/
theorem openWallet_returns (hfault : faults.opening = false) (hreads : Reads env .opening)
    (hunlocks : Unlocks K env p.dir password k) (hroot : K.rootHash k = .ok checksum) :
    ∃ given p', openWallet K env faults password mask p = (.ok given, p') := by
  obtain ⟨c, seed, hc, hparse, hderive⟩ := hunlocks.seed
  obtain ⟨p₁, hp₁⟩ : ∃ p₁ : Provider E R H, p₁ = { p with
      dir := p.dir.createDirAll
      db := p.db.saveAcctPath ⟨"default".toList, defaultPath⟩ } := ⟨_, rfl⟩
  have hnew : newBackend "Error opening wallet" faults p = (.ok (), p₁) := by
    have hthere : Eff.throwIf (faults.opening = true) (LcError.lifecycle "Error opening wallet") p
        = (.ok (), p) := Eff.throwIf_eq_ok.mpr ⟨by simp [hfault], rfl⟩
    rw [hp₁]
    exact Eff.run_bind_ok hthere
  have hfile : WalletSeed.fromFile env .opening password p₁.dir = (.ok seed, p₁.dir.createDirAll) := by
    rw [fromFile_run hreads (by rw [hp₁]; exact hc), hparse]
  have hset : ∃ r, Backend.setKeychain K k mask = .ok r := by
    unfold Backend.setKeychain
    rw [hroot]
    cases mask <;> exact ⟨_, rfl⟩
  obtain ⟨r, hr⟩ := hset
  obtain ⟨p₂, hp₂⟩ : ∃ p₂ : Provider E R H, p₂ = { p₁ with dir := p₁.dir.createDirAll } := ⟨_, rfl⟩
  have hopen : openBackend K env faults password mask p = (.ok r, p₂) := by
    unfold openBackend
    rw [Eff.run_bind_ok hnew, Eff.run_bind_ok (onSeed_ok (orLifecycle_ok hfile)), hderive, ← hp₂]
    exact (Eff.run_bind_ok (Eff.run_ofExcept _ _)).trans (by rw [hr, Eff.run_ofExcept])
  exact Eff.exists_run_bind_ok hopen ⟨_, _, rfl⟩

/-- Under the password of the stored seed a wallet opens exactly when the database opens, the seed
file is read and the seed has a keychain; and that keychain is what the mask gives. -/
def OpensTo [DecidableEq H] (K : KeyEnv R H) (env : SeedEnv) (faults : DbFaults)
    (p : Provider E R H) (s : Stored) (mask : Option SecretKey) : Prop :=
  let opened := openWallet K env faults s.password mask p
  (∀ given, opened.1 = .ok given ↔ given = mask ∧ faults.opening = false ∧ Reads env .opening ∧
    ∃ k checksum, K.deriveKeychain s.seed = some k ∧ K.rootHash k = .ok checksum) ∧
  ∀ given k, opened.1 = .ok given → K.deriveKeychain s.seed = some k →
    (keychain K given opened.2).1 = .ok k

theorem Keeps.opensTo [DecidableEq H] (h : Keeps tools p.dir s) (henv : RunsWith tools env)
    (faults : DbFaults) (mask : Option SecretKey) : OpensTo K env faults p s mask := by
  refine ⟨fun given => ⟨fun hopen => ?_, ?_⟩, fun given k hopen hderive => ?_⟩
  · have hrun : openWallet K env faults s.password mask p
        = (.ok given, (openWallet K env faults s.password mask p).2) := Prod.ext hopen rfl
    obtain ⟨hgiven, hfault, hreads, k, checksum, hunlocks, hroot, -⟩ := openWallet_eq_ok hrun
    exact ⟨hgiven, hfault, hreads, k, checksum, (h.unlocks_iff henv).mp hunlocks, hroot⟩
  · rintro ⟨rfl, hfault, hreads, k, checksum, hderive, hroot⟩
    have hreturns : ∃ given' p', openWallet K env faults s.password given p = (.ok given', p') :=
      openWallet_returns hfault hreads ((h.unlocks_iff henv).mpr hderive) hroot
    obtain ⟨given', p', hrun⟩ := hreturns
    obtain ⟨rfl, -⟩ := openWallet_eq_ok hrun
    exact congrArg Prod.fst hrun
  · have hrun : openWallet K env faults s.password mask p
        = (.ok given, (openWallet K env faults s.password mask p).2) := Prod.ext hopen rfl
    obtain ⟨rfl, -, -, k', checksum, hunlocks, hroot, hback⟩ := openWallet_eq_ok hrun
    have hsame : K.deriveKeychain s.seed = some k' := (h.unlocks_iff henv).mp hunlocks
    rw [hderive] at hsame
    cases hsame
    exact (keychain_open hback hroot).mpr ⟨(MasterKey.mask_xor_eq_self.mpr rfl).symm, rfl⟩

end Opening

/-- After any calls the wallet opens with the seed that is stored, under its password. -/
theorem wallet_opens_with_stored_seed [DecidableEq H] (K : KeyEnv R H) {tools : SeedEnv}
    (hlaw : LawfulTools tools) (p : Provider E R H) {calls : List Call}
    (hcalls : ∀ call ∈ calls, call.RunsWith tools) {s : Stored}
    (hs : lastStored (runCalls K calls p).1 none = some s) {env : SeedEnv}
    (henv : RunsWith tools env) (faults : DbFaults) (mask : Option SecretKey) :
    OpensTo K env faults (runCalls K calls p).2 s mask := by
  have hnothing : Holding tools p none := fun s hs => by cases hs
  exact (hnothing.run hlaw hcalls s hs).opensTo henv faults mask

/-- Every byte string is a mnemonic, and nothing is encrypted. -/
def plainTools : SeedEnv := { noMnemonics with
  toEntropy := some
  fromEntropy := some
  toStringPretty := fun enc =>
    if enc.salt.length = 8 ∧ enc.nonce.length = 12 then
      some (enc.salt ++ (enc.nonce ++ enc.encryptedSeed))
    else none
  fromStr := fun text => some ⟨(text.drop 8).drop 12, text.take 8, (text.drop 8).take 12⟩ }

theorem plainTools_lawful : LawfulTools plainTools where
  open_seal h := by
    cases h
    exact ⟨List.replicate 16 0, rfl, rfl⟩
  hex _ := rfl
  json {enc text} h := by
    change (if enc.salt.length = 8 ∧ enc.nonce.length = 12 then
      some (enc.salt ++ (enc.nonce ++ enc.encryptedSeed)) else none) = some text at h
    by_cases hlen : enc.salt.length = 8 ∧ enc.nonce.length = 12
    · rw [if_pos hlen] at h
      cases h
      change some _ = some enc
      rw [List.drop_left' hlen.1, List.take_left' hlen.1, List.drop_left' hlen.2,
        List.take_left' hlen.2]
    · rw [if_neg hlen] at h
      cases h

theorem plainTools_runsWith : RunsWith plainTools plainTools :=
  ⟨rfl, rfl, rfl, rfl, rfl, rfl, rfl, rfl⟩

/-- A new phrase, then a new password, then an opening that fails. -/
def recoveries : List Call :=
  [.recoverFromMnemonic plainTools [1, 2, 3] [120], .changePassword plainTools [120] [121],
    .openWallet plainTools ⟨true, false⟩ [121] none]

theorem recoveries_runWith : ∀ call ∈ recoveries, call.RunsWith plainTools := by
  simp [recoveries, Call.RunsWith, plainTools_runsWith]

theorem wallet_opens_with_stored_seed_recovered :
    lastStored (runCalls lengthKeys recoveries closedWallet).1 none = some ⟨[1, 2, 3], [121]⟩ ∧
      OpensTo lengthKeys plainTools ⟨false, false⟩ (runCalls lengthKeys recoveries closedWallet).2
        ⟨[1, 2, 3], [121]⟩ (some 5) :=
  ⟨rfl, wallet_opens_with_stored_seed lengthKeys plainTools_lawful closedWallet recoveries_runWith rfl
    plainTools_runsWith ⟨false, false⟩ (some 5)⟩

end GrinWallet.Lifecycle
