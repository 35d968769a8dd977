import GrinWallet.Lifecycle.Seed
import GrinWallet.Model.Lifecycle

/-! # Sessions of a wallet

After any calls, and whatever of them failed, the provider has the keychain that the last
successful opening derived, unless the wallet was closed after it. It is handed out for the mask of
that opening; for another mask only another keychain can come, and only if its root key has the same
hash.
-/

namespace GrinWallet.Lifecycle

open Effect SeedFile

variable {E R H : Type} {K : KeyEnv R H}

/-! ## Masks -/

namespace MasterKey

variable {k : MasterKey R} {m m' : SecretKey}

@[simp] theorem mask_zero : k.mask 0 = k := by simp [mask]

@[simp] theorem mask_mask : (k.mask m).mask m' = k.mask (m ^^^ m') := by
  simp [mask, BitVec.xor_assoc]

theorem mask_inj : k.mask m = k.mask m' ↔ m = m' := by
  constructor
  · intro h
    have hkey : k.secretKey ^^^ m = k.secretKey ^^^ m' := congrArg secretKey h
    exact BitVec.xor_right_inj _ |>.mp hkey
  · intro h
    rw [h]

/-- Masking twice gives the key back exactly if the masks are the same. -/
theorem mask_xor_eq_self : k.mask (m ^^^ m') = k ↔ m' = m := by
  have hzero : k.mask (m ^^^ m') = k ↔ k.mask (m ^^^ m') = k.mask 0 := by rw [mask_zero]
  rw [hzero, mask_inj]
  exact BitVec.xor_eq_zero_iff.trans eq_comm

end MasterKey

/-! ## One backend -/

namespace Backend

/-- What setting a keychain leaves. -/
def masked (k : MasterKey R) (mask : SecretKey) (checksum : H) : Backend R H :=
  ⟨some (k.mask mask), some checksum⟩

theorem setKeychain_eq_ok {k : MasterKey R} {mask : Option SecretKey}
    {r : Backend R H × Option SecretKey} (h : setKeychain K k mask = .ok r) :
    ∃ checksum, K.rootHash k = .ok checksum ∧ r = (masked k (mask.getD 0) checksum, mask) := by
  obtain ⟨checksum, hchecksum, h⟩ := except_bind_eq_ok.mp h
  refine ⟨checksum, hchecksum, ?_⟩
  cases mask with
  | none =>
      cases h
      rw [masked, Option.getD_none, MasterKey.mask_zero]
  | some m =>
      cases h
      rfl

theorem getKeychain_masked [DecidableEq H] (k : MasterKey R) (m : SecretKey) (checksum : H)
    (mask : Option SecretKey) :
    (masked k m checksum).getKeychain K mask = (do
      let c ← K.rootHash (k.mask (m ^^^ mask.getD 0))
      if some checksum ≠ some c then .error .InvalidKeychainMask
      else .ok (k.mask (m ^^^ mask.getD 0))) := by
  unfold getKeychain masked
  cases mask with
  | none =>
      have hkey : k.mask m = k.mask (m ^^^ (none : Option SecretKey).getD 0) := by simp
      rw [← hkey]
  | some m' =>
      have hkey : (k.mask m).mask m' = k.mask (m ^^^ (some m').getD 0) := MasterKey.mask_mask
      rw [← hkey]

/-- The key handed out is the one the mask leaves, if its root key has the hash that was kept. -/
theorem getKeychain_masked_eq_ok [DecidableEq H] {k k' : MasterKey R} {m : SecretKey}
    {checksum : H} {mask : Option SecretKey} :
    (masked k m checksum).getKeychain K mask = .ok k' ↔
      k' = k.mask (m ^^^ mask.getD 0) ∧ K.rootHash k' = .ok checksum := by
  rw [getKeychain_masked, except_bind_eq_ok]
  constructor
  · rintro ⟨c, hc, h⟩
    by_cases hne : some checksum ≠ some c
    · rw [if_pos hne] at h
      cases h
    · rw [if_neg hne] at h
      cases h
      have heq : checksum = c := by simpa using hne
      exact ⟨rfl, by rw [hc, heq]⟩
  · rintro ⟨rfl, hc⟩
    exact ⟨checksum, hc, by rw [if_neg (by simp)]⟩

end Backend

/-! ## One call -/

/-- A part of a call that leaves the backend. -/
def SameBackend (p p' : Provider E R H) : Prop := p'.backend = p.backend

instance sameBackend_refl : Std.Refl (SameBackend (E := E) (R := R) (H := H)) := ⟨fun _ => rfl⟩

instance sameBackend_trans : IsTrans (Provider E R H) SameBackend :=
  ⟨fun _ _ _ h h' => h'.trans h⟩

theorem onSeed_moves {α : Type} (x : SeedM α) :
    Eff.Moves SameBackend (onSeed x : LcM E R H α) := by
  intro p
  unfold onSeed
  cases hx : x p.dir with
  | mk r dir => cases r <;> rfl

theorem newBackend_moves (reason : String) (faults : DbFaults) :
    Eff.Moves SameBackend (newBackend reason faults : LcM E R H Unit) :=
  (Eff.Moves.throwIf _).bind fun _ => Eff.Moves.modify fun _ => rfl

theorem createWallet_moves (env : SeedEnv) (faults : DbFaults) (mnemonic : Option ZeroingString)
    (mnemonicLength : Nat) (password : ZeroingString) (testMode : Bool) :
    Eff.Moves SameBackend
      (createWallet env faults mnemonic mnemonicLength password testMode : LcM E R H Unit) := by
  refine Eff.Moves.read.bind fun p => (Eff.Moves.throwIf _).bind fun _ => ?_
  refine (onSeed_moves _).bind fun _ => (newBackend_moves _ _).bind fun _ => ?_
  exact (Eff.Moves.throwIf _).bind fun _ => Eff.Moves.modify fun _ => rfl

theorem openBackend_moves (env : SeedEnv) (faults : DbFaults) (password : ZeroingString)
    (mask : Option SecretKey) :
    Eff.Moves SameBackend
      (openBackend K env faults password mask : LcM E R H (Backend R H × Option SecretKey)) := by
  refine (newBackend_moves _ _).bind fun _ => (onSeed_moves _).bind fun _ => ?_
  exact (Eff.Moves.ofExcept _).bind fun _ => Eff.Moves.ofExcept _

theorem onSeed_eq_ok {α : Type} {x : SeedM α} {p p' : Provider E R H} {a : α}
    (h : onSeed x p = (.ok a, p')) : x p.dir = (.ok a, p'.dir) := by
  unfold onSeed at h
  cases hx : x p.dir with
  | mk r dir =>
      rw [hx] at h
      cases r with
      | ok b =>
          cases h
          rfl
      | error e => cases h

/-- An error turned into one of the provider stays an error. -/
theorem orLifecycle_eq_ok {α : Type} {x : SeedM α} {reason : String} {d d' : DataDir} {a : α}
    (h : orLifecycle reason x d = (.ok a, d')) : x d = (.ok a, d') := by
  cases hx : x d with
  | mk r m =>
      cases r with
      | ok b =>
          rw [orLifecycle_ok hx] at h
          exact h
      | error e =>
          have herror : ∃ e', orLifecycle reason x d = (.error e', m) := orLifecycle_error hx
          obtain ⟨e', he'⟩ := herror
          rw [he'] at h
          cases h

/-- A seed that was read is what the seed file holds. -/
theorem fromFile_eq_ok {env : SeedEnv} {phase : Phase} {password : ZeroingString} {d d' : DataDir}
    {seed : WalletSeed} (h : WalletSeed.fromFile env phase password d = (.ok seed, d')) :
    (∃ c, d.files .walletSeed = some c ∧ WalletSeed.parse env c password = .ok seed) ∧
      Reads env phase ∧ d' = d.createDirAll := by
  rcases fromFile_cases env phase password d with
    ⟨seed', hseed', hreads, hrun⟩ | ⟨-, e, d'', hrun, -⟩
  · rw [hrun] at h
    cases h
    exact ⟨hseed', hreads, rfl⟩
  · rw [hrun] at h
    cases h

/-- A missing value is an error. -/
theorem elim_eq_ok {α ε : Type} {o : Option α} {e : ε} {a : α}
    (h : o.elim (.error e) .ok = Except.ok a) : o = some a := by
  cases o with
  | none => cases h
  | some b =>
      cases h
      rfl

/-- The keychain of the seed that the password opens in this directory. -/
structure Unlocks (K : KeyEnv R H) (env : SeedEnv) (d : DataDir) (password : ZeroingString)
    (k : MasterKey R) : Prop where
  seed : ∃ c seed, d.files .walletSeed = some c ∧ WalletSeed.parse env c password = .ok seed ∧
    K.deriveKeychain seed = some k

/-- What opening leaves, when it succeeds. -/
theorem openBackend_eq_ok {env : SeedEnv} {faults : DbFaults} {password : ZeroingString}
    {mask : Option SecretKey} {p p' : Provider E R H} {r : Backend R H × Option SecretKey}
    (h : openBackend K env faults password mask p = (.ok r, p')) :
    faults.opening = false ∧ Reads env .opening ∧
      ∃ k checksum, Unlocks K env p.dir password k ∧ K.rootHash k = .ok checksum ∧
        r = (.masked k (mask.getD 0) checksum, mask) := by
  obtain ⟨_, p₁, hnew, h⟩ := Eff.bind_eq_ok.mp h
  obtain ⟨seed, p₂, hseed, h⟩ := Eff.bind_eq_ok.mp h
  obtain ⟨k, p₃, hk, h⟩ := Eff.bind_eq_ok.mp h
  obtain ⟨hset, -⟩ := Eff.ofExcept_eq_ok.mp h
  obtain ⟨checksum, hchecksum, hr⟩ := Backend.setKeychain_eq_ok hset
  obtain ⟨_, p₀, hthrow, hmod⟩ := Eff.bind_eq_ok.mp hnew
  obtain ⟨hfault, rfl⟩ := Eff.throwIf_eq_ok.mp hthrow
  obtain ⟨⟨c, hc, hparse⟩, hreads, -⟩ := fromFile_eq_ok (orLifecycle_eq_ok (onSeed_eq_ok hseed))
  have hderive : K.deriveKeychain seed = some k := elim_eq_ok (Eff.ofExcept_eq_ok.mp hk).1
  cases hmod
  exact ⟨by simpa using hfault, hreads, k, checksum, ⟨c, seed, hc, hparse, hderive⟩, hchecksum, hr⟩

/-! ## Sessions -/

/-- A call that was made, what it found and what it answered. -/
structure Event (E R H : Type) where
  before : Provider E R H
  call : Call
  result : Except LcError (Option SecretKey)

/-- The opening that is in force after an event, given the one before. -/
def Event.session (ev : Event E R H) (last : Option (Event E R H)) : Option (Event E R H) :=
  match ev.call, ev.result with
  | .openWallet .., .ok _ => some ev
  | .closeWallet, _ => none
  | _, _ => last

def lastSession (evs : List (Event E R H)) (last : Option (Event E R H)) :
    Option (Event E R H) :=
  evs.foldl (fun last ev => ev.session last) last

/-- Make the calls one after the other. -/
def runCalls (K : KeyEnv R H) : List Call → Provider E R H → List (Event E R H) × Provider E R H
  | [], p => ([], p)
  | call :: calls, p =>
      let run := call.run K p
      let rest := runCalls K calls run.2
      (⟨p, call, run.1⟩ :: rest.1, rest.2)

/-- The event opened a wallet, to this keychain and with this mask. -/
structure Event.Opened (K : KeyEnv R H) (ev : Event E R H) (k : MasterKey R) (m : SecretKey) :
    Prop where
  opening : ∃ env faults password mask, ev.call = .openWallet env faults password mask ∧
    Unlocks K env ev.before.dir password k ∧ ev.result = .ok mask ∧ m = mask.getD 0

/-- The provider is closed without a session, and with one it has the masked keychain. -/
def Holds (K : KeyEnv R H) (p : Provider E R H) : Option (Event E R H) → Prop
  | none => p.backend = none
  | some ev => ∃ k m checksum, ev.Opened K k m ∧ K.rootHash k = .ok checksum ∧
      p.backend = some (.masked k m checksum)

theorem Holds.of_sameBackend {p p' : Provider E R H} {last : Option (Event E R H)}
    (h : Holds K p last) (hp : SameBackend p p') : Holds K p' last := by
  cases last with
  | none => exact hp.trans h
  | some ev =>
      obtain ⟨k, m, checksum, hopened, hroot, hback⟩ := h
      exact ⟨k, m, checksum, hopened, hroot, hp.trans hback⟩

theorem openWallet_eq_error {env : SeedEnv} {faults : DbFaults} {password : ZeroingString}
    {mask : Option SecretKey} {p p' : Provider E R H} {e : LcError}
    (h : openWallet K env faults password mask p = (.error e, p')) : SameBackend p p' := by
  rcases Eff.bind_eq_error.mp h with hfail | ⟨r, p₁, -, hrest⟩
  · exact (openBackend_moves env faults password mask).of_run hfail
  · cases hrest

theorem openWallet_eq_ok {env : SeedEnv} {faults : DbFaults} {password : ZeroingString}
    {mask given : Option SecretKey} {p p' : Provider E R H}
    (h : openWallet K env faults password mask p = (.ok given, p')) :
    given = mask ∧ faults.opening = false ∧ Reads env .opening ∧
      ∃ k checksum, Unlocks K env p.dir password k ∧ K.rootHash k = .ok checksum ∧
        p'.backend = some (.masked k (mask.getD 0) checksum) := by
  obtain ⟨r, p₁, hopen, h⟩ := Eff.bind_eq_ok.mp h
  obtain ⟨hfault, hreads, k, checksum, hunlocks, hroot, rfl⟩ := openBackend_eq_ok hopen
  cases h
  exact ⟨rfl, hfault, hreads, k, checksum, hunlocks, hroot, rfl⟩

/-- A call that is neither opening nor closing, and then answers with no mask. -/
theorem moves_then_none {x : LcM E R H Unit} (h : Eff.Moves SameBackend x) :
    Eff.Moves SameBackend (do x; return none : LcM E R H (Option SecretKey)) :=
  h.bind fun _ => Eff.Moves.pure none

/-- What one call does to the session. -/
theorem Holds.step {p : Provider E R H} {last : Option (Event E R H)} (h : Holds K p last)
    (call : Call) :
    Holds K (call.run K p).2 (Event.session ⟨p, call, (call.run K p).1⟩ last) := by
  cases call with
  | createWallet env faults mnemonic mnemonicLength password testMode =>
      exact h.of_sameBackend (moves_then_none
        (createWallet_moves env faults mnemonic mnemonicLength password testMode) p)
  | openWallet env faults password mask =>
      cases hrun : (Call.openWallet env faults password mask).run K p with
      | mk r p' =>
          cases r with
          | ok given =>
              obtain ⟨rfl, -, -, k, checksum, hunlocks, hroot, hback⟩ := openWallet_eq_ok hrun
              exact ⟨k, given.getD 0, checksum,
                ⟨env, faults, password, given, rfl, hunlocks, rfl, rfl⟩, hroot, hback⟩
          | error e => exact h.of_sameBackend (openWallet_eq_error hrun)
  | closeWallet => rfl
  | recoverFromMnemonic env mnemonic password =>
      exact h.of_sameBackend (moves_then_none (onSeed_moves _) p)
  | changePassword env old new => exact h.of_sameBackend (moves_then_none (onSeed_moves _) p)

theorem Holds.run {p : Provider E R H} {last : Option (Event E R H)} (h : Holds K p last)
    (calls : List Call) :
    Holds K (runCalls K calls p).2 (lastSession (runCalls K calls p).1 last) := by
  induction calls generalizing p last with
  | nil => exact h
  | cons call calls ih => exact ih (h.step call)

/-! ## The keychain -/

section Keychain

variable [DecidableEq H] {p : Provider E R H} {mask : Option SecretKey} {k k' : MasterKey R}
  {m : SecretKey} {checksum : H}

theorem keychain_closed (h : p.backend = none) (mask : Option SecretKey) :
    (keychain K mask p).1 = .error (.lifecycle "Wallet has not been opened") := by
  unfold keychain
  rw [Eff.run_bind_ok (Eff.run_read _), h]
  rfl

theorem keychain_open (h : p.backend = some (.masked k m checksum))
    (hroot : K.rootHash k = .ok checksum) :
    (keychain K mask p).1 = .ok k' ↔
      k' = k.mask (m ^^^ mask.getD 0) ∧ K.rootHash k' = K.rootHash k := by
  unfold keychain
  rw [Eff.run_bind_ok (Eff.run_read _), h, hroot]
  exact Backend.getKeychain_masked_eq_ok

end Keychain

/-- What the provider answers to who asks for the keychain: the keychain of the session for its
mask and for no other, and for another mask what that mask leaves, if its root key has the same
hash. -/
def Answers [DecidableEq H] (K : KeyEnv R H) (p : Provider E R H) :
    Option (Event E R H) → Prop
  | none => ∀ mask, (keychain K mask p).1 = .error (.lifecycle "Wallet has not been opened")
  | some ev => ∃ k m, ev.Opened K k m ∧ ∀ mask,
      ((keychain K mask p).1 = .ok k ↔ mask.getD 0 = m) ∧
      ∀ k', (keychain K mask p).1 = .ok k' ↔
        k' = k.mask (m ^^^ mask.getD 0) ∧ K.rootHash k' = K.rootHash k

/-- After any calls the provider answers with the keychain of the last opening, if it was not closed
since. -/
theorem keychain_is_of_last_session [DecidableEq H] (K : KeyEnv R H) (p : Provider E R H)
    (hp : p.backend = none) (calls : List Call) :
    Answers K (runCalls K calls p).2 (lastSession (runCalls K calls p).1 none) := by
  have hclosed : Holds K p none := hp
  have hholds := hclosed.run calls
  cases hlast : lastSession (runCalls K calls p).1 none with
  | none =>
      rw [hlast] at hholds
      exact keychain_closed hholds
  | some ev =>
      rw [hlast] at hholds
      obtain ⟨k, m, checksum, hopened, hroot, hback⟩ := hholds
      refine ⟨k, m, hopened, fun mask => ⟨?_, fun k' => keychain_open hback hroot⟩⟩
      rw [keychain_open hback hroot]
      constructor
      · rintro ⟨hk, -⟩
        exact MasterKey.mask_xor_eq_self.mp hk.symm
      · intro hm
        exact ⟨(MasterKey.mask_xor_eq_self.mpr hm).symm, rfl⟩

/-- The length of the seed is the key, and every key its own hash. -/
def lengthKeys : KeyEnv Unit SecretKey where
  deriveKeychain seed := some ⟨BitVec.ofNat 256 seed.length, ()⟩
  rootHash k := .ok k.secretKey

/-- A wallet with a seed of three bytes. -/
def closedWallet : Provider Unit Unit SecretKey :=
  ⟨seedOnly (List.replicate 19 7), .fresh, none⟩

/-- An opening with the mask 5, and another that fails. -/
def openings : List Call :=
  [.openWallet noMnemonics ⟨false, false⟩ [120] (some 5),
    .openWallet noMnemonics ⟨true, false⟩ [120] none]

theorem keychain_is_of_last_session_masked :
    closedWallet.backend = none ∧
      Answers lengthKeys (runCalls lengthKeys openings closedWallet).2
        (lastSession (runCalls lengthKeys openings closedWallet).1 none) ∧
      (keychain lengthKeys (some 5) (runCalls lengthKeys openings closedWallet).2).1
        = .ok ⟨3, ()⟩ ∧
      (keychain lengthKeys none (runCalls lengthKeys openings closedWallet).2).1
        = .error .InvalidKeychainMask :=
  ⟨rfl, keychain_is_of_last_session lengthKeys closedWallet rfl openings, rfl, rfl⟩

end GrinWallet.Lifecycle
