import GrinWallet.Model.Sample
import GrinWallet.Selection.Cancelling
import GrinWallet.Selection.Locking

/-! # Cancelling a lock

A cancellation right after a lock deletes the change records and makes the
locked inputs spendable. It restores the outputs as they were exactly when they
were spendable before, and nothing else is in the way of the new records.
-/

namespace GrinWallet

open Effect WalletBackend OrderedTable

variable {F E : Type}

/-- A record without its pointer to the log. -/
def OutputData.unlinked (o : OutputData E) : OutputData E := { o with txLogEntry := none }

namespace Store

/-- Two stores have the same output records, up to the pointers to the log. -/
def SameOutputs (s s' : Store E) : Prop :=
  ∀ k, (s'.outputs.find k).map (·.unlinked) = (s.outputs.find k).map (·.unlinked)

theorem SameOutputs.symm {s s' : Store E} (h : SameOutputs s s') : SameOutputs s' s :=
  fun k => (h k).symm

theorem SameOutputs.mem {s s' : Store E} (h : SameOutputs s s') {o : OutputData E}
    (ho : o ∈ s.outputs) : ∃ o' ∈ s'.outputs, o'.unlinked = o.unlinked := by
  have hk := h o.key
  rw [Table.find_eq_some.mpr ⟨ho, rfl⟩, Option.map_some, Option.map_eq_some_iff] at hk
  obtain ⟨o', hfind, heq⟩ := hk
  exact ⟨o', (Table.find_eq_some.mp hfind).1, heq⟩

/-- An account has the same outputs to spend. -/
theorem SameOutputs.eligible {s s' : Store E} (h : SameOutputs s s')
    (height minimumConfirmations : Nat) (account : Identifier) (o : OutputData E) :
    (∃ o' ∈ Selection.eligibleOutputs s' height minimumConfirmations account, o'.unlinked = o) ↔
      ∃ o' ∈ Selection.eligibleOutputs s height minimumConfirmations account, o'.unlinked = o := by
  have hone : ∀ {s s' : Store E}, SameOutputs s s' →
      (∃ o' ∈ Selection.eligibleOutputs s height minimumConfirmations account, o'.unlinked = o) →
      ∃ o' ∈ Selection.eligibleOutputs s' height minimumConfirmations account, o'.unlinked = o := by
    intro s s' h hin
    obtain ⟨o₁, ho₁, rfl⟩ := hin
    obtain ⟨hmem, hcond⟩ := List.mem_filter.mp ho₁
    obtain ⟨o₂, ho₂, heq⟩ := h.mem hmem
    refine ⟨o₂, List.mem_filter.mpr ⟨ho₂, ?_⟩, heq⟩
    have hroot : o₂.rootKeyId = o₁.rootKeyId := congrArg (·.rootKeyId) heq
    have heligible : o₂.eligibleToSpend height minimumConfirmations =
        o₁.eligibleToSpend height minimumConfirmations :=
      congrArg (·.eligibleToSpend height minimumConfirmations) heq
    rw [hroot, heligible]
    exact hcond
  exact ⟨hone h.symm, hone h⟩

end Store

variable [CommRing F] [AddCommGroup E] [Module F E] [DecidableEq E]

namespace Owner

/-- A lock that succeeds has locked the stored context in one batch. -/
theorem txLockOutputs_batch {env : Env F E} {slate : Slate F E} {w w' : WalletBackend F E}
    {u : Unit} (h : txLockOutputs env slate w = (.ok u, w')) :
    w'.parentKeyId = w.parentKeyId ∧ ∃ c sl height excess now,
      w.store.getPrivateContext env.keychain slate.id = .ok c ∧
      slateToLock env.keychain w.store slate c = .ok sl ∧
      Selection.lockBatch env.keychain sl height c excess now w.store = .ok ((), w'.store) := by
  obtain ⟨wr, w₁, h₁, h₂⟩ := Eff.bind_eq_ok.mp h
  obtain ⟨c, w₂, h₃, h₄⟩ := Eff.bind_eq_ok.mp h₂
  obtain ⟨sl, w₃, h₅, h₆⟩ := Eff.bind_eq_ok.mp h₄
  obtain ⟨tip, w₄, h₇, h₈⟩ := Eff.bind_eq_ok.mp h₆
  obtain ⟨now, w₅, h₉, h₁₀⟩ := Eff.bind_eq_ok.mp h₈
  obtain ⟨_, w₆, h₁₁, h₁₂⟩ := Eff.bind_eq_ok.mp h₁₀
  obtain ⟨tx, w₇, h₁₃, h₁₄⟩ := Eff.bind_eq_ok.mp h₁₂
  obtain ⟨rfl, rfl⟩ := Eff.read_eq_ok.mp h₁
  obtain ⟨hget, rfl⟩ := Eff.ofExcept_eq_ok.mp h₃
  obtain ⟨hsl, rfl⟩ := Eff.ofExcept_eq_ok.mp h₅
  obtain ⟨-, rfl⟩ := Eff.ofExcept_eq_ok.mp h₁₃
  obtain ⟨s', hlock, rfl⟩ := batch_eq_ok.mp h₁₁
  have hw₄ : w₄ = { w₃ with tick := w₃.tick + 1 } := (Prod.mk.inj h₇).2.symm
  have hw₅ : w₅ = { w₄ with tick := w₄.tick + 1 } := (Prod.mk.inj h₉).2.symm
  cases h₁₄
  rw [hw₅, hw₄] at hlock ⊢
  exact ⟨rfl, c, sl, tip.1, _, now, hget, hsl, hlock⟩

theorem txLockOutputs_eq_ok {env : Env F E} {slate : Slate F E} {w w' : WalletBackend F E}
    {u : Unit} (h : txLockOutputs env slate w = (.ok u, w')) :
    ∃ c sl height excess now debited proof,
      w.store.getPrivateContext env.keychain slate.id = .ok c ∧
      slateToLock env.keychain w.store slate c = .ok sl ∧
      Selection.LockedBy env.keychain sl height c excess now debited proof w.store w'.store := by
  obtain ⟨-, c, sl, height, excess, now, hget, hsl, hlock⟩ := txLockOutputs_batch h
  obtain ⟨debited, proof, hlocked⟩ := Selection.lockBatch_eq_ok hlock
  exact ⟨c, sl, height, excess, now, debited, proof, hget, hsl, hlocked⟩

end Owner

/-- What a lock of a context must find for its cancellation to undo it. The next
log id names no other record of the account, and no key of a change output is in
use; the inputs were spendable (an input of another account, which the
cancellation does not reach, was locked before); no other output that waits or is
locked points at the new log id. -/
structure Context.Undoable (c : Context E) (s : Store E) : Prop where
  entry : ∀ row ∈ s.txLog, row.2.parentKeyId = c.parentKeyId →
    row.2.id = s.txLogId c.parentKeyId → row.1 = c.parentKeyId
  change : ∀ k ∈ c.outputKeys, s.outputs.find k = none
  inputs : ∀ o ∈ s.outputs, o.key ∈ c.inputKeys →
    o.status = if o.rootKeyId = c.parentKeyId then .Unspent else .Locked
  others : ∀ o ∈ s.outputs, o.key ∉ c.inputKeys →
    Updater.OfTransaction (s.txLogId c.parentKeyId) c.parentKeyId o →
      o.status = .Unspent ∨ o.status = .Spent

namespace Selection

variable {K : Keychain F E} {slate : Slate F E} {height : Nat} {c : Context E} {excess : Option E}
  {now debited : Nat} {proof : Option StoredProofInfo} {s s₁ : Store E}

/-- The record a lock has saved. -/
abbrev savedEntry (slate : Slate F E) (height : Nat) (c : Context E) (excess : Option E)
    (now debited : Nat) (proof : Option StoredProofInfo) (s : Store E) : TxLogEntry E :=
  lockedEntry slate height c excess (s.txLogId c.parentKeyId) now debited proof

/-- The new log id names the record of the lock alone. -/
theorem LockedBy.retrieve (h : LockedBy K slate height c excess now debited proof s s₁)
    {tx : TxLogEntry E} :
    Updater.retrieveTxs s₁ (some (s.txLogId c.parentKeyId)) none (some c.parentKeyId) false = [tx] ↔
      tx = savedEntry slate height c excess now debited proof s ∧
      ∀ row ∈ s.txLog, row.2.parentKeyId = c.parentKeyId →
        row.2.id = s.txLogId c.parentKeyId → row.1 = c.parentKeyId := by
  obtain ⟨outputs, rfl⟩ := h.rest
  rw [Updater.retrieveTxs_eq_singleton]
  have hsaved : (c.parentKeyId, savedEntry slate height c excess now debited proof s) ∈
      s.txLog.put (c.parentKeyId, savedEntry slate height c excess now debited proof s) :=
    Table.mem_put.mpr (.inl rfl)
  have hold : ∀ row ∈ s.txLog, row.1 ≠ c.parentKeyId →
      row ∈ s.txLog.put (c.parentKeyId, savedEntry slate height c excess now debited proof s) :=
    fun row hrow hne => Table.mem_put.mpr (.inr ⟨hrow, fun hkey => hne (txLogKey_inj.mp hkey).1⟩)
  constructor
  · intro hfound
    obtain ⟨row, hmem, rfl, hp, hid, honly⟩ := hfound
    have hrow := honly _ hsaved rfl rfl
    refine ⟨congrArg Prod.snd hrow.symm, fun row' hrow' hp' hid' => ?_⟩
    by_contra hne
    have heq := honly row' (hold row' hrow' hne) hp' hid'
    exact hne (congrArg Prod.fst (heq.trans hrow.symm))
  · intro hfound
    obtain ⟨rfl, honly⟩ := hfound
    refine ⟨_, hsaved, rfl, rfl, rfl, fun row hrow hp hid => ?_⟩
    rcases Table.mem_put.mp hrow with heq | ⟨hrow, hne⟩
    · exact heq
    · have hkey : TxLogRow.key row = TxLogRow.key (c.parentKeyId,
          savedEntry slate height c excess now debited proof s) :=
        txLogKey_inj.mpr ⟨honly row hrow hp hid, hid⟩
      exact (hne hkey).elim

/-- The output table once the lock is cancelled. -/
def undone (K : Keychain F E) (s₁ : Store E) (tx : TxLogEntry E) (p : Identifier) : Store E :=
  Updater.cancelTxAndOutputs tx
    ((Updater.retrieveOutputs K s₁ false (some tx.id) (some p)).map (·.output)) p s₁

theorem LockedBy.undone_change (h : LockedBy K slate height c excess now debited proof s s₁)
    {k : DbKey} (hk : k ∈ c.outputKeys) :
    (undone K s₁ (savedEntry slate height c excess now debited proof s) c.parentKeyId).outputs.find k
      = none := by
  obtain ⟨p, hp, rfl⟩ := List.mem_map.mp hk
  refine (Tx.cancelTxAndOutputs_find K s₁ _ _ _).trans ?_
  rw [h.change p hp, Option.bind_some, if_pos ⟨rfl, rfl⟩]
  rfl

theorem LockedBy.undone_input (h : LockedBy K slate height c excess now debited proof s s₁)
    {o : OutputData E} (ho : o ∈ s.outputs) (hchange : o.key ∉ c.outputKeys)
    (hin : o.key ∈ c.inputKeys) :
    (undone K s₁ (savedEntry slate height c excess now debited proof s) c.parentKeyId).outputs.find
      o.key = some { o with
        txLogEntry := some (s.txLogId c.parentKeyId)
        status := if o.rootKeyId = c.parentKeyId then .Unspent else .Locked } := by
  refine (Tx.cancelTxAndOutputs_find K s₁ _ _ _).trans ?_
  have hfind : s.outputs.find o.key = some o := Table.find_eq_some.mpr ⟨ho, rfl⟩
  rw [h.others o.key hchange, if_pos hin, hfind, Option.map_some, Option.bind_some]
  by_cases hroot : o.rootKeyId = c.parentKeyId
  · rw [if_pos ⟨rfl, hroot⟩]
    simp [Updater.afterCancel, OutputData.lockedFor, OutputData.lock, hroot]
  · rw [if_neg fun hof => hroot hof.2]
    simp [OutputData.lockedFor, OutputData.lock, hroot]

theorem LockedBy.undone_other (h : LockedBy K slate height c excess now debited proof s s₁)
    {k : DbKey} (hchange : k ∉ c.outputKeys) (hin : k ∉ c.inputKeys) :
    (undone K s₁ (savedEntry slate height c excess now debited proof s) c.parentKeyId).outputs.find k
      = (s.outputs.find k).bind fun o =>
          if Updater.OfTransaction (s.txLogId c.parentKeyId) c.parentKeyId o then
            Updater.afterCancel o else some o := by
  refine (Tx.cancelTxAndOutputs_find K s₁ _ _ _).trans ?_
  rw [h.others k hchange, if_neg hin]
  rfl

/-- A cancelled lock leaves the outputs as they were exactly when it found
spendable inputs and unused keys. -/
theorem LockedBy.undone_same (h : LockedBy K slate height c excess now debited proof s s₁) :
    s.SameOutputs (undone K s₁ (savedEntry slate height c excess now debited proof s) c.parentKeyId)
      ↔ (∀ k ∈ c.outputKeys, s.outputs.find k = none) ∧
        (∀ o ∈ s.outputs, o.key ∈ c.inputKeys →
          o.status = if o.rootKeyId = c.parentKeyId then .Unspent else .Locked) ∧
        ∀ o ∈ s.outputs, o.key ∉ c.inputKeys →
          Updater.OfTransaction (s.txLogId c.parentKeyId) c.parentKeyId o →
            o.status = .Unspent ∨ o.status = .Spent := by
  constructor
  · intro hsame
    have hchange : ∀ k ∈ c.outputKeys, s.outputs.find k = none := by
      intro k hk
      have hat := hsame k
      rw [h.undone_change hk] at hat
      exact Option.map_eq_none_iff.mp hat.symm
    have hfree : ∀ o ∈ s.outputs, o.key ∉ c.outputKeys := fun o ho hk =>
      Table.find_eq_none.mp (hchange o.key hk) o ho rfl
    refine ⟨hchange, fun o ho hin => ?_, fun o ho hin hof => ?_⟩
    · have hat := hsame o.key
      rw [h.undone_input ho (hfree o ho) hin, Table.find_eq_some.mpr ⟨ho, rfl⟩] at hat
      exact congrArg (·.status) (Option.some.inj hat).symm
    · have hat := hsame o.key
      rw [h.undone_other (hfree o ho) hin, Table.find_eq_some.mpr ⟨ho, rfl⟩, Option.bind_some,
        if_pos hof] at hat
      unfold Updater.afterCancel at hat
      cases hstatus : o.status with
      | Unspent => exact .inl rfl
      | Spent => exact .inr rfl
      | Locked =>
          simp only [hstatus, Option.map_some, Option.some.injEq] at hat
          have hcontra := congrArg (·.status) hat
          simp [OutputData.unlinked, hstatus] at hcontra
      | Unconfirmed => simp [hstatus] at hat
      | Reverted => simp [hstatus] at hat
  · intro hfound k
    obtain ⟨hchange, hinputs, hothers⟩ := hfound
    by_cases hk : k ∈ c.outputKeys
    · rw [h.undone_change hk, hchange k hk]
    by_cases hin : k ∈ c.inputKeys
    · obtain ⟨p, hp, rfl⟩ := List.mem_map.mp hin
      obtain ⟨o, hfind⟩ := h.held p hp
      obtain ⟨ho, hkey⟩ := Table.find_eq_some.mp hfind
      have hinput := h.undone_input ho (by rw [hkey]; exact hk) (by rw [hkey]; exact hin)
      rw [hkey] at hinput
      rw [hinput, hfind]
      have hstatus := hinputs o ho (by rw [hkey]; exact hin)
      simp only [Option.map_some, OutputData.unlinked, ← hstatus]
    · rw [h.undone_other hk hin]
      cases hfind : s.outputs.find k with
      | none => rfl
      | some o =>
          obtain ⟨ho, rfl⟩ := Table.find_eq_some.mp hfind
          rw [Option.bind_some]
          by_cases hof : Updater.OfTransaction (s.txLogId c.parentKeyId) c.parentKeyId o
          · rw [if_pos hof]
            unfold Updater.afterCancel
            rcases hothers o ho hin hof with hstatus | hstatus <;> rw [hstatus]
          · rw [if_neg hof]

end Selection

/-- A lock followed by the cancellation of the transaction it created restores the
output records, and with them what every account can spend, exactly when the lock
found what it must. -/
theorem cancel_undoes_lock_iff {env : Env F E} {slate : Slate F E} {w w₁ : WalletBackend F E}
    {c : Context E} (hc : w.store.getPrivateContext env.keychain slate.id = .ok c)
    (hlock : Owner.txLockOutputs env slate w = (.ok (), w₁)) :
    (∃ s₂, Tx.cancelTx env.keychain c.parentKeyId (some (w.store.txLogId c.parentKeyId)) none
        w₁.store = .ok ((), s₂) ∧ w.store.SameOutputs s₂ ∧
        ∀ height minimumConfirmations account o,
          (∃ o' ∈ Selection.eligibleOutputs s₂ height minimumConfirmations account,
              o'.unlinked = o) ↔
            ∃ o' ∈ Selection.eligibleOutputs w.store height minimumConfirmations account,
              o'.unlinked = o) ↔
      c.Undoable w.store := by
  obtain ⟨c', sl, height, excess, now, debited, proof, hc', -, hlocked⟩ :=
    Owner.txLockOutputs_eq_ok hlock
  obtain rfl : c = c' := Except.ok.inj (hc.symm.trans hc')
  constructor
  · intro hundone
    obtain ⟨s₂, hcancel, hsame, -⟩ := hundone
    obtain ⟨tx, hfound, -, -, rfl⟩ := Tx.cancelTx_eq_ok hcancel
    obtain ⟨rfl, hentry⟩ := hlocked.retrieve.mp hfound
    obtain ⟨hchange, hinputs, hothers⟩ := hlocked.undone_same.mp hsame
    exact ⟨hentry, hchange, hinputs, hothers⟩
  · intro hundoable
    have hfound := hlocked.retrieve.mpr ⟨rfl, hundoable.entry⟩
    have hsame := hlocked.undone_same.mpr ⟨hundoable.change, hundoable.inputs, hundoable.others⟩
    refine ⟨_, ?_, hsame, hsame.eligible⟩
    unfold Tx.cancelTx
    simp only [hfound]
    rfl

namespace SampleSend

theorem initiated_undoable : context.Undoable initiated.2.store where
  entry := by
    change ∀ row ∈ initiated.2.store.txLog.rows, _
    decide +kernel
  change := by decide +kernel
  inputs := by
    change ∀ o ∈ initiated.2.store.outputs.rows, _
    decide +kernel
  others := by
    change ∀ o ∈ initiated.2.store.outputs.rows, _
    decide +kernel

/-- Cancelling the sample send after its outputs were locked restores them. -/
theorem cancel_undoes_lock_sample :
    ∃ s₂, Tx.cancelTx sampleKeychain context.parentKeyId
        (some (initiated.2.store.txLogId context.parentKeyId)) none locked.store = .ok ((), s₂) ∧
      initiated.2.store.SameOutputs s₂ := by
  have hlock : Owner.txLockOutputs env offer initiated.2 = (.ok (), locked) :=
    eq_returned () (by decide +kernel)
  obtain ⟨s₂, hcancel, hsame, -⟩ :=
    (cancel_undoes_lock_iff (c := context) (by decide +kernel) hlock).mpr initiated_undoable
  exact ⟨s₂, hcancel, hsame⟩

/-- The wallet with one output it waits for, and a send of it without confirmations. -/
def waiting : WalletBackend ℤ (ℤ × ℤ) :=
  sampleWallet [{ sampleCoin 30000000 0 with status := .Unconfirmed }]

def sent : Except Error (Slate ℤ (ℤ × ℤ)) × WalletBackend ℤ (ℤ × ℤ) :=
  Owner.initSendTx env { sampleSend 5 with minimumConfirmations := 0 } waiting

def sentLocked : Except Error Unit × WalletBackend ℤ (ℤ × ℤ) :=
  Owner.txLockOutputs env (returned sent noSlate) sent.2

def sentCancelled : Except Error (Unit × Store (ℤ × ℤ)) :=
  Tx.cancelTx sampleKeychain defaultPath (some (sent.2.store.txLogId defaultPath)) none
    sentLocked.2.store

/-- Cancelling makes an output spendable that the wallet still waits for. -/
theorem cancel_unspends_unconfirmed :
    sent.1.isOk = true ∧ sentLocked.1.isOk = true ∧
      (sent.2.store.iter.map (·.status)) = [.Unconfirmed] ∧
      sentCancelled.toOption.map (fun r => r.2.iter.map (·.status)) = some [.Unspent] := by
  decide +kernel

end SampleSend

end GrinWallet
