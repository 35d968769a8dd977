import GrinWallet.Exchange.PaymentProof
import GrinWallet.Runs.Sends

/-! # Payment proofs in the log

The record of a finalized send keeps the two signatures of its payment proof; the
amount they are over is worked out again from the record when the proof is exported.
In a run whose finalizations complete records that show the amount of the send,
every proof a send exports verifies, at any later time. What a lock records shows the
amount when its inputs are the amount, the fee and the change.
-/

namespace GrinWallet

open Effect WalletBackend OrderedTable Sections TxLogEntry

variable {F E : Type}

/-! ## Records whose proof verifies -/

/-- Both signatures of an exported proof verify. -/
structure PaymentProof.SignaturesVerify (K : Curve F E) (proof : PaymentProof E) : Prop where
  recipient : K.dalekVerify proof.recipientAddress.pubKey (Owner.paymentProofMessage proof)
    proof.recipientSig = true
  sender : K.dalekVerify proof.senderAddress.pubKey (Owner.paymentProofMessage proof)
    proof.senderSig = true

namespace TxLogEntry

/-- The sender has signed the payment proof. -/
def SenderSigned (t : TxLogEntry E) : Prop := ∃ p ∈ t.paymentProof, p.senderSignature ≠ none

/-- The payment proof of a send verifies, if the record exports one. -/
def ProofVerifies (K : Curve F E) (t : TxLogEntry E) : Prop :=
  t.Sent → ∀ hrp proof, t.exportedProof hrp = .ok proof → proof.SignaturesVerify K

theorem required_eq_ok {α : Type} {field : Option α} {reason : String} {a : α} :
    required field reason = .ok a ↔ field = some a := by
  cases field <;> simp [required]

/-- What a record exports. -/
theorem exportedProof_eq_ok {hrp : String} {t : TxLogEntry E} {proof : PaymentProof E}
    (h : t.exportedProof hrp = .ok proof) :
    ∃ p excess rSig sSig, t.paymentProof = some p ∧ t.kernelExcess = some excess ∧
      p.receiverSignature = some rSig ∧ p.senderSignature = some sSig ∧
      proof = ⟨t.recordedAmount, excess, ⟨hrp, p.receiverAddress⟩, rSig, ⟨hrp, p.senderAddress⟩,
        sSig⟩ := by
  obtain ⟨p, hp, h⟩ := except_bind_eq_ok.mp h
  obtain ⟨excess, hexcess, h⟩ := except_bind_eq_ok.mp h
  obtain ⟨rSig, hr, h⟩ := except_bind_eq_ok.mp h
  obtain ⟨sSig, hs, h⟩ := except_bind_eq_ok.mp h
  cases h
  exact ⟨p, excess, rSig, sSig, required_eq_ok.mp hp, required_eq_ok.mp hexcess,
    required_eq_ok.mp hr, required_eq_ok.mp hs, rfl⟩

/-- The record shows a send of this amount: what was debited is what was credited,
the amount and the fee. -/
structure Shows (t : TxLogEntry E) (amount : Nat) : Prop where
  debited : t.amountDebited = t.amountCredited + amount + (t.fee.map (·.fee)).getD 0
  small : t.amountDebited < 2 ^ 64

theorem Shows.recordedAmount {t : TxLogEntry E} {amount : Nat} (h : t.Shows amount) :
    t.recordedAmount = amount := by
  have hdebited := h.debited
  have hsmall := h.small
  unfold TxLogEntry.recordedAmount
  generalize (t.fee.map (·.fee)).getD 0 = fee at hdebited ⊢
  by_cases hle : t.amountCredited ≥ t.amountDebited
  · rw [if_pos hle]
    omega
  · rw [if_neg hle]
    unfold wrappingSub u64
    omega

/-- A live record of a standard send shows the amount of the send. -/
def ShowsSend (amounts : Uuid → Option Nat) (t : TxLogEntry E) : Prop :=
  t.txType = .TxSent → ∀ id ∈ t.txSlateId, ∀ amount ∈ amounts id, t.Shows amount

theorem SameSend.exportedProof {t t' : TxLogEntry E} (h : t.SameSend t') (hrp : String) :
    t'.exportedProof hrp = t.exportedProof hrp := by
  unfold TxLogEntry.exportedProof recordedAmount
  rw [h.paymentProof, h.kernelExcess, h.amountCredited, h.amountDebited, h.fee]

theorem proofVerifies_ofSend {K : Curve F E} : OfSend (ProofVerifies K) where
  of_same ht h := by
    intro hsent hrp proof hproof
    rw [h.exportedProof] at hproof
    exact ht (h.sent hsent) hrp proof hproof
  of_not_sent h hsent := (h hsent).elim

theorem showsSend_ofSend {amounts : Uuid → Option Nat} :
    OfSend (ShowsSend (E := E) amounts) where
  of_same ht h := by
    intro hlive id hid amount hamount
    rw [h.txSlateId] at hid
    have hshows := ht (h.live hlive) id hid amount hamount
    refine ⟨?_, ?_⟩
    · rw [h.amountDebited, h.amountCredited, h.fee]
      exact hshows.debited
    · rw [h.amountDebited]
      exact hshows.small
  of_not_sent h hlive := (h (.inl hlive)).elim

/-- A proof the sender has not signed is not exported. -/
theorem proofVerifies_of_unsigned {K : Curve F E} {t : TxLogEntry E} (h : ¬ t.SenderSigned) :
    t.ProofVerifies K := by
  intro _ hrp proof hproof
  obtain ⟨p, _, _, sSig, hp, -, -, hs, -⟩ := exportedProof_eq_ok hproof
  exact (h ⟨p, hp, by rw [hs]; simp⟩).elim

end TxLogEntry

/-- The proof of every send in the log verifies. -/
abbrev Store.ProofsVerify (K : Curve F E) (s : Store E) : Prop :=
  s.Logs (ProofVerifies K)

/-! ## What a lock records -/

namespace Selection

/-- The value of the wallet's record of an input. -/
def inputValue (s : Store E) (p : Identifier × Option Nat × Nat) : Nat :=
  ((s.outputs.find (outputKey p.1 p.2.1)).map (·.value)).getD 0

theorem lockInputs_debited {logId : Nat} {ids : List (Identifier × Option Nat × Nat)} {d d' : Nat}
    {s s' : Store E} (h : lockInputs logId ids d s = .ok (d', s'))
    (hlt : d + (ids.map (inputValue s)).sum < 2 ^ 64) :
    d' = d + (ids.map (inputValue s)).sum := by
  induction ids generalizing d s with
  | nil =>
      cases h
      rfl
  | cons input ids ih =>
      obtain ⟨id, mmrIndex, value⟩ := input
      unfold lockInputs at h
      obtain ⟨coin, hget, hrest⟩ := except_bind_eq_ok.mp h
      obtain ⟨hfind, hself⟩ := find_lockOutput logId hget
      have hvalue : ∀ p, inputValue (s.lockOutput { coin with txLogEntry := some logId }) p =
          inputValue s p := by
        intro p
        unfold inputValue
        rw [hself]
        by_cases hk : outputKey p.1 p.2.1 = outputKey id mmrIndex
        · rw [if_pos hk, hk, hfind]
          rfl
        · rw [if_neg hk]
      have hfirst : inputValue s (id, mmrIndex, value) = coin.value := by
        rw [inputValue, hfind]
        rfl
      rw [List.map_cons, List.sum_cons, hfirst] at hlt ⊢
      have hadd : u64 (d + coin.value) = d + coin.value := Nat.mod_eq_of_lt (by omega)
      rw [hadd] at hrest
      have hsum : ids.map (inputValue (s.lockOutput { coin with txLogEntry := some logId })) =
          ids.map (inputValue s) := List.map_congr_left fun p _ => hvalue p
      rw [ih hrest (by rw [hsum]; omega), hsum]
      omega

end Selection

/-- The inputs of a context are worth its amount, its fee and its change, by the
records the wallet has of them. -/
structure Context.Balances (c : Context E) (s : Store E) : Prop where
  value : (c.inputIds.map (Selection.inputValue s)).sum =
    c.amount + (c.fee.map (·.fee)).getD 0 +
      (c.outputIds.map fun p => Selection.cachedChange c.outputIds p.1).sum
  small : (c.inputIds.map (Selection.inputValue s)).sum < 2 ^ 64

theorem Context.Balances.of_outputs {c : Context E} {s t : Store E} (h : c.Balances s)
    (heq : t.outputs = s.outputs) : c.Balances t := by
  have hvalue : Selection.inputValue t = Selection.inputValue s := by
    funext p
    rw [Selection.inputValue, heq, Selection.inputValue]
  exact ⟨by rw [hvalue]; exact h.value, by rw [hvalue]; exact h.small⟩

variable [CommRing F] [AddCommGroup E] [Module F E] [DecidableEq E]

namespace Selection

variable {K : Keychain F E} {slate : Slate F E} {height : Nat} {c : Context E} {excess : Option E}
  {now : Nat} {s s' : Store E} {u : Unit}

omit [CommRing F] [AddCommGroup E] [Module F E] [DecidableEq E] in
theorem sentProof_unsigned {proof : Option StoredProofInfo} (h : sentProof K slate c = .ok proof) :
    ¬ ∃ p ∈ proof, p.senderSignature ≠ none := by
  unfold sentProof at h
  cases hp : slate.paymentProof with
  | none =>
      simp only [hp] at h
      cases h
      simp
  | some p =>
      cases hindex : c.paymentProofDerivationIndex with
      | none =>
          simp only [hp, hindex] at h
          cases h
      | some index =>
          simp only [hp, hindex] at h
          cases h
          simp

/-- The record of a lock shows the amount of a context that balances, and no
signature of the sender. -/
theorem lockBatch_recorded (h : lockBatch K slate height c excess now s = .ok (u, s')) :
    ∃ t : TxLogEntry E, s'.txLog = s.txLog.put (c.parentKeyId, t) ∧ t.txSlateId = some slate.id ∧
      ¬ t.SenderSigned ∧ (c.Balances s → t.Shows c.amount) := by
  obtain ⟨debited, proof, ⟨s₁, hlock⟩, hlocked⟩ := lockBatch_debits h
  obtain ⟨outputs, rfl⟩ := hlocked.rest
  refine ⟨_, rfl, rfl, sentProof_unsigned hlocked.requested, fun hbalances => ?_⟩
  have hdebited := lockInputs_debited hlock (by
    rw [Nat.zero_add]
    exact hbalances.small)
  rw [Nat.zero_add] at hdebited
  have hvalue : debited = c.amount + (c.fee.map (·.fee)).getD 0 +
      (c.outputIds.map fun p => cachedChange c.outputIds p.1).sum :=
    hdebited.trans hbalances.value
  have hsmall : debited < 2 ^ 64 := by
    rw [hdebited]
    exact hbalances.small
  have hchange : u64 (c.outputIds.map fun p => cachedChange c.outputIds p.1).sum =
      (c.outputIds.map fun p => cachedChange c.outputIds p.1).sum := Nat.mod_eq_of_lt (by omega)
  refine ⟨?_, hsmall⟩
  change debited = u64 _ + c.amount + (c.fee.map (·.fee)).getD 0
  rw [hchange]
  omega

end Selection

namespace Owner

variable {env : Env F E} {slate sl : Slate F E} {c : Context E} {P : TxLogEntry E → Prop}
  {w w' : WalletBackend F E}

/-- A slate to lock has a transaction. -/
theorem slateToLock_eq_ok {K : Keychain F E} {s : Store E} (h : slateToLock K s slate c = .ok sl) :
    sl.id = slate.id ∧ ∃ tx, sl.tx = some tx := by
  unfold slateToLock at h
  cases htx : slate.tx with
  | none =>
      simp only [htx, Option.isNone_none, if_true] at h
      obtain ⟨tx, fee, features, -, -, -, rfl⟩ := Slate.repopulateTx_eq_ok h
      exact ⟨rfl, _, rfl⟩
  | some tx =>
      simp only [htx, Option.isNone_some, Bool.false_eq_true, if_false] at h
      cases h
      exact ⟨rfl, tx, htx⟩

/-- Locking keeps the log when the record of its batch has the property. -/
theorem txLockOutputs_keepsLog (hw : w.store.Logs P)
    (hlock : ∀ c, w.store.getPrivateContext env.keychain slate.id = .ok c →
      ∀ sl height excess now u s', sl.id = slate.id →
        Selection.lockBatch env.keychain sl height c excess now w.store = .ok (u, s') → s'.Logs P) :
    (txLockOutputs env slate w).2.store.Logs P := by
  have hstay : ∀ m : WalletBackend F E, m.store = w.store → m.store.Logs P := by
    intro m hm
    rw [hm]
    exact hw
  have hask : ∀ {α : Type} (question : Nat → Except Error α),
      Eff.Triple (fun m : WalletBackend F E => m.store = w.store) (ask question)
        (fun _ m => m.store = w.store) fun m => m.store.Logs P := by
    intro α question
    have hsame : Eff.Moves (Eff.Keeps fun m : WalletBackend F E => m.store = w.store)
      (ask question) := fun m hm => hm
    exact hsame.keepsTriple.consequence (fun _ h => h) (fun _ _ h => h) hstay
  refine Eff.Triple.final (P := fun m => m = w) (I := Tables (Store.Logs P)) ?_ rfl
  refine Eff.Triple.read_bind_self fun w₀ hw₀ => ?_
  subst hw₀
  refine Eff.Triple.bind (Q := fun c m =>
      w₀.store.getPrivateContext env.keychain slate.id = .ok c ∧ m.store = w₀.store)
    (Eff.Triple.ofExcept (fun c m h hm => ⟨h, by rw [hm]⟩) fun m hm => by rw [hm]; exact hw)
    fun c => ?_
  refine Eff.Triple.and_left fun hget => ?_
  refine Eff.Triple.bind (Q := fun sl m =>
      slateToLock env.keychain w₀.store slate c = .ok sl ∧ m.store = w₀.store)
    (Eff.Triple.ofExcept (fun sl m h hm => ⟨h, hm⟩) hstay) fun sl => ?_
  refine Eff.Triple.and_left fun hsl => ?_
  refine (hask _).bind fun tip => ?_
  obtain ⟨height, hash⟩ := tip
  refine (hask _).bind fun now => ?_
  refine (batch_ends (J := Store.Logs P) hw fun u s' hbatch =>
    hlock c hget sl height _ now u s' (slateToLock_eq_ok hsl).1 hbatch).bind fun _ => ?_
  refine Eff.Moves.keepsTriple ?_
  exact (Eff.Moves.ofExcept _).bind fun tx => fun m hm => hm

/-- A lock that fails writes nothing. -/
theorem txLockOutputs_error {e : Error} (h : txLockOutputs env slate w = (.error e, w')) :
    w'.store = w.store := by
  have h₀ := Eff.read_bind_eq_error.mp h
  obtain ⟨-, rfl⟩ | ⟨c, -, h₁⟩ := Eff.ofExcept_bind_eq_error.mp h₀
  · rfl
  obtain ⟨-, rfl⟩ | ⟨sl, hsl, h₂⟩ := Eff.ofExcept_bind_eq_error.mp h₁
  · rfl
  obtain h₃ | ⟨tip, w₁, h₃, h₄⟩ := Eff.bind_eq_error.mp h₂
  · have hw' : w' = { w with tick := w.tick + 1 } := (Prod.mk.inj h₃).2.symm
    rw [hw']
  have hw₁ : w₁ = { w with tick := w.tick + 1 } := (Prod.mk.inj h₃).2.symm
  obtain h₅ | ⟨now, w₂, h₅, h₆⟩ := Eff.bind_eq_error.mp h₄
  · have hw' : w' = { w₁ with tick := w₁.tick + 1 } := (Prod.mk.inj h₅).2.symm
    rw [hw', hw₁]
  have hw₂ : w₂ = { w₁ with tick := w₁.tick + 1 } := (Prod.mk.inj h₅).2.symm
  obtain h₇ | ⟨_, w₃, -, h₈⟩ := Eff.bind_eq_error.mp h₆
  · obtain ⟨-, rfl⟩ := Eff.transact_eq_error.mp h₇
    rw [hw₂, hw₁]
  · -- the slate has a transaction to store
    obtain ⟨tx, htx⟩ := (slateToLock_eq_ok hsl).2
    obtain ⟨herror, -⟩ | ⟨tx', -, h₉⟩ := Eff.ofExcept_bind_eq_error.mp h₈
    · rw [Slate.txOrErr_eq_ok.mpr htx] at herror
      cases herror
    · cases h₉

end Owner

/-! ## Finalizing -/

/-- The record a finalization would complete shows the amount; without a proof to
sign, it has no signature of the sender. -/
structure Store.Recorded (s : Store E) (slate : Slate F E) (amount : Nat) : Prop where
  shown : slate.paymentProof ≠ none → ∀ t, Tx.finalizedEntry s slate.id false = some t →
    t.Shows amount
  unsigned : slate.paymentProof = none → ∀ t, Tx.finalizedEntry s slate.id false = some t →
    ¬ t.SenderSigned

/-- What a finalization must find of its send: a record that shows its amount, or,
of a send that locks late, no record that does not show it and inputs that balance. -/
structure SendRecorded (env : Env F E) (slate : Slate F E) (c : Context E)
    (w : WalletBackend F E) : Prop where
  recorded : c.lateLockArgs = none → w.store.Recorded slate c.amount
  shown : c.lateLockArgs ≠ none → slate.paymentProof ≠ none → ∀ t ∈ w.store.txLogIter,
    t.txSlateId = some slate.id → t.txType = .TxSent → t.Shows c.amount
  unsigned : c.lateLockArgs ≠ none → slate.paymentProof = none → ∀ t ∈ w.store.txLogIter,
    t.txSlateId = some slate.id → t.txType = .TxSent → ¬ t.SenderSigned
  balances : c.lateLockArgs ≠ none → ∀ c' w',
    Foreign.lockedContext env slate c w.parentKeyId w = (.ok c', w') → c'.Balances w.store

section Finalize

variable {env : Env F E} {slate sl : Slate F E} {c c' : Context E} {p : Identifier}
  {w w' : WalletBackend F E}

theorem Owner.txLockOutputs_keepsProofs (slate : Slate F E) :
    KeepsLog (ProofVerifies env.keychain.toCurve) (txLockOutputs env slate) := by
  intro m hm
  refine txLockOutputs_keepsLog hm fun c _ sl height excess now u s' _ hbatch => ?_
  obtain ⟨t, hlog, -, hunsigned, -⟩ := Selection.lockBatch_recorded hbatch
  exact Store.Logs.put hm (proofVerifies_of_unsigned hunsigned) hlog

namespace Foreign

/-- A late lock selects coins, stores the context it has completed and locks it. -/
theorem lockedContext_late {args : InitTxArgs} (hlate : c.lateLockArgs = some args)
    (h : lockedContext env slate c p w = (.ok c', w')) :
    ∃ m : WalletBackend F E, m.store.txLog = w.store.txLog ∧ m.store.outputs = w.store.outputs ∧
      m.parentKeyId = w.parentKeyId ∧
      m.store.getPrivateContext env.keychain slate.id = .ok c' ∧
      Owner.txLockOutputs env slate m = (.ok (), w') := by
  simp only [lockedContext, hlate] at h
  obtain ⟨tip, w₁, h₁, h₂⟩ := Eff.bind_eq_ok.mp h
  obtain ⟨temp, w₂, h₃, h₄⟩ := Eff.bind_eq_ok.mp h₂
  obtain ⟨⟨sl, tempContext⟩, w₃, h₅, h₆⟩ := Eff.bind_eq_ok.mp h₄
  obtain ⟨_, w₄, h₇, h₈⟩ := Eff.bind_eq_ok.mp h₆
  obtain ⟨_, w₅, h₉, hend⟩ := Eff.bind_eq_ok.mp h₈
  have hkeys₁ : OnlyKeys w w₁ := (ask_onlyKeys _).of_run h₁
  have hkeys₂ : OnlyKeys w₁ w₂ := (Tx.newTxSlate_onlyKeys _ _ _ _ _).of_run h₃
  have hkeys₃ : OnlyKeys w₂ w₃ := (Selection.buildSendTx_onlyKeys _ _ _ _ _ _ _ _ _ _).of_run h₅
  have hkeys : OnlyKeys w w₃ := IsTrans.trans _ _ _ hkeys₁ (IsTrans.trans _ _ _ hkeys₂ hkeys₃)
  cases h₇
  cases hend
  obtain ⟨childIndex, tick, rfl⟩ := hkeys
  refine ⟨_, ?_, ?_, ?_, Store.getPrivateContext_savePrivateContext _ _ _ _, h₉⟩
  · rfl
  · rfl
  · rfl

/-- A late lock that fails leaves the log. -/
theorem lockedContext_error {e : Error} (h : lockedContext env slate c p w = (.error e, w')) :
    w'.store.txLog = w.store.txLog := by
  have hkeys : ∀ {m m' : WalletBackend F E}, OnlyKeys m m' → m'.store.txLog = m.store.txLog := by
    rintro m _ ⟨childIndex, tick, rfl⟩
    rfl
  cases hlate : c.lateLockArgs with
  | none =>
      rw [lockedContext_none hlate] at h
      cases h
  | some args =>
      simp only [lockedContext, hlate] at h
      obtain h₁ | ⟨tip, w₁, h₁, h₂⟩ := Eff.bind_eq_error.mp h
      · exact hkeys ((ask_onlyKeys _).of_run h₁)
      have hkeys₁ := (ask_onlyKeys _).of_run h₁
      obtain h₃ | ⟨temp, w₂, h₃, h₄⟩ := Eff.bind_eq_error.mp h₂
      · exact hkeys (IsTrans.trans _ _ _ hkeys₁ ((Tx.newTxSlate_onlyKeys _ _ _ _ _).of_run h₃))
      have hkeys₂ := IsTrans.trans _ _ _ hkeys₁ ((Tx.newTxSlate_onlyKeys _ _ _ _ _).of_run h₃)
      obtain h₅ | ⟨⟨sl, temp'⟩, w₃, h₅, h₆⟩ := Eff.bind_eq_error.mp h₄
      · exact hkeys (IsTrans.trans _ _ _ hkeys₂
          ((Selection.buildSendTx_onlyKeys _ _ _ _ _ _ _ _ _ _).of_run h₅))
      have hkeys₃ := IsTrans.trans _ _ _ hkeys₂
        ((Selection.buildSendTx_onlyKeys _ _ _ _ _ _ _ _ _ _).of_run h₅)
      obtain h₇ | ⟨_, w₄, h₇, h₈⟩ := Eff.bind_eq_error.mp h₆
      · cases h₇
      obtain h₉ | ⟨_, w₅, -, hend⟩ := Eff.bind_eq_error.mp h₈
      · have hlog := hkeys hkeys₃
        rw [Owner.txLockOutputs_error h₉]
        cases h₇
        exact hlog
      · cases hend

/-- A late lock keeps the log, when the lock of the context it has completed does. -/
theorem lockedContext_keepsLog {P : TxLogEntry E → Prop} (hw : w.store.Logs P)
    (hlock : c.lateLockArgs ≠ none → ∀ c' w', lockedContext env slate c p w = (.ok c', w') →
      ∀ m : WalletBackend F E, m.store.txLog = w.store.txLog → m.store.outputs = w.store.outputs →
        m.store.getPrivateContext env.keychain slate.id = .ok c' →
          (Owner.txLockOutputs env slate m).2.store.Logs P) :
    (lockedContext env slate c p w).2.store.Logs P := by
  cases hrun : lockedContext env slate c p w with
  | mk r w' =>
      cases r with
      | error e => exact hw.of_log (lockedContext_error hrun)
      | ok c' =>
          cases hlate : c.lateLockArgs with
          | none =>
              rw [lockedContext_none hlate] at hrun
              cases hrun
              exact hw
          | some args =>
              obtain ⟨m, htxLog, houtputs, -, hstored, hlocked⟩ := lockedContext_late hlate hrun
              have hkept := hlock (by simp [hlate]) c' w' hrun m htxLog houtputs hstored
              rw [hlocked] at hkept
              exact hkept

theorem lockedContext_keepsProofs (hw : w.store.ProofsVerify env.keychain.toCurve) :
    (lockedContext env slate c p w).2.store.ProofsVerify env.keychain.toCurve :=
  lockedContext_keepsLog hw fun _ _ _ _ m htxLog _ _ =>
    Owner.txLockOutputs_keepsProofs slate m (hw.of_log htxLog)

/-- The record a finalization completes after its late lock is the one it should. -/
theorem lockedContext_recorded (hrecorded : SendRecorded env slate c w)
    (h : lockedContext env slate c w.parentKeyId w = (.ok c', w')) :
    w'.parentKeyId = w.parentKeyId ∧ w'.store.Recorded slate c'.amount := by
  cases hlate : c.lateLockArgs with
  | none =>
      rw [lockedContext_none hlate] at h
      cases h
      exact ⟨rfl, hrecorded.recorded hlate⟩
  | some args =>
      have hargs : c.lateLockArgs ≠ none := by simp [hlate]
      obtain ⟨⟨ins, outs, late, hc'⟩, -, -⟩ := lockedContext_eq_ok h
      have hamount : c'.amount = c.amount := by rw [hc']
      obtain ⟨m, htxLog, houtputs, hparent, hstored, hlock⟩ := lockedContext_late hlate h
      obtain ⟨haccount, c₁, sl, height, excess, now, hget, -, hbatch⟩ :=
        Owner.txLockOutputs_batch hlock
      rw [hstored] at hget
      cases hget
      obtain ⟨t, hlog, -, hunsigned, hshows⟩ := Selection.lockBatch_recorded hbatch
      rw [htxLog] at hlog
      have hbalances := (hrecorded.balances hargs c' w' h).of_outputs houtputs
      -- a record of the slate is the new one, or was there before
      have hfound : ∀ t', Tx.finalizedEntry w'.store slate.id false = some t' →
          t' = t ∨ t' ∈ w.store.txLogIter ∧ t'.txSlateId = some slate.id ∧ t'.txType = .TxSent := by
        intro t' ht'
        obtain ⟨hmem, hid, htype⟩ := Tx.finalizedEntry_slateId ht'
        have htype' : t'.txType = .TxSent := by simpa using htype
        obtain ⟨q, hq⟩ := Store.mem_txLogIter.mp hmem
        rw [hlog] at hq
        rcases Table.mem_put.mp hq with heq | ⟨hold, -⟩
        · exact .inl (Prod.mk.inj heq).2
        · exact .inr ⟨Store.mem_txLogIter.mpr ⟨q, hold⟩, hid, htype'⟩
      refine ⟨haccount.trans hparent, fun hproof t' ht' => ?_, fun hproof t' ht' => ?_⟩
      · rcases hfound t' ht' with rfl | ⟨hold, hid, htype⟩
        · exact hshows hbalances
        · rw [hamount]
          exact hrecorded.shown hargs hproof t' hold hid htype
      · rcases hfound t' ht' with rfl | ⟨hold, hid, htype⟩
        · exact hunsigned
        · exact hrecorded.unsigned hargs hproof t' hold hid htype

end Foreign

namespace Tx

omit [CommRing F] [Module F E] in
/-- The sender finds a proof right that is from its own address, and that the
recipient has signed. -/
theorem verifySlatePaymentProof_signed {K : Keychain F E} {s : Store E} {proof : PaymentInfo}
    (hproof : sl.paymentProof = some proof) (h : verifySlatePaymentProof K s p c sl = .ok ()) :
    ∃ index sig excess, c.paymentProofDerivationIndex = some index ∧
      proof.senderAddress = K.dalekPublicKey (K.addressKey p index) ∧
      proof.receiverSignature = some sig ∧ sl.calcExcess = .ok excess ∧
      K.dalekVerify proof.receiverAddress ⟨sl.amount, excess, proof.senderAddress⟩ sig = true := by
  unfold verifySlatePaymentProof at h
  cases htxs : Updater.retrieveTxs s none (some sl.id) (some p) false with
  | nil =>
      simp only [htxs] at h
      cases h
  | cons tx rest =>
      cases horig : tx.paymentProof with
      | none =>
          simp only [htxs, horig, hproof] at h
          cases h
      | some orig =>
          cases hindex : c.paymentProofDerivationIndex with
          | none =>
              simp only [htxs, horig, hproof, hindex] at h
              cases h
          | some index =>
              simp only [htxs, horig, hproof, hindex] at h
              by_cases hsender : proof.senderAddress = K.dalekPublicKey (K.addressKey p index)
              · rw [if_neg (not_not.mpr hsender)] at h
                by_cases hreceiver : orig.receiverAddress = proof.receiverAddress
                · rw [if_neg (not_not.mpr hreceiver)] at h
                  obtain ⟨excess, hexcess, h⟩ := except_bind_eq_ok.mp h
                  cases hsig : proof.receiverSignature with
                  | none =>
                      simp only [hsig] at h
                      cases h
                  | some sig =>
                      simp only [hsig, ← hsender] at h
                      by_cases hverify : K.dalekVerify proof.receiverAddress
                          ⟨sl.amount, excess, proof.senderAddress⟩ sig = true
                      · exact ⟨index, sig, excess, rfl, hsender, rfl, hexcess, hverify⟩
                      · rw [if_neg hverify] at h
                        cases h
                · rw [if_pos hreceiver] at h
                  cases h
              · rw [if_pos hsender] at h
                cases h

omit [CommRing F] [AddCommGroup E] [Module F E] [DecidableEq E] in
/-- The proof of a completed record is over the amount the record shows. -/
theorem completedEntry_verifies {K : Keychain F E} (hideal : K.IdealSignatures)
    {proof : PaymentInfo} {t : TxLogEntry E} {index : Nat} {sig : DalekSignature} {excess : E}
    (hproof : sl.paymentProof = some proof) (hshows : t.Shows sl.amount)
    (hindex : c.paymentProofDerivationIndex = some index)
    (hsender : proof.senderAddress = K.dalekPublicKey (K.addressKey p index))
    (hsig : proof.receiverSignature = some sig)
    (hverify : K.dalekVerify proof.receiverAddress ⟨sl.amount, excess, proof.senderAddress⟩ sig
      = true) :
    (completedEntry K p c sl excess t).ProofVerifies K.toCurve := by
  intro _ hrp exported hexported
  obtain ⟨stored, e, rSig, sSig, hstored, he, hr, hs, rfl⟩ := exportedProof_eq_ok hexported
  have hamount : (completedEntry K p c sl excess t).recordedAmount = sl.amount :=
    hshows.recordedAmount
  simp only [completedEntry, hproof, Option.some.injEq] at hstored
  subst hstored
  cases he
  cases hs
  have hrSig : rSig = sig := Option.some.inj (hr.symm.trans hsig)
  subst hrSig
  have hmsg : Owner.paymentProofMessage ⟨(completedEntry K p c sl excess t).recordedAmount, excess,
      ⟨hrp, (completedProof K p c sl excess proof).receiverAddress⟩, rSig,
      ⟨hrp, (completedProof K p c sl excess proof).senderAddress⟩,
      K.dalekSign (K.addressKey p (c.paymentProofDerivationIndex.getD 0))
        ⟨sl.amount, excess, proof.senderAddress⟩⟩ = ⟨sl.amount, excess, proof.senderAddress⟩ := by
    rw [Owner.paymentProofMessage, hamount, hsender]
    simp only [completedProof, hindex, Option.getD_some]
  refine ⟨?_, ?_⟩
  · rw [hmsg]
    exact hverify
  · rw [hmsg]
    exact (hideal.verify_sign _ _ _ _).mpr ⟨rfl, rfl⟩

omit [CommRing F] [Module F E] in
/-- Completing the record of a send whose proof was found right. -/
theorem updateStoredTx_keepsProofs {m : WalletBackend F E} (hideal : env.keychain.IdealSignatures)
    (hm : m.store.ProofsVerify env.keychain.toCurve) (hrecorded : m.store.Recorded sl sl.amount)
    (hverify : verifySlatePaymentProof env.keychain m.store m.parentKeyId c sl = .ok ()) :
    (updateStoredTx env c sl false m).2.store.ProofsVerify env.keychain.toCurve := by
  cases hrun : updateStoredTx env c sl false m with
  | mk r m' =>
      cases r with
      | error e =>
          obtain rfl := updateStoredTx_error hrun
          exact hm
      | ok u =>
          obtain ⟨t, tx, excess, hfind, -, hexcess, rfl⟩ := updateStoredTx_eq_ok hrun
          refine hm.save ?_ t.parentKeyId
          cases hproof : sl.paymentProof with
          | none =>
              refine proofVerifies_of_unsigned fun hsigned => ?_
              simp only [TxLogEntry.SenderSigned, completedEntry, hproof] at hsigned
              exact hrecorded.unsigned hproof t hfind hsigned
          | some proof =>
              obtain ⟨index, sig, excess', hindex, hsender, hsig, hexcess', hsigned⟩ :=
                verifySlatePaymentProof_signed hproof hverify
              obtain rfl := Except.ok.inj (hexcess.symm.trans hexcess')
              exact completedEntry_verifies hideal hproof
                (hrecorded.shown (by simp [hproof]) t hfind) hindex hsender hsig hsigned

end Tx

namespace Foreign

/-- Finalizing a send whose record is as it should. -/
theorem finalizeStandard_keepsProofs (hideal : env.keychain.IdealSignatures)
    (hw : w.store.ProofsVerify env.keychain.toCurve) (hrecorded : SendRecorded env slate c w) :
    (finalizeStandard env slate c w).2.store.ProofsVerify env.keychain.toCurve := by
  refine Eff.Triple.final (P := fun m => m = w)
    (I := Tables (Store.ProofsVerify env.keychain.toCurve)) ?_ rfl
  refine Eff.Triple.read_bind fun w₀ hw₀ => ?_
  subst hw₀
  refine Eff.Triple.bind (Q := fun c' m => m.store.ProofsVerify env.keychain.toCurve ∧
    m.parentKeyId = w₀.parentKeyId ∧ m.store.Recorded slate c'.amount) ?_ fun c' => ?_
  · rintro m rfl
    have hkeeps : (lockedContext env slate c m.parentKeyId m).2.store.ProofsVerify
        env.keychain.toCurve := lockedContext_keepsProofs hw
    cases hrun : lockedContext env slate c m.parentKeyId m with
    | mk r m' =>
        rw [hrun] at hkeeps
        cases r with
        | error e => exact hkeeps
        | ok c' => exact ⟨hkeeps, lockedContext_recorded hrecorded hrun⟩
  refine Eff.Triple.read_bind_self fun w₁ hw₁ => ?_
  obtain ⟨hproofs, haccount, hentry⟩ := hw₁
  have hstay : ∀ m : WalletBackend F E, m = w₁ → m.store.ProofsVerify env.keychain.toCurve := by
    rintro m rfl
    exact hproofs
  refine Eff.Triple.bind (Q := fun sl m => m = w₁ ∧
      Selection.repopulateTx env.keychain w₁.store (slate.adjustOffset env.keychain c') c' true
        = .ok sl)
    (Eff.Triple.ofExcept (fun sl m h hm => ⟨hm, h⟩) hstay) fun sl₁ => ?_
  refine Eff.Triple.bind (Q := fun sl m => m = w₁ ∧ completed env slate c' w₁.store = .ok sl)
    (Eff.Triple.ofExcept (fun sl m h hm => ⟨hm.1, except_bind_eq_ok.mpr ⟨sl₁, hm.2, h⟩⟩)
      fun m hm => hstay m hm.1) fun sl => ?_
  refine Eff.Triple.bind (Q := fun _ m => m = w₁ ∧ completed env slate c' w₁.store = .ok sl ∧
      Tx.verifySlatePaymentProof env.keychain w₁.store w₀.parentKeyId c' sl = .ok ())
    (Eff.Triple.ofExcept (fun _ m h hm => ⟨hm.1, hm.2, h⟩) fun m hm => hstay m hm.1) fun _ => ?_
  refine Eff.Triple.bind (Q := fun _ => Tables (Store.ProofsVerify env.keychain.toCurve)) ?_
    fun _ => ?_
  · rintro m ⟨rfl, hcompleted, hverify⟩
    obtain ⟨-, hproof, hamount, hid, -⟩ := completed_eq_ok hcompleted
    have hentry' : m.store.Recorded sl sl.amount := by
      refine ⟨fun h t ht => ?_, fun h t ht => ?_⟩
      · rw [hid] at ht
        rw [hproof] at h
        rw [hamount]
        exact hentry.shown h t ht
      · rw [hid] at ht
        rw [hproof] at h
        exact hentry.unsigned h t ht
    rw [← haccount] at hverify
    have hkeeps := Tx.updateStoredTx_keepsProofs hideal hproofs hentry' hverify
    cases hrun : Tx.updateStoredTx env c' sl false m with
    | mk r m' =>
        rw [hrun] at hkeeps
        cases r <;> exact hkeeps
  refine Eff.Moves.keepsTriple ?_
  refine (commit_tables fun s hs => hs.of_log rfl).bind fun _ => ?_
  exact (updateTxSlateState_keepsLog proofVerifies_ofSend _ _).bind fun _ => Eff.Moves.pure _

end Foreign

end Finalize

/-- A finalization of a send finds a record that shows its amount, or, if it locks
late, no record that does not. -/
def FinalizesRecorded (env : Env F E) : Hold F E → WalletBackend F E → Prop
  | .call (.finalizeTx slate _), w => slate.state = .Standard2 → ∀ c,
      w.store.getPrivateContext env.keychain slate.id = .ok c → SendRecorded env slate c w
  | _, _ => True

/-- A call keeps the proofs, if its finalization meets the condition. -/
theorem call_keepsProofs {env : Env F E} {w : WalletBackend F E} {c : ApiCall F E}
    (hideal : env.keychain.IdealSignatures) (hallow : FinalizesRecorded env (.call c) w)
    (hw : w.store.ProofsVerify env.keychain.toCurve) :
    (c.run env w).2.store.ProofsVerify env.keychain.toCurve := by
  refine call_keepsLog proofVerifies_ofSend (fun slate _ => ?_)
    (fun slate post c' hc hstate hget => ?_) hw
  · exact Owner.txLockOutputs_keepsProofs slate w hw
  · subst hc
    exact Foreign.finalizeStandard_keepsProofs hideal hw (hallow hstate c' hget)

/-! ## Locks that balance -/

/-- What a finalization must find of a send whose locks balance: the amount of its send, and
without a proof to sign no signature of the sender. -/
structure FinalizesSend (env : Env F E) (amounts : Uuid → Option Nat) (slate : Slate F E)
    (c : Context E) (w : WalletBackend F E) : Prop where
  amount : amounts slate.id = some c.amount
  balances : c.lateLockArgs ≠ none → ∀ c' w',
    Foreign.lockedContext env slate c w.parentKeyId w = (.ok c', w') → c'.Balances w.store
  unsigned : slate.paymentProof = none → ∀ t ∈ w.store.txLogIter, t.txSlateId = some slate.id →
    t.txType = .TxSent → ¬ t.SenderSigned

/-- The sends, told by the ids of their slates, are locked with inputs worth the amount, the
fee and the change, at once or late. -/
def LocksBalance (env : Env F E) (amounts : Uuid → Option Nat) : Hold F E → WalletBackend F E → Prop
  | .call (.txLockOutputs slate), w => ∀ c,
      w.store.getPrivateContext env.keychain slate.id = .ok c →
        ∀ amount ∈ amounts slate.id, c.amount = amount ∧ c.Balances w.store
  | .call (.finalizeTx slate _), w => slate.state = .Standard2 → ∀ c,
      w.store.getPrivateContext env.keychain slate.id = .ok c → FinalizesSend env amounts slate c w
  | _, _ => True

section Locks

variable {env : Env F E} {amounts : Uuid → Option Nat} {slate : Slate F E} {c : Context E}
  {w w' : WalletBackend F E}

theorem Owner.txLockOutputs_showsSend (hw : w.store.Logs (ShowsSend amounts))
    (h : ∀ c, w.store.getPrivateContext env.keychain slate.id = .ok c →
      ∀ amount ∈ amounts slate.id, c.amount = amount ∧ c.Balances w.store) :
    (txLockOutputs env slate w).2.store.Logs (ShowsSend amounts) := by
  refine txLockOutputs_keepsLog hw fun c hget sl height excess now u s' hid hbatch => ?_
  obtain ⟨t, hlog, hslate, -, hshows⟩ := Selection.lockBatch_recorded hbatch
  refine hw.put (fun _ id hid' amount hamount => ?_) hlog
  rw [hslate, hid] at hid'
  obtain rfl := Option.some.inj hid'
  obtain ⟨rfl, hbalances⟩ := h c hget amount hamount
  exact hshows hbalances

omit [CommRing F] [Module F E] in
/-- Completing a record leaves what it shows. -/
theorem Tx.updateStoredTx_showsSend (c : Context E) (slate : Slate F E) :
    KeepsLog (ShowsSend amounts) (updateStoredTx env c slate false) := by
  intro m hm
  cases hrun : updateStoredTx env c slate false m with
  | mk r m' =>
      cases r with
      | error e =>
          obtain rfl := updateStoredTx_error hrun
          exact hm
      | ok u =>
          obtain ⟨t, tx, excess, hfind, -, -, rfl⟩ := updateStoredTx_eq_ok hrun
          refine Store.Logs.save hm (fun hlive id hid amount hamount => ?_) t.parentKeyId
          have hshows := hm t (finalizedEntry_slateId hfind).1 hlive id hid amount hamount
          exact ⟨hshows.debited, hshows.small⟩

namespace Foreign

theorem lockedContext_showsSend (hw : w.store.Logs (ShowsSend amounts))
    (h : FinalizesSend env amounts slate c w) :
    (lockedContext env slate c w.parentKeyId w).2.store.Logs (ShowsSend amounts) := by
  refine lockedContext_keepsLog hw fun hargs c' w' hrun m htxLog houtputs hstored => ?_
  have hbalances := h.balances hargs c' w' hrun
  obtain ⟨⟨ins, outs, late, hc'⟩, -, -⟩ := lockedContext_eq_ok hrun
  have hamount : c'.amount = c.amount := by rw [hc']
  refine Owner.txLockOutputs_showsSend (hw.of_log htxLog) fun c₁ hget amount ha => ?_
  rw [hstored] at hget
  cases hget
  obtain rfl := Option.some.inj (h.amount.symm.trans ha)
  exact ⟨hamount, hbalances.of_outputs houtputs⟩

theorem finalizeStandard_showsSend (hw : w.store.Logs (ShowsSend amounts))
    (h : FinalizesSend env amounts slate c w) :
    (finalizeStandard env slate c w).2.store.Logs (ShowsSend amounts) := by
  refine Eff.Triple.final (P := fun m => m = w) (I := Tables (Store.Logs (ShowsSend amounts))) ?_
    rfl
  refine Eff.Triple.read_bind fun w₀ hw₀ => ?_
  subst hw₀
  refine Eff.Triple.bind (Q := fun _ => Tables (Store.Logs (ShowsSend amounts))) ?_ fun c' => ?_
  · rintro m rfl
    have hlocked := lockedContext_showsSend hw h
    cases hrun : lockedContext env slate c m.parentKeyId m with
    | mk r m' =>
        rw [hrun] at hlocked
        cases r <;> exact hlocked
  refine Eff.Moves.keepsTriple (Eff.Moves.read.bind fun w₁ => ?_)
  refine (Eff.Moves.ofExcept _).bind fun sl₁ => (Eff.Moves.ofExcept _).bind fun sl => ?_
  refine (Eff.Moves.ofExcept _).bind fun _ => (Tx.updateStoredTx_showsSend c' sl).bind fun _ => ?_
  refine (commit_tables fun s hs => hs.of_log rfl).bind fun _ => ?_
  exact (updateTxSlateState_keepsLog showsSend_ofSend _ _).bind fun _ => Eff.Moves.pure _

end Foreign

/-- A call leaves every live record of a send with its amount, if its lock balances. -/
theorem call_showsSend {call : ApiCall F E} (hallow : LocksBalance env amounts (.call call) w)
    (hw : w.store.Logs (ShowsSend amounts)) :
    (call.run env w).2.store.Logs (ShowsSend amounts) := by
  refine call_keepsLog showsSend_ofSend (fun slate hc => ?_) (fun slate post c' hc hstate hget => ?_)
    hw
  · subst hc
    exact Owner.txLockOutputs_showsSend hw hallow
  · subst hc
    exact Foreign.finalizeStandard_showsSend hw (hallow hstate c' hget)

/-- Where every live record shows its amount, a finalization finds what it must. -/
theorem FinalizesSend.recorded (h : FinalizesSend env amounts slate c w)
    (hw : w.store.Logs (ShowsSend amounts)) : SendRecorded env slate c w := by
  have hshows : ∀ t ∈ w.store.txLogIter, t.txSlateId = some slate.id → t.txType = .TxSent →
      t.Shows c.amount := fun t ht hid hlive => hw t ht hlive slate.id hid c.amount h.amount
  have hentry : ∀ t, Tx.finalizedEntry w.store slate.id false = some t →
      t ∈ w.store.txLogIter ∧ t.txSlateId = some slate.id ∧ t.txType = .TxSent := by
    intro t ht
    obtain ⟨hmem, hid, htype⟩ := Tx.finalizedEntry_slateId ht
    exact ⟨hmem, hid, by simpa using htype⟩
  refine ⟨fun _ => ⟨fun _ t ht => ?_, fun hproof t ht => ?_⟩, fun _ _ => hshows,
    fun _ => h.unsigned, h.balances⟩
  · obtain ⟨hmem, hid, htype⟩ := hentry t ht
    exact hshows t hmem hid htype
  · obtain ⟨hmem, hid, htype⟩ := hentry t ht
    exact h.unsigned hproof t hmem hid htype

/-- In a run whose locks balance, a finalization finds a record that shows the amount of its
send. -/
theorem finalizesRecorded_of_locks (hw : w.store.Logs (ShowsSend amounts))
    {c : Config (Hold F E) (WalletBackend F E) Error}
    (h : WalletReaches env (LocksBalance env amounts) w c) :
    WalletReaches env (FinalizesRecorded env) w c := by
  have hkept : ∀ c, WalletReaches env (LocksBalance env amounts) w c →
      Tables (Store.Logs (ShowsSend amounts)) c.state := fun c hc =>
    logs_of_reachable showsSend_ofSend (fun call m hallow hm => call_showsSend hallow hm) hw hc
  refine h.allowed_of_invariant hkept fun label m hm hallow => ?_
  cases label with
  | call call =>
      cases call with
      | finalizeTx slate post =>
          exact fun hstate c' hget => (hallow hstate c' hget).recorded hm
      | _ => trivial
  | _ => trivial

end Locks

/-! ## Exporting -/

section Programs

variable {env : Env F E} {allowed : Hold F E → WalletBackend F E → Prop} {w : WalletBackend F E}

namespace Owner

/-- The record an exported proof is of, and that its signatures verify. -/
def ExportsRight (env : Env F E) (txId : Option Nat) (txSlateId : Option Uuid)
    (proof : PaymentProof E) (w : WalletBackend F E) : Prop :=
  ∃ t, Updater.retrieveTxs w.store txId txSlateId (some w.parentKeyId) false = [t] ∧
    t.exportedProof env.addressHrp = .ok proof ∧
    (t.Sent → proof.SignaturesVerify env.keychain.toCurve)

theorem retrievePaymentProof_logSafe (fuel : Nat) (refresh : Bool) (txId : Option Nat)
    (txSlateId : Option Uuid) :
    LogSafe (ProofVerifies env.keychain.toCurve) allowed (ExportsRight env txId txSlateId)
      (retrievePaymentProof env lockedRestore fuel refresh txId txSlateId) w := by
  unfold retrievePaymentProof
  by_cases hnone : txId.isNone = true ∧ txSlateId.isNone = true
  · rw [if_pos hnone]
    trivial
  rw [if_neg hnone]
  refine (refreshIf_logSafe proofVerifies_ofSend fuel refresh).andThen fun _ _ _ => ?_
  refine (refreshIf_logSafe proofVerifies_ofSend fuel refresh).andThen fun _ _ _ => ?_
  refine Thread.Safe.andThen (Q := fun w' m => w' = m ∧
      m.store.ProofsVerify env.keychain.toCurve)
    (Thread.Safe.atomic fun m _ hm _ => ⟨trivial, hm, fun w' hw' => ?_⟩) fun w' m hw' => ?_
  · cases hw'
    exact ⟨rfl, hm⟩
  obtain ⟨rfl, hproofs⟩ := hw'
  cases htxs : Updater.retrieveTxs w'.store txId txSlateId (some w'.parentKeyId) false with
  | nil => trivial
  | cons t rest =>
      cases rest with
      | cons t' rest => trivial
      | nil =>
          cases hexport : t.exportedProof env.addressHrp with
          | error e =>
              simp only [hexport]
              trivial
          | ok proof =>
              simp only [hexport]
              have hmem := (Updater.mem_retrieveTxs.mp (htxs ▸ List.mem_cons_self)).1
              exact ⟨t, htxs, hexport, fun hsent => hproofs t hmem hsent _ _ hexport⟩

omit [CommRing F] [AddCommGroup E] [Module F E] [DecidableEq E] in
/-- A proof whose kernel is on chain is accepted exactly when its signatures verify. -/
theorem verifyPaymentProof_ok_iff {proof : PaymentProof E} {found : Nat × Nat}
    (hkernel : (env.node w.tick).getKernel proof.excess none none = .ok (some found)) :
    (verifyPaymentProof env proof w).1.isOk = true ↔
      proof.SignaturesVerify env.keychain.toCurve := by
  have hask : Eff.attempt (ask fun t => (env.node t).getKernel proof.excess none none) w =
      (.ok (.ok (some found)), { w with tick := w.tick + 1 }) := by
    simp [ask, hkernel]
  unfold verifyPaymentProof
  rw [Eff.run_bind_ok (Eff.run_read w), Eff.run_bind_ok hask]
  by_cases hr : env.keychain.dalekVerify proof.recipientAddress.pubKey (paymentProofMessage proof)
      proof.recipientSig = false
  · simp only [hr, Eff.throwIf, if_true]
    refine ⟨fun h => (by cases h), fun h => ?_⟩
    rw [h.recipient] at hr
    cases hr
  by_cases hs : env.keychain.dalekVerify proof.senderAddress.pubKey (paymentProofMessage proof)
      proof.senderSig = false
  · simp only [hr, hs, Eff.throwIf, if_true]
    refine ⟨fun h => (by cases h), fun h => ?_⟩
    rw [h.sender] at hs
    cases hs
  · simp only [Eff.throwIf, if_neg hr, if_neg hs]
    exact ⟨fun _ => ⟨by simpa using hr, by simpa using hs⟩, fun _ => rfl⟩

end Owner

/-- In a run whose finalizations complete records that show the amount of the send,
the proof a send exports verifies, whenever it is exported: any wallet accepts it while
its node has the kernel. -/
theorem exported_proof_verifies (hideal : env.keychain.IdealSignatures)
    (hw : w.store.ProofsVerify env.keychain.toCurve)
    {c : Config (Hold F E) (WalletBackend F E) Error}
    (h : WalletReaches env (FinalizesRecorded env) w c) {fuel : Nat} {refresh : Bool}
    {txId : Option Nat} {txSlateId : Option Uuid} {proof : PaymentProof E}
    {w' : WalletBackend F E}
    (hrun : (Owner.retrievePaymentProof env Owner.lockedRestore fuel refresh txId txSlateId).run
      c.state = (.ok proof, w')) :
    ∃ t, Updater.retrieveTxs w'.store txId txSlateId (some w'.parentKeyId) false = [t] ∧
      t.exportedProof env.addressHrp = .ok proof ∧
      (t.Sent → proof.SignaturesVerify env.keychain.toCurve ∧
        ∀ (verifier : Env F E) (v : WalletBackend F E) found,
          verifier.keychain.toCurve = env.keychain.toCurve →
          (verifier.node v.tick).getKernel proof.excess none none = .ok (some found) →
            (Owner.verifyPaymentProof verifier proof v).1.isOk = true) := by
  have hrefl : Std.Refl fun _ _ : WalletBackend F E => True := ⟨fun _ => trivial⟩
  have hproofs : c.state.store.ProofsVerify env.keychain.toCurve :=
    logs_of_reachable proofVerifies_ofSend
      (fun call m hallow hm => call_keepsProofs hideal hallow hm) hw h
  have hretrieve : LogSafe (ProofVerifies env.keychain.toCurve) (fun _ _ => True)
      (Owner.ExportsRight env txId txSlateId)
      (Owner.retrievePaymentProof env Owner.lockedRestore fuel refresh txId txSlateId) c.state :=
    Owner.retrievePaymentProof_logSafe fuel refresh txId txSlateId
  obtain ⟨t, htxs, hexport, hverifies⟩ :=
    hretrieve.returned hproofs (Thread.allowedRun_of_forall (fun _ _ => trivial) _ _) hrun
  refine ⟨t, htxs, hexport, fun hsent => ⟨hverifies hsent, fun verifier v found hcurve hkernel => ?_⟩⟩
  have hsigned := hverifies hsent
  rw [← hcurve] at hsigned
  exact (Owner.verifyPaymentProof_ok_iff hkernel).mpr hsigned

end Programs

/-! ## A late-locked send that was locked before -/

namespace SampleProof

open SampleSend (noSlate)

/-- The wallet that sends, with the keys it draws. -/
def sender : Env ℤ (ℤ × ℤ) := env.drawing (1, 2)

def funds : WalletBackend ℤ (ℤ × ℤ) := sampleWallet [sampleCoin 30000000 0]

/-- A send that asks for a payment proof and is locked now, or at its finalization. -/
def proofSend (late : Bool) : InitTxArgs :=
  { sampleSend 5 with
    paymentProofRecipientAddress := some ⟨env.addressHrp, address⟩, lateLock := some late }

def proofOffer (late : Bool) : Slate ℤ (ℤ × ℤ) :=
  returned (Owner.initSendTx sender (proofSend late) funds) noSlate

def proofAnswer (late : Bool) : Slate ℤ (ℤ × ℤ) :=
  returned (Foreign.receiveTx (env.drawing (3, 4)) (proofOffer late) none .new) noSlate

def callThread (c : ApiCall ℤ (ℤ × ℤ)) : WalletThread ℤ (ℤ × ℤ) Unit :=
  Thread.atomic (.call c) (c.run sender)

/-- The three calls of a send, whose outputs are locked before the answer comes back. -/
def sending (late : Bool) : Config (Hold ℤ (ℤ × ℤ)) (WalletBackend ℤ (ℤ × ℤ)) Error where
  threads := [callThread (.initSendTx (proofSend late)), callThread (.txLockOutputs (proofOffer late)),
    callThread (.finalizeTx (proofAnswer late) false)]
  state := funds

def awaiting (late : Bool) : WalletBackend ℤ (ℤ × ℤ) :=
  ((sending late).follow [(0, 1), (1, 1)]).state

def sent (late : Bool) : Config (Hold ℤ (ℤ × ℤ)) (WalletBackend ℤ (ℤ × ℤ)) Error :=
  (sending late).follow [(0, 1), (1, 1), (2, 1)]

/-- The proof exported for the first record of the log. -/
def exported (late : Bool) :
    Except Error (PaymentProof (ℤ × ℤ)) × WalletBackend ℤ (ℤ × ℤ) :=
  (Owner.retrievePaymentProof sender Owner.lockedRestore 0 false (some 0) none).run
    (sent late).state

theorem sending_reachable {allowed : Hold ℤ (ℤ × ℤ) → WalletBackend ℤ (ℤ × ℤ) → Prop}
    (late : Bool) : WalletReaches sender allowed funds (sending late) := by
  refine reachable_pool fun t ht => ?_
  simp only [List.mem_cons, List.not_mem_nil, or_false] at ht
  rcases ht with rfl | rfl | rfl <;> exact .call _

def noProof : PaymentProof (ℤ × ℤ) := ⟨0, 0, ⟨"", 0⟩, 0, ⟨"", 0⟩, 0⟩

/-- A finalization locks again and completes the record of the first lock, which
shows no inputs: the exported amount is not the signed one. -/
theorem locked_before_proof_fails :
    WalletReaches sender (fun _ _ => True) funds (sent true) ∧ keychain.IdealSignatures ∧
      (returned (Foreign.finalizeTx sender (proofAnswer true) false (awaiting true))
        noSlate).paymentProof.isSome = true ∧
      (Foreign.finalizeTx sender (proofAnswer true) false (awaiting true)).1.isOk = true ∧
      ((sent true).state.store.txLogIter.map fun t =>
        (t.id, t.txType, t.amountDebited, t.amountCredited, t.fee.map (·.fee))) =
        [(0, .TxSent, 0, 0, some 23000000), (1, .TxSent, 30000000, 6999995, some 23000000)] ∧
      ∃ proof, (exported true).1 = .ok proof ∧ (proofOffer true).amount = 5 ∧ proof.amount = 0 ∧
        ¬ proof.SignaturesVerify sender.keychain.toCurve := by
  refine ⟨reachable_follow (sending_reachable true)
    (Config.allows_of_forall (fun _ _ => trivial) _ _), keychain_ideal, by decide +kernel,
    by decide +kernel, by decide +kernel, returned (exported true) noProof, ?_, by decide +kernel,
    by decide +kernel, fun h => ?_⟩
  · exact congrArg Prod.fst (eq_returned noProof (by decide +kernel))
  · have hfalse : sender.keychain.dalekVerify (returned (exported true) noProof).senderAddress.pubKey
        (Owner.paymentProofMessage (returned (exported true) noProof))
        (returned (exported true) noProof).senderSig = false := by decide +kernel
    rw [h.sender] at hfalse
    cases hfalse

/-- The amount of the one send. -/
def amounts (id : Uuid) : Option Nat := if id = (proofOffer false).id then some 5 else none

def locking : WalletBackend ℤ (ℤ × ℤ) := ((sending false).follow [(0, 1)]).state

/-- The lock of a send that locks at once is of inputs worth its amount, fee and change. -/
theorem sending_allowed :
    (sending false).Allows (LocksBalance sender amounts) [(0, 1), (1, 1), (2, 1)] := by
  refine ⟨fun t ht => ?_, fun t ht => ?_, fun t ht => ?_, trivial⟩
  · obtain rfl := Option.some.inj ht
    exact ⟨trivial, trivial⟩
  · obtain rfl := Option.some.inj ht
    refine ⟨fun c hget amount hamount => ?_, trivial⟩
    change locking.store.getPrivateContext keychain (proofOffer false).id = .ok c at hget
    have hcontext : (locking.store.getPrivateContext keychain
        (proofOffer false).id).toOption.all (fun c => decide (c.amount = 5) &&
          decide ((c.inputIds.map (Selection.inputValue locking.store)).sum =
            c.amount + (c.fee.map (·.fee)).getD 0 +
              (c.outputIds.map fun p => Selection.cachedChange c.outputIds p.1).sum) &&
          decide ((c.inputIds.map (Selection.inputValue locking.store)).sum < 2 ^ 64)) = true := by
      decide +kernel
    rw [hget] at hcontext
    have hall : (c.amount = 5 ∧ (c.inputIds.map (Selection.inputValue locking.store)).sum =
        c.amount + (c.fee.map (·.fee)).getD 0 +
          (c.outputIds.map fun p => Selection.cachedChange c.outputIds p.1).sum) ∧
        (c.inputIds.map (Selection.inputValue locking.store)).sum < 2 ^ 64 := by
      simpa [Except.toOption] using hcontext
    have hfive : amounts (proofOffer false).id = some 5 := if_pos rfl
    obtain rfl := Option.some.inj (hfive.symm.trans hamount)
    exact ⟨hall.1.1, hall.1.2, hall.2⟩
  · obtain rfl := Option.some.inj ht
    refine ⟨fun _ c hget => ?_, trivial⟩
    change (awaiting false).store.getPrivateContext keychain (proofAnswer false).id = .ok c at hget
    have hcontext : ((awaiting false).store.getPrivateContext keychain
        (proofAnswer false).id).toOption.map (fun c => (c.lateLockArgs.isNone, c.amount))
          = some (true, 5) := by decide +kernel
    rw [hget] at hcontext
    obtain ⟨hlate, hamount⟩ := Prod.mk.inj (Option.some.inj hcontext)
    have hnone : c.lateLockArgs = none := Option.isNone_iff_eq_none.mp hlate
    have hproof : (proofAnswer false).paymentProof.isSome = true := by decide +kernel
    have hsame : amounts (proofAnswer false).id = some 5 := by decide +kernel
    refine ⟨?_, fun h => (h hnone).elim, fun h => ?_⟩
    · rw [hsame, ← hamount]
    · rw [h] at hproof
      cases hproof

theorem funds_logs (P : TxLogEntry (ℤ × ℤ) → Prop) : funds.store.Logs P := by
  have hempty : funds.store.txLogIter = [] := by decide +kernel
  intro t ht
  rw [hempty] at ht
  cases ht

theorem exported_proof_verifies_at_once :
    ∃ t, Updater.retrieveTxs (exported false).2.store (some 0) none
        (some (exported false).2.parentKeyId) false = [t] ∧
      t.exportedProof sender.addressHrp = .ok (returned (exported false) noProof) ∧
      (t.Sent → (returned (exported false) noProof).SignaturesVerify sender.keychain.toCurve ∧
        ∀ (verifier : Env ℤ (ℤ × ℤ)) (v : WalletBackend ℤ (ℤ × ℤ)) found,
          verifier.keychain.toCurve = sender.keychain.toCurve →
          (verifier.node v.tick).getKernel (returned (exported false) noProof).excess none none
            = .ok (some found) →
            (Owner.verifyPaymentProof verifier (returned (exported false) noProof) v).1.isOk = true) :=
  exported_proof_verifies keychain_ideal (funds_logs _)
    (finalizesRecorded_of_locks (funds_logs _)
      (reachable_follow (sending_reachable false) sending_allowed))
    (eq_returned noProof (by decide +kernel))

end SampleProof

end GrinWallet
