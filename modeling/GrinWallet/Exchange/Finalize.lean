import GrinWallet.Exchange.Calls

/-! # Locking and finalizing

A lock leaves a record for every input and every output of its context, which is
what finalization restores the transaction from. Finalization of a slate with
the other party's entry alone gives the transaction both have signed.
-/

namespace GrinWallet

open Effect WalletBackend OrderedTable

variable {F E : Type}

/-! ## Locking -/

namespace Store

theorem held_save {s : Store E} {p : Identifier × Option Nat × Nat} (h : Held s p)
    (o : OutputData E) : Held (s.save o) p := by
  by_cases hkey : o.key = outputKey p.1 p.2.1
  · refine ⟨o, ?_⟩
    rw [← hkey]
    exact Table.find_put_self _ _
  · obtain ⟨o', ho'⟩ := h
    exact ⟨o', (Table.find_put_of_ne _ hkey).trans ho'⟩

theorem recorded_save {s : Store E} {id : Identifier} (h : recorded s id = true)
    (o : OutputData E) : recorded (s.save o) id = true := by
  obtain ⟨o', ho', hid⟩ := recorded_iff.mp h
  by_cases hkey : o'.key = o.key
  · have hids : o'.keyId = o.keyId := (outputKey_inj.mp hkey).1
    exact recorded_iff.mpr ⟨o, Table.mem_put.mpr (.inl rfl), hids.symm.trans hid⟩
  · exact recorded_iff.mpr ⟨o', Table.mem_put.mpr (.inr ⟨ho', hkey⟩), hid⟩

theorem recorded_save_self (s : Store E) (o : OutputData E) :
    recorded (s.save o) o.keyId = true :=
  recorded_iff.mpr ⟨o, Table.mem_put.mpr (.inl rfl), rfl⟩

/-- Every record of the first store has one under its key in the second. -/
def Covers (s s' : Store E) : Prop :=
  (∀ p, Held s p → Held s' p) ∧ (∀ id, recorded s id = true → recorded s' id = true) ∧
    s'.contexts = s.contexts

theorem Covers.refl (s : Store E) : Covers s s := ⟨fun _ h => h, fun _ h => h, rfl⟩

theorem Covers.trans {s s' s'' : Store E} (h : Covers s s') (h' : Covers s' s'') :
    Covers s s'' :=
  ⟨fun p hp => h'.1 p (h.1 p hp), fun id hid => h'.2.1 id (h.2.1 id hid), h'.2.2.trans h.2.2⟩

theorem covers_save (s : Store E) (o : OutputData E) : Covers s (s.save o) :=
  ⟨fun _ h => held_save h o, fun _ h => recorded_save h o, rfl⟩

theorem covers_saveTxLogEntry (s : Store E) (t : TxLogEntry E) (p : Identifier) :
    Covers s (s.saveTxLogEntry t p) :=
  ⟨fun _ h => h, fun _ h => h, rfl⟩

end Store

namespace Selection

open Store

theorem lockInputs_covers {logId : Nat} {ids : List (Identifier × Option Nat × Nat)}
    {debited debited' : Nat} {s s' : Store E}
    (h : lockInputs logId ids debited s = .ok (debited', s')) :
    Covers s s' ∧ ∀ p ∈ ids, Held s' p := by
  induction ids generalizing debited s with
  | nil =>
      cases h
      exact ⟨Covers.refl _, by simp⟩
  | cons p ids ih =>
      obtain ⟨id, mmrIndex, value⟩ := p
      unfold lockInputs at h
      obtain ⟨coin, hget, hrest⟩ := except_bind_eq_ok.mp h
      obtain ⟨hcovers, hheld⟩ := ih hrest
      have hsave := covers_save s ({ coin with txLogEntry := some logId } : OutputData E).lock
      refine ⟨hsave.trans hcovers, fun q hq => ?_⟩
      rcases List.mem_cons.mp hq with rfl | hq
      · refine (hsave.trans hcovers).1 _ ?_
        unfold Store.get at hget
        cases hfind : s.outputs.find (outputKey id mmrIndex) with
        | none =>
            rw [hfind] at hget
            cases hget
        | some o => exact ⟨o, hfind⟩
      · exact hheld q hq

theorem foldl_save_covers {α : Type} (f : α → OutputData E) (l : List α) (s : Store E) :
    Covers s (l.foldl (fun s a => s.save (f a)) s) ∧
      ∀ a ∈ l, recorded (l.foldl (fun s a => s.save (f a)) s) (f a).keyId = true := by
  induction l generalizing s with
  | nil => exact ⟨Covers.refl s, by simp⟩
  | cons a as ih =>
      obtain ⟨hcovers, hrec⟩ := ih (s.save (f a))
      refine ⟨(covers_save s (f a)).trans hcovers, fun b hb => ?_⟩
      rcases List.mem_cons.mp hb with rfl | hb
      · exact hcovers.2.1 _ (recorded_save_self s (f b))
      · exact hrec b hb

variable [CommRing F] [AddCommGroup E] [Module F E] [DecidableEq E]

theorem lockBatch_covers {K : Keychain F E} {slate : Slate F E} {height : Nat} {c : Context E}
    {excess : Option E} {now : Nat} {s s' : Store E} {u : Unit}
    (h : lockBatch K slate height c excess now s = .ok (u, s')) :
    Covers s s' ∧ (∀ p ∈ c.inputIds, Held s' p) ∧ ∀ p ∈ c.outputIds, recorded s' p.1 = true := by
  unfold lockBatch at h
  obtain ⟨⟨debited, s₁⟩, hlock, h⟩ := except_bind_eq_ok.mp h
  obtain ⟨proof, -, h⟩ := except_bind_eq_ok.mp h
  obtain ⟨hcovers, hheld⟩ := lockInputs_covers hlock
  cases h
  have hchange := foldl_save_covers (fun p : Identifier × Nat =>
    unconfirmedOutput K c.parentKeyId p.1 p.2 height 0 false (some (s.txLogId c.parentKeyId)))
    (c.outputIds.map fun p => (p.1, cachedChange c.outputIds p.1)) s₁
  refine ⟨?_, ?_, ?_⟩
  · exact (hcovers.trans hchange.1).trans (covers_saveTxLogEntry _ _ _)
  · exact fun p hp => hchange.1.1 p (hheld p hp)
  · intro p hp
    exact hchange.2 _ (List.mem_map_of_mem hp)

end Selection

namespace Owner

variable [CommRing F] [AddCommGroup E] [Module F E] [DecidableEq E]

/-- A lock keeps the contexts and every record, and leaves one for each input and
each output of the context it locks. -/
theorem txLockOutputs_covers {env : Env F E} {s : Slate F E} {w w' : WalletBackend F E} {u : Unit}
    (h : txLockOutputs env s w = (.ok u, w')) :
    Store.Covers w.store w'.store ∧ ∃ c, w.store.getPrivateContext env.keychain s.id = .ok c ∧
      (∀ p ∈ c.inputIds, Held w'.store p) ∧ ∀ p ∈ c.outputIds, recorded w'.store p.1 = true := by
  obtain ⟨wr, w₁, h₁, h₂⟩ := Eff.bind_eq_ok.mp h
  obtain ⟨c, w₂, h₃, h₄⟩ := Eff.bind_eq_ok.mp h₂
  obtain ⟨sl, w₃, h₅, h₆⟩ := Eff.bind_eq_ok.mp h₄
  obtain ⟨tip, w₄, h₇, h₈⟩ := Eff.bind_eq_ok.mp h₆
  obtain ⟨now, w₅, h₉, h₁₀⟩ := Eff.bind_eq_ok.mp h₈
  obtain ⟨_, w₆, h₁₁, h₁₂⟩ := Eff.bind_eq_ok.mp h₁₀
  obtain ⟨tx, w₇, h₁₃, h₁₄⟩ := Eff.bind_eq_ok.mp h₁₂
  obtain ⟨hwr, hw₁⟩ := Eff.read_eq_ok.mp h₁
  obtain ⟨hget, hw₂⟩ := Eff.ofExcept_eq_ok.mp h₃
  obtain ⟨-, hw₃⟩ := Eff.ofExcept_eq_ok.mp h₅
  obtain ⟨-, hw₇⟩ := Eff.ofExcept_eq_ok.mp h₁₃
  have hw₄ : w₄.store = w₃.store := congrArg (·.2.store) h₇.symm
  have hw₅ : w₅.store = w₄.store := congrArg (·.2.store) h₉.symm
  have hw' : w'.store = w₇.store := congrArg (·.2.store) h₁₄.symm
  have hstore : w₅.store = w.store := by rw [hw₅, hw₄, hw₃, hw₂, hw₁]
  obtain ⟨s', hlock, hw₆⟩ := batch_eq_ok.mp h₁₁
  obtain ⟨hcovers, hheld, hrec⟩ := Selection.lockBatch_covers hlock
  have hend : w'.store = s' := by rw [hw', hw₇, hw₆]
  rw [hstore] at hcovers
  rw [hwr] at hget
  rw [hend]
  exact ⟨hcovers, c, hget, hheld, hrec⟩

end Owner

/-! ## Finalizing -/

section Complete

variable [CommRing F] [AddCommGroup E] [Module F E] [DecidableEq E]

/-- Restoring a slate the other party has signed and completing it. -/
theorem Slate.restore_complete {K : Keychain F E} {C : Consensus F E} {store : Store E}
    {d d' : SecretKey × SecretKey} {fee : FeeFields} {s s₁ s₂ : Slate F E} {c c' : Context E}
    {updateFee : Bool} (hrep : Selection.repopulateTx K store s c updateFee = .ok s₁)
    (hcomp : Tx.completeTx K C s₁ c' = .ok s₂)
    (hp : s.participantData = [entry K.toCurve d' (some (jointSig K.toCurve d d' d' fee))])
    (hc : (c.secKey, c.secNonce) = d) (hkeys : Tx.completionKeys c' = d)
    (hfee : Selection.restoredFee s c updateFee = .ok fee) (hne : Apart K.toCurve d d')
    (hcount : s.participantCount = 2) (hplain : s.kernelFeatures = 0) :
    ∃ tx, s.tx = some tx ∧
      s₂ = { s with
        amount := c.amount
        feeFields := fee
        participantData := [entry K.toCurve d' (some (jointSig K.toCurve d d' d' fee)),
          entry K.toCurve d (some (jointSig K.toCurve d d' d fee))]
        tx := some
          { offset := s.offset
            inputs := insertAll tx.inputs
              ((Selection.repopulateParts store c).filterMap (Append.input? K))
            outputs := insertAll tx.outputs
              ((Selection.repopulateParts store c).filterMap (Append.output? K))
            kernels := [jointKernel K.toCurve d d' fee] } } := by
  obtain ⟨tx, fee', htx, hfee', rfl⟩ := repopulateTx_plain hrep hplain
  obtain rfl : fee' = fee := Except.ok.inj (hfee'.symm.trans hfee)
  have hjoined := addParticipantInfo_one hp hc hne.symm
  have hcompleted := completeTx_two hcomp hjoined hne.symm hcount hplain rfl rfl rfl hkeys
  exact ⟨tx, htx, hcompleted⟩

end Complete

namespace Foreign

variable [CommRing F] [AddCommGroup E] [Module F E] [DecidableEq E]
variable {env : Env F E} {d d' : SecretKey × SecretKey} {s s' : Slate F E} {c : Context E}
  {fee : FeeFields} {w w' : WalletBackend F E}

theorem lockedContext_none {p : Identifier} (h : c.lateLockArgs = none) :
    lockedContext env s c p w = (.ok c, w) := by
  simp only [lockedContext, h]
  rfl

/-- The context a send is finalized with: the stored one, or the one a late lock
completes with inputs and outputs, all of which the wallet then has records of. -/
theorem lockedContext_eq_ok {c' : Context E} {p : Identifier}
    (h : lockedContext env s c p w = (.ok c', w')) :
    (∃ ins outs late, c' = { c with inputIds := ins, outputIds := outs, lateLockArgs := late }) ∧
      (c.lateLockArgs = none → c' = c ∧ w' = w) ∧
      (c.lateLockArgs ≠ none → (∀ p ∈ c'.inputIds, Held w'.store p) ∧
        ∀ p ∈ c'.outputIds, recorded w'.store p.1 = true) := by
  unfold lockedContext at h
  cases hlate : c.lateLockArgs with
  | none =>
      simp only [hlate] at h
      cases h
      exact ⟨⟨c.inputIds, c.outputIds, c.lateLockArgs, rfl⟩, fun _ => ⟨rfl, rfl⟩,
        fun hne => (hne rfl).elim⟩
  | some args =>
      simp only [hlate] at h
      obtain ⟨tip, w₁, h₁, h₂⟩ := Eff.bind_eq_ok.mp h
      obtain ⟨tempSl, w₂, h₃, h₄⟩ := Eff.bind_eq_ok.mp h₂
      obtain ⟨⟨sl, tempContext⟩, w₃, h₅, h₆⟩ := Eff.bind_eq_ok.mp h₄
      obtain ⟨_, w₄, h₇, h₈⟩ := Eff.bind_eq_ok.mp h₆
      obtain ⟨_, w₅, h₉, hend⟩ := Eff.bind_eq_ok.mp h₈
      obtain ⟨-, c₁, hget, hheld, hrec⟩ := Owner.txLockOutputs_covers h₉
      cases h₇
      rw [Store.getPrivateContext_savePrivateContext] at hget
      cases hend
      cases hget
      exact ⟨⟨_, _, _, rfl⟩, nofun, fun _ => ⟨hheld, hrec⟩⟩

omit [CommRing F] [AddCommGroup E] [Module F E] [DecidableEq E] in
theorem completionKeys_drawn (hc : c.Drawn d) : Tx.completionKeys c = d := by
  obtain ⟨hkey, hnonce, hinitial, -⟩ := hc
  have hsame : ¬ (c.initialSecKey ≠ c.secKey ∧ c.initialSecNonce ≠ c.secNonce) := by
    intro hne
    exact hne.1 (hinitial.trans hkey.symm)
  rw [Tx.completionKeys, if_neg hsame, hkey, hnonce]

/-- What finalizing a send returns, whatever slate came back. -/
theorem finalizeStandard_returns (h : finalizeStandard env s c w = (.ok s', w')) :
    ∃ c' w₁ tx fee features ps excess sig,
      lockedContext env s c w.parentKeyId w = (.ok c', w₁) ∧ s.tx = some tx ∧
      c'.fee = some fee ∧ { s with feeFields := fee }.kernelFeaturesOf = .ok features ∧
      ps.length = (s.addParticipantInfo env.keychain c' none).participantData.length ∧
      let K := env.keychain
      let offset := (s.adjustOffset K c').offset
      let parts := Selection.repopulateParts w₁.store c'
      s' = { s with
        state := .Standard3
        amount := 0
        feeFields := fee
        offset := offset
        participantData := ps
        tx := some
          { offset := offset
            inputs := insertAll tx.inputs (parts.filterMap (Append.input? K))
            outputs := insertAll tx.outputs (parts.filterMap (Append.output? K))
            kernels := [⟨features, excess, sig⟩] } } := by
  obtain ⟨wr, w₁, h₁, h₂⟩ := Eff.bind_eq_ok.mp h
  obtain ⟨c', w₂, hlock, h₃⟩ := Eff.bind_eq_ok.mp h₂
  obtain ⟨wr', w₃, h₄, h₅⟩ := Eff.bind_eq_ok.mp h₃
  obtain ⟨s₁, w₄, hrep, h₆⟩ := Eff.bind_eq_ok.mp h₅
  obtain ⟨s₂, w₅, hcomp, h₇⟩ := Eff.bind_eq_ok.mp h₆
  obtain ⟨_, w₆, h₈, h₉⟩ := Eff.bind_eq_ok.mp h₇
  obtain ⟨_, w₇, h₁₀, h₁₁⟩ := Eff.bind_eq_ok.mp h₉
  obtain ⟨_, w₈, h₁₂, h₁₃⟩ := Eff.bind_eq_ok.mp h₁₁
  obtain ⟨_, w₉, h₁₄, hend⟩ := Eff.bind_eq_ok.mp h₁₃
  obtain ⟨hwr, hw₁⟩ := Eff.read_eq_ok.mp h₁
  obtain ⟨hwr', hw₃⟩ := Eff.read_eq_ok.mp h₄
  rw [hwr, hw₁] at hlock
  rw [hwr'] at hrep
  obtain ⟨tx, fee, features, htx, hfee, hfeatures, rfl⟩ :=
    Slate.repopulateTx_eq_ok (Eff.ofExcept_eq_ok.mp hrep).1
  obtain ⟨ps, tx', kernel, excess, sig, hlen, htx', hk, rfl⟩ :=
    Slate.completeTx_eq_ok (Eff.ofExcept_eq_ok.mp hcomp).1
  cases htx'
  cases hk
  have hfee' : c'.fee = some fee := by
    rw [Selection.restoredFee, if_pos rfl] at hfee
    cases hc : c'.fee with
    | none =>
        rw [hc] at hfee
        cases hfee
    | some f =>
        rw [hc] at hfee
        rw [Except.ok.inj hfee]
  exact ⟨c', w₂, tx, fee, features, ps, excess, sig, hlock, htx, hfee', hfeatures, hlen,
    (Except.ok.inj (congrArg Prod.fst hend)).symm⟩

/-- A finalized send. -/
theorem finalizeStandard_eq_ok (h : finalizeStandard env s c w = (.ok s', w'))
    (hp : s.participantData = [entry env.keychain.toCurve d'
      (some (Slate.jointSig env.keychain.toCurve d d' d' fee))])
    (hc : c.Drawn d) (hfee : c.fee = some fee) (hne : Apart env.keychain.toCurve d d')
    (hcount : s.participantCount = 2) (hplain : s.kernelFeatures = 0) :
    ∃ c' w₁ tx, lockedContext env s c w.parentKeyId w = (.ok c', w₁) ∧ s.tx = some tx ∧
      let K := env.keychain
      let offset := s.offset - K.scalar d.1 - Slate.blindSumOf K c'.inputIds
        + Slate.blindSumOf K c'.outputIds
      let parts := Selection.repopulateParts w₁.store c'
      s' = { s with
        state := .Standard3
        amount := 0
        feeFields := fee
        offset := offset
        participantData :=
          [entry K.toCurve d' (some (Slate.jointSig K.toCurve d d' d' fee)),
            entry K.toCurve d (some (Slate.jointSig K.toCurve d d' d fee))]
        tx := some
          { offset := offset
            inputs := insertAll tx.inputs (parts.filterMap (Append.input? K))
            outputs := insertAll tx.outputs (parts.filterMap (Append.output? K))
            kernels := [Slate.jointKernel K.toCurve d d' fee] } } := by
  obtain ⟨wr, w₁, h₁, h₂⟩ := Eff.bind_eq_ok.mp h
  obtain ⟨c', w₂, hlock, h₃⟩ := Eff.bind_eq_ok.mp h₂
  obtain ⟨wr', w₃, h₄, h₅⟩ := Eff.bind_eq_ok.mp h₃
  obtain ⟨s₁, w₄, hrep, h₆⟩ := Eff.bind_eq_ok.mp h₅
  obtain ⟨s₂, w₅, hcomp, h₇⟩ := Eff.bind_eq_ok.mp h₆
  obtain ⟨_, w₆, h₈, h₉⟩ := Eff.bind_eq_ok.mp h₇
  obtain ⟨_, w₇, h₁₀, h₁₁⟩ := Eff.bind_eq_ok.mp h₉
  obtain ⟨_, w₈, h₁₂, h₁₃⟩ := Eff.bind_eq_ok.mp h₁₁
  obtain ⟨_, w₉, h₁₄, hend⟩ := Eff.bind_eq_ok.mp h₁₃
  obtain ⟨hwr, hw₁⟩ := Eff.read_eq_ok.mp h₁
  obtain ⟨hwr', hw₃⟩ := Eff.read_eq_ok.mp h₄
  rw [hwr, hw₁] at hlock
  rw [hwr'] at hrep
  obtain ⟨⟨ins, outs, late, hc'⟩, -, -⟩ := lockedContext_eq_ok hlock
  have hdrawn : c'.Drawn d := by
    rw [hc']
    exact hc
  have hfee' : Selection.restoredFee (s.adjustOffset env.keychain c') c' true = .ok fee := by
    rw [hc', Selection.restoredFee]
    simp only [if_true, hfee]
  obtain ⟨tx, htx, hs₂⟩ := Slate.restore_complete (Eff.ofExcept_eq_ok.mp hrep).1
    (Eff.ofExcept_eq_ok.mp hcomp).1 hp hdrawn.pair (completionKeys_drawn hdrawn) hfee' hne hcount
    hplain
  refine ⟨c', w₂, tx, hlock, htx, ?_⟩
  have hs' := Except.ok.inj (congrArg Prod.fst hend)
  rw [← hs', hs₂, ← hdrawn.2.2.1]
  rfl

/-- The keys an invoice is completed with: the ones it was issued with. -/
structure Issued (d : SecretKey × SecretKey) (c : Context E) : Prop where
  initialKey : c.initialSecKey = d.1
  initialNonce : c.initialSecNonce = d.2
  keys : Tx.completionKeys c = d

/-- A finalized invoice. -/
theorem finalizeInvoice_eq_ok (h : finalizeInvoice env s c w = (.ok s', w'))
    (hp : s.participantData = [entry env.keychain.toCurve d'
      (some (Slate.jointSig env.keychain.toCurve d d' d' s.feeFields))])
    (hc : Issued d c) (hne : Apart env.keychain.toCurve d d')
    (hcount : s.participantCount = 2) (hplain : s.kernelFeatures = 0) :
    ∃ tx, s.tx = some tx ∧
      let K := env.keychain
      let offset := s.offset - K.scalar d.1 - Slate.blindSumOf K c.inputIds
        + Slate.blindSumOf K c.outputIds
      let parts := Selection.repopulateParts w.store c
      s' = { s with
        state := .Invoice3
        amount := 0
        offset := offset
        participantData :=
          [entry K.toCurve d' (some (Slate.jointSig K.toCurve d d' d' s.feeFields)),
            entry K.toCurve d (some (Slate.jointSig K.toCurve d d' d s.feeFields))]
        tx := some
          { offset := offset
            inputs := insertAll tx.inputs (parts.filterMap (Append.input? K))
            outputs := insertAll tx.outputs (parts.filterMap (Append.output? K))
            kernels := [Slate.jointKernel K.toCurve d d' s.feeFields] } } := by
  obtain ⟨wr, w₁, h₁, h₂⟩ := Eff.bind_eq_ok.mp h
  obtain ⟨s₁, w₂, hrep, h₃⟩ := Eff.bind_eq_ok.mp h₂
  obtain ⟨s₂, w₃, hcomp, h₄⟩ := Eff.bind_eq_ok.mp h₃
  obtain ⟨_, w₄, h₅, h₆⟩ := Eff.bind_eq_ok.mp h₄
  obtain ⟨_, w₅, h₇, h₈⟩ := Eff.bind_eq_ok.mp h₆
  obtain ⟨_, w₆, h₉, h₁₀⟩ := Eff.bind_eq_ok.mp h₈
  obtain ⟨_, w₇, h₁₁, hend⟩ := Eff.bind_eq_ok.mp h₁₀
  obtain ⟨hwr, -⟩ := Eff.read_eq_ok.mp h₁
  rw [hwr] at hrep
  have hpair : (c.initialSecKey, c.initialSecNonce) = d := Prod.ext hc.initialKey hc.initialNonce
  obtain ⟨tx, htx, hs₂⟩ := Slate.restore_complete (Eff.ofExcept_eq_ok.mp hrep).1
    (Eff.ofExcept_eq_ok.mp hcomp).1 hp hpair hc.keys rfl hne hcount hplain
  refine ⟨tx, htx, ?_⟩
  have hs' := Except.ok.inj (congrArg Prod.fst hend)
  rw [← hs', hs₂, ← hc.initialKey]
  rfl

/-- A finalization runs the flow of the slate's state from the context stored. -/
theorem finalizeTx_eq_ok {post : Bool} (h : finalizeTx env s post w = (.ok s', w')) :
    ∃ c w₁, w.store.getPrivateContext env.keychain s.id = .ok c ∧
      finalizeByState env s c w = (.ok s', w₁) ∧ w'.store = w₁.store := by
  obtain ⟨wr, w₁, h₁, h₂⟩ := Eff.bind_eq_ok.mp h
  obtain ⟨c, w₂, h₃, h₄⟩ := Eff.bind_eq_ok.mp h₂
  obtain ⟨_, w₃, h₅, h₆⟩ := Eff.bind_eq_ok.mp h₄
  obtain ⟨s₁, w₄, h₇, h₈⟩ := Eff.bind_eq_ok.mp h₆
  obtain ⟨_, w₅, h₉, hend⟩ := Eff.bind_eq_ok.mp h₈
  obtain ⟨hwr, hw₁⟩ := Eff.read_eq_ok.mp h₁
  obtain ⟨hget, hw₂⟩ := Eff.ofExcept_eq_ok.mp h₃
  have hw₃ := Owner.checkTtl_state h₅
  rw [hw₃, hw₂, hw₁] at h₇
  rw [hwr] at hget
  have hpost : w₅.store = w₄.store := by
    cases post with
    | false =>
        cases h₉
        rfl
    | true =>
        obtain ⟨tx, w₆, h₁₀, h₁₁⟩ := Eff.bind_eq_ok.mp h₉
        obtain ⟨-, hw₆⟩ := Eff.ofExcept_eq_ok.mp h₁₀
        have hask : w₅.store = w₆.store := congrArg (·.2.store) h₁₁.symm
        rw [hask, hw₆]
  cases hend
  exact ⟨c, w₄, hget, h₇, hpost⟩

end Foreign

end GrinWallet
