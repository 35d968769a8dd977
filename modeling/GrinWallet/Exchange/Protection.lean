import GrinWallet.Exchange.Finalize

/-! # What finalizing a send protects

The slate that comes back to the initiator of a send is the counterparty's: its
commitments, its offset, its participants and its kernel variant are whatever
that party put there. Finalization restores the amount, the fee, the inputs and
the outputs from the stored context, but leaves the kernel variant alone and
skips what the wallet has no record of any more.
-/

namespace GrinWallet

open Effect WalletBackend OrderedTable

variable {F E : Type} [CommRing F] [AddCommGroup E] [Module F E] [DecidableEq E]

section Restorable

omit [DecidableEq E]

/-- The commitment of a context entry. -/
def entryCommit (K : Keychain F E) (p : Identifier × Option Nat × Nat) : E := K.commit p.2.2 p.1

/-- What the initiator of a send relies on: all its inputs and all its change are
in the transaction, for the fee it stored and under a plain kernel. -/
structure Protected (K : Keychain F E) (c : Context E) (tx : Transaction F E) : Prop where
  inputs : ∀ p ∈ c.inputIds, entryCommit K p ∈ tx.inputs.map (·.commit)
  change : ∀ p ∈ c.outputIds, entryCommit K p ∈ tx.outputs.map (·.commit)
  kernel : ∃ fee k, c.fee = some fee ∧ tx.kernels = [k] ∧ k.features = .Plain fee

/-- Each entry stands on the slate, or shares its commitment with one the wallet has a record of. -/
def Restorable (K : Keychain F E) (s : Store E) (onSlate : List E)
    (ids : List (Identifier × Option Nat × Nat)) : Prop :=
  ∀ p ∈ ids, entryCommit K p ∈ onSlate ∨
    ∃ q ∈ ids, recorded s q.1 = true ∧ entryCommit K q = entryCommit K p

/-- The commitments of a slate's inputs. -/
def Slate.inputCommits (s : Slate F E) : List E :=
  (s.tx.map fun tx => tx.inputs.map (·.commit)).getD []

/-- The commitments of a slate's outputs. -/
def Slate.outputCommits (s : Slate F E) : List E :=
  (s.tx.map fun tx => tx.outputs.map (·.commit)).getD []

omit [CommRing F] [AddCommGroup E] [Module F E] in
theorem Slate.inputCommits_of_tx {s : Slate F E} {tx : Transaction F E} (h : s.tx = some tx) :
    s.inputCommits = tx.inputs.map (·.commit) := by
  rw [inputCommits, h]
  rfl

omit [CommRing F] [AddCommGroup E] [Module F E] in
theorem Slate.outputCommits_of_tx {s : Slate F E} {tx : Transaction F E} (h : s.tx = some tx) :
    s.outputCommits = tx.outputs.map (·.commit) := by
  rw [outputCommits, h]
  rfl

omit [AddCommGroup E] in
/-- An input entry is restored exactly when some record has its key. -/
theorem inputPart_eq (s : Store E) (p : Identifier × Option Nat × Nat) :
    (recorded s p.1 = false ∧ inputPart s p = none) ∨
      (recorded s p.1 = true ∧ (inputPart s p = some (.coinbaseInput p.2.2 p.1)
        ∨ inputPart s p = some (.input p.2.2 p.1))) := by
  have hpart : ∀ i : OutputData E, i.keyId = p.1 →
      (if i.isCoinbase then Append.coinbaseInput p.2.2 i.keyId else .input p.2.2 i.keyId)
          = .coinbaseInput p.2.2 p.1 ∨
        (if i.isCoinbase then Append.coinbaseInput p.2.2 i.keyId else .input p.2.2 i.keyId)
          = .input p.2.2 p.1 := by
    intro i hid
    rw [hid]
    by_cases hcb : i.isCoinbase
    · exact .inl (if_pos hcb)
    · exact .inr (if_neg hcb)
  cases hfind : s.outputs.find (outputKey p.1 p.2.1) with
  | some o =>
      have hheld : Held s p := ⟨o, hfind⟩
      have heq : inputPart s p = some
          (if o.isCoinbase then .coinbaseInput p.2.2 o.keyId else .input p.2.2 o.keyId) := by
        simp only [inputPart, Store.get, hfind, Option.map_some]
      rw [heq, Option.some.injEq, Option.some.injEq]
      exact .inr ⟨hheld.recorded, hpart o (keyId_of_find hfind)⟩
  | none =>
      have heq : inputPart s p = (s.iter.find? fun out => out.keyId = p.1).map fun i =>
          if i.isCoinbase then .coinbaseInput p.2.2 i.keyId else .input p.2.2 i.keyId := by
        simp only [inputPart, Store.get, hfind]
      cases hiter : s.iter.find? fun out => decide (out.keyId = p.1) with
      | none =>
          rw [hiter] at heq
          refine .inl ⟨?_, heq⟩
          rw [recorded, List.any_eq_false]
          exact List.find?_eq_none.mp hiter
      | some i =>
          have hid : i.keyId = p.1 := by simpa using List.find?_some hiter
          rw [hiter] at heq
          rw [heq, Option.map_some, Option.some.injEq, Option.some.injEq]
          exact .inr ⟨recorded_iff.mpr ⟨i, List.mem_of_find?_eq_some hiter, hid⟩, hpart i hid⟩

/-- The commitments of the inputs a context is restored with. -/
theorem restored_input_commit {K : Keychain F E} {s : Store E} {c : Context E} {x : E} :
    (∃ i ∈ (Selection.repopulateParts s c).filterMap (Append.input? K), i.commit = x) ↔
      ∃ q ∈ c.inputIds, recorded s q.1 = true ∧ entryCommit K q = x := by
  rw [repopulateParts_eq, List.filterMap_append, List.filterMap_filterMap,
    List.filterMap_filterMap]
  have houts : c.outputIds.filterMap (fun p => (outputPart s p).bind (Append.input? K)) = [] :=
    List.filterMap_eq_nil_iff.mpr fun p _ => outputPart_input K s p
  rw [houts, List.append_nil]
  constructor
  · rintro ⟨i, hi, rfl⟩
    obtain ⟨q, hq, hpart⟩ := List.mem_filterMap.mp hi
    refine ⟨q, hq, ?_⟩
    obtain ⟨-, hnone⟩ | ⟨hrec, hcb | hpl⟩ := inputPart_eq s q
    · rw [hnone] at hpart
      cases hpart
    · rw [hcb] at hpart
      cases hpart
      exact ⟨hrec, rfl⟩
    · rw [hpl] at hpart
      cases hpart
      exact ⟨hrec, rfl⟩
  · rintro ⟨q, hq, hrec, rfl⟩
    obtain ⟨hnot, -⟩ | ⟨-, hcb | hpl⟩ := inputPart_eq s q
    · rw [hrec] at hnot
      cases hnot
    · exact ⟨_, List.mem_filterMap.mpr ⟨q, hq, by rw [hcb]; rfl⟩, rfl⟩
    · exact ⟨_, List.mem_filterMap.mpr ⟨q, hq, by rw [hpl]; rfl⟩, rfl⟩

/-- The commitments of the outputs a context is restored with. -/
theorem restored_output_commit {K : Keychain F E} {s : Store E} {c : Context E} {x : E} :
    (∃ o ∈ (Selection.repopulateParts s c).filterMap (Append.output? K), o.commit = x) ↔
      ∃ q ∈ c.outputIds, recorded s q.1 = true ∧ entryCommit K q = x := by
  rw [outputs_of_repopulateParts]
  constructor
  · rintro ⟨o, ho, rfl⟩
    obtain ⟨q, hq, rfl⟩ := List.mem_map.mp ho
    obtain ⟨hmem, hrec⟩ := List.mem_filter.mp hq
    exact ⟨q, hmem, hrec, rfl⟩
  · rintro ⟨q, hq, hrec, rfl⟩
    exact ⟨_, List.mem_map_of_mem (List.mem_filter.mpr ⟨hq, hrec⟩), rfl⟩

end Restorable

/-- Every inserted element is there, and nothing else that was not. -/
theorem mem_insertAll {α : Type} [DecidableEq α] {l xs : List α} {x : α} :
    x ∈ insertAll l xs ↔ x ∈ l ∨ x ∈ xs := by
  induction xs generalizing l with
  | nil => simp
  | cons y ys ih =>
      rw [insertAll_cons, ih]
      by_cases hy : y ∈ l
      · rw [if_pos hy, List.mem_cons]
        constructor
        · rintro (h | h)
          · exact .inl h
          · exact .inr (.inr h)
        · rintro (h | rfl | h)
          · exact .inl h
          · exact .inl hy
          · exact .inr h
      · rw [if_neg hy, List.mem_append, List.mem_singleton, List.mem_cons, or_assoc]

namespace Slate

omit [CommRing F] [AddCommGroup E] [Module F E] [DecidableEq E] in
/-- A kernel is plain exactly when the slate says so by its variant. -/
theorem features_plain_iff {s : Slate F E} {features : KernelFeatures}
    (h : s.kernelFeaturesOf = .ok features) :
    features = .Plain s.feeFields ↔ s.kernelFeatures = 0 := by
  constructor
  · rintro rfl
    unfold kernelFeaturesOf at h
    split at h
    · assumption
    · cases h
    · split at h
      · cases h
      · cases h
    · split at h
      · split at h
        · cases h
        · cases h
      · cases h
    · cases h
  · intro hzero
    exact Except.ok.inj (h.symm.trans (kernelFeaturesOf_plain hzero))

end Slate

namespace Foreign

variable {env : Env F E} {s s' : Slate F E} {c : Context E} {w w' : WalletBackend F E}

/-- The transaction of a finalized send protects the context it was made from
exactly when the slate is plain and everything can be restored. -/
theorem finalizeStandard_protects (h : finalizeStandard env s c w = (.ok s', w')) :
    ∃ c' w₁, lockedContext env s c w.parentKeyId w = (.ok c', w₁) ∧
      ((∃ tx, s'.tx = some tx ∧ Protected env.keychain c' tx) ↔
        s.kernelFeatures = 0 ∧ Restorable env.keychain w₁.store s.inputCommits c'.inputIds ∧
          Restorable env.keychain w₁.store s.outputCommits c'.outputIds) := by
  obtain ⟨c', w₁, tx, fee, features, ps, excess, sig, hlock, htx, hfee, hfeatures, -, rfl⟩ :=
    finalizeStandard_returns h
  refine ⟨c', w₁, hlock, ?_⟩
  have hplain := Slate.features_plain_iff hfeatures
  have hins : ∀ x, x ∈ (insertAll tx.inputs ((Selection.repopulateParts w₁.store c').filterMap
      (Append.input? env.keychain))).map (·.commit) ↔ x ∈ s.inputCommits ∨
        ∃ q ∈ c'.inputIds, recorded w₁.store q.1 = true ∧ entryCommit env.keychain q = x := by
    intro x
    rw [Slate.inputCommits_of_tx htx, ← restored_input_commit, List.mem_map, List.mem_map]
    simp only [mem_insertAll, or_and_right, exists_or]
  have houts : ∀ x, x ∈ (insertAll tx.outputs ((Selection.repopulateParts w₁.store c').filterMap
      (Append.output? env.keychain))).map (·.commit) ↔ x ∈ s.outputCommits ∨
        ∃ q ∈ c'.outputIds, recorded w₁.store q.1 = true ∧ entryCommit env.keychain q = x := by
    intro x
    rw [Slate.outputCommits_of_tx htx, ← restored_output_commit, List.mem_map, List.mem_map]
    simp only [mem_insertAll, or_and_right, exists_or]
  constructor
  · rintro ⟨tx', htx', hprot⟩
    cases htx'
    obtain ⟨fee', k, hfee', hk, hkf⟩ := hprot.kernel
    cases hk
    cases hfee.symm.trans hfee'
    exact ⟨hplain.mp hkf, fun p hp => (hins _).mp (hprot.inputs p hp),
      fun p hp => (houts _).mp (hprot.change p hp)⟩
  · rintro ⟨hzero, hri, hro⟩
    exact ⟨_, rfl, fun p hp => (hins _).mpr (hri p hp), fun p hp => (houts _).mpr (hro p hp),
      fee, _, hfee, rfl, hplain.mpr hzero⟩

/-- A finalized send protects its initiator exactly when the slate that came back
is plain and, unless the inputs were locked by the same call, every entry of the
context is on that slate or has a record. -/
theorem finalize_protects_iff {post : Bool} (h : finalizeTx env s post w = (.ok s', w'))
    (hstate : s.state = .Standard2) (hget : w.store.getPrivateContext env.keychain s.id = .ok c) :
    (∃ c' w₁ tx, lockedContext env s c w.parentKeyId w = (.ok c', w₁) ∧ s'.tx = some tx ∧
        Protected env.keychain c' tx) ↔
      s.kernelFeatures = 0 ∧ (c.lateLockArgs = none →
        Restorable env.keychain w.store s.inputCommits c.inputIds ∧
          Restorable env.keychain w.store s.outputCommits c.outputIds) := by
  obtain ⟨c₀, w₀, hget₀, hrun, -⟩ := finalizeTx_eq_ok h
  obtain rfl : c = c₀ := Except.ok.inj (hget.symm.trans hget₀)
  simp only [finalizeByState, hstate] at hrun
  obtain ⟨c', w₁, hlock, hiff⟩ := finalizeStandard_protects hrun
  obtain ⟨-, hnone, hpresent⟩ := lockedContext_eq_ok hlock
  have hrestore : (Restorable env.keychain w₁.store s.inputCommits c'.inputIds ∧
      Restorable env.keychain w₁.store s.outputCommits c'.outputIds) ↔
        (c.lateLockArgs = none →
          Restorable env.keychain w.store s.inputCommits c.inputIds ∧
            Restorable env.keychain w.store s.outputCommits c.outputIds) := by
    by_cases hlate : c.lateLockArgs = none
    · obtain ⟨rfl, rfl⟩ := hnone hlate
      exact ⟨fun hr _ => hr, fun hr => hr hlate⟩
    · obtain ⟨hheld, hrec⟩ := hpresent hlate
      exact ⟨fun _ hnot => (hlate hnot).elim, fun _ =>
        ⟨fun p hp => .inr ⟨p, hp, (hheld p hp).recorded, rfl⟩,
          fun p hp => .inr ⟨p, hp, hrec p hp, rfl⟩⟩⟩
  rw [← hrestore, ← hiff]
  constructor
  · rintro ⟨c₁, w₂, tx, hlock₁, htx, hprot⟩
    cases hlock.symm.trans hlock₁
    exact ⟨tx, htx, hprot⟩
  · rintro ⟨tx, htx, hprot⟩
    exact ⟨c', w₁, tx, hlock, htx, hprot⟩

end Foreign

/-! ## A hostile answer -/

namespace SampleSend

theorem finalize_protects_iff_honest :
    (∃ c' w₁ tx, Foreign.lockedContext env (answer (3, 4)) context locked.parentKeyId locked
        = (.ok c', w₁) ∧
      (returned (Foreign.finalizeTx env (answer (3, 4)) false locked) noSlate).tx = some tx ∧
        Protected sampleKeychain c' tx) ↔
      (answer (3, 4)).kernelFeatures = 0 ∧ (context.lateLockArgs = none →
        Restorable sampleKeychain locked.store (answer (3, 4)).inputCommits context.inputIds ∧
          Restorable sampleKeychain locked.store (answer (3, 4)).outputCommits
            context.outputIds) := by
  have hrun := eq_returned (r := Foreign.finalizeTx env (answer (3, 4)) false locked) noSlate
    (by decide +kernel)
  have hget : locked.store.getPrivateContext env.keychain (answer (3, 4)).id = .ok context := by
    decide +kernel
  exact Foreign.finalize_protects_iff hrun (by decide +kernel) hget

/-- The recipient's answer with a kernel locked until block 1000000000. -/
def lockedAnswer : Slate ℤ (ℤ × ℤ) :=
  { answer (3, 4) with
    kernelFeatures := 2
    kernelFeaturesArgs := some 1000000000 }

/-- The sender signs a kernel it did not offer. -/
theorem height_locked_kernel_signed :
    ∃ s' w' tx kernel, Foreign.finalizeTx env lockedAnswer false locked = (.ok s', w') ∧
      s'.tx = some tx ∧ tx.kernels = [kernel] ∧
      kernel.features = .HeightLocked ⟨23000000⟩ 1000000000 ∧ ¬ Protected sampleKeychain context tx := by
  have hrun := eq_returned (r := Foreign.finalizeTx env lockedAnswer false locked) noSlate
    (by decide +kernel)
  have hkernel : (returned (Foreign.finalizeTx env lockedAnswer false locked) noSlate).tx.map
      (fun tx => tx.kernels.map (·.features)) = some [.HeightLocked ⟨23000000⟩ 1000000000] := by
    decide +kernel
  obtain ⟨tx, htx, hfeatures⟩ := Option.map_eq_some_iff.mp hkernel
  obtain ⟨kernel, hk, hkf⟩ := List.map_eq_singleton_iff.mp hfeatures
  refine ⟨_, _, tx, kernel, hrun, htx, hk, hkf, fun hprot => ?_⟩
  obtain ⟨fee, k, -, hk', hplain⟩ := hprot.kernel
  cases hk.symm.trans hk'
  rw [hkf] at hplain
  cases hplain

end SampleSend

end GrinWallet
