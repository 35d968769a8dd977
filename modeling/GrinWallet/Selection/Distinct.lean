import GrinWallet.Selection.Building
import GrinWallet.Selection.Conservation
import GrinWallet.Selection.Locking

/-! # The lists of a context

A send records each coin it spends and each change output it creates once: the
coins are different records of the table, and the change keys are consecutive
children of one account.
-/

namespace GrinWallet

open Effect WalletBackend OrderedTable

namespace Identifier

theorem child_injective {id : Identifier} (h : id.depth < 4) : Function.Injective id.child := by
  intro a b heq
  have hpath : id.path.set id.depth a = id.path.set id.depth b := congrArg (·.path) heq
  have hlen : id.depth < id.path.length := by rw [id.path_length]; exact h
  have ha := List.getElem?_set_self (a := a) hlen
  rw [hpath, List.getElem?_set_self hlen] at ha
  exact (Option.some.inj ha).symm

end Identifier

/-- The child numbers taken one after the other from `k` on; the counter is a `u32`. -/
def childIndices : Nat → Nat → List Nat
  | _, 0 => []
  | k, n + 1 => k :: childIndices (u32 (k + 1)) n

theorem childIndices_eq {k : Nat} (hk : k < 2 ^ 32) (n : Nat) :
    childIndices k n = (List.range n).map fun i => u32 (k + i) := by
  induction n generalizing k with
  | zero => rfl
  | succ n ih =>
      have hnext : u32 (k + 1) < 2 ^ 32 := Nat.mod_lt _ (by decide)
      rw [childIndices, ih hnext, List.range_succ_eq_map, List.map_cons, List.map_map]
      simp only [Nat.add_zero, u32_of_lt hk]
      congr 1
      refine List.map_congr_left fun i _ => ?_
      show (u32 (k + 1) + i) % 2 ^ 32 = (k + (i + 1)) % 2 ^ 32
      unfold u32
      omega

/-- No number comes back before the counter has gone round. -/
theorem childIndices_nodup {n : Nat} (hn : n ≤ 2 ^ 32) (k : Nat) : (childIndices k n).Nodup := by
  have hround : ∀ k m, k < 2 ^ 32 → m ≤ 2 ^ 32 → (childIndices k m).Nodup := by
    intro k m hk hm
    rw [childIndices_eq hk]
    refine List.Nodup.map_on (fun i hi j hj heq => ?_) List.nodup_range
    have hi := List.mem_range.mp hi
    have hj := List.mem_range.mp hj
    simp only [u32] at heq
    omega
  by_cases hk : k < 2 ^ 32
  · exact hround k n hk hn
  cases n with
  | zero => exact List.nodup_nil
  | succ n =>
      have hnext : u32 (k + 1) < 2 ^ 32 := Nat.mod_lt _ (by decide)
      refine List.nodup_cons.mpr ⟨fun hmem => ?_, hround _ n hnext (by omega)⟩
      rw [childIndices_eq hnext] at hmem
      obtain ⟨i, -, heq⟩ := List.mem_map.mp hmem
      have hlt : u32 (u32 (k + 1) + i) < 2 ^ 32 := Nat.mod_lt _ (by decide)
      omega

variable {F E : Type}

namespace Selection

/-- The keys of the change are the next children of the active account. -/
theorem deriveChange_keys {amounts : List Nat} {change : List (Nat × Identifier × Option Nat)}
    {w w' : WalletBackend F E} (h : deriveChange amounts w = (.ok change, w')) :
    change.map (fun r => r.2.1)
      = (childIndices (w.store.childIndex w.parentKeyId) amounts.length).map w.parentKeyId.child := by
  induction amounts generalizing change w with
  | nil =>
      cases h
      rfl
  | cons a amounts ih =>
      by_cases hdeep : 4 ≤ w.parentKeyId.depth
      · rw [deriveChange_deep hdeep] at h
        cases h
      · rw [deriveChange, Eff.run_bind_ok (run_nextChild (by omega))] at h
        obtain ⟨rest, w₁, hrest, hend⟩ := Eff.bind_eq_ok.mp h
        cases hend
        have hnext : (afterNextChild w).store.childIndex (afterNextChild w).parentKeyId
            = u32 (w.store.childIndex w.parentKeyId + 1) := by
          simp [afterNextChild, Store.saveChildIndex]
        rw [List.map_cons, ih hrest, hnext]
        rfl

theorem deriveChange_distinct {amounts : List Nat}
    {change : List (Nat × Identifier × Option Nat)} {w w' : WalletBackend F E}
    (h : deriveChange amounts w = (.ok change, w')) (hlen : amounts.length ≤ 2 ^ 32) :
    (change.map fun r => r.2.1).Nodup := by
  rw [deriveChange_keys h]
  cases amounts with
  | nil => exact List.nodup_nil
  | cons a amounts =>
      by_cases hdeep : 4 ≤ w.parentKeyId.depth
      · rw [deriveChange_deep hdeep] at h
        cases h
      · exact (childIndices_nodup hlen _).map (Identifier.child_injective (by omega))

/-- The change of a send has keys of its own. -/
theorem inputsAndChange_distinct (coins : List (OutputData E)) (amount fee n : Nat) (b : Bool) :
    Eff.Yields (inputsAndChange (F := F) coins amount fee n b)
      fun r => n ≤ 2 ^ 32 → (r.2.map fun c => c.2.1).Nodup := by
  refine Eff.Yields.ite (fun _ => Eff.Yields.pure fun _ => List.nodup_nil) fun _ => ?_
  refine Eff.Yields.ite (fun _ => Eff.Yields.throw_bind _ _) fun _ => ?_
  refine Eff.Yields.ite (fun _ => Eff.Yields.throw_bind _ _) fun _ => ?_
  refine Eff.Yields.bind (P := fun change => n ≤ 2 ^ 32 → (change.map fun c => c.2.1).Nodup) ?_
    fun change hchange => Eff.Yields.pure hchange
  intro w change w' hrun hn
  exact deriveChange_distinct hrun (by rw [List.length_map, List.length_range]; exact hn)

theorem eligibleOutputs_keys (s : Store E) (height minimumConfirmations : Nat) (p : Identifier) :
    ((eligibleOutputs s height minimumConfirmations p).map (·.key)).Nodup := by
  have hrows : (s.outputs.rows.map (·.key)).Nodup :=
    List.pairwise_map.mpr (s.outputs.sorted.imp fun hlt => ne_of_lt hlt)
  exact hrows.sublist (List.filter_sublist.map _)

/-- The coins of a send are different records, and there is one. -/
theorem selectSendTx_distinct {C : Consensus F E}
    {amount currentHeight minimumConfirmations maxOutputs changeOutputs : Nat} {inc all : Bool}
    {p : Identifier} {b : Bool} :
    Eff.Yields (selectSendTx C amount inc currentHeight minimumConfirmations maxOutputs
      changeOutputs all p b) fun r => r.2.1 ≠ [] ∧ (r.2.1.map (·.key)).Nodup ∧
        (changeOutputs ≤ 2 ^ 32 → (r.2.2.1.map fun c => c.2.1).Nodup) := by
  refine Eff.Yields.bind_of_forall fun w => ?_
  refine Eff.Yields.bind (P := fun sel => sel.1 ≠ [] ∧ (sel.1.map (·.key)).Nodup)
    (Eff.Yields.ofExcept fun sel hsel => ?_) fun sel hsel => ?_
  · obtain ⟨hsub, hsome⟩ := selectCoinsAndFee_selects hsel
    obtain ⟨l, hperm, hsublist⟩ := hsub
    have hl := (eligibleOutputs_keys _ _ _ _).sublist (hsublist.map (·.key))
    exact ⟨hsome, (hperm.map (·.key)).nodup_iff.mp hl⟩
  · obtain ⟨coins, total, sent, fee⟩ := sel
    refine (inputsAndChange_distinct _ _ _ _ _).bind fun r hr => ?_
    obtain ⟨parts, change⟩ := r
    exact Eff.Yields.pure ⟨hsel.1, hsel.2, hr⟩

variable [CommRing F] [AddCommGroup E] [Module F E] [DecidableEq E]

/-- A send that is built lists each input and each change output once, and an
input at least; the offset is untouched. -/
theorem buildSendTx_distinct (env : Env F E) (slate : Slate F E)
    (currentHeight minimumConfirmations maxOutputs changeOutputs : Nat) (all : Bool)
    (fixed : Option Nat) (p : Identifier) (inc : Bool) :
    Eff.Yields (buildSendTx env slate currentHeight minimumConfirmations maxOutputs changeOutputs
      all fixed p inc) fun r => (r.1.id = slate.id ∧ r.1.offset = slate.offset) ∧
        r.2.inputIds ≠ [] ∧ r.2.inputKeys.Nodup ∧
        (changeOutputs ≤ 2 ^ 32 → r.2.outputKeys.Nodup) := by
  refine selectSendTx_distinct.bind fun sel hsel => ?_
  obtain ⟨elems, coins, change, fee⟩ := sel
  obtain ⟨hsome, hcoins, hchange⟩ := hsel
  refine Eff.Yields.bind_of_forall fun _ => Eff.Yields.bind_of_forall fun _ =>
    Eff.Yields.bind_of_forall fun feeFields => ?_
  refine Eff.Yields.bind (P := fun s : Slate F E => s.id = slate.id ∧ s.offset = slate.offset)
    (Eff.Yields.ofExcept fun s hs => ?_) fun s hs => ?_
  · obtain ⟨tx, features, -, -, rfl⟩ := Slate.addTransactionElements_eq_ok hs
    exact ⟨rfl, rfl⟩
  · refine Eff.Yields.bind (P := fun c : Context E => c.inputIds = [] ∧ c.outputIds = []) ?_
      fun c hc => Eff.Yields.pure ?_
    · exact Eff.Yields.bind_of_forall fun r => Eff.Yields.pure ⟨rfl, rfl⟩
    · rw [sendContext_eq]
      have hins : coins.map (fun i => outputKey i.keyId i.mmrIndex) = coins.map (·.key) := rfl
      have houts : changeOutputs ≤ 2 ^ 32 →
          (change.map fun c => outputKey c.2.1 none).Nodup := by
        intro hn
        have hinj : Function.Injective fun id => outputKey id none :=
          fun _ _ heq => (outputKey_inj.mp heq).1
        have hkeys := (hchange hn).map hinj
        rwa [List.map_map] at hkeys
      refine ⟨hs, ?_, ?_, ?_⟩
      · simpa [hc.1] using hsome
      · simpa [Context.inputKeys, hc.1, Function.comp_def, hins] using hcoins
      · simpa [Context.outputKeys, hc.2, Function.comp_def] using houts

end Selection

end GrinWallet
