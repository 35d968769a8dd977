import GrinWallet.Model.Selection

/-! # What a lock writes

A lock marks the inputs of a context, saves its change outputs and adds one log
record; every other record of the wallet stays. The output table after it is
described key by key.
-/

namespace GrinWallet

open Effect OrderedTable

variable {F E : Type}

/-- A record locked by the transaction under a log id. -/
def OutputData.lockedFor (o : OutputData E) (logId : Nat) : OutputData E :=
  ({ o with txLogEntry := some logId } : OutputData E).lock

@[simp] theorem OutputData.lockedFor_key (o : OutputData E) (logId : Nat) :
    (o.lockedFor logId).key = o.key := rfl

@[simp] theorem OutputData.lockedFor_lockedFor (o : OutputData E) (logId : Nat) :
    (o.lockedFor logId).lockedFor logId = o.lockedFor logId := rfl

namespace Context

/-- The database keys of the inputs of a context. -/
def inputKeys (c : Context E) : List DbKey := c.inputIds.map fun (id, mmrIndex, _) =>
  outputKey id mmrIndex

/-- The database keys its change is saved under. -/
def outputKeys (c : Context E) : List DbKey := c.outputIds.map fun (id, _, _) => outputKey id none

end Context

namespace Selection

/-- Locking a record that is found writes its key and no other. -/
theorem find_lockOutput {s : Store E} {id : Identifier} {mmrIndex : Option Nat} {coin : OutputData E}
    (logId : Nat) (hget : s.get id mmrIndex = .ok coin) :
    s.outputs.find (outputKey id mmrIndex) = some coin ∧
      ∀ k, (s.lockOutput { coin with txLogEntry := some logId }).outputs.find k =
        if k = outputKey id mmrIndex then some (coin.lockedFor logId) else s.outputs.find k := by
  have hfind : s.outputs.find (outputKey id mmrIndex) = some coin := by
    unfold Store.get at hget
    cases hf : s.outputs.find (outputKey id mmrIndex) with
    | none =>
        rw [hf] at hget
        cases hget
    | some o =>
        rw [hf] at hget
        cases hget
        rfl
  have hkey : (coin.lockedFor logId).key = outputKey id mmrIndex := (Table.find_eq_some.mp hfind).2
  refine ⟨hfind, fun k => ?_⟩
  by_cases hk : k = outputKey id mmrIndex
  · rw [if_pos hk, hk, ← hkey]
    exact Table.find_put_self s.outputs _
  · rw [if_neg hk]
    exact Table.find_put_of_ne (a := coin.lockedFor logId) s.outputs fun heq =>
      hk (heq.symm.trans hkey)

theorem lockInputs_find {logId : Nat} {ids : List (Identifier × Option Nat × Nat)} {d d' : Nat}
    {s s' : Store E} (h : lockInputs logId ids d s = .ok (d', s')) :
    (∃ outputs, s' = { s with outputs := outputs }) ∧
      (∀ p ∈ ids, ∃ o, s.outputs.find (outputKey p.1 p.2.1) = some o) ∧
      ∀ k, s'.outputs.find k =
        if k ∈ ids.map (fun p => outputKey p.1 p.2.1) then
          (s.outputs.find k).map (·.lockedFor logId)
        else s.outputs.find k := by
  induction ids generalizing d s with
  | nil =>
      cases h
      exact ⟨⟨_, rfl⟩, by simp, by simp⟩
  | cons input ids ih =>
      obtain ⟨id, mmrIndex, value⟩ := input
      unfold lockInputs at h
      obtain ⟨coin, hget, hrest⟩ := except_bind_eq_ok.mp h
      obtain ⟨hfind, hself⟩ := find_lockOutput logId hget
      obtain ⟨⟨outputs, hs'⟩, hheld, hends⟩ := ih hrest
      refine ⟨⟨outputs, hs'⟩, fun p hp => ?_, fun k => ?_⟩
      · rcases List.mem_cons.mp hp with rfl | hp
        · exact ⟨coin, hfind⟩
        · obtain ⟨o, ho⟩ := hheld p hp
          rw [hself] at ho
          by_cases hk : outputKey p.1 p.2.1 = outputKey id mmrIndex
          · exact ⟨coin, hk ▸ hfind⟩
          · rw [if_neg hk] at ho
            exact ⟨o, ho⟩
      · simp only [hends, hself, List.map_cons, List.mem_cons]
        by_cases hk : k = outputKey id mmrIndex
        · subst hk
          by_cases hin : outputKey id mmrIndex ∈ ids.map fun p => outputKey p.1 p.2.1
          · simp [hin, hfind]
          · simp [hin, hfind]
        · by_cases hin : k ∈ ids.map fun p => outputKey p.1 p.2.1
          · simp [hk, hin]
          · simp [hk, hin]

/-- Saving records one after the other writes their keys and no other. -/
theorem foldl_save_find {α : Type} (f : α → OutputData E) (l : List α) (s : Store E) :
    let s' := l.foldl (fun s a => s.save (f a)) s
    (∃ outputs, s' = { s with outputs := outputs }) ∧
      (∀ a ∈ l, ∃ b ∈ l, (f b).key = (f a).key ∧ s'.outputs.find (f a).key = some (f b)) ∧
      ∀ k, (∀ a ∈ l, (f a).key ≠ k) → s'.outputs.find k = s.outputs.find k := by
  induction l generalizing s with
  | nil => exact ⟨⟨s.outputs, rfl⟩, by simp, fun _ _ => rfl⟩
  | cons a l ih =>
      obtain ⟨⟨outputs, hs'⟩, hwritten, hother⟩ := ih (s.save (f a))
      refine ⟨⟨outputs, hs'⟩, fun b hb => ?_, fun k hk => ?_⟩
      · by_cases hlater : ∃ c ∈ l, (f c).key = (f b).key
        · obtain ⟨c, hc, hkey⟩ := hlater
          obtain ⟨d, hd, hdkey, hfind⟩ := hwritten c hc
          exact ⟨d, List.mem_cons_of_mem a hd, hdkey.trans hkey, hkey ▸ hfind⟩
        · have hba : b = a := by
            rcases List.mem_cons.mp hb with heq | hb
            · exact heq
            · exact (hlater ⟨b, hb, rfl⟩).elim
          refine ⟨b, hb, rfl, ?_⟩
          have hkept := hother (f b).key fun c hc hkey => hlater ⟨c, hc, hkey⟩
          rw [List.foldl_cons, hkept, hba]
          exact Table.find_put_self s.outputs (f a)
      · have hkept := hother k fun b hb => hk b (List.mem_cons_of_mem a hb)
        rw [List.foldl_cons, hkept]
        exact Table.find_put_of_ne s.outputs (hk a List.mem_cons_self)

section Lock

variable [CommRing F] [AddCommGroup E] [Module F E] [DecidableEq E]

/-- The record of a change output saved by a lock. -/
def changeRecord (K : Keychain F E) (c : Context E) (height logId : Nat) (id : Identifier) :
    OutputData E :=
  unconfirmedOutput K c.parentKeyId id (cachedChange c.outputIds id) height 0 false (some logId)

/-- The log record saved by a lock. -/
def lockedEntry (slate : Slate F E) (height : Nat) (c : Context E) (excess : Option E)
    (logId now debited : Nat) (proof : Option StoredProofInfo) : TxLogEntry E :=
  { sentEntry slate height c excess logId now with
    amountDebited := debited
    paymentProof := proof
    numOutputs := c.outputIds.length
    amountCredited := u64 (c.outputIds.map fun p => cachedChange c.outputIds p.1).sum }

/-- What a lock of a context under the next log id leaves. -/
structure LockedBy (K : Keychain F E) (slate : Slate F E) (height : Nat) (c : Context E)
    (excess : Option E) (now debited : Nat) (proof : Option StoredProofInfo) (s s' : Store E) :
    Prop where
  held : ∀ p ∈ c.inputIds, ∃ o, s.outputs.find (outputKey p.1 p.2.1) = some o
  requested : sentProof K slate c = .ok proof
  change : ∀ p ∈ c.outputIds, s'.outputs.find (outputKey p.1 none) =
    some (changeRecord K c height (s.txLogId c.parentKeyId) p.1)
  others : ∀ k, k ∉ c.outputKeys → s'.outputs.find k =
    if k ∈ c.inputKeys then (s.outputs.find k).map (·.lockedFor (s.txLogId c.parentKeyId))
    else s.outputs.find k
  rest : ∃ outputs, s' = { s with
    outputs := outputs
    txLogId := Function.update s.txLogId c.parentKeyId (u32 (s.txLogId c.parentKeyId + 1))
    txLog := s.txLog.put (c.parentKeyId,
      lockedEntry slate height c excess (s.txLogId c.parentKeyId) now debited proof) }

/-- What a lock leaves, with what its record shows as debited. -/
theorem lockBatch_debits {K : Keychain F E} {slate : Slate F E} {height : Nat} {c : Context E}
    {excess : Option E} {now : Nat} {s s' : Store E} {u : Unit}
    (h : lockBatch K slate height c excess now s = .ok (u, s')) :
    ∃ debited proof, (∃ s₁, lockInputs (s.txLogId c.parentKeyId) c.inputIds 0
        (s.nextTxLogId c.parentKeyId).2 = .ok (debited, s₁)) ∧
      LockedBy K slate height c excess now debited proof s s' := by
  unfold lockBatch at h
  obtain ⟨⟨debited, s₁⟩, hlock, h⟩ := except_bind_eq_ok.mp h
  obtain ⟨proof, hproof, h⟩ := except_bind_eq_ok.mp h
  obtain ⟨⟨outputs, rfl⟩, hheld, hinputs⟩ := lockInputs_find hlock
  have hchange := foldl_save_find (fun p : Identifier × Nat =>
    unconfirmedOutput K c.parentKeyId p.1 p.2 height 0 false (some (s.txLogId c.parentKeyId)))
    (c.outputIds.map fun (id, _, _) => (id, cachedChange c.outputIds id))
    { (s.nextTxLogId c.parentKeyId).2 with outputs := outputs }
  obtain ⟨⟨outputs', hs'⟩, hwritten, hother⟩ := hchange
  cases h
  refine ⟨debited, proof, ⟨_, hlock⟩, ⟨hheld, hproof, fun p hp => ?_, fun k hk => ?_, ?_⟩⟩
  · obtain ⟨b, hb, hkey, hfind⟩ := hwritten _ (List.mem_map_of_mem hp)
    obtain ⟨q, hq, rfl⟩ := List.mem_map.mp hb
    have hid : q.1 = p.1 := (outputKey_inj.mp hkey).1
    refine hfind.trans ?_
    simp only [changeRecord, hid]
  · refine (hother k fun a ha => ?_).trans (hinputs k)
    obtain ⟨p, hp, rfl⟩ := List.mem_map.mp ha
    exact fun hkey => hk (List.mem_map.mpr ⟨p, hp, hkey⟩)
  · have hsum : (c.outputIds.map fun p => cachedChange c.outputIds p.1) =
        (c.outputIds.map fun (id, _, _) => (id, cachedChange c.outputIds id)).map Prod.snd := by
      rw [List.map_map]
      rfl
    have hsaved := congrArg (fun t : Store E => t.saveTxLogEntry
      (lockedEntry slate height c excess (s.txLogId c.parentKeyId) now debited proof)
      c.parentKeyId) hs'
    refine ⟨outputs', Eq.trans ?_ hsaved⟩
    rw [lockedEntry, hsum]
    rfl

theorem lockBatch_eq_ok {K : Keychain F E} {slate : Slate F E} {height : Nat} {c : Context E}
    {excess : Option E} {now : Nat} {s s' : Store E} {u : Unit}
    (h : lockBatch K slate height c excess now s = .ok (u, s')) :
    ∃ debited proof, LockedBy K slate height c excess now debited proof s s' := by
  obtain ⟨debited, proof, -, hlocked⟩ := lockBatch_debits h
  exact ⟨debited, proof, hlocked⟩

end Lock

end Selection

end GrinWallet
