import GrinWallet.Model.Sample

/-! # Elements of a transaction

What the transaction builder makes of a list of elements, and which elements a
stored context is restored to. An element that is there already is not inserted
again, so restoring a transaction twice adds nothing.
-/

namespace GrinWallet

open Effect OrderedTable

section Insert

variable {α : Type} [DecidableEq α]

/-- Insert each element that is not there yet. -/
def insertAll (l xs : List α) : List α :=
  xs.foldl (fun l x => if x ∈ l then l else l ++ [x]) l

@[simp] theorem insertAll_nil (l : List α) : insertAll l [] = l := rfl

theorem insertAll_cons (l : List α) (x : α) (xs : List α) :
    insertAll l (x :: xs) = insertAll (if x ∈ l then l else l ++ [x]) xs := rfl

theorem insertAll_append (l xs ys : List α) :
    insertAll l (xs ++ ys) = insertAll (insertAll l xs) ys :=
  List.foldl_append

theorem insertAll_of_nodup {l xs : List α} (h : (l ++ xs).Nodup) : insertAll l xs = l ++ xs := by
  induction xs generalizing l with
  | nil => simp
  | cons x xs ih =>
      have hx : x ∉ l := by
        intro hmem
        exact (List.nodup_append.mp h).2.2 x hmem x List.mem_cons_self rfl
      have happ : (l ++ [x] ++ xs).Nodup := by simpa using h
      rw [insertAll_cons, if_neg hx, ih happ, List.append_assoc, List.singleton_append]

theorem insertAll_of_subset {l xs : List α} (h : ∀ x ∈ xs, x ∈ l) : insertAll l xs = l := by
  induction xs with
  | nil => rfl
  | cons x xs ih =>
      rw [insertAll_cons, if_pos (h x List.mem_cons_self)]
      exact ih fun y hy => h y (List.mem_cons_of_mem x hy)

end Insert

variable {F E : Type} [CommRing F] [AddCommGroup E] [Module F E] [DecidableEq E]

/-! ## Building -/

namespace Append

omit [DecidableEq E]

/-- The input an element adds. -/
def input? (K : Keychain F E) : Append → Option (Input E)
  | .input value keyId => some ⟨.Plain, K.commit value keyId⟩
  | .coinbaseInput value keyId => some ⟨.Coinbase, K.commit value keyId⟩
  | .output _ _ => none

/-- The output an element adds. -/
def output? (K : Keychain F E) : Append → Option (Output E)
  | .output value keyId => some ⟨.Plain, K.commit value keyId, K.rangeProof value keyId⟩
  | _ => none

end Append

theorem Append.apply_eq (K : Keychain F E) (tx : Transaction F E) (e : Append) :
    e.apply K tx =
      { tx with
        inputs := insertAll tx.inputs (e.input? K).toList
        outputs := insertAll tx.outputs (e.output? K).toList } := by
  cases e with
  | input value keyId =>
      by_cases h : (⟨.Plain, K.commit value keyId⟩ : Input E) ∈ tx.inputs
      · simp [apply, Transaction.withInput, input?, output?, insertAll_cons, h]
      · simp [apply, Transaction.withInput, input?, output?, insertAll_cons, h]
  | coinbaseInput value keyId =>
      by_cases h : (⟨.Coinbase, K.commit value keyId⟩ : Input E) ∈ tx.inputs
      · simp [apply, Transaction.withInput, input?, output?, insertAll_cons, h]
      · simp [apply, Transaction.withInput, input?, output?, insertAll_cons, h]
  | output value keyId =>
      by_cases h : (⟨.Plain, K.commit value keyId, K.rangeProof value keyId⟩ : Output E)
          ∈ tx.outputs
      · simp [apply, Transaction.withOutput, input?, output?, insertAll_cons, h]
      · simp [apply, Transaction.withOutput, input?, output?, insertAll_cons, h]

theorem filterMap_cons_toList {α β : Type} (f : α → Option β) (x : α) (xs : List α) :
    (x :: xs).filterMap f = (f x).toList ++ xs.filterMap f := by
  cases h : f x with
  | none => simp [h]
  | some y => simp [h]

theorem partialTransaction_eq (K : Keychain F E) (tx : Transaction F E) (elems : List Append) :
    partialTransaction K tx elems =
      { tx with
        inputs := insertAll tx.inputs (elems.filterMap (Append.input? K))
        outputs := insertAll tx.outputs (elems.filterMap (Append.output? K)) } := by
  induction elems generalizing tx with
  | nil => rfl
  | cons e es ih =>
      change partialTransaction K (e.apply K tx) es = _
      rw [ih, e.apply_eq, filterMap_cons_toList, filterMap_cons_toList, insertAll_append,
        insertAll_append]

/-! ## Restoring -/

section Restore

omit [DecidableEq E]

/-- The wallet has the record a context names as an input. -/
def Held (s : Store E) (p : Identifier × Option Nat × Nat) : Prop :=
  ∃ o, s.outputs.find (outputKey p.1 p.2.1) = some o

/-- The wallet has some record for a key. -/
def recorded (s : Store E) (id : Identifier) : Bool := s.iter.any fun o => o.keyId = id

/-- The wallet has a record for a key that is no candidate of a coinbase. -/
def Lasting (s : Store E) (id : Identifier) : Prop :=
  ∃ o ∈ s.outputs, o.keyId = id ∧ (o.isCoinbase = false ∨ o.mmrIndex ≠ none)

/-- The input a context entry is restored to. -/
def inputFor (K : Keychain F E) (s : Store E) (p : Identifier × Option Nat × Nat) : Input E where
  features :=
    if (s.outputs.find (outputKey p.1 p.2.1)).any (·.isCoinbase) then .Coinbase else .Plain
  commit := K.commit p.2.2 p.1

/-- The output a context entry is restored to. -/
def outputFor (K : Keychain F E) (p : Identifier × Option Nat × Nat) : Output E where
  features := .Plain
  commit := K.commit p.2.2 p.1
  proof := K.rangeProof p.2.2 p.1

omit [CommRing F] [AddCommGroup E] [Module F E] in
theorem recorded_iff {s : Store E} {id : Identifier} :
    recorded s id = true ↔ ∃ o ∈ s.outputs, o.keyId = id := by
  simp [recorded, Store.iter]

omit [CommRing F] [AddCommGroup E] [Module F E] in
theorem Lasting.recorded {s : Store E} {id : Identifier} (h : Lasting s id) :
    recorded s id = true := by
  obtain ⟨o, ho, hid, -⟩ := h
  exact recorded_iff.mpr ⟨o, ho, hid⟩

omit [CommRing F] [AddCommGroup E] [Module F E] in
theorem keyId_of_find {s : Store E} {id : Identifier} {mmrIndex : Option Nat} {o : OutputData E}
    (h : s.outputs.find (outputKey id mmrIndex) = some o) : o.keyId = id := by
  have hkey : o.key = outputKey id mmrIndex := (Table.find_eq_some.mp h).2
  exact (outputKey_inj.mp hkey).1

omit [CommRing F] [AddCommGroup E] [Module F E] in
theorem Held.recorded {s : Store E} {p : Identifier × Option Nat × Nat} (h : Held s p) :
    recorded s p.1 = true := by
  obtain ⟨o, ho⟩ := h
  exact recorded_iff.mpr ⟨o, (Table.find_eq_some.mp ho).1, keyId_of_find ho⟩

omit [CommRing F] [AddCommGroup E] [Module F E] in
theorem get_of_find {s : Store E} {id : Identifier} {mmrIndex : Option Nat} {o : OutputData E}
    (h : s.outputs.find (outputKey id mmrIndex) = some o) : s.get id mmrIndex = .ok o := by
  simp only [Store.get, h]

/-- The element an input entry of a context is restored to. -/
def inputPart (s : Store E) (p : Identifier × Option Nat × Nat) : Option Append :=
  let input := match s.get p.1 p.2.1 with
    | .ok o => some o
    | .error _ => s.iter.find? fun out => out.keyId = p.1
  input.map fun i =>
    if i.isCoinbase then .coinbaseInput p.2.2 i.keyId else .input p.2.2 i.keyId

/-- The element an output entry of a context is restored to. -/
def outputPart (s : Store E) (p : Identifier × Option Nat × Nat) : Option Append :=
  (s.iter.find? fun out => out.keyId = p.1).map fun i => .output p.2.2 i.keyId

omit [CommRing F] [AddCommGroup E] [Module F E] in
theorem repopulateParts_eq (s : Store E) (c : Context E) :
    Selection.repopulateParts s c
      = c.inputIds.filterMap (inputPart s) ++ c.outputIds.filterMap (outputPart s) := rfl

theorem inputPart_input (K : Keychain F E) {s : Store E} {p : Identifier × Option Nat × Nat}
    (h : Held s p) : (inputPart s p).bind (Append.input? K) = some (inputFor K s p) := by
  obtain ⟨o, ho⟩ := h
  have hid : o.keyId = p.1 := keyId_of_find ho
  by_cases hcb : o.isCoinbase
  · simp [inputPart, inputFor, get_of_find ho, ho, hid, hcb, Append.input?]
  · simp [inputPart, inputFor, get_of_find ho, ho, hid, hcb, Append.input?]

theorem inputPart_output (K : Keychain F E) (s : Store E) (p : Identifier × Option Nat × Nat) :
    (inputPart s p).bind (Append.output? K) = none := by
  rw [inputPart, Option.bind_map, Option.bind_eq_none_iff]
  intro i _
  by_cases hcb : i.isCoinbase
  · simp [hcb, Append.output?]
  · simp [hcb, Append.output?]

theorem outputPart_input (K : Keychain F E) (s : Store E) (p : Identifier × Option Nat × Nat) :
    (outputPart s p).bind (Append.input? K) = none := by
  rw [outputPart, Option.bind_map, Option.bind_eq_none_iff]
  intro i _
  rfl

theorem outputPart_output (K : Keychain F E) (s : Store E) (p : Identifier × Option Nat × Nat) :
    (outputPart s p).bind (Append.output? K)
      = if recorded s p.1 then some (outputFor K p) else none := by
  cases hfind : s.iter.find? fun out => decide (out.keyId = p.1) with
  | none =>
      have hrec : recorded s p.1 = false := by
        rw [recorded, List.any_eq_false]
        exact List.find?_eq_none.mp hfind
      simp [outputPart, hfind, hrec]
  | some i =>
      have hid : i.keyId = p.1 := by simpa using List.find?_some hfind
      have hrec : recorded s p.1 = true :=
        recorded_iff.mpr ⟨i, List.mem_of_find?_eq_some hfind, hid⟩
      simp [outputPart, hfind, hrec, Append.output?, outputFor, hid]

/-- A context whose inputs the wallet holds is restored with all of them. -/
theorem inputs_of_repopulateParts (K : Keychain F E) {s : Store E} {c : Context E}
    (h : ∀ p ∈ c.inputIds, Held s p) :
    (Selection.repopulateParts s c).filterMap (Append.input? K)
      = c.inputIds.map (inputFor K s) := by
  rw [repopulateParts_eq, List.filterMap_append, List.filterMap_filterMap,
    List.filterMap_filterMap]
  have houts : c.outputIds.filterMap (fun p => (outputPart s p).bind (Append.input? K)) = [] :=
    List.filterMap_eq_nil_iff.mpr fun p _ => outputPart_input K s p
  have hins : c.inputIds.filterMap (fun p => (inputPart s p).bind (Append.input? K))
      = c.inputIds.filterMap fun p => some (inputFor K s p) :=
    List.filterMap_congr fun p hp => inputPart_input K (h p hp)
  rw [houts, hins, List.append_nil, ← List.filterMap_eq_map]
  rfl

/-- A context is restored with the outputs whose keys the wallet has records for. -/
theorem outputs_of_repopulateParts (K : Keychain F E) (s : Store E) (c : Context E) :
    (Selection.repopulateParts s c).filterMap (Append.output? K)
      = (c.outputIds.filter fun p => recorded s p.1).map (outputFor K) := by
  rw [repopulateParts_eq, List.filterMap_append, List.filterMap_filterMap,
    List.filterMap_filterMap]
  have hins : c.inputIds.filterMap (fun p => (inputPart s p).bind (Append.output? K)) = [] :=
    List.filterMap_eq_nil_iff.mpr fun p _ => inputPart_output K s p
  rw [hins, List.nil_append]
  induction c.outputIds with
  | nil => rfl
  | cons p ps ih =>
      rw [filterMap_cons_toList, ih, List.filter_cons, outputPart_output]
      cases hrec : recorded s p.1 with
      | false => simp
      | true => simp

end Restore

end GrinWallet
