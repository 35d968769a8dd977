import Mathlib.Data.List.Pairwise
import Mathlib.Order.Lattice

/-! # Tables iterated in key order

A `Table key` is the finite map of an ordered key-value store whose rows carry
their own key: rows stand in strictly increasing key order, so a key has at most
one row and iteration visits rows in the order of the store. Membership in the
row list is the working view; `find` is derived from it.
-/

namespace OrderedTable

universe u v

/-- Rows in strictly increasing key order. -/
structure Table {α : Type u} {κ : Type v} [LinearOrder κ] (key : α → κ) where
  rows : List α
  sorted : rows.Pairwise fun a b => key a < key b

variable {α : Type u} {κ : Type v} [LinearOrder κ] {key : α → κ}

/-- Place a row in key order, replacing a row with the same key. -/
def insertRow (key : α → κ) (a : α) : List α → List α
  | [] => [a]
  | b :: bs =>
      if key a < key b then a :: b :: bs
      else if key a = key b then a :: bs
      else b :: insertRow key a bs

theorem mem_insertRow {a b : α} {rows : List α}
    (h : rows.Pairwise fun a b => key a < key b) :
    b ∈ insertRow key a rows ↔ b = a ∨ b ∈ rows ∧ key b ≠ key a := by
  induction rows with
  | nil => simp [insertRow]
  | cons c cs ih =>
      obtain ⟨hc, hcs⟩ := List.pairwise_cons.mp h
      unfold insertRow
      split
      · rename_i hlt
        have hne : ∀ d ∈ c :: cs, key d ≠ key a := by
          intro d hd
          rcases List.mem_cons.mp hd with rfl | hd
          · exact ne_of_gt hlt
          · exact ne_of_gt (lt_trans hlt (hc d hd))
        constructor
        · intro hb
          rcases List.mem_cons.mp hb with rfl | hb
          · exact .inl rfl
          · exact .inr ⟨hb, hne b hb⟩
        · rintro (rfl | ⟨hb, _⟩)
          · exact List.mem_cons_self
          · exact List.mem_cons_of_mem a hb
      · split
        · rename_i heq
          have hne : ∀ d ∈ cs, key d ≠ key a := fun d hd => by
            rw [heq]
            exact ne_of_gt (hc d hd)
          constructor
          · intro hb
            rcases List.mem_cons.mp hb with rfl | hb
            · exact .inl rfl
            · exact .inr ⟨List.mem_cons_of_mem c hb, hne b hb⟩
          · rintro (rfl | ⟨hb, hk⟩)
            · exact List.mem_cons_self
            · rcases List.mem_cons.mp hb with rfl | hb
              · exact (hk heq.symm).elim
              · exact List.mem_cons_of_mem a hb
        · rename_i hne
          rw [List.mem_cons, ih hcs, List.mem_cons]
          constructor
          · rintro (rfl | rfl | ⟨hb, hk⟩)
            · exact .inr ⟨.inl rfl, Ne.symm hne⟩
            · exact .inl rfl
            · exact .inr ⟨.inr hb, hk⟩
          · rintro (rfl | ⟨rfl | hb, hk⟩)
            · exact .inr (.inl rfl)
            · exact .inl rfl
            · exact .inr (.inr ⟨hb, hk⟩)

theorem insertRow_sorted {a : α} {rows : List α}
    (h : rows.Pairwise fun a b => key a < key b) :
    (insertRow key a rows).Pairwise fun a b => key a < key b := by
  induction rows with
  | nil => simp [insertRow]
  | cons c cs ih =>
      obtain ⟨hc, hcs⟩ := List.pairwise_cons.mp h
      unfold insertRow
      split
      · rename_i hlt
        refine List.pairwise_cons.mpr ⟨fun d hd => ?_, h⟩
        rcases List.mem_cons.mp hd with rfl | hd
        · exact hlt
        · exact lt_trans hlt (hc d hd)
      · rename_i hnlt
        split
        · rename_i heq
          exact List.pairwise_cons.mpr ⟨fun d hd => heq ▸ hc d hd, hcs⟩
        · rename_i hne
          refine List.pairwise_cons.mpr ⟨fun d hd => ?_, ih hcs⟩
          rcases (mem_insertRow hcs).mp hd with rfl | ⟨hd, _⟩
          · exact lt_of_le_of_ne (not_lt.mp hnlt) (Ne.symm hne)
          · exact hc d hd

theorem insertRow_of_mem {a : α} {rows : List α}
    (h : rows.Pairwise fun a b => key a < key b) (ha : a ∈ rows) : insertRow key a rows = rows := by
  induction rows with
  | nil => cases ha
  | cons c cs ih =>
      obtain ⟨hc, hcs⟩ := List.pairwise_cons.mp h
      unfold insertRow
      rcases List.mem_cons.mp ha with rfl | ha
      · rw [if_neg (lt_irrefl _), if_pos rfl]
      · have hlt := hc a ha
        rw [if_neg (not_lt.mpr (le_of_lt hlt)), if_neg (ne_of_gt hlt), ih hcs ha]

/-- The later of two rows with one key stays. -/
theorem insertRow_insertRow {a b : α} (hk : key a = key b) (rows : List α) :
    insertRow key b (insertRow key a rows) = insertRow key b rows := by
  induction rows with
  | nil => simp [insertRow, hk]
  | cons c cs ih =>
      by_cases hlt : key b < key c
      · simp [insertRow, hlt, hk]
      · by_cases heq : key b = key c
        · simp [insertRow, heq, hk]
        · simp [insertRow, hlt, heq, hk, ih]

namespace Table

instance : Inhabited (Table key) := ⟨⟨[], List.Pairwise.nil⟩⟩

/-- The table without rows. -/
def empty : Table key := ⟨[], List.Pairwise.nil⟩

instance : Membership α (Table key) := ⟨fun t a => a ∈ t.rows⟩

/-- Write a row under its own key. -/
def put (t : Table key) (a : α) : Table key :=
  ⟨insertRow key a t.rows, insertRow_sorted t.sorted⟩

/-- Remove the row under a key. -/
def erase (t : Table key) (k : κ) : Table key :=
  ⟨t.rows.filter fun a => decide (key a ≠ k), t.sorted.filter _⟩

/-- The row under a key. -/
def find (t : Table key) (k : κ) : Option α := t.rows.find? fun a => decide (key a = k)

theorem mem_def {t : Table key} {a : α} : a ∈ t ↔ a ∈ t.rows := Iff.rfl

@[simp] theorem mem_rows {t : Table key} {a : α} : a ∈ t.rows ↔ a ∈ t := Iff.rfl

@[simp] theorem not_mem_empty {a : α} : a ∉ (empty : Table key) := List.not_mem_nil

@[simp] theorem mem_put {t : Table key} {a b : α} :
    b ∈ t.put a ↔ b = a ∨ b ∈ t ∧ key b ≠ key a :=
  mem_insertRow t.sorted

@[simp] theorem mem_erase {t : Table key} {k : κ} {a : α} :
    a ∈ t.erase k ↔ a ∈ t ∧ key a ≠ k := by
  rw [mem_def, erase, List.mem_filter, decide_eq_true_iff, mem_rows]

theorem eq_of_key_eq {t : Table key} {a b : α} (ha : a ∈ t) (hb : b ∈ t)
    (h : key a = key b) : a = b := by
  by_contra hne
  have hsym : t.rows.Pairwise fun a b => key a ≠ key b := t.sorted.imp fun hlt => ne_of_lt hlt
  have : Std.Symm fun a b : α => key a ≠ key b := ⟨fun _ _ h => h.symm⟩
  exact hsym.forall ha hb hne h

theorem find_eq_some {t : Table key} {k : κ} {a : α} :
    t.find k = some a ↔ a ∈ t ∧ key a = k := by
  constructor
  · intro h
    exact ⟨List.mem_of_find?_eq_some h, by simpa using List.find?_some h⟩
  · rintro ⟨ha, rfl⟩
    cases h : t.find (key a) with
    | none => exact (List.find?_eq_none.mp h a ha (by simp)).elim
    | some b =>
        have hb : b ∈ t ∧ key b = key a :=
          ⟨List.mem_of_find?_eq_some h, by simpa using List.find?_some h⟩
        rw [eq_of_key_eq hb.1 ha hb.2]

/-- The first row that satisfies a predicate is the one with the least key. -/
theorem find?_rows_eq_some {t : Table key} {p : α → Bool} {a : α} :
    t.rows.find? p = some a ↔ a ∈ t ∧ p a = true ∧ ∀ b ∈ t, p b = true → key a ≤ key b := by
  have hfirst : ∀ {a : α}, t.rows.find? p = some a → ∀ b ∈ t, p b = true → key a ≤ key b := by
    intro a h b hb hp
    obtain ⟨-, before, after, hrows, hnone⟩ := List.find?_eq_some_iff_append.mp h
    have hsorted := t.sorted
    rw [mem_def, hrows] at hb
    rw [hrows] at hsorted
    rcases List.mem_append.mp hb with hb | hb
    · have hnot := hnone b hb
      rw [hp] at hnot
      cases hnot
    · rcases List.mem_cons.mp hb with rfl | hb
      · exact le_refl _
      · exact le_of_lt ((List.pairwise_cons.mp (List.pairwise_append.mp hsorted).2.1).1 b hb)
  constructor
  · intro h
    exact ⟨List.mem_of_find?_eq_some h, List.find?_some h, hfirst h⟩
  · rintro ⟨ha, hp, hleast⟩
    cases h : t.rows.find? p with
    | none => exact (List.find?_eq_none.mp h a ha hp).elim
    | some c =>
        have hc : c ∈ t := List.mem_of_find?_eq_some h
        have hkey : key c = key a := le_antisymm (hfirst h a ha hp) (hleast c hc (List.find?_some h))
        rw [eq_of_key_eq hc ha hkey]

/-- A predicate that one row alone satisfies. -/
theorem filter_rows_eq_singleton {t : Table key} {p : α → Bool} {a : α} :
    t.rows.filter p = [a] ↔ a ∈ t ∧ p a = true ∧ ∀ b ∈ t, p b = true → b = a := by
  have hmem : ∀ b, b ∈ t.rows.filter p ↔ b ∈ t ∧ p b = true := fun b => List.mem_filter
  constructor
  · intro h
    rw [h] at hmem
    obtain ⟨ha, hp⟩ := (hmem a).mp List.mem_cons_self
    exact ⟨ha, hp, fun b hb hpb => List.mem_singleton.mp ((hmem b).mpr ⟨hb, hpb⟩)⟩
  · intro h
    obtain ⟨ha, hp, honly⟩ := h
    have hsorted : (t.rows.filter p).Pairwise fun a b => key a < key b := t.sorted.filter _
    have hall : ∀ b ∈ t.rows.filter p, b = a := fun b hb =>
      honly b ((hmem b).mp hb).1 ((hmem b).mp hb).2
    have hin := (hmem a).mpr ⟨ha, hp⟩
    cases hl : t.rows.filter p with
    | nil =>
        rw [hl] at hin
        cases hin
    | cons b bs =>
        rw [hl] at hall hsorted
        obtain rfl := hall b List.mem_cons_self
        cases bs with
        | nil => rfl
        | cons c cs =>
            have hc := hall c (List.mem_cons_of_mem _ List.mem_cons_self)
            have hlt := (List.pairwise_cons.mp hsorted).1 c List.mem_cons_self
            rw [hc] at hlt
            exact (lt_irrefl _ hlt).elim

theorem find_eq_none {t : Table key} {k : κ} : t.find k = none ↔ ∀ a ∈ t, key a ≠ k := by
  simp [find, List.find?_eq_none]

theorem find_put_self (t : Table key) (a : α) : (t.put a).find (key a) = some a :=
  find_eq_some.mpr ⟨mem_put.mpr (.inl rfl), rfl⟩

theorem find_put_of_ne (t : Table key) {a : α} {k : κ} (h : key a ≠ k) :
    (t.put a).find k = t.find k := by
  apply Option.ext
  intro b
  rw [find_eq_some, find_eq_some, mem_put]
  constructor
  · rintro ⟨rfl | ⟨hb, _⟩, hk⟩
    · exact (h hk).elim
    · exact ⟨hb, hk⟩
  · rintro ⟨hb, rfl⟩
    exact ⟨.inr ⟨hb, Ne.symm h⟩, rfl⟩

/-- Writing a row that is there changes nothing, and only then. -/
theorem put_eq_self {t : Table key} {a : α} : t.put a = t ↔ a ∈ t := by
  constructor
  · intro h
    rw [← h]
    exact mem_put.mpr (.inl rfl)
  · intro ha
    have hrows : insertRow key a t.rows = t.rows := insertRow_of_mem t.sorted ha
    obtain ⟨rows, hsorted⟩ := t
    simp only [put, mk.injEq]
    exact hrows

theorem put_put (t : Table key) {a b : α} (h : key a = key b) : (t.put a).put b = t.put b := by
  simp only [put, mk.injEq]
  exact insertRow_insertRow h t.rows

/-- Writing rows under new and different keys adds them. -/
theorem mem_foldl_put {rows : List α} {t : Table key} {a : α}
    (hdistinct : rows.Pairwise fun a b => key a ≠ key b)
    (hnew : ∀ b ∈ rows, ∀ c ∈ t, key c ≠ key b) :
    a ∈ rows.foldl put t ↔ a ∈ t ∨ a ∈ rows := by
  induction rows generalizing t with
  | nil => simp
  | cons b rows ih =>
      obtain ⟨hb, hdistinct⟩ := List.pairwise_cons.mp hdistinct
      have hnew' : ∀ r ∈ rows, ∀ c ∈ t.put b, key c ≠ key r := by
        intro r hr c hc
        rcases mem_put.mp hc with rfl | ⟨hc, -⟩
        · exact hb r hr
        · exact hnew r (List.mem_cons_of_mem b hr) c hc
      have hput : a ∈ t.put b ↔ a ∈ t ∨ a = b := by
        rw [mem_put]
        constructor
        · rintro (h | ⟨h, -⟩)
          · exact .inr h
          · exact .inl h
        · rintro (h | h)
          · exact .inr ⟨h, hnew b List.mem_cons_self a h⟩
          · exact .inl h
      rw [List.foldl_cons, ih hdistinct hnew', hput, List.mem_cons, or_assoc]

theorem find_erase_self (t : Table key) (k : κ) : (t.erase k).find k = none :=
  find_eq_none.mpr fun _ ha => (mem_erase.mp ha).2

theorem find_erase_of_ne (t : Table key) {k k' : κ} (h : k' ≠ k) :
    (t.erase k).find k' = t.find k' := by
  apply Option.ext
  intro b
  rw [find_eq_some, find_eq_some, mem_erase]
  constructor
  · rintro ⟨⟨hb, _⟩, hk⟩
    exact ⟨hb, hk⟩
  · rintro ⟨hb, rfl⟩
    exact ⟨⟨hb, h⟩, rfl⟩

end Table

end OrderedTable
