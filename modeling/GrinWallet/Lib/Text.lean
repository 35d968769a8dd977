import Mathlib.Data.List.Basic

/-! # Text with separators

`Padded P l m` says that `m` is `l` with elements satisfying `P` inserted anywhere:
what a reader that drops such elements undoes. `separated` puts a separator in
front of the elements at some positions, as a formatter into words and lines does.
-/

namespace Text

variable {α : Type}

/-- The second list is the first with elements satisfying `P` inserted. -/
inductive Padded (P : α → Prop) : List α → List α → Prop
  | nil : Padded P [] []
  | keep (a : α) {l m : List α} : Padded P l m → Padded P (a :: l) (a :: m)
  | insert (a : α) {l m : List α} : P a → Padded P l m → Padded P l (a :: m)

namespace Padded

variable {P : α → Prop} {l m n : List α}

theorem refl (P : α → Prop) (l : List α) : Padded P l l := by
  induction l with
  | nil => exact nil
  | cons a l ih => exact keep a ih

theorem trans (h : Padded P l m) (h' : Padded P m n) : Padded P l n := by
  induction h' generalizing l with
  | nil => exact h
  | insert a ha _ ih => exact insert a ha (ih h)
  | keep a _ ih =>
      cases h with
      | keep _ h => exact keep a (ih h)
      | insert _ ha h => exact insert a ha (ih h)

theorem mem (h : Padded P l m) {a : α} (ha : a ∈ m) : a ∈ l ∨ P a := by
  induction h with
  | nil => exact (List.not_mem_nil ha).elim
  | keep b _ ih =>
      rcases List.mem_cons.mp ha with rfl | ha
      · exact .inl List.mem_cons_self
      · exact (ih ha).imp_left (List.mem_cons_of_mem b)
  | insert b hb _ ih =>
      rcases List.mem_cons.mp ha with rfl | ha
      · exact .inr hb
      · exact ih ha

/-- Dropping what was inserted gives back what is left of the first list. -/
theorem filter_eq (h : Padded P l m) {keep : α → Bool} (hP : ∀ a, P a → keep a = false) :
    m.filter keep = l.filter keep := by
  induction h with
  | nil => rfl
  | keep a _ ih => rw [List.filter_cons, List.filter_cons, ih]
  | insert a ha _ ih => rw [List.filter_cons, hP a ha, ih]; rfl

end Padded

/-! ## Separators -/

/-- The list with a separator in front of the elements that have one, the first
element standing at position `start`. -/
def separated (sep : Nat → Option α) (start : Nat) (l : List α) : List α :=
  (l.zipIdx start).flatMap fun (a, i) => (sep i).toList ++ [a]

section Separated

variable {sep : Nat → Option α}

@[simp] theorem separated_nil (start : Nat) : separated sep start [] = [] := rfl

theorem separated_cons (start : Nat) (a : α) (l : List α) :
    separated sep start (a :: l) =
      (sep start).toList ++ a :: separated sep (start + 1) l := by
  simp [separated]

theorem separated_append (start : Nat) (l m : List α) :
    separated sep start (l ++ m) = separated sep start l ++ separated sep (start + l.length) m := by
  simp [separated, List.zipIdx_append]

/-- Where no position has a separator nothing changes. -/
theorem separated_eq_self {start : Nat} {l : List α}
    (h : ∀ i, start ≤ i → i < start + l.length → sep i = none) : separated sep start l = l := by
  induction l generalizing start with
  | nil => rfl
  | cons a l ih =>
      have hhead : sep start = none := h start (Nat.le_refl _) (by simp)
      have htail : separated sep (start + 1) l = l := by
        apply ih
        intro i hi hlt
        exact h i (by omega) (by simp only [List.length_cons]; omega)
      rw [separated_cons, hhead, htail]
      rfl

theorem separated_padded {P : α → Prop} (h : ∀ i, ∀ a ∈ sep i, P a) (start : Nat) (l : List α) :
    Padded P l (separated sep start l) := by
  induction l generalizing start with
  | nil => exact .nil
  | cons a l ih =>
      rw [separated_cons]
      cases hs : sep start with
      | none => exact .keep a (ih (start + 1))
      | some s => exact .insert s (h start s hs) (.keep a (ih (start + 1)))

/-- The length of a text, from a count of the separators that stand in front of a
position. -/
theorem separated_length {count : Nat → Nat}
    (h : ∀ i, count (i + 1) = count i + (sep i).toList.length) (start : Nat) (l : List α) :
    (separated sep start l).length + count start = l.length + count (start + l.length) := by
  induction l generalizing start with
  | nil => simp
  | cons a l ih =>
      have htail := ih (start + 1)
      have hstep := h start
      have hpos : start + 1 + l.length = start + (l.length + 1) := by omega
      rw [hpos] at htail
      rw [separated_cons, List.length_append, List.length_cons, List.length_cons]
      omega

end Separated

section Stripped

variable (p : α → Bool)

/-- A text without the elements of a kind at either end. -/
def stripped (l : List α) : List α := ((l.dropWhile p).reverse.dropWhile p).reverse

/-- A text is what is left of it when it is stripped, between elements of the kind. -/
theorem eq_append_stripped (l : List α) :
    ∃ before behind, l = before ++ stripped p l ++ behind ∧ (∀ a ∈ before, p a = true) ∧
      ∀ a ∈ behind, p a = true := by
  have hback := congrArg List.reverse
    (List.takeWhile_append_dropWhile (p := p) (l := (l.dropWhile p).reverse))
  rw [List.reverse_append, List.reverse_reverse] at hback
  refine ⟨l.takeWhile p, ((l.dropWhile p).reverse.takeWhile p).reverse, ?_,
    fun a ha => List.all_eq_true.mp List.all_takeWhile a ha,
    fun a ha => List.all_eq_true.mp List.all_takeWhile a (List.mem_reverse.mp ha)⟩
  rw [stripped, List.append_assoc, hback, List.takeWhile_append_dropWhile]

end Stripped

end Text
