import Mathlib.Data.List.Sort

/-! # Sorted selections

Sorting by a key keeps the order of equal keys, so it makes no difference whether
a list is filtered before or after it is sorted. Two selections of one list, cut
to a limit, are equal exactly when no element within the limit is in only one of
them.
-/

namespace StableSort

universe u v

variable {α : Type u} {κ : Type v} [LinearOrder κ]

/-- Sort by a key, keeping the order of equal keys. -/
def sortOn (key : α → κ) (l : List α) : List α := l.insertionSort fun a b => key a ≤ key b

theorem perm_sortOn (key : α → κ) (l : List α) : (sortOn key l).Perm l :=
  List.perm_insertionSort _ l

@[simp] theorem mem_sortOn {key : α → κ} {l : List α} {a : α} : a ∈ sortOn key l ↔ a ∈ l :=
  (perm_sortOn key l).mem_iff

theorem sortOn_pairwise (key : α → κ) (l : List α) :
    (sortOn key l).Pairwise fun a b => key a ≤ key b := by
  have : Std.Total fun a b : α => key a ≤ key b := ⟨fun a b => le_total (key a) (key b)⟩
  have : IsTrans α fun a b : α => key a ≤ key b := ⟨fun _ _ _ hab hbc => le_trans hab hbc⟩
  exact List.pairwise_insertionSort _ l

/-- An element inserted into a sorted list is inserted into the selection, or dropped from it. -/
theorem filter_orderedInsert (key : α → κ) (p : α → Bool) (a : α) {l : List α}
    (h : l.Pairwise fun a b => key a ≤ key b) :
    (l.orderedInsert (fun a b => key a ≤ key b) a).filter p
      = if p a then (l.filter p).orderedInsert (fun a b => key a ≤ key b) a else l.filter p := by
  induction l with
  | nil => cases hp : p a <;> simp [hp]
  | cons b l ih =>
      obtain ⟨hb, hl⟩ := List.pairwise_cons.mp h
      by_cases hab : key a ≤ key b
      · -- everything behind `b` has a key as large, so `a` also goes first among the selected
        have hfirst : ∀ c ∈ (b :: l).filter p, key a ≤ key c := by
          intro c hc
          rcases List.mem_cons.mp (List.mem_of_mem_filter hc) with rfl | hc
          · exact hab
          · exact le_trans hab (hb c hc)
        rw [List.orderedInsert_cons, if_pos hab]
        cases hp : p a with
        | false => simp [hp]
        | true =>
            rw [List.filter_cons_of_pos hp, if_pos rfl]
            cases hf : (b :: l).filter p with
            | nil => rfl
            | cons c m =>
                rw [List.orderedInsert_cons, if_pos (hfirst c (hf ▸ List.mem_cons_self))]
      · rw [List.orderedInsert_cons, if_neg hab]
        cases hp : p b with
        | false => rw [List.filter_cons_of_neg (by simp [hp]), List.filter_cons_of_neg (by simp [hp]),
            ih hl]
        | true =>
            rw [List.filter_cons_of_pos hp, List.filter_cons_of_pos hp, ih hl]
            cases hpa : p a with
            | false => rfl
            | true => rw [if_pos rfl, if_pos rfl, List.orderedInsert_cons, if_neg hab]

theorem filter_sortOn (key : α → κ) (p : α → Bool) (l : List α) :
    (sortOn key l).filter p = sortOn key (l.filter p) := by
  induction l with
  | nil => rfl
  | cons a l ih =>
      show ((sortOn key l).orderedInsert _ a).filter p = _
      rw [filter_orderedInsert key p a (sortOn_pairwise key l), ih]
      cases hp : p a with
      | false => simp [hp]
      | true =>
          rw [if_pos rfl, List.filter_cons_of_pos hp]
          rfl

/-! ## Limits -/

/-- The first elements, all of them without a limit. -/
def takeUpTo (limit : Option Nat) (l : List α) : List α :=
  match limit with
  | some n => l.take n
  | none => l

/-- Two selections agree up to the limit: an element that only one of them takes comes after
as many that both take. -/
def AgreeUpTo (limit : Option Nat) (p q : α → Bool) (l : List α) : Prop :=
  ∀ before a after, l = before ++ a :: after → p a = q a ∨
    ∃ n ∈ limit, n ≤ (before.filter fun b => p b && q b).length

theorem agreeUpTo_cons {limit : Option Nat} {p q : α → Bool} {a : α} {l : List α} :
    AgreeUpTo limit p q (a :: l) ↔ (p a = q a ∨ limit = some 0) ∧
      ∀ before b after, l = before ++ b :: after → p b = q b ∨
        ∃ n ∈ limit, n ≤ ((a :: before).filter fun b => p b && q b).length := by
  constructor
  · intro h
    refine ⟨?_, fun before b after hl => h (a :: before) b after (by rw [hl]; rfl)⟩
    rcases h [] a l rfl with heq | ⟨n, hn, hle⟩
    · exact .inl heq
    · cases hn
      exact .inr (congrArg some (Nat.le_zero.mp hle))
  · rintro ⟨hfirst, hrest⟩ before b after hl
    cases before with
    | nil =>
        cases hl
        rcases hfirst with heq | hzero
        · exact .inl heq
        · exact .inr ⟨0, hzero, Nat.zero_le _⟩
    | cons c before =>
        cases hl
        exact hrest before b after rfl

theorem agreeUpTo_zero (p q : α → Bool) (l : List α) : AgreeUpTo (some 0) p q l :=
  fun _ _ _ _ => .inr ⟨0, rfl, Nat.zero_le _⟩

/-- An element neither selection takes does not count. -/
theorem agreeUpTo_cons_neither {limit : Option Nat} {p q : α → Bool} {a : α} {l : List α}
    (hp : p a = false) (hq : q a = false) :
    AgreeUpTo limit p q (a :: l) ↔ AgreeUpTo limit p q l := by
  rw [agreeUpTo_cons, hp, hq]
  refine (and_iff_right (.inl rfl)).trans (forall_congr' fun before => ?_)
  rw [List.filter_cons_of_neg (by simp [hp])]

/-- An element both selections take leaves one less to be taken. -/
theorem agreeUpTo_cons_both {limit : Option Nat} {p q : α → Bool} {a : α} {l : List α}
    (hp : p a = true) (hq : q a = true) :
    AgreeUpTo (limit.map (· + 1)) p q (a :: l) ↔ AgreeUpTo limit p q l := by
  rw [agreeUpTo_cons, hp, hq]
  refine (and_iff_right (.inl rfl)).trans (forall_congr' fun before => ?_)
  rw [List.filter_cons_of_pos (by simp [hp, hq]), List.length_cons]
  cases limit with
  | none => simp
  | some n => simp

/-- An element only one selection takes tells them apart. -/
theorem takeUpTo_cons_ne {limit : Option Nat} {p q : α → Bool} {a : α} {l : List α}
    (hp : p a = true) (hq : q a = false) (hlimit : limit ≠ some 0) :
    takeUpTo limit ((a :: l).filter p) ≠ takeUpTo limit ((a :: l).filter q) := by
  intro h
  have hmem : a ∈ takeUpTo limit ((a :: l).filter p) := by
    rw [List.filter_cons_of_pos hp]
    cases limit with
    | none => exact List.mem_cons_self
    | some n =>
        cases n with
        | zero => exact absurd rfl hlimit
        | succ n => exact List.mem_cons_self
  have hsub : takeUpTo limit ((a :: l).filter q) ⊆ (a :: l).filter q := by
    cases limit with
    | none => exact List.Subset.refl _
    | some n => exact List.take_subset n _
  have hqa := (List.mem_filter.mp (hsub (h ▸ hmem))).2
  rw [hq] at hqa
  cases hqa

theorem takeUpTo_filter_eq_iff {limit : Option Nat} {p q : α → Bool} {l : List α} :
    takeUpTo limit (l.filter p) = takeUpTo limit (l.filter q) ↔ AgreeUpTo limit p q l := by
  induction l generalizing limit with
  | nil => exact iff_of_true rfl fun before a after h => by simp at h
  | cons a l ih =>
      by_cases hlimit : limit = some 0
      · subst hlimit
        exact iff_of_true rfl (agreeUpTo_zero p q _)
      obtain ⟨rest, hrest⟩ : ∃ rest : Option Nat, limit = rest.map (· + 1) := by
        cases limit with
        | none => exact ⟨none, rfl⟩
        | some n =>
            have hn : n ≠ 0 := fun h => hlimit (congrArg some h)
            exact ⟨some (n - 1), congrArg some (Nat.succ_pred hn).symm⟩
      have hdiffer : ∀ {b : Bool}, p a = b → q a = !b → ¬ AgreeUpTo limit p q (a :: l) := by
        intro b hp hq h
        rcases (agreeUpTo_cons.mp h).1 with heq | hzero
        · rw [hp, hq] at heq
          cases b <;> cases heq
        · exact hlimit hzero
      cases hp : p a with
      | false =>
          cases hq : q a with
          | false =>
              rw [agreeUpTo_cons_neither hp hq, List.filter_cons_of_neg (by simp [hp]),
                List.filter_cons_of_neg (by simp [hq]), ih]
          | true => exact iff_of_false (takeUpTo_cons_ne hq hp hlimit).symm (hdiffer hp hq)
      | true =>
          cases hq : q a with
          | false => exact iff_of_false (takeUpTo_cons_ne hp hq hlimit) (hdiffer hp hq)
          | true =>
              rw [hrest, agreeUpTo_cons_both hp hq, List.filter_cons_of_pos hp,
                List.filter_cons_of_pos hq, ← ih]
              cases rest with
              | none => simp [takeUpTo]
              | some n => simp [takeUpTo]

end StableSort
