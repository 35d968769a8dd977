import Mathlib.Algebra.GroupWithZero.Nat
import Mathlib.Algebra.Order.BigOperators.Group.List
import Mathlib.Algebra.Order.Group.Nat
import Mathlib.Data.List.Perm.Subperm

/-! # Paying with the smallest items first

Items stand in ascending order of a value. The shortest prefix that reaches a
target has `reach` items; no choice of as few items is worth less than the prefix
of that length, so whatever falls short of a target has fewer items than the
prefix that reaches it. Runs of a fixed length gain value from left to right.
-/

namespace SmallestFirst

universe u

variable {α : Type u} (v : α → Nat)

/-- The value of the items together. -/
def total (l : List α) : Nat := (l.map v).sum

def Ascending (l : List α) : Prop := l.Pairwise fun a b => v a ≤ v b

/-- How many items from the front it takes to reach the target. -/
def reach (target : Nat) : List α → Nat
  | [] => 0
  | a :: l => if target = 0 then 0 else reach (target - v a) l + 1

/-- The run of `m` items from the `i`-th on. -/
def run (m i : Nat) (l : List α) : List α := (l.drop i).take m

variable {v}

@[simp] theorem total_nil : total v ([] : List α) = 0 := rfl

@[simp] theorem total_cons (a : α) (l : List α) : total v (a :: l) = v a + total v l := by
  simp [total]

@[simp] theorem total_append (l l' : List α) : total v (l ++ l') = total v l + total v l' := by
  simp [total]

theorem total_sublist {l l' : List α} (h : l.Sublist l') : total v l ≤ total v l' :=
  (h.map v).sum_le_sum fun _ _ => Nat.zero_le _

theorem total_perm {l l' : List α} (h : l.Perm l') : total v l = total v l' := (h.map v).sum_eq

theorem total_subperm {l l' : List α} (h : l.Subperm l') : total v l ≤ total v l' := by
  obtain ⟨l₁, hperm, hsub⟩ := h
  rw [← total_perm hperm]
  exact total_sublist hsub

/-- What is left out is worth a bound for each item of it. -/
theorem total_sublist_add {c l : List α} (h : c.Sublist l) {b : Nat} (hb : ∀ a ∈ l, b ≤ v a) :
    total v c + b * (l.length - c.length) ≤ total v l := by
  induction h with
  | slnil => simp
  | @cons c l a hsub ih =>
      have htail := ih fun x hx => hb x (List.mem_cons_of_mem a hx)
      have hhead := hb a List.mem_cons_self
      have hlen := hsub.length_le
      rw [List.length_cons, total_cons, show l.length + 1 - c.length = l.length - c.length + 1 by omega,
        Nat.mul_succ]
      omega
  | @cons_cons c l a hsub ih =>
      have htail := ih fun x hx => hb x (List.mem_cons_of_mem a hx)
      rw [List.length_cons, List.length_cons, total_cons, total_cons, Nat.add_sub_add_right]
      omega

theorem total_subperm_add {c l : List α} (h : c.Subperm l) {b : Nat} (hb : ∀ a ∈ l, b ≤ v a) :
    total v c + b * (l.length - c.length) ≤ total v l := by
  obtain ⟨c', hperm, hsub⟩ := h
  rw [← total_perm hperm, ← hperm.length_eq]
  exact total_sublist_add hsub hb

theorem total_take_le (k : Nat) (l : List α) : total v (l.take k) ≤ total v l :=
  total_sublist (List.take_sublist k l)

theorem total_take_mono {j k : Nat} (h : j ≤ k) (l : List α) :
    total v (l.take j) ≤ total v (l.take k) :=
  total_sublist ((List.take_prefix_take_left h).sublist)

/-! ## The shortest prefix -/

theorem reach_le_length (target : Nat) (l : List α) : reach v target l ≤ l.length := by
  induction l generalizing target with
  | nil => simp [reach]
  | cons a l ih =>
      unfold reach
      split
      · omega
      · have htail := ih (target - v a)
        simp only [List.length_cons]
        omega

/-- The prefix of `k` items is long enough exactly when it is worth the target. -/
theorem reach_le_iff {target : Nat} {l : List α} (h : target ≤ total v l) (k : Nat) :
    reach v target l ≤ k ↔ target ≤ total v (l.take k) := by
  induction l generalizing target k with
  | nil =>
      simp only [total_nil, List.take_nil] at h ⊢
      simp [reach, h]
  | cons a l ih =>
      unfold reach
      by_cases hzero : target = 0
      · simp [hzero]
      · rw [if_neg hzero]
        cases k with
        | zero =>
            simp only [List.take_zero, total_nil]
            omega
        | succ k =>
            rw [total_cons] at h
            have htail := @ih (target - v a) (by omega) k
            rw [List.take_succ_cons, total_cons]
            omega

theorem le_total_reach {target : Nat} {l : List α} (h : target ≤ total v l) :
    target ≤ total v (l.take (reach v target l)) := (reach_le_iff h _).mp (le_refl _)

/-! ## The front is the cheapest -/

theorem Ascending.of_cons {a : α} {l : List α} (h : Ascending v (a :: l)) : Ascending v l :=
  (List.pairwise_cons.mp h).2

theorem Ascending.head_le {a b : α} {l : List α} (h : Ascending v (a :: l)) (hb : b ∈ l) :
    v a ≤ v b := (List.pairwise_cons.mp h).1 b hb

/-- One more item at the front makes the first `k` items no dearer. -/
theorem Ascending.total_take_cons_le {a : α} {l : List α} (h : Ascending v (a :: l)) {k : Nat}
    (hk : k ≤ l.length) : total v ((a :: l).take k) ≤ total v (l.take k) := by
  induction k generalizing a l with
  | zero => simp
  | succ k ih =>
      cases l with
      | nil => simp at hk
      | cons b l =>
          have hab := h.head_le (List.mem_cons_self (a := b))
          have htail := ih h.of_cons (by simpa using hk)
          rw [List.take_succ_cons, List.take_succ_cons, total_cons, total_cons]
          omega

theorem Ascending.total_take_le_of_sublist {c l : List α} (h : Ascending v l)
    (hsub : c.Sublist l) : total v (l.take c.length) ≤ total v c := by
  induction hsub with
  | slnil => simp
  | cons a hsub ih =>
      exact le_trans (h.total_take_cons_le hsub.length_le) (ih h.of_cons)
  | cons_cons a hsub ih =>
      have htail := ih h.of_cons
      rw [List.length_cons, List.take_succ_cons, total_cons, total_cons]
      omega

/-- No choice of items is worth less than as many items from the front. -/
theorem Ascending.total_take_le_of_subperm {c l : List α} (h : Ascending v l)
    (hsub : c.Subperm l) : total v (l.take c.length) ≤ total v c := by
  obtain ⟨c', hperm, hsub'⟩ := hsub
  have hle := h.total_take_le_of_sublist hsub'
  rwa [hperm.length_eq, total_perm hperm] at hle

/-- A choice that falls short has fewer items than the prefix that does not. -/
theorem Ascending.length_lt_reach {c l : List α} (h : Ascending v l) (hsub : c.Subperm l)
    {target : Nat} (hshort : total v c < target) (htarget : target ≤ total v l) :
    c.length < reach v target l := by
  have hprefix := h.total_take_le_of_subperm hsub
  have hiff := reach_le_iff htarget c.length
  omega

/-! ## Runs -/

theorem run_sublist (m i : Nat) (l : List α) : (run m i l).Sublist l :=
  (List.take_sublist _ _).trans (List.drop_sublist _ _)

theorem run_length {m i : Nat} {l : List α} (h : i + m ≤ l.length) : (run m i l).length = m := by
  simp only [run, List.length_take, List.length_drop]
  omega

theorem Ascending.total_run_succ {l : List α} (h : Ascending v l) {m i : Nat}
    (hi : i + 1 + m ≤ l.length) : total v (run m i l) ≤ total v (run m (i + 1) l) := by
  unfold run
  have hlt : i < l.length := by omega
  rw [List.drop_eq_getElem_cons hlt]
  have htail : Ascending v (l[i] :: l.drop (i + 1)) := by
    rw [← List.drop_eq_getElem_cons hlt]
    exact h.sublist (List.drop_sublist i l)
  exact htail.total_take_cons_le (by rw [List.length_drop]; omega)

/-- A run further to the right is worth at least as much. -/
theorem Ascending.total_run_mono {l : List α} (h : Ascending v l) {m i j : Nat} (hij : i ≤ j)
    (hj : j + m ≤ l.length) : total v (run m i l) ≤ total v (run m j l) := by
  induction hij with
  | refl => exact le_refl _
  | step hle ih => exact le_trans (ih (by omega)) (h.total_run_succ (by omega))

end SmallestFirst
