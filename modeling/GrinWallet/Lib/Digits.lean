import Mathlib.Data.List.TakeWhile
import Mathlib.Data.Nat.Digits.Lemmas

/-! # Strings of digits in two bases

A string of digits is read as a number and written in another base, its leading
zeros kept one by one: the conversion of `base58` and of the encodings like it.
Converting there and back is the identity.
-/

namespace Digits

/-- The number a string of digits spells, the highest digit first. -/
def value (b : Nat) (l : List Nat) : Nat := Nat.ofDigits b l.reverse

def leadingZeros (l : List Nat) : Nat := (l.takeWhile (· = 0)).length

/-- The same number in another base, behind the same leading zeros. -/
def convert (b c : Nat) (l : List Nat) : List Nat :=
  List.replicate (leadingZeros l) 0 ++ (Nat.digits c (value b l)).reverse

theorem leadingZeros_replicate_append (z : Nat) {l : List Nat} (h : ∀ d ∈ l.head?, d ≠ 0) :
    leadingZeros (List.replicate z 0 ++ l) = z := by
  unfold leadingZeros
  rw [List.takeWhile_append_of_pos (by simp)]
  cases l with
  | nil => simp
  | cons d l =>
      have hd : d ≠ 0 := h d rfl
      simp [hd]

/-- A string of digits is its leading zeros and a string without any. -/
theorem exists_eq_replicate_append (l : List Nat) :
    ∃ m, l = List.replicate (leadingZeros l) 0 ++ m ∧ ∀ d ∈ m.head?, d ≠ 0 := by
  refine ⟨l.dropWhile (· = 0), ?_, ?_⟩
  · have hzeros : l.takeWhile (· = 0) = List.replicate (leadingZeros l) 0 := by
      apply List.eq_replicate_of_mem
      intro d hd
      simpa using List.mem_takeWhile_imp hd
    rw [← hzeros, List.takeWhile_append_dropWhile]
  · intro d hd
    cases hm : l.dropWhile (· = 0) with
    | nil => simp [hm] at hd
    | cons e m =>
        have he := List.head_dropWhile_not (· = 0) (by simp [hm] : l.dropWhile (· = 0) ≠ [])
        simp only [hm, List.head?_cons, List.head_cons, Option.mem_def, Option.some.injEq] at hd he
        simpa [← hd] using he

theorem value_replicate_append (b z : Nat) (l : List Nat) :
    value b (List.replicate z 0 ++ l) = value b l := by
  unfold value
  rw [List.reverse_append, List.reverse_replicate, Nat.ofDigits_append_replicate_zero]

/-- The digits of the number a string without leading zeros spells. -/
theorem digits_value {b : Nat} (hb : 1 < b) {l : List Nat} (hlt : ∀ d ∈ l, d < b)
    (hhead : ∀ d ∈ l.head?, d ≠ 0) : (Nat.digits b (value b l)).reverse = l := by
  unfold value
  rw [Nat.digits_ofDigits b hb l.reverse (by simpa using hlt), List.reverse_reverse]
  intro hne
  rw [List.getLast_reverse]
  apply hhead
  exact List.head_mem_head? _

theorem digits_head_ne_zero (c v : Nat) : ∀ d ∈ (Nat.digits c v).reverse.head?, d ≠ 0 := by
  intro d hd
  rw [List.head?_reverse] at hd
  have hne : Nat.digits c v ≠ [] := by
    intro hnil
    rw [hnil] at hd
    cases hd
  have hv : v ≠ 0 := by
    intro hzero
    subst hzero
    exact hne (Nat.digits_zero c)
  rw [List.getLast?_eq_some_getLast hne] at hd
  cases hd
  exact Nat.getLast_digit_ne_zero c hv

theorem convert_lt {b c : Nat} (hc : 1 < c) {l : List Nat} : ∀ d ∈ convert b c l, d < c := by
  intro d hd
  unfold convert at hd
  rcases List.mem_append.mp hd with hd | hd
  · have := List.eq_of_mem_replicate hd
    omega
  · exact Nat.digits_lt_base hc (List.mem_reverse.mp hd)

/-- Converting to another base and back. -/
theorem convert_convert {b c : Nat} (hb : 1 < b) {l : List Nat} (hlt : ∀ d ∈ l, d < b) :
    convert c b (convert b c l) = l := by
  have hzeros : leadingZeros (convert b c l) = leadingZeros l :=
    leadingZeros_replicate_append _ (digits_head_ne_zero c _)
  have hvalue : value c (convert b c l) = value b l := by
    unfold convert
    rw [value_replicate_append, value, List.reverse_reverse, Nat.ofDigits_digits]
  obtain ⟨m, hm, hhead⟩ := exists_eq_replicate_append l
  have hmvalue : value b l = value b m := by
    conv_lhs => rw [hm]
    exact value_replicate_append b _ m
  have hmlt : ∀ d ∈ m, d < b := by
    intro d hd
    apply hlt
    rw [hm]
    exact List.mem_append_right _ hd
  unfold convert at hzeros hvalue ⊢
  rw [hzeros, hvalue, hmvalue, digits_value hb hmlt hhead, ← hm]

/-! ## Lengths -/

theorem length_convert (b c : Nat) (l : List Nat) :
    (convert b c l).length = leadingZeros l + (Nat.digits c (value b l)).length := by
  simp [convert]

/-- The value of a string without leading zeros fills its length. -/
theorem pow_le_value {b : Nat} {l : List Nat} (hhead : ∀ d ∈ l.head?, d ≠ 0) (hne : l ≠ []) :
    b ^ (l.length - 1) ≤ value b l := by
  cases l with
  | nil => exact (hne rfl).elim
  | cons d l =>
      have hd : 1 ≤ d := Nat.one_le_iff_ne_zero.mpr (hhead d rfl)
      have hmul := Nat.mul_le_mul_left (b ^ l.length) hd
      unfold value
      rw [List.reverse_cons, Nat.ofDigits_append, Nat.ofDigits_singleton, List.length_reverse,
        List.length_cons, Nat.add_sub_cancel]
      omega

/-- Writing a string in a smaller base does not shorten it. -/
theorem length_le_convert {b c : Nat} (hc : 1 < c) (hcb : c ≤ b) (l : List Nat) :
    l.length ≤ (convert b c l).length := by
  obtain ⟨m, hm, hhead⟩ := exists_eq_replicate_append l
  have hvalue : value b l = value b m := by
    conv_lhs => rw [hm]
    exact value_replicate_append b _ m
  have hlen : l.length = leadingZeros l + m.length := by
    conv_lhs => rw [hm]
    rw [List.length_append, List.length_replicate]
  rw [length_convert, hlen, hvalue]
  apply Nat.add_le_add_left
  by_cases hne : m = []
  · rw [hne]
    exact Nat.zero_le _
  · have hpow : c ^ (m.length - 1) ≤ value b m :=
      Nat.le_trans (Nat.pow_le_pow_left hcb _) (pow_le_value hhead hne)
    have hlt := (Nat.lt_digits_length_iff hc (value b m)).mpr hpow
    omega

/-- A string is no longer in another base than a string of digits of the first
takes there, its leading zeros counted one by one. -/
theorem length_convert_le {b c : Nat} (hb : 1 < b) (hc : 1 < c) {l : List Nat} (hlt : ∀ d ∈ l, d < b)
    {size : Nat → Nat} (hsize : ∀ n, b ^ n ≤ c ^ size n)
    (hzeros : ∀ z n, z + size n ≤ size (z + n)) :
    (convert b c l).length ≤ size l.length := by
  obtain ⟨m, hm, -⟩ := exists_eq_replicate_append l
  have hvalue : value b l = value b m := by
    conv_lhs => rw [hm]
    exact value_replicate_append b _ m
  have hlen : l.length = leadingZeros l + m.length := by
    conv_lhs => rw [hm]
    rw [List.length_append, List.length_replicate]
  have hmlt : ∀ d ∈ m.reverse, d < b := by
    intro d hd
    apply hlt
    rw [hm]
    exact List.mem_append_right _ (List.mem_reverse.mp hd)
  have hbound : value b m < c ^ size m.length := by
    have hdigits := Nat.ofDigits_lt_base_pow_length hb hmlt
    rw [List.length_reverse] at hdigits
    exact Nat.lt_of_lt_of_le hdigits (hsize m.length)
  rw [length_convert, hlen, hvalue]
  refine Nat.le_trans (Nat.add_le_add_left ?_ _) (hzeros _ _)
  exact (Nat.digits_length_le_iff hc _).mpr hbound

end Digits
