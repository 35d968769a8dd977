import Mathlib.Algebra.BigOperators.Group.List.Basic
import Mathlib.Algebra.Module.Basic
import Mathlib.LinearAlgebra.LinearIndependent.Lemmas
import Mathlib.Tactic.Abel
import Mathlib.Tactic.Ring

/-! # Pedersen commitments and aggregate signatures

Over two generators of a module: sums of commitments, the balance of a
transaction in terms of its blinding factors, the sum of two partial
signatures made for the same challenge, and the proof that one knows the opening
of a commitment.
-/

namespace Pedersen

universe u v

variable {F : Type u} {E : Type v} [CommRing F] [AddCommGroup E] [Module F E]

/-- A commitment to a value with a blinding factor. -/
def commit (G H : E) (value : ℕ) (blind : F) : E := value • H + blind • G

theorem sum_commit (G H : E) (l : List (ℕ × F)) :
    (l.map fun p => commit G H p.1 p.2).sum
      = (l.map Prod.fst).sum • H + (l.map Prod.snd).sum • G := by
  induction l with
  | nil => simp
  | cons p l ih =>
      simp only [List.map_cons, List.sum_cons, ih, add_smul]
      unfold commit
      abel

/-- What a transaction whose values balance leaves over is a multiple of `G`. -/
theorem balance (G H : E) {outs ins : List (ℕ × F)} {fee : ℕ}
    (h : (ins.map Prod.fst).sum = (outs.map Prod.fst).sum + fee) :
    (outs.map fun p => commit G H p.1 p.2).sum - (ins.map fun p => commit G H p.1 p.2).sum
        + fee • H
      = ((outs.map Prod.snd).sum - (ins.map Prod.snd).sum) • G := by
  rw [sum_commit, sum_commit, h, add_smul, sub_smul]
  abel

/-- Two partial signatures for one challenge add up to one for the sums of nonces and keys. -/
theorem partial_signatures_add (G : E) (k₁ k₂ x₁ x₂ e : F) :
    (k₁ + e * x₁ + (k₂ + e * x₂)) • G = k₁ • G + k₂ • G + e • (x₁ • G + x₂ • G) := by
  have hsum : k₁ + e * x₁ + (k₂ + e * x₂) = k₁ + k₂ + e * (x₁ + x₂) := by ring
  rw [hsum, add_smul, add_smul, mul_smul, add_smul]

/-! ## Knowledge of an opening -/

/-- The responses to a challenge answer for the commitment and the nonces. -/
theorem responses_open (G H : E) (k₁ k₂ v r e : F) :
    (e * v + k₁) • H + (e * r + k₂) • G = e • (v • H + r • G) + (k₁ • H + k₂ • G) := by
  simp only [add_smul, mul_smul, smul_add]
  abel

section Independent

variable {F : Type u} {E : Type v} [Field F] [AddCommGroup E] [Module F E] {G H : E}

theorem opening_unique (h : LinearIndependent F ![H, G]) {v v' r r' : F}
    (heq : v • H + r • G = v' • H + r' • G) : v = v' ∧ r = r' := by
  have hzero : (v - v') • H + (r - r') • G = 0 := by
    rw [sub_smul, sub_smul, ← sub_eq_zero.mpr heq]
    abel
  obtain ⟨hv, hr⟩ := LinearIndependent.pair_iff.mp h _ _ hzero
  exact ⟨sub_eq_zero.mp hv, sub_eq_zero.mp hr⟩

theorem commit_ne_zero (h : LinearIndependent F ![H, G]) {v r : F} (hne : v ≠ 0 ∨ r ≠ 0) :
    v • H + r • G ≠ 0 := by
  intro hzero
  obtain ⟨hv, hr⟩ := LinearIndependent.pair_iff.mp h _ _ hzero
  rcases hne with hne | hne
  · exact hne hv
  · exact hne hr

/-- Two accepted answers for one nonce and different challenges open the commitment. -/
theorem opening_of_two_responses {C R : E} {s s' t t' e e' : F}
    (h : s • H + t • G = e • C + R) (h' : s' • H + t' • G = e' • C + R) (hne : e ≠ e') :
    C = ((s - s') / (e - e')) • H + ((t - t') / (e - e')) • G := by
  have hsub : e - e' ≠ 0 := sub_ne_zero.mpr hne
  have hdiff : (e - e') • C = (s - s') • H + (t - t') • G := by
    rw [sub_smul, sub_smul, sub_smul, eq_sub_of_add_eq h.symm, eq_sub_of_add_eq h'.symm]
    abel
  calc C = (e - e')⁻¹ • ((e - e') • C) := by rw [smul_smul, inv_mul_cancel₀ hsub, one_smul]
    _ = ((s - s') / (e - e')) • H + ((t - t') / (e - e')) • G := by
      rw [hdiff, smul_add, smul_smul, smul_smul, div_eq_inv_mul, div_eq_inv_mul]

end Independent

end Pedersen
