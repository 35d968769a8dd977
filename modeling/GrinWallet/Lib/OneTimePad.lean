import Mathlib.GroupTheory.GroupAction.Basic
import Mathlib.Probability.Distributions.Uniform

/-! # Masking with a uniform pad

A finite group of pads acts on records; publishing a record masked with a
uniform pad publishes a distribution. Two records give the same distribution
exactly when one is the other under some pad, so a field the pads leave fixed is
public.
-/

namespace OneTimePad

universe u v

variable {K : Type u} {α : Type v} [Group K] [Fintype K] [MulAction K α]

/-- The distribution of a record masked with a uniform pad. -/
noncomputable def masked (K : Type u) {α : Type v} [Group K] [Fintype K] [MulAction K α] (a : α) :
    PMF α :=
  (PMF.uniformOfFintype K).map fun k => k • a

theorem mem_support_masked {a b : α} :
    b ∈ (masked K a).support ↔ b ∈ MulAction.orbit K a := by
  rw [masked, PMF.mem_support_map_iff]
  constructor
  · intro h
    obtain ⟨k, -, hk⟩ := h
    exact ⟨k, hk⟩
  · intro h
    obtain ⟨k, hk⟩ := h
    exact ⟨k, PMF.mem_support_uniformOfFintype k, hk⟩

/-- Shifting a uniform pad leaves it uniform. -/
theorem map_mul_right_uniform (g : K) :
    (PMF.uniformOfFintype K).map (fun k => k * g) = PMF.uniformOfFintype K := by
  ext x
  rw [PMF.map_apply, tsum_eq_single (x * g⁻¹)]
  · simp
  · intro k hk
    have hne : x ≠ k * g := by
      intro h
      exact hk (by rw [h, mul_inv_cancel_right])
    simp [hne]

theorem masked_smul (g : K) (a : α) : masked K (g • a) = masked K a := by
  have hcomp : (fun k : K => k • g • a) = (fun k : K => k • a) ∘ fun k => k * g := by
    funext k
    simp [mul_smul]
  rw [masked, hcomp, ← PMF.map_comp, map_mul_right_uniform]
  rfl

/-- Two records are indistinguishable behind a uniform pad exactly when a pad
takes one to the other. -/
theorem masked_eq_iff {a b : α} : masked K a = masked K b ↔ ∃ k : K, k • a = b := by
  constructor
  · intro h
    have hb : b ∈ (masked K b).support := mem_support_masked.mpr (MulAction.mem_orbit_self b)
    rw [← h, mem_support_masked] at hb
    exact hb
  · intro h
    obtain ⟨k, rfl⟩ := h
    exact (masked_smul k a).symm

/-- What the pads leave fixed can be read off the distribution. -/
theorem eq_of_masked_eq {β : Type*} {f : α → β} (hf : ∀ (k : K) (a : α), f (k • a) = f a)
    {a b : α} (h : masked K a = masked K b) : f a = f b := by
  obtain ⟨k, rfl⟩ := masked_eq_iff.mp h
  exact (hf k a).symm

end OneTimePad
