import Mathlib.Algebra.Order.Field.Basic
import Mathlib.Data.List.Forall2
import Mathlib.Tactic.Linarith
import Mathlib.Tactic.Positivity
import Mathlib.Tactic.Ring

/-! # Exponential smoothing -/

namespace Ctcp

variable {K : Type*} [Field K]

/-- The smoothed value of samples, the last one first, that starts at `x`; a new sample has
weight `w`. -/
def smooth (w x : K) : List K → K
  | [] => x
  | r :: rs => (1 - w) * smooth w x rs + w * r

theorem smooth_cons (w x r : K) (rs : List K) :
    smooth w x (r :: rs) = (1 - w) * smooth w x rs + w * r := rfl

/-- The same sample `k` times. -/
theorem smooth_replicate (w x r : K) (rs : List K) (k : ℕ) :
    smooth w x (List.replicate k r ++ rs) =
      (1 - w) ^ k * smooth w x rs + (1 - (1 - w) ^ k) * r := by
  induction k with
  | zero => simp
  | succ k ih =>
      rw [List.replicate_succ, List.cons_append, smooth_cons, ih, pow_succ]
      ring

/-- The average of equal samples. -/
theorem smooth_const (w b : K) (rs : List K) : smooth w b (rs.map fun _ => b) = b := by
  rw [List.map_const', ← List.append_nil (List.replicate _ b), smooth_replicate, smooth]
  ring

/-- A new sample `k` times, one after the other. -/
theorem iterate_smooth (w x r : K) (rs : List K) (k : ℕ) :
    (fun y => (1 - w) * y + w * r)^[k] (smooth w x rs) =
      smooth w x (List.replicate k r ++ rs) := by
  induction k with
  | zero => rfl
  | succ k ih =>
      rw [Function.iterate_succ_apply', ih, List.replicate_succ, List.cons_append, smooth_cons]

section Bounds

variable [LinearOrder K] [IsStrictOrderedRing K] {w x b r : K} {rs : List K}

theorem smooth_mono (h₀ : 0 ≤ w) (h₁ : w ≤ 1) {y : K} {ss : List K} (hx : x ≤ y)
    (hrs : List.Forall₂ (· ≤ ·) rs ss) : smooth w x rs ≤ smooth w y ss := by
  induction hrs with
  | nil => exact hx
  | cons hr _ ih =>
      rw [smooth_cons, smooth_cons]
      have hold := mul_le_mul_of_nonneg_left ih (sub_nonneg.mpr h₁)
      have hnew := mul_le_mul_of_nonneg_left hr h₀
      exact add_le_add hold hnew

/-- A bound of the start and of all samples is one of their average. -/
theorem le_smooth (h₀ : 0 ≤ w) (h₁ : w ≤ 1) (hx : b ≤ x) (hrs : ∀ r ∈ rs, b ≤ r) :
    b ≤ smooth w x rs := by
  have hbound : List.Forall₂ (· ≤ ·) (rs.map fun _ => b) rs :=
    List.forall₂_map_left_iff.mpr (List.forall₂_same.mpr hrs)
  have hle := smooth_mono h₀ h₁ hx hbound
  rwa [smooth_const] at hle

theorem smooth_le (h₀ : 0 ≤ w) (h₁ : w ≤ 1) (hx : x ≤ b) (hrs : ∀ r ∈ rs, r ≤ b) :
    smooth w x rs ≤ b := by
  have hbound : List.Forall₂ (· ≤ ·) rs (rs.map fun _ => b) :=
    List.forall₂_map_right_iff.mpr (List.forall₂_same.mpr hrs)
  have hle := smooth_mono h₀ h₁ hx hbound
  rwa [smooth_const] at hle

theorem smooth_pos (h₀ : 0 ≤ w) (h₁ : w ≤ 1) (hx : 0 < x) (hrs : ∀ r ∈ rs, 0 < r) :
    0 < smooth w x rs := by
  induction rs with
  | nil => exact hx
  | cons r rs ih =>
      obtain ⟨hr, hrest⟩ := List.forall_mem_cons.mp hrs
      rw [smooth_cons]
      rcases h₀.eq_or_lt with rfl | hw
      · simpa using ih hrest
      · have hold := mul_nonneg (sub_nonneg.mpr h₁) (ih hrest).le
        have hnew := mul_pos hw hr
        linarith

/-- The last sample alone is worth its weight. -/
theorem mul_le_smooth_cons (h₁ : w ≤ 1) (hold : 0 ≤ smooth w x rs) :
    w * r ≤ smooth w x (r :: rs) := by
  rw [smooth_cons]
  exact le_add_of_nonneg_left (mul_nonneg (sub_nonneg.mpr h₁) hold)

end Bounds

end Ctcp
