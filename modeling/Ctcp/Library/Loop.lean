import Mathlib.Data.Nat.Count
import Mathlib.Tactic.Common

/-! # Loops that read a stream

A `do … while` loop: the body comes before the test, and each round reads one input. -/

namespace Ctcp

/-- The body of a loop and its test. -/
structure Loop (σ ι : Type*) where
  body : σ → ι → σ
  goesOn : σ → Bool

namespace Loop

variable {σ ι : Type*}

/-- The state in which the loop is left, when `n` rounds are enough. -/
def run (l : Loop σ ι) : ℕ → σ → (ℕ → ι) → Option σ
  | 0, _, _ => none
  | n + 1, s, inputs =>
    if l.goesOn (l.body s (inputs 0)) then
      l.run n (l.body s (inputs 0)) fun i => inputs (i + 1)
    else some (l.body s (inputs 0))

/-- The state after so many rounds of a loop that nothing stops. -/
def after (l : Loop σ ι) (s : σ) (inputs : ℕ → ι) : ℕ → σ
  | 0 => s
  | k + 1 => l.body (l.after s inputs k) (inputs k)

variable {l : Loop σ ι} {s s' : σ} {inputs : ℕ → ι}

theorem after_succ' (k : ℕ) : l.after s inputs (k + 1) =
    l.after (l.body s (inputs 0)) (fun i => inputs (i + 1)) k := by
  induction k with
  | zero => rfl
  | succ k ih => exact congrArg (l.body · (inputs (k + 1))) ih

/-- A loop is left after the first round whose test fails. -/
theorem run_eq_some {n : ℕ} (h : l.run n s inputs = some s') :
    ∃ k < n, s' = l.after s inputs (k + 1) ∧ l.goesOn s' = false := by
  induction n generalizing s inputs with
  | zero => cases h
  | succ n ih =>
      rw [run] at h
      split at h
      · obtain ⟨k, hk, hs', htest⟩ := ih h
        exact ⟨k + 1, Nat.succ_lt_succ hk, hs'.trans (after_succ' (k + 1)).symm, htest⟩
      next htest =>
        cases h
        exact ⟨0, Nat.succ_pos n, rfl, by simpa using htest⟩

theorem run_isSome_iff {n : ℕ} : (l.run n s inputs).isSome ↔
    ∃ k < n, l.goesOn (l.after s inputs (k + 1)) = false := by
  induction n generalizing s inputs with
  | zero => simp [run]
  | succ n ih =>
      rw [run]
      split
      next htest =>
        rw [ih]
        constructor
        · rintro ⟨k, hk, hend⟩
          exact ⟨k + 1, Nat.succ_lt_succ hk, by rwa [after_succ']⟩
        · rintro ⟨k, hk, hend⟩
          cases k with
          | zero => exact absurd htest (by simpa [after] using hend)
          | succ k => exact ⟨k, Nat.lt_of_succ_lt_succ hk, by rwa [after_succ'] at hend⟩
      next htest =>
        simp only [Option.isSome_some, true_iff]
        exact ⟨0, Nat.succ_pos n, by simpa [after] using htest⟩

/-- The rule for a loop that is left after a winning input, or after `max` inputs that
count as a try. -/
theorem run_isSome_iff_of_retry (I won : σ → Prop) (tries : σ → ℕ) (wins : ι → Prop)
    (counts : ι → Bool) {max : ℕ} (hinit : I s) (hbody : ∀ t i, I t → I (l.body t i))
    (hgoes : ∀ t, l.goesOn t = false ↔ won t ∨ max ≤ tries t)
    (hwon : ∀ t i, I t → (won (l.body t i) ↔ won t ∨ wins i))
    (htries : ∀ t i, I t → tries (l.body t i) = tries t + if counts i then 1 else 0)
    (hs : ¬won s) (hzero : tries s = 0) (n : ℕ) :
    (l.run n s inputs).isSome ↔ ∃ k < n, wins (inputs k) ∨
      max ≤ Nat.count (fun i => counts (inputs i) = true) (k + 1) := by
  have hafter (k : ℕ) : I (l.after s inputs k) ∧
      (won (l.after s inputs k) ↔ ∃ j < k, wins (inputs j)) ∧
        tries (l.after s inputs k) = Nat.count (fun i => counts (inputs i) = true) k := by
    induction k with
    | zero => exact ⟨hinit, by simpa [after] using hs, by simpa [after] using hzero⟩
    | succ k ih =>
        obtain ⟨hI, hw, hc⟩ := ih
        refine ⟨hbody _ _ hI, ?_, ?_⟩
        · rw [after, hwon _ _ hI, hw, Nat.exists_lt_succ_right]
        · rw [after, htries _ _ hI, hc, Nat.count_succ]
  rw [run_isSome_iff]
  constructor
  · rintro ⟨k, hk, hend⟩
    rw [hgoes, (hafter (k + 1)).2.1, (hafter (k + 1)).2.2] at hend
    rcases hend with ⟨j, hj, hwins⟩ | hmax
    · exact ⟨j, by omega, .inl hwins⟩
    · exact ⟨k, hk, .inr hmax⟩
  · rintro ⟨k, hk, hend⟩
    refine ⟨k, hk, ?_⟩
    rw [hgoes, (hafter (k + 1)).2.1, (hafter (k + 1)).2.2]
    exact hend.imp_left fun hwins => ⟨k, Nat.lt_succ_self k, hwins⟩

end Loop

end Ctcp
