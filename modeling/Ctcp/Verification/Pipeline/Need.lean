import Ctcp.Model.Transmit
import Mathlib.Algebra.Order.Field.Rat
import Mathlib.Tactic.Linarith
import Mathlib.Tactic.Positivity

/-! # How many packets `send_segs` asks for -/

namespace Ctcp

variable {win request : ℤ} {p mean : ℚ}

/-! ## The loop -/

/-- The condition of the loop that counts `dof_needed` up, at `n`. -/
def Wanted (win : ℤ) (p mean : ℚ) (request : ℤ) (n : ℕ) : Prop :=
  (n : ℤ) < win ∧ n * (1 - p) + mean < request

theorem needLoop_succ (fuel need : ℕ) (h : Wanted win p mean request need) :
    needLoop win p mean request (fuel + 1) need = needLoop win p mean request fuel (need + 1) :=
  if_pos h

theorem needLoop_stop (fuel need : ℕ) (h : ¬Wanted win p mean request need) :
    needLoop win p mean request fuel need = need := by
  cases fuel with
  | zero => rfl
  | succ fuel => exact if_neg h

/-- The loop does not pass a count at which its condition fails. -/
theorem needLoop_le {n : ℕ} (hstop : ¬Wanted win p mean request n) (fuel need : ℕ)
    (hle : need ≤ n) : needLoop win p mean request fuel need ≤ n := by
  induction fuel generalizing need with
  | zero => exact hle
  | succ fuel ih =>
      by_cases hgo : Wanted win p mean request need
      · rw [needLoop_succ fuel need hgo]
        apply ih
        have hne : need ≠ n := fun he => hstop (he ▸ hgo)
        omega
      · rw [needLoop_stop _ _ hgo]
        exact hle

/-- It passes those at which the condition holds. -/
theorem le_needLoop {n : ℕ} (fuel need : ℕ) (hfuel : n ≤ need + fuel)
    (hgo : ∀ k, need ≤ k → k < n → Wanted win p mean request k) :
    n ≤ needLoop win p mean request fuel need := by
  induction fuel generalizing need with
  | zero => exact hfuel
  | succ fuel ih =>
      by_cases hlt : need < n
      · rw [needLoop_succ fuel need (hgo need le_rfl hlt)]
        apply ih
        · omega
        · intro k hk hkn
          exact hgo k (by omega) hkn
      · have hmono : need ≤ needLoop win p mean request (fuel + 1) need := by
          clear ih hfuel hgo hlt
          generalize fuel + 1 = m
          induction m generalizing need with
          | zero => exact le_rfl
          | succ m ih =>
              by_cases hw : Wanted win p mean request need
              · rw [needLoop_succ m need hw]
                exact (Nat.le_succ need).trans (ih (need + 1))
              · rw [needLoop_stop _ _ hw]
        omega

/-! ## The rates -/

theorem lossRate_le_one (sk : Server) (j : ℕ) : lossRate sk j ≤ 1 := min_le_left _ _

theorem meanOnFly_nonneg (sk : Server) (currOnFly : ℕ → ℕ) : 0 ≤ meanOnFly sk currOnFly := by
  have hfold : ∀ (js : List ℕ) (mean : ℚ), 0 ≤ mean →
      0 ≤ js.foldl (fun mean j => mean + (1 - lossRate sk j) * currOnFly j) mean := by
    intro js
    induction js with
    | nil => exact fun _ h => h
    | cons j js ih =>
        intro mean hmean
        apply ih
        have hrate : 0 ≤ 1 - lossRate sk j := sub_nonneg.mpr (lossRate_le_one sk j)
        positivity
  exact hfold _ 0 le_rfl

/-! ## The count -/

variable {sk : Server} {l : SegsLoop}

theorem dofNeeded_le {n : ℕ}
    (h : l.win ≤ n ∨ dofRequestTmp sk l.blockno ≤
      n * (1 - lossRate sk l.pin) + meanOnFly sk l.currOnFly) : dofNeeded sk l ≤ n := by
  apply needLoop_le _ _ _ n.zero_le
  rintro ⟨hwin, hwant⟩
  rcases h with hle | hle
  · omega
  · exact absurd hle (not_le.mpr hwant)

/-- Nothing is needed when what is in flight covers the request. -/
theorem dofNeeded_eq_zero (h : dofRequestTmp sk l.blockno ≤ meanOnFly sk l.currOnFly) :
    dofNeeded sk l = 0 := by
  apply Nat.eq_zero_of_le_zero
  apply dofNeeded_le
  simpa using Or.inr h

theorem dofRequestTmp_pos (h : 0 < dofNeeded sk l) : 0 < dofRequestTmp sk l.blockno := by
  by_contra hle
  have hmean := meanOnFly_nonneg sk l.currOnFly
  have hcast : (dofRequestTmp sk l.blockno : ℚ) ≤ 0 := by exact_mod_cast Int.not_lt.mp hle
  rw [dofNeeded_eq_zero (hcast.trans hmean)] at h
  exact h.false

theorem le_dofNeeded {n : ℕ} (hwin : n ≤ l.win)
    (hwant : ∀ k < n, k * (1 - lossRate sk l.pin) + meanOnFly sk l.currOnFly <
      dofRequestTmp sk l.blockno) : n ≤ dofNeeded sk l := by
  apply le_needLoop
  · omega
  · intro k _ hk
    exact ⟨by omega, hwant k hk⟩

end Ctcp
