import Ctcp.Verification.Pipeline.Need
import Mathlib.Tactic.NormNum

/-! # What `send_segs` plans for a block

The plan is the least number of packets whose expectation reaches the request, as far as
the window allows. The loop computes it from the packets that it takes for counted. -/

namespace Ctcp

variable {w request : ℤ} {p mean mean' : ℚ} {n : ℕ}

/-- `n` is the least count with `n * (1 - p) + mean ≥ request`, or the window `w`. -/
structure Plans (w : ℤ) (p mean : ℚ) (request : ℤ) (n : ℕ) : Prop where
  le_win : (n : ℤ) ≤ w
  least : ∀ m < n, m * (1 - p) + mean < request
  reached : (n : ℤ) = w ∨ request ≤ n * (1 - p) + mean

/-- With a rate of one at most, a count that falls short makes all smaller ones fall short. -/
theorem short_of_le (hp : p ≤ 1) {m n : ℕ} (hmn : m ≤ n)
    (hn : n * (1 - p) + mean < request) : m * (1 - p) + mean < request := by
  have hcast : (m : ℚ) ≤ n := by exact_mod_cast hmn
  have hmul := mul_le_mul_of_nonneg_right hcast (sub_nonneg.mpr hp)
  linarith

theorem Plans.unique {n' : ℕ} (h : Plans w p mean request n) (h' : Plans w p mean request n') :
    n = n' := by
  rcases lt_trichotomy n n' with hlt | heq | hgt
  · rcases h.reached with hwin | hreached
    · have hle := h'.le_win
      omega
    · exact absurd (h'.least n hlt) (not_lt.mpr hreached)
  · exact heq
  · rcases h'.reached with hwin | hreached
    · have hle := h.le_win
      omega
    · exact absurd (h.least n' hgt) (not_lt.mpr hreached)

theorem plans_needLoop (hw : 0 ≤ w) (hp : p ≤ 1) :
    Plans w p mean request (needLoop w p mean request w.toNat 0) := by
  obtain ⟨k, rfl⟩ := Int.eq_ofNat_of_zero_le hw
  rw [Int.toNat_natCast]
  have hle : needLoop k p mean request k 0 ≤ k :=
    needLoop_le (fun hwanted => absurd hwanted.1 (lt_irrefl _)) _ _ k.zero_le
  have hstop : ¬Wanted k p mean request (needLoop k p mean request k 0) := by
    intro hwanted
    have hpass : needLoop k p mean request k 0 + 1 ≤ needLoop k p mean request k 0 := by
      refine le_needLoop _ _ ?_ fun m _ hm => ?_
      · have hlt := hwanted.1
        omega
      · have hlt := hwanted.1
        exact ⟨by omega, short_of_le hp (Nat.lt_succ_iff.mp hm) hwanted.2⟩
    omega
  refine ⟨by exact_mod_cast hle, fun m hm => ?_, ?_⟩
  · by_contra hreached
    have hless : needLoop k p mean request k 0 ≤ m :=
      needLoop_le (fun hwanted => hreached hwanted.2) _ _ m.zero_le
    omega
  · rw [Wanted, not_and_or, not_lt, not_lt] at hstop
    exact hstop.imp_left fun hge => by omega

end Ctcp
