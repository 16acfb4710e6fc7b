import Mathlib.Logic.Function.Basic
import Mathlib.Tactic.Common

/-! # Runs of a transition system -/

namespace Ctcp

/-- Initial states in `σ`, and steps labelled by events of `ε`. -/
structure System (σ ε : Type*) where
  init : σ → Prop
  step : σ → ε → σ → Prop

/-- After party `i` has moved to `b`, a party is there, or it is another one and where it was. -/
theorem party_cases {ι β : Type*} [DecidableEq ι] {f : ι → β} {i j : ι} {b b' : β}
    (h : Function.update f i b j = b') : j = i ∧ b = b' ∨ j ≠ i ∧ f j = b' := by
  rwa [Function.update_apply, ite_eq_iff] at h

namespace System

variable {σ ε τ δ : Type*}

/-- The states that a run can reach. -/
inductive Reachable (S : System σ ε) : σ → Prop where
  | init {s : σ} (h : S.init s) : S.Reachable s
  | step {s s' : σ} {e : ε} (hs : S.Reachable s) (h : S.step s e s') : S.Reachable s'

/-- The same system, where only the steps that meet a condition are taken. -/
def guard (S : System σ ε) (C : σ → ε → Prop) : System σ ε where
  init := S.init
  step s e s' := C s e ∧ S.step s e s'

variable {S : System σ ε}

/-- The rule for invariants. -/
theorem Reachable.invariant {I : σ → Prop} (hinit : ∀ s, S.init s → I s)
    (hstep : ∀ s e s', I s → S.step s e s' → I s') {s : σ} (h : S.Reachable s) : I s := by
  induction h with
  | init h => exact hinit _ h
  | step _ h ih => exact hstep _ _ _ ih h

/-- An invariant may be used while the next one is proved. -/
theorem Reachable.invariant_of {I J : σ → Prop} (hJ : ∀ s, S.Reachable s → J s)
    (hinit : ∀ s, S.init s → I s)
    (hstep : ∀ s e s', J s → I s → S.step s e s' → I s') {s : σ} (h : S.Reachable s) : I s := by
  induction h with
  | init h => exact hinit _ h
  | step hs h ih => exact hstep _ _ _ (hJ _ hs) ih h

theorem Reachable.of_guard {C : σ → ε → Prop} {s : σ} (h : (S.guard C).Reachable s) :
    S.Reachable s := by
  induction h with
  | init h => exact .init h
  | step _ h ih => exact .step ih h.2

theorem Reachable.guard_mono {C C' : σ → ε → Prop} (hC : ∀ s e, C s e → C' s e) {s : σ}
    (h : (S.guard C).Reachable s) : (S.guard C').Reachable s := by
  induction h with
  | init h => exact .init h
  | step _ h ih => exact .step ih ⟨hC _ _ h.1, h.2⟩

/-- When every computed step of a view is matched by a run, so is a replay of events. -/
theorem Reachable.replay {R : σ → τ → Prop} {next : τ → δ → Option τ}
    (hnext : ∀ s p e p', S.Reachable s → R s p → next p e = some p' →
      ∃ s', S.Reachable s' ∧ R s' p') {s : σ} {p p' : τ} (hs : S.Reachable s) (hR : R s p)
    {es : List δ} (h : es.foldlM next p = some p') : ∃ s', S.Reachable s' ∧ R s' p' := by
  induction es generalizing s p with
  | nil =>
      obtain rfl : p = p' := by simpa using h
      exact ⟨s, hs, hR⟩
  | cons e es ih =>
      obtain ⟨p₁, h₁, hrest⟩ := Option.bind_eq_some_iff.mp (by simpa using h)
      obtain ⟨s₁, hs₁, hR₁⟩ := hnext s p e p₁ hs hR h₁
      exact ih hs₁ hR₁ hrest

/-! ## Runs with their events -/

/-- A run from one state to another. -/
inductive Steps (S : System σ ε) : σ → List ε → σ → Prop where
  | nil (s : σ) : S.Steps s [] s
  | cons {s s₁ s' : σ} {e : ε} {es : List ε} (h : S.step s e s₁) (hs : S.Steps s₁ es s') :
      S.Steps s (e :: es) s'

/-- The rule for termination. Every step lowers the rank, but those that `free` allows,
which may raise it by one; so these bound the length of a run. -/
theorem Steps.length_le {rank : σ → ℕ} {free : ε → Bool}
    (hrank : ∀ s e s', S.Reachable s → S.step s e s' →
      if free e then rank s' ≤ rank s + 1 else rank s' + 1 ≤ rank s)
    {s s' : σ} {es : List ε} (h : S.Reachable s) (hs : S.Steps s es s') :
    es.length + rank s' ≤ rank s + 2 * es.countP free := by
  induction hs with
  | nil => simp
  | @cons s s₁ s' e es hstep hrest ih =>
      have htail := ih (h.step hstep)
      have hfirst := hrank s e s₁ h hstep
      rw [List.length_cons]
      cases hfree : free e with
      | true =>
          rw [List.countP_cons_of_pos hfree]
          simp only [hfree, if_true] at hfirst
          omega
      | false =>
          rw [List.countP_cons_of_neg (by simp [hfree])]
          simp only [hfree, Bool.false_eq_true, if_false] at hfirst
          omega

end System

end Ctcp
