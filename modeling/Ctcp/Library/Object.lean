import Mathlib.Logic.Basic
import Mathlib.Tactic.Common

/-! # Objects that answer calls one after the other

A call that would have to wait has no answer. An abstraction that commutes with one
call commutes with every sequence of calls. -/

namespace Ctcp

/-- The answer to a call `o` in a state `σ`, and the state after it. -/
abbrev Object (σ o r : Type*) := σ → o → Option (r × σ)

namespace Object

variable {σ τ o r : Type*} {obj : Object σ o r} {spec : Object τ o r}

/-- The answers to a sequence of completed calls. -/
def run (obj : Object σ o r) (s : σ) : List o → Option (List r × σ)
  | [] => some ([], s)
  | c :: cs =>
    (obj s c).bind fun a => (run obj a.2 cs).map fun b => (a.1 :: b.1, b.2)

theorem run_cons {s s' : σ} {c : o} {cs : List o} {rs : List r}
    (h : obj.run s (c :: cs) = some (rs, s')) :
    ∃ a s₁ rs₁, obj s c = some (a, s₁) ∧ obj.run s₁ cs = some (rs₁, s') ∧ rs = a :: rs₁ := by
  obtain ⟨⟨a, s₁⟩, hcall, hrest⟩ := Option.bind_eq_some_iff.mp h
  obtain ⟨⟨rs₁, s₂⟩, hrun, heq⟩ := Option.map_eq_some_iff.mp hrest
  obtain ⟨rfl, rfl⟩ := Prod.mk.inj heq
  exact ⟨a, s₁, rs₁, hcall, hrun, rfl⟩

/-- What every completed call preserves holds after every run. -/
theorem run_invariant {I : σ → Prop}
    (hcall : ∀ s c a s', I s → obj s c = some (a, s') → I s') {s s' : σ} {cs : List o}
    {rs : List r} (hs : I s) (h : obj.run s cs = some (rs, s')) : I s' := by
  induction cs generalizing s rs with
  | nil =>
      obtain ⟨-, rfl⟩ := Prod.mk.inj (Option.some.inj h)
      exact hs
  | cons c cs ih =>
      obtain ⟨a, s₁, rs₁, hfirst, hrest, -⟩ := run_cons h
      exact ih (hcall s c a s₁ hs hfirst) hrest

/-- The rule for refinement: an object whose calls do what `spec` says, through `abs`,
does so over every sequence of calls. -/
theorem run_refines {I : σ → Prop} {abs : σ → τ}
    (hcall : ∀ s c a s', I s → obj s c = some (a, s') → I s')
    (hspec : ∀ s c, I s → (obj s c).map (Prod.map id abs) = spec (abs s) c) {s : σ} (hs : I s)
    (cs : List o) : (obj.run s cs).map (Prod.map id abs) = spec.run (abs s) cs := by
  induction cs generalizing s with
  | nil => rfl
  | cons c cs ih =>
      have hfirst := hspec s c hs
      cases hc : obj s c with
      | none =>
          rw [hc] at hfirst
          simp [run, hc, ← hfirst]
      | some answer =>
          rw [hc] at hfirst
          have hrest := ih (hcall s c answer.1 answer.2 hs hc)
          simp only [run, hc, ← hfirst, Option.map_some, Option.bind_some, Prod.map_fst,
            Prod.map_snd, id_eq, ← hrest, Option.map_map]
          rfl

end Object

end Ctcp
