import Mathlib.Logic.Basic
import Mathlib.Tactic.Common

/-! # Programs that call a shared object

A program is a tree: it returns a value, or makes a call and goes on with the
reply. The object that answers is left open, so one program can be run alone or
interleaved with others that use the same object. -/

namespace Ctcp

/-- Calls are drawn from `C` and answered from `R`. -/
inductive Program (C R : Type) (α : Type*) where
  | done (a : α)
  | call (c : C) (k : R → Program C R α)

namespace Program

variable {C R : Type} {α β γ : Type*}

def bind : Program C R α → (α → Program C R β) → Program C R β
  | done a, f => f a
  | call c k, f => call c fun r => (k r).bind f

def map (f : α → β) (p : Program C R α) : Program C R β := p.bind fun a => done (f a)

/-- The program that makes one call and returns its reply. -/
def request (c : C) : Program C R R := call c done

@[simp] theorem bind_done (a : α) (f : α → Program C R β) : (done a).bind f = f a := rfl

@[simp] theorem bind_call (c : C) (k : R → Program C R α) (f : α → Program C R β) :
    (call c k).bind f = call c fun r => (k r).bind f := rfl

/-! ## Runs and what they ensure -/

/-- A run against allowed replies, with its trace of calls and its value. -/
inductive Runs (allow : C → R → Prop) : Program C R α → List (C × R) → α → Prop where
  | done (a : α) : Runs allow (done a) [] a
  | call {c : C} {k : R → Program C R α} {r : R} {t : List (C × R)} {a : α}
      (hr : allow c r) (h : Runs allow (k r) t a) : Runs allow (call c k) ((c, r) :: t) a

/-- Every run whose replies are allowed ends with its trace of calls and its
value related by `post`. -/
def Ensures (allow : C → R → Prop) :
    (post : List (C × R) → α → Prop) → Program C R α → Prop
  | post, done a => post [] a
  | post, call c k => ∀ r, allow c r → (k r).Ensures allow fun t a => post ((c, r) :: t) a

variable {allow : C → R → Prop}

/-- More replies allow more runs. -/
theorem Runs.mono {allow' : C → R → Prop} {p : Program C R α} {t : List (C × R)} {a : α}
    (h : p.Runs allow t a) (hallow : ∀ c r, allow c r → allow' c r) : p.Runs allow' t a := by
  induction h with
  | done a => exact .done a
  | call hr _ ih => exact .call (hallow _ _ hr) ih

theorem ensures_iff {post : List (C × R) → α → Prop} {p : Program C R α} :
    p.Ensures allow post ↔ ∀ t a, p.Runs allow t a → post t a := by
  constructor
  · intro h t a hrun
    induction hrun generalizing post with
    | done a => exact h
    | call hr _ ih => exact ih (h _ hr)
  · intro h
    induction p generalizing post with
    | done a => exact h _ _ (.done a)
    | call c k ih => exact fun r hr => ih r fun t a hrun => h _ _ (.call hr hrun)

theorem Ensures.mono {post post' : List (C × R) → α → Prop} {p : Program C R α}
    (h : p.Ensures allow post) (hp : ∀ t a, post t a → post' t a) : p.Ensures allow post' := by
  induction p generalizing post post' with
  | done a => exact hp _ _ h
  | call c k ih => exact fun r hr => ih r (h r hr) fun t a => hp _ _

theorem Ensures.and {post post' : List (C × R) → α → Prop} {p : Program C R α}
    (h : p.Ensures allow post) (h' : p.Ensures allow post') :
    p.Ensures allow fun t a => post t a ∧ post' t a := by
  induction p generalizing post post' with
  | done a => exact ⟨h, h'⟩
  | call c k ih => exact fun r hr => ih r (h r hr) (h' r hr)

theorem ensures_bind {post : List (C × R) → β → Prop} {p : Program C R α}
    {f : α → Program C R β} :
    (p.bind f).Ensures allow post ↔
      p.Ensures allow fun t a => (f a).Ensures allow fun t' b => post (t ++ t') b := by
  induction p generalizing post with
  | done a => rfl
  | call c k ih =>
      constructor
      · exact fun h r hr => ih r |>.mp (h r hr)
      · exact fun h r hr => ih r |>.mpr (h r hr)

/-- The rule for sequencing: `mid` is what the first program leaves to the second. -/
theorem Ensures.bind {mid : List (C × R) → α → Prop} {post : List (C × R) → β → Prop}
    {p : Program C R α} {f : α → Program C R β} (hp : p.Ensures allow mid)
    (hf : ∀ t a, mid t a → (f a).Ensures allow fun t' b => post (t ++ t') b) :
    (p.bind f).Ensures allow post :=
  ensures_bind.mpr (hp.mono hf)

/-- A run of two programs in sequence is a run of each. -/
theorem Runs.of_bind {p : Program C R α} {f : α → Program C R β} {t : List (C × R)} {b : β}
    (h : (p.bind f).Runs allow t b) :
    ∃ t₁ a t₂, p.Runs allow t₁ a ∧ (f a).Runs allow t₂ b ∧ t = t₁ ++ t₂ := by
  induction p generalizing t with
  | done a => exact ⟨[], a, t, .done a, h, rfl⟩
  | call c k ih =>
      cases h with
      | call hr hrest =>
          obtain ⟨t₁, a, t₂, hp, hf, rfl⟩ := ih _ hrest
          exact ⟨_, a, t₂, .call hr hp, hf, rfl⟩

/-! ## Running alone against fixed replies -/

/-- Run a program whose every call `c` is answered by `reply c`. -/
def runWith (reply : C → R) : Program C R α → List (C × R) × α
  | done a => ([], a)
  | call c k =>
      let rest := (k (reply c)).runWith reply
      ((c, reply c) :: rest.1, rest.2)

theorem runs_runWith {p : Program C R α} (reply : C → R) (hr : ∀ c, allow c (reply c)) :
    p.Runs allow (p.runWith reply).1 (p.runWith reply).2 := by
  induction p with
  | done a => exact .done a
  | call c k ih => exact .call (hr c) (ih _)

end Program

end Ctcp
