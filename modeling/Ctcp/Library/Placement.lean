import Mathlib.Data.Multiset.UnionInter
import Mathlib.Data.Set.Insert
import Mathlib.Tactic.Common

/-! # Things that are at one place each -/

namespace Ctcp

variable {ι α : Type*} {bag bag' : ι → Multiset α} {S : Set α} {p q : ι} {a : α}

/-- The elements of `S`, and no others, are at the places, each at one place and once. -/
structure Placed (bag : ι → Multiset α) (S : Set α) : Prop where
  nodup : ∀ p, (bag p).Nodup
  unique : ∀ {p q a}, a ∈ bag p → a ∈ bag q → p = q
  mem_iff : ∀ a, a ∈ S ↔ ∃ p, a ∈ bag p

namespace Placed

/-- Nothing is anywhere. -/
theorem empty (hbag : ∀ p, bag p = 0) (hS : ∀ a, a ∉ S) : Placed bag S := by
  constructor
  case nodup =>
    intro p
    rw [hbag]
    exact Multiset.nodup_zero
  case unique =>
    intro p q a ha
    rw [hbag] at ha
    exact absurd ha (Multiset.notMem_zero a)
  case mem_iff => simp [hbag, hS]

theorem mem (h : Placed bag S) (ha : a ∈ bag p) : a ∈ S := (h.mem_iff a).mpr ⟨p, ha⟩

/-- The places may be described anew. -/
theorem congr (h : Placed bag S) (heq : ∀ p, bag' p = bag p) : Placed bag' S := by
  rwa [funext heq]

/-- A new thing is put to place `q`. -/
theorem insert (h : Placed bag S) (ha : a ∉ S) (hq : bag' q = a ::ₘ bag q)
    (hrest : ∀ r, r ≠ q → bag' r = bag r) : Placed bag' (insert a S) := by
  have hnew : ∀ r, a ∉ bag r := fun r hr => ha (h.mem hr)
  have hmem : ∀ r b, b ∈ bag' r ↔ b = a ∧ r = q ∨ b ∈ bag r := by
    intro r b
    by_cases hr : r = q
    · subst hr
      simp [hq]
    · simp [hrest r hr, hr]
  constructor
  case nodup =>
    intro r
    by_cases hr : r = q
    · subst hr
      rw [hq, Multiset.nodup_cons]
      exact ⟨hnew r, h.nodup r⟩
    · rw [hrest r hr]
      exact h.nodup r
  case unique =>
    intro r r' b hb hb'
    rcases (hmem r b).mp hb with ⟨rfl, rfl⟩ | hold
    · rcases (hmem r' b).mp hb' with ⟨-, rfl⟩ | hold'
      · rfl
      · exact absurd hold' (hnew r')
    · rcases (hmem r' b).mp hb' with ⟨rfl, -⟩ | hold'
      · exact absurd hold (hnew r)
      · exact h.unique hold hold'
  case mem_iff =>
    intro b
    simp only [Set.mem_insert_iff, h.mem_iff, hmem]
    constructor
    · rintro (rfl | ⟨r, hr⟩)
      · exact ⟨q, Or.inl ⟨rfl, rfl⟩⟩
      · exact ⟨r, Or.inr hr⟩
    · rintro ⟨r, ⟨rfl, -⟩ | hr⟩
      · exact Or.inl rfl
      · exact Or.inr ⟨r, hr⟩

/-- A thing leaves place `p`. -/
theorem erase (h : Placed bag S) (hp : bag p = a ::ₘ bag' p)
    (hrest : ∀ r, r ≠ p → bag' r = bag r) : Placed bag' (S \ {a}) := by
  have hnodup := h.nodup p
  rw [hp, Multiset.nodup_cons] at hnodup
  have hat : a ∈ bag p := by simp [hp]
  have hle : ∀ r b, b ∈ bag' r → b ∈ bag r := by
    intro r b hb
    by_cases hr : r = p
    · subst hr
      simp [hp, hb]
    · rwa [← hrest r hr]
  have hgone : ∀ r, a ∉ bag' r := by
    intro r hr
    by_cases he : r = p
    · subst he
      exact hnodup.1 hr
    · exact he (h.unique (hle r a hr) hat)
  constructor
  case nodup =>
    intro r
    by_cases hr : r = p
    · subst hr
      exact hnodup.2
    · rw [hrest r hr]
      exact h.nodup r
  case unique => exact fun hb hb' => h.unique (hle _ _ hb) (hle _ _ hb')
  case mem_iff =>
    intro b
    simp only [Set.mem_sdiff, Set.mem_singleton_iff, h.mem_iff]
    constructor
    · rintro ⟨⟨r, hr⟩, hne⟩
      refine ⟨r, ?_⟩
      by_cases he : r = p
      · subst he
        rw [hp, Multiset.mem_cons] at hr
        exact hr.resolve_left hne
      · rwa [hrest r he]
    · rintro ⟨r, hr⟩
      exact ⟨⟨r, hle r b hr⟩, fun he => hgone r (he ▸ hr)⟩

/-- A thing goes from place `p` to place `q`. -/
theorem move (h : Placed bag S) (hne : p ≠ q) (hp : bag p = a ::ₘ bag' p)
    (hq : bag' q = a ::ₘ bag q) (hrest : ∀ r, r ≠ p → r ≠ q → bag' r = bag r) :
    Placed bag' S := by
  classical
  have ha : a ∈ S := h.mem (p := p) (by simp [hp])
  have hout : Placed (Function.update bag p (bag' p)) (S \ {a}) := by
    apply h.erase (p := p)
    · rw [Function.update_self, hp]
    · exact fun r hr => Function.update_of_ne hr _ _
  have hin : Placed bag' (Insert.insert a (S \ {a})) := by
    apply hout.insert (q := q) (by simp)
    · rw [Function.update_of_ne hne.symm, hq]
    · intro r hr
      by_cases he : r = p
      · subst he
        rw [Function.update_self]
      · rw [Function.update_of_ne he, hrest r he hr]
  rwa [Set.insert_sdiff_singleton, Set.insert_eq_of_mem ha] at hin

end Placed

end Ctcp
