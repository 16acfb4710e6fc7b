import Mathlib.LinearAlgebra.Dimension.Constructions
import Mathlib.LinearAlgebra.Span.Basic
import Mathlib.Data.Finset.Max
import Mathlib.Tactic.Abel

/-! # Rows in echelon form

A partial family of vectors, where the row stored at index `r` has its first
nonzero entry at `r` and that entry is one. Such a family grows one row at a
time: a new vector is reduced by the rows it meets until it vanishes or leads at
a free index. -/

namespace Ctcp

open Function Submodule

variable {K ι : Type*} [Field K]

/-- The span of the stored rows. -/
def rowSpan (occ : Finset ι) (v : ι → ι → K) : Submodule K (ι → K) := span K (v '' occ)

theorem mem_rowSpan {occ : Finset ι} {v : ι → ι → K} {r : ι} (h : r ∈ occ) :
    v r ∈ rowSpan occ v :=
  subset_span ⟨r, h, rfl⟩

/-- Vectors that differ by a member of a subspace extend it equally. -/
theorem sup_span_congr {S : Submodule K (ι → K)} {w w' : ι → K} (h : w - w' ∈ S) :
    S ⊔ span K {w} = S ⊔ span K {w'} := by
  have hle : ∀ a b : ι → K, a - b ∈ S → S ⊔ span K {a} ≤ S ⊔ span K {b} := by
    intro a b hab
    refine sup_le le_sup_left ((span_singleton_le_iff_mem a _).mpr ?_)
    have hb : b ∈ S ⊔ span K {b} := mem_sup_right (mem_span_singleton_self b)
    have hs := add_mem (mem_sup_left hab : a - b ∈ S ⊔ span K {b}) hb
    rwa [sub_add_cancel] at hs
  refine le_antisymm (hle w w' h) (hle w' w ?_)
  rw [← neg_sub]
  exact S.neg_mem h

theorem sup_span_of_mem {S : Submodule K (ι → K)} {w : ι → K} (h : w ∈ S) :
    S ⊔ span K {w} = S :=
  sup_eq_left.mpr ((span_singleton_le_iff_mem w S).mpr h)

theorem rowSpan_insert [DecidableEq ι] {occ : Finset ι} {v : ι → ι → K} {s : ι}
    (hs : s ∉ occ) (w : ι → K) :
    rowSpan (insert s occ) (update v s w) = rowSpan occ v ⊔ span K {w} := by
  have himage : update v s w '' occ = v '' occ :=
    Set.image_congr fun r hr => update_of_ne (fun he => hs (by simpa [he] using hr)) w v
  rw [rowSpan, Finset.coe_insert, Set.image_insert_eq, himage, update_self, span_insert, sup_comm]
  rfl

variable [LinearOrder ι]

/-- The first nonzero entry of `w` is at `s`. -/
def LeadsAt (w : ι → K) (s : ι) : Prop := w s ≠ 0 ∧ ∀ j < s, w j = 0

/-- The rows at the indices of `occ` are in echelon form. -/
structure Echelon (occ : Finset ι) (v : ι → ι → K) : Prop where
  lead : ∀ r ∈ occ, v r r = 1
  low : ∀ r ∈ occ, ∀ j < r, v r j = 0

variable {occ : Finset ι} {v : ι → ι → K}

/-! ## Independence -/

/-- A nontrivial combination leads at its first row. -/
theorem Echelon.exists_leadsAt (h : Echelon occ v) {c : ι → K} (hc : ∃ r ∈ occ, c r ≠ 0) :
    ∃ r ∈ occ, c r ≠ 0 ∧ LeadsAt (∑ i ∈ occ, c i • v i) r := by
  classical
  obtain ⟨r₁, hr₁, hc₁⟩ := hc
  let support := occ.filter fun r => c r ≠ 0
  have hne : support.Nonempty := ⟨r₁, Finset.mem_filter.mpr ⟨hr₁, hc₁⟩⟩
  let r := support.min' hne
  have hr : r ∈ occ ∧ c r ≠ 0 := Finset.mem_filter.mp (support.min'_mem hne)
  have hmin : ∀ i ∈ occ, i < r → c i = 0 := by
    intro i hi hlt
    by_contra hci
    exact absurd (support.min'_le i (Finset.mem_filter.mpr ⟨hi, hci⟩)) (not_le_of_gt hlt)
  -- below `r` every row with a nonzero coefficient still vanishes
  have hzero : ∀ j, ∀ i ∈ occ, j ≤ r → i ≠ r ∨ j < r → c i * v i j = 0 := by
    intro j i hi hjr hij
    rcases lt_trichotomy i r with hlt | rfl | hgt
    · rw [hmin i hi hlt, zero_mul]
    · rw [h.low _ hi j (hij.resolve_left fun hn => hn rfl), mul_zero]
    · rw [h.low i hi j (hjr.trans_lt hgt), mul_zero]
  refine ⟨r, hr.1, hr.2, ?_, ?_⟩
  · have hval : (∑ i ∈ occ, c i • v i) r = c r := by
      simp only [Finset.sum_apply, Pi.smul_apply, smul_eq_mul]
      rw [Finset.sum_eq_single r (fun i hi hir => hzero r i hi le_rfl (.inl hir))
        (fun hn => (hn hr.1).elim), h.lead r hr.1, mul_one]
    rw [hval]
    exact hr.2
  · intro j hj
    simp only [Finset.sum_apply, Pi.smul_apply, smul_eq_mul]
    exact Finset.sum_eq_zero fun i hi => hzero j i hi hj.le (.inr hj)

theorem Echelon.linearIndependent (h : Echelon occ v) :
    LinearIndependent K fun r : occ => v r := by
  classical
  rw [Fintype.linearIndependent_iff]
  intro g hg
  let c : ι → K := fun r => if hr : r ∈ occ then g ⟨r, hr⟩ else 0
  have hsum : ∑ i ∈ occ, c i • v i = 0 := by
    rw [← Finset.sum_coe_sort, ← hg]
    exact Finset.sum_congr rfl fun i _ => by simp [c]
  intro i
  by_contra hi
  obtain ⟨r, _, _, hlead, _⟩ := h.exists_leadsAt (c := c) ⟨i, i.2, by simpa [c] using hi⟩
  rw [hsum] at hlead
  exact hlead rfl

/-- The dimension of the span is the number of stored rows. -/
theorem Echelon.finrank_rowSpan (h : Echelon occ v) :
    Module.finrank K (rowSpan occ v) = occ.card := by
  have hspan : rowSpan occ v = span K (Set.range fun r : occ => v r) := by
    rw [rowSpan]
    congr 1
    ext w
    simp
  rw [hspan, finrank_span_eq_card h.linearIndependent, Fintype.card_coe]

/-- A vector of the span leads at a stored row. -/
theorem Echelon.lead_mem (h : Echelon occ v) {w : ι → K} {s : ι} (hw : w ∈ rowSpan occ v)
    (hs : LeadsAt w s) : s ∈ occ := by
  obtain ⟨c, rfl⟩ := (mem_span_image_finset_iff_exists_fun' K).mp hw
  have hc : ∃ r ∈ occ, c r ≠ 0 := by
    by_contra hn
    have hz : ∑ i ∈ occ, c i • v i = 0 :=
      Finset.sum_eq_zero fun i hi => by
        rw [not_not.mp fun hci => hn ⟨i, hi, hci⟩, zero_smul]
    exact hs.1 (by rw [hz]; rfl)
  obtain ⟨r, hr, _, hlead⟩ := h.exists_leadsAt hc
  rcases lt_trichotomy s r with hlt | rfl | hgt
  · exact (hs.1 (hlead.2 s hlt)).elim
  · exact hr
  · exact (hlead.1 (hs.2 r hgt)).elim

/-! ## Growth by one vector -/

/-- A normalised vector that leads at a free index becomes a new row. -/
theorem Echelon.insert (h : Echelon occ v) {s : ι} (hs : s ∉ occ) {w : ι → K}
    (hone : w s = 1) (hlow : ∀ j < s, w j = 0) :
    Echelon (insert s occ) (update v s w) where
  lead r hr := by
    rcases Finset.mem_insert.mp hr with rfl | hr
    · simpa using hone
    · rw [update_of_ne (ne_of_mem_of_not_mem hr hs)]
      exact h.lead r hr
  low r hr j hj := by
    rcases Finset.mem_insert.mp hr with rfl | hr
    · simpa using hlow j hj
    · rw [update_of_ne (ne_of_mem_of_not_mem hr hs)]
      exact h.low r hr j hj

end Ctcp
