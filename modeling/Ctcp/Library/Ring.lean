import Mathlib.Data.List.Basic
import Mathlib.Tactic.Common

/-! # Contents of a ring buffer -/

namespace Ctcp

variable {α : Type*} {q q' : ℕ → α} {cap head size : ℕ}

/-- An index that runs past the end at most once. -/
theorem mod_eq_ite {i : ℕ} (h : i < 2 * cap) : i % cap = if i < cap then i else i - cap := by
  by_cases hlt : i < cap
  · rw [if_pos hlt, Nat.mod_eq_of_lt hlt]
  · rw [if_neg hlt, Nat.mod_eq_sub_mod (Nat.not_lt.mp hlt), Nat.mod_eq_of_lt (by omega)]

/-- The `size` elements from position `head` on, around the end of the ring. -/
def ringContents (q : ℕ → α) (cap head size : ℕ) : List α :=
  (List.range size).map fun i => q ((head + i) % cap)

@[simp] theorem length_ringContents : (ringContents q cap head size).length = size := by
  simp [ringContents]

theorem ringContents_mod (q : ℕ → α) (cap head size : ℕ) :
    ringContents q cap (head % cap) size = ringContents q cap head size := by
  simp [ringContents]

theorem ringContents_add (q : ℕ → α) (cap head m n : ℕ) :
    ringContents q cap head (m + n) =
      ringContents q cap head m ++ ringContents q cap (head + m) n := by
  simp [ringContents, List.range_add, Nat.add_assoc]

theorem ringContents_split {n : ℕ} (h : n ≤ size) :
    ringContents q cap head size =
      ringContents q cap head n ++ ringContents q cap (head + n) (size - n) := by
  rw [← ringContents_add, Nat.add_sub_cancel' h]

/-- Writing behind the contents appends to them. -/
theorem ringContents_append {bytes : List α}
    (hkeep : ∀ i < size, q' ((head + i) % cap) = q ((head + i) % cap))
    (hnew : ∀ i (h : i < bytes.length), q' ((head + size + i) % cap) = bytes[i]) :
    ringContents q' cap head (size + bytes.length) = ringContents q cap head size ++ bytes := by
  rw [ringContents_add]
  congr 1
  · exact List.map_congr_left fun i hi => hkeep i (List.mem_range.mp hi)
  · apply List.ext_getElem
    · exact length_ringContents
    · intro i _ hi
      simp only [ringContents, List.getElem_map, List.getElem_range]
      exact hnew i hi

/-- Writing in front of the contents prepends to them. -/
theorem ringContents_cons {head' : ℕ} {a : α} (hhead : (head' + 1) % cap = head % cap)
    (hnew : q' (head' % cap) = a)
    (hkeep : ∀ i < size, q' ((head + i) % cap) = q ((head + i) % cap)) :
    ringContents q' cap head' (size + 1) = a :: ringContents q cap head size := by
  have hfirst : ringContents q' cap head' 1 = [a] := by simp [ringContents, hnew]
  rw [Nat.add_comm, ringContents_add, hfirst, List.singleton_append]
  congr 1
  apply List.map_congr_left
  intro i hi
  rw [← hkeep i (List.mem_range.mp hi), Nat.add_mod, hhead, ← Nat.add_mod]

end Ctcp
