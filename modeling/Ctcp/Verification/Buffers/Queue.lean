import Ctcp.Library.Ring
import Ctcp.Model.Skb

/-! # Contents of `coded_q` -/

namespace Ctcp

open Function

namespace QBuffer

/-- The entries, the next to be popped first. -/
def contents (buff : QBuffer) : List Skb :=
  ringContents buff.q buff.maxSize (buff.tail + 1) buff.size

structure Inv (buff : QBuffer) : Prop where
  tail_lt : buff.tail < buff.maxSize
  size_le : buff.size ≤ buff.maxSize
  head_eq : buff.head = (buff.tail + buff.size) % buff.maxSize

end QBuffer

open QBuffer

variable {buff : QBuffer} {entry : Skb}

@[simp] theorem length_contents (buff : QBuffer) : buff.contents.length = buff.size :=
  length_ringContents

theorem inv_qInit {maxSize : ℕ} (h : 0 < maxSize) : (qInit maxSize).Inv :=
  ⟨h, Nat.zero_le _, (Nat.zero_mod _).symm⟩

@[simp] theorem contents_qInit (maxSize : ℕ) : (qInit maxSize).contents = [] := rfl

theorem QBuffer.Inv.qReset (h : buff.Inv) : (qReset buff).Inv :=
  ⟨Nat.zero_lt_of_lt h.tail_lt, Nat.zero_le _, (Nat.zero_mod _).symm⟩

@[simp] theorem contents_qReset (buff : QBuffer) : (qReset buff).contents = [] := rfl

theorem QBuffer.Inv.qPushBack (h : buff.Inv) (hroom : buff.size < buff.maxSize) :
    (qPushBack buff entry).Inv := by
  refine ⟨h.tail_lt, hroom, ?_⟩
  change (buff.head + 1) % buff.maxSize = (buff.tail + (buff.size + 1)) % buff.maxSize
  rw [h.head_eq, Nat.mod_add_mod, Nat.add_assoc]

theorem contents_qPushBack (h : buff.Inv) (hroom : buff.size < buff.maxSize) :
    (qPushBack buff entry).contents = buff.contents ++ [entry] := by
  have hhead : (buff.head + 1) % buff.maxSize = (buff.tail + 1 + buff.size) % buff.maxSize := by
    rw [h.head_eq, Nat.mod_add_mod, Nat.add_right_comm]
  have htail := h.tail_lt
  apply @ringContents_append _ _ _ _ _ _ [entry]
  · intro i hi
    simp only [Ctcp.qPushBack, hhead]
    apply update_of_ne
    rw [mod_eq_ite (by omega), mod_eq_ite (by omega)]
    split <;> split <;> omega
  · intro i hi
    obtain rfl : i = 0 := by simpa using hi
    simp only [Ctcp.qPushBack, hhead, Nat.add_zero, update_self, List.getElem_cons_zero]

theorem contents_qPop (hsize : 0 < buff.size) :
    buff.contents = (qPop buff).1 :: (qPop buff).2.contents := by
  rw [contents, ringContents_split (Nat.succ_le_of_lt hsize)]
  simp only [contents, qPop, ringContents, List.range_one, List.map_cons, List.map_nil,
    List.singleton_append, Nat.add_zero]
  congr 1
  apply List.map_congr_left
  intro i _
  rw [Nat.add_assoc ((buff.tail + 1) % buff.maxSize), Nat.mod_add_mod, Nat.add_assoc]

theorem QBuffer.Inv.qPop (h : buff.Inv) (hsize : 0 < buff.size) : (qPop buff).2.Inv := by
  refine ⟨Nat.mod_lt _ (Nat.zero_lt_of_lt h.tail_lt), Nat.le_trans (Nat.sub_le _ _) h.size_le, ?_⟩
  change buff.head = ((buff.tail + 1) % buff.maxSize + (buff.size - 1)) % buff.maxSize
  rw [h.head_eq, Nat.mod_add_mod]
  congr 1
  omega

/-- Unless the entries go around the end of the array, `q_free` hands out all of them,
the last first. -/
theorem qFreed_eq_reverse (h : buff.Inv) (hwrap : buff.tail + buff.size < buff.maxSize) :
    qFreed buff = buff.contents.reverse := by
  have hhead : buff.head = buff.tail + buff.size := by rw [h.head_eq, Nat.mod_eq_of_lt hwrap]
  apply List.ext_getElem
  · simp [qFreed, hhead]
  · intro i hi _
    simp only [qFreed, hhead, Nat.add_sub_cancel_left, List.length_map, List.length_range] at hi
    simp only [qFreed, contents, ringContents, List.getElem_map, List.getElem_range,
      List.getElem_reverse, List.length_map, List.length_range, hhead]
    congr 2
    omega

/-- If they do, it hands out none. -/
theorem qFreed_eq_nil (h : buff.Inv) (hwrap : buff.maxSize ≤ buff.tail + buff.size) :
    qFreed buff = [] := by
  have htail := h.tail_lt
  have hsize := h.size_le
  have hle : buff.head ≤ buff.tail := by
    rw [h.head_eq, mod_eq_ite (by omega)]
    split <;> omega
  rw [qFreed, Nat.sub_eq_zero_of_le hle, List.range_zero, List.map_nil]

theorem mem_contents_of_mem_qFreed (h : buff.Inv) {a : Skb} (ha : a ∈ qFreed buff) :
    a ∈ buff.contents := by
  rcases Nat.lt_or_ge (buff.tail + buff.size) buff.maxSize with hlt | hge
  · rw [qFreed_eq_reverse h hlt] at ha
    exact List.mem_reverse.mp ha
  · rw [qFreed_eq_nil h hge] at ha
    exact absurd ha List.not_mem_nil

end Ctcp
