import Ctcp.Verification.Buffers.Deque
import Ctcp.Verification.Buffers.Steps

/-! # What `q_free` releases -/

namespace Ctcp

variable {buff : QBuffer} {pool : SkbPool} {a : Skb} {maxSize : ℕ} {ops : List (DequeOp Skb)}
  {answers : List (Option Skb)}

/-- `q_free` releases the whole queue into the pool. -/
structure FreesQueue (pool : SkbPool) (buff : QBuffer) : Prop where
  handled : (qFreed buff).Perm buff.contents
  emptied : (qFree pool buff).2.contents = []
  returned : ∀ a ∈ buff.contents, a ∈ (qFree pool buff).1.first

theorem mem_first_freeSkb (h : pool.Marked) (ha : a < pool.num) : a ∈ (freeSkb pool a).first := by
  rw [freeSkb]
  split
  case isTrue hfree =>
    by_contra hout
    have hused := (h a).mpr ⟨ha, hout⟩
    simp [hused] at hfree
  case isFalse => exact List.mem_cons_self

theorem mem_first_foldl {skbs : List Skb} (ha : a ∈ pool.first) :
    a ∈ (skbs.foldl freeSkb pool).first := by
  induction skbs generalizing pool with
  | nil => exact ha
  | cons b skbs ih => exact ih (BuffersInv.mem_first_free ha)

/-- Allocated buffers that are freed one after the other are all on the free list. -/
theorem mem_first_foldl_of_mem {skbs : List Skb} (h : pool.Marked)
    (hnum : ∀ b ∈ skbs, b < pool.num) (ha : a ∈ skbs) : a ∈ (skbs.foldl freeSkb pool).first := by
  induction skbs generalizing pool with
  | nil => exact absurd ha List.not_mem_nil
  | cons b skbs ih =>
      have hb : b < pool.num := hnum b List.mem_cons_self
      rw [List.foldl_cons]
      rcases List.mem_cons.mp ha with rfl | htail
      · exact mem_first_foldl (mem_first_freeSkb h hb)
      · apply ih h.free ?_ htail
        intro c hc
        rw [num_freeSkb]
        exact hnum c (List.mem_cons_of_mem b hc)

/-- The entries do not go around the end of the array. -/
theorem tail_lt_head_iff (h : buff.Inv) :
    buff.size = 0 ∨ buff.tail < buff.head ↔
      buff.size = 0 ∨ buff.tail + buff.size < buff.maxSize := by
  have htail := h.tail_lt
  have hsize := h.size_le
  have hhead := h.head_eq
  rw [mod_eq_ite (by omega)] at hhead
  split at hhead <;> omega

theorem qFreed_perm_iff (h : buff.Inv) :
    (qFreed buff).Perm buff.contents ↔ buff.size = 0 ∨ buff.tail < buff.head := by
  rw [tail_lt_head_iff h]
  constructor
  · intro hperm
    by_contra hnot
    obtain ⟨hsize, hwrap⟩ := not_or.mp hnot
    have hlen := hperm.length_eq
    rw [qFreed_eq_nil h (by omega), length_contents, List.length_nil] at hlen
    exact hsize hlen.symm
  · intro hfits
    by_cases hlt : buff.tail + buff.size < buff.maxSize
    · rw [qFreed_eq_reverse h hlt]
      exact List.reverse_perm _
    · have hzero : buff.size = 0 := hfits.resolve_right hlt
      have hnil : buff.contents = [] :=
        List.eq_nil_of_length_eq_zero ((length_contents buff).trans hzero)
      rw [qFreed_eq_nil h (by omega), hnil]

/-- `q_free` releases the whole queue exactly when the queue is empty or its entries lie
between `tail` and `head`. -/
theorem freesQueue_iff (h : 1 ≤ maxSize)
    (hrun : qbuffer.run (qInit maxSize) ops = some (answers, buff)) (hpool : pool.Marked)
    (hnum : ∀ a ∈ buff.contents, a < pool.num) :
    FreesQueue pool buff ↔ buff.size = 0 ∨ buff.tail < buff.head := by
  have hinv := ((sound_qInit h).run hrun).1
  constructor
  · exact fun hfree => (qFreed_perm_iff hinv).mp hfree.handled
  · intro hfits
    have hperm := (qFreed_perm_iff hinv).mpr hfits
    constructor
    case handled => exact hperm
    case emptied => exact contents_qReset buff
    case returned =>
      intro a ha
      apply mem_first_foldl_of_mem hpool ?_ (hperm.mem_iff.mpr ha)
      exact fun b hb => hnum b (hperm.mem_iff.mp hb)

/-- The first `n` buffers are allocated, and all of them are in use. -/
def handedOut (n : ℕ) : SkbPool := ⟨[], fun a => decide (a < n), n⟩

theorem marked_handedOut (n : ℕ) : (handedOut n).Marked := by
  intro a
  simp [handedOut]

theorem freesQueue_iff_four : FreesQueue (handedOut 2)
    (qPop (qPushFront (qPushBack (qInit 4) 0) 1)).2 ↔ 1 = 0 ∨ 0 < 1 := by
  have hrun : qbuffer.run (qInit 4) [.pushBack 0, .pushFront 1, .pop] =
      some ([none, none, some 1], (qPop (qPushFront (qPushBack (qInit 4) 0) 1)).2) := rfl
  exact freesQueue_iff (by decide) hrun (marked_handedOut 2) (by decide)

/-- Two entries fill a queue of two, and `q_free` frees none of them. -/
theorem not_freesQueue_of_full : ¬∀ (maxSize : ℕ) (ops : List (DequeOp Skb))
    (answers : List (Option Skb)) (buff : QBuffer) (pool : SkbPool), 1 ≤ maxSize →
    qbuffer.run (qInit maxSize) ops = some (answers, buff) → pool.Marked →
    (∀ a ∈ buff.contents, a < pool.num) → FreesQueue pool buff := by
  intro hall
  have hfree := hall 2 [.pushBack 0, .pushBack 1] [none, none]
    (qPushBack (qPushBack (qInit 2) 0) 1) (handedOut 2) (by decide) rfl (marked_handedOut 2)
    (by decide)
  have hlen : 0 = 2 := hfree.handled.length_eq
  exact absurd hlen (by decide)

end Ctcp
