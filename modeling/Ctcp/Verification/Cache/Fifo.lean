import Ctcp.Library.Ring
import Ctcp.Model.Fifo
import Mathlib.Data.List.GetD
import Mathlib.Order.Lattice.Nat

/-! # The buffer as a queue of bytes -/

namespace Ctcp

namespace Fifo

/-- The bytes that the buffer holds, oldest first. -/
def contents (Q : Fifo) : List UInt8 := ringContents Q.q Q.maxSize Q.head Q.size

@[simp] theorem length_contents (Q : Fifo) : Q.contents.length = Q.size := length_ringContents

/-- The indices of the buffer fit together. -/
structure Inv (Q : Fifo) : Prop where
  pos : 0 < Q.maxSize
  head_lt : Q.head < Q.maxSize
  size_le : Q.size ≤ Q.maxSize
  tail_eq : Q.tail = (Q.head + Q.size) % Q.maxSize

/-! ## Copies -/

variable {q : ℕ → UInt8} {pos n i : ℕ} {bytes : List UInt8}

/-- Outside the copied range the buffer is as before. -/
theorem copyIn_of_outside (h : i < pos ∨ pos + bytes.length ≤ i) : copyIn q pos bytes i = q i := by
  unfold copyIn
  split
  · exact List.getD_eq_default _ _ (by omega)
  · rfl

theorem copyIn_inside (h : i < bytes.length) : copyIn q pos bytes (pos + i) = bytes[i] := by
  rw [copyIn, if_pos (Nat.le_add_right _ _), Nat.add_sub_cancel_left]
  exact List.getD_eq_getElem _ _ h

end Fifo

open Fifo

theorem fifoInv_fifoInit {maxSize : ℕ} (h : 0 < maxSize) : (fifoInit maxSize).Inv where
  pos := h
  head_lt := h
  size_le := Nat.zero_le _
  tail_eq := (Nat.zero_mod _).symm

/-! ## `fifo_pop` -/

/-- `copyOut` around the end of the ring. -/
theorem copyOut_eq_ringContents {q : ℕ → UInt8} {cap head n : ℕ} (hhead : head < cap)
    (hn : n ≤ cap) :
    (if n ≤ cap - head then copyOut q head n
      else copyOut q head (cap - head) ++ copyOut q 0 (n - (cap - head))) =
      ringContents q cap head n := by
  have hlow : ∀ m ≤ cap - head, copyOut q head m = ringContents q cap head m := by
    intro m hm
    apply List.map_congr_left
    intro i hi
    have hlt := List.mem_range.mp hi
    rw [Nat.mod_eq_of_lt (by omega)]
  by_cases hle : n ≤ cap - head
  · rw [if_pos hle, hlow n hle]
  · rw [if_neg hle, ringContents_split (Nat.not_le.mp hle).le, hlow _ le_rfl]
    congr 1
    apply List.map_congr_left
    intro i hi
    have hlt := List.mem_range.mp hi
    rw [mod_eq_ite (by omega), if_neg (by omega)]
    congr 1
    omega

/-- A pop takes bytes from the front; it takes none only from a released buffer. -/
structure PopSpec (Q : Fifo) (n : ℕ) (bytes : List UInt8) (Q' : Fifo) : Prop where
  inv : Q'.Inv
  released_eq : Q'.released = Q.released
  bytes_eq : bytes = Q.contents.take n
  contents_eq : Q'.contents = Q.contents.drop n
  ready : Q.size ≠ 0 ∨ Q.released = true

theorem fifoPop_spec {Q Q' : Fifo} {n : ℕ} {bytes : List UInt8} (h : Q.Inv)
    (hpop : fifoPop Q n = some (bytes, Q')) : PopSpec Q n bytes Q' := by
  have hhead := h.head_lt
  have hsize := h.size_le
  unfold fifoPop at hpop
  split at hpop
  case isTrue => simp at hpop
  case isFalse hready =>
    simp only [Option.some.injEq, Prod.mk.injEq] at hpop
    obtain ⟨hbytes, rfl⟩ := hpop
    rw [copyOut_eq_ringContents hhead ((min_le_right _ _).trans hsize)] at hbytes
    have hsplit : Q.contents = bytes ++
        ringContents Q.q Q.maxSize (Q.head + min n Q.size) (Q.size - min n Q.size) := by
      rw [← hbytes]
      exact ringContents_split (min_le_right _ _)
    have hlen : bytes.length = min n Q.contents.length := by
      rw [← hbytes, length_ringContents, Fifo.length_contents]
    refine ⟨⟨h.pos, Nat.mod_lt _ h.pos, (Nat.sub_le _ _).trans hsize, ?_⟩, rfl, ?_, ?_, ?_⟩
    · simp only [Nat.mod_add_mod, h.tail_eq]
      congr 1
      omega
    · rw [List.take_eq_take_min, ← hlen, hsplit, List.take_left]
    · rw [List.drop_eq_drop_min, ← hlen, hsplit, List.drop_left]
      exact ringContents_mod _ _ _ _
    · cases hreleased : Q.released with
      | false => exact .inl fun hzero => hready ⟨hzero, hreleased⟩
      | true => exact .inr rfl

/-! ## `fifo_push` -/

/-- A push appends as much of its bytes as there is room for. -/
structure PushedSpec (Q : Fifo) (bytes : List UInt8) (n : ℕ) (Q' : Fifo) : Prop where
  inv : Q'.Inv
  released_eq : Q'.released = Q.released
  maxSize_eq : Q'.maxSize = Q.maxSize
  size_eq : n = min bytes.length (Q.maxSize - Q.size)
  contents_eq : Q'.contents = Q.contents ++ bytes.take n
  room : Q.size < Q.maxSize ∨ Q.released = true

/-- `copyIn` around the end of the ring writes right behind the contents. -/
theorem ringContents_copyIn {Q : Fifo} (h : Q.Inv) {bytes : List UInt8}
    (hn : bytes.length ≤ Q.maxSize - Q.size) :
    ringContents
      (if bytes.length ≤ Q.maxSize - Q.tail then copyIn Q.q Q.tail bytes
        else copyIn (copyIn Q.q Q.tail (bytes.take (Q.maxSize - Q.tail))) 0
          (bytes.drop (Q.maxSize - Q.tail)))
      Q.maxSize Q.head (Q.size + bytes.length) = Q.contents ++ bytes := by
  have hhead := h.head_lt
  have hsize := h.size_le
  have htail : Q.tail = if Q.head + Q.size < Q.maxSize then Q.head + Q.size
      else Q.head + Q.size - Q.maxSize := by
    rw [h.tail_eq, mod_eq_ite (by omega)]
  have hmod : ∀ i, (Q.head + Q.size + i) % Q.maxSize = (Q.tail + i) % Q.maxSize := by
    intro i
    rw [h.tail_eq, Nat.mod_add_mod]
  by_cases hfit : bytes.length ≤ Q.maxSize - Q.tail
  · rw [if_pos hfit]
    apply ringContents_append
    · intro i hi
      rw [mod_eq_ite (show Q.head + i < 2 * Q.maxSize by omega)]
      exact copyIn_of_outside (by split_ifs at htail ⊢ <;> omega)
    · intro i hi
      rw [hmod, Nat.mod_eq_of_lt (by omega)]
      exact copyIn_inside hi
  · rw [if_neg hfit]
    -- the bytes wrap around, so the old contents do not
    have hlow : Q.tail = Q.head + Q.size ∧ Q.tail < Q.maxSize := by split_ifs at htail <;> omega
    have hfirst : (bytes.take (Q.maxSize - Q.tail)).length = Q.maxSize - Q.tail := by
      rw [List.length_take]
      omega
    have hrest : (bytes.drop (Q.maxSize - Q.tail)).length =
        bytes.length - (Q.maxSize - Q.tail) := List.length_drop
    apply ringContents_append
    · intro i hi
      rw [Nat.mod_eq_of_lt (by omega), copyIn_of_outside (by omega), copyIn_of_outside (by omega)]
    · intro i hi
      rw [hmod]
      by_cases hle : i < Q.maxSize - Q.tail
      · rw [Nat.mod_eq_of_lt (by omega), copyIn_of_outside (by omega), copyIn_inside (by omega),
          List.getElem_take]
      · rw [mod_eq_ite (by omega), if_neg (by omega),
          show Q.tail + i - Q.maxSize = 0 + (i - (Q.maxSize - Q.tail)) by omega,
          copyIn_inside (by omega), List.getElem_drop]
        congr 1
        omega

theorem fifoPush_spec {Q Q' : Fifo} {n : ℕ} {bytes : List UInt8} (h : Q.Inv)
    (hpush : fifoPush Q bytes = some (n, Q')) : PushedSpec Q bytes n Q' := by
  have hsize := h.size_le
  unfold fifoPush at hpush
  split at hpush
  case isTrue => simp at hpush
  case isFalse hready =>
    simp only [Option.some.injEq, Prod.mk.injEq] at hpush
    obtain ⟨rfl, rfl⟩ := hpush
    have hlen : (bytes.take (min bytes.length (Q.maxSize - Q.size))).length =
        min bytes.length (Q.maxSize - Q.size) := by
      rw [List.length_take]
      omega
    have hwrite := ringContents_copyIn h (hlen.le.trans (min_le_right _ _))
    rw [hlen] at hwrite
    refine ⟨⟨h.pos, h.head_lt, ?_, ?_⟩, rfl, rfl, rfl, ?_, ?_⟩
    · simp only
      omega
    · simp only [h.tail_eq, Nat.mod_add_mod, Nat.add_assoc]
    · rw [← hwrite, contents]
      by_cases hfit : min bytes.length (Q.maxSize - Q.size) ≤ Q.maxSize - Q.tail
      · simp only [if_pos hfit]
      · simp only [if_neg hfit, List.drop_take, List.take_take,
          min_eq_left (Nat.not_le.mp hfit).le]
    · cases hreleased : Q.released with
      | false =>
          left
          have hne : Q.size ≠ Q.maxSize := fun heq => hready ⟨heq, hreleased⟩
          omega
      | true => exact .inr rfl

end Ctcp
