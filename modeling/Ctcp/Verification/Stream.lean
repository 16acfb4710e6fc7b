import Ctcp.Model.Packet
import Mathlib.Data.List.Basic
import Mathlib.Tactic.Common

/-! # The byte stream that source rows carry -/

namespace Ctcp

/-- The useful bytes of a source row. -/
def Payload.bytes (pl : Payload) : List UInt8 := pl.data fun _ => 0

/-- The bytes of rows `start, …, start + n - 1` of a block. -/
def rowBytes (p : ℕ → Payload) (start n : ℕ) : List UInt8 :=
  (List.range' start n).flatMap fun r => (p r).bytes

/-- The bytes of the first `n` source rows, block after block from block 1 on. -/
def sourceBytes (p : ℕ → ℕ → Payload) (n : ℕ) : List UInt8 :=
  (List.range n).flatMap fun i => (p (i / blockSize + 1) (i % blockSize)).bytes

theorem rowBytes_succ (p : ℕ → Payload) (start n : ℕ) :
    rowBytes p start (n + 1) = (p start).bytes ++ rowBytes p (start + 1) n := by
  simp [rowBytes, List.range'_succ]

theorem rowBytes_add (p : ℕ → Payload) (start m n : ℕ) :
    rowBytes p start (m + n) = rowBytes p start m ++ rowBytes p (start + m) n := by
  rw [rowBytes, rowBytes, rowBytes, ← List.flatMap_append, List.range'_append_1]

/-- The rows of one block are consecutive in the stream. -/
theorem sourceBytes_add (p : ℕ → ℕ → Payload) {b start n : ℕ} (hb : 1 ≤ b)
    (hn : start + n ≤ blockSize) :
    sourceBytes p (blockSize * (b - 1) + start + n) =
      sourceBytes p (blockSize * (b - 1) + start) ++ rowBytes (p b) start n := by
  have hpos : 0 < blockSize := by decide
  rw [sourceBytes, List.range_add, List.flatMap_append, List.flatMap_map]
  congr 1
  rw [rowBytes, List.range'_eq_map_range, List.flatMap_map]
  refine List.flatMap_congr fun i hi => ?_
  have hi' : start + i < blockSize := by have := List.mem_range.mp hi; omega
  rw [Nat.add_assoc, Nat.mul_add_div hpos, Nat.div_eq_of_lt hi', Nat.mul_add_mod,
    Nat.mod_eq_of_lt hi', Nat.add_zero, Nat.sub_add_cancel hb]

end Ctcp
