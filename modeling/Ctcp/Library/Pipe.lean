import Mathlib.Data.List.Basic
import Mathlib.Order.MinMax
import Mathlib.Order.Nat
import Mathlib.Tactic.Common

/-! # Reliable streams

What one party writes, the other reads, in order and in pieces of any size. -/

namespace Ctcp

/-- All that was written to a stream, and how much of it has been read. -/
structure Pipe (α : Type*) where
  written : List α
  taken : ℕ
  taken_le : taken ≤ written.length

namespace Pipe

variable {α : Type*}

def empty : Pipe α := ⟨[], 0, le_rfl⟩

/-- What has been read. -/
def out (p : Pipe α) : List α := p.written.take p.taken

/-- What may still be read. -/
def pending (p : Pipe α) : List α := p.written.drop p.taken

def write (p : Pipe α) (as : List α) : Pipe α :=
  ⟨p.written ++ as, p.taken, p.taken_le.trans (by simp)⟩

/-- At most `n` elements are read. -/
def read (p : Pipe α) (n : ℕ) : Pipe α :=
  ⟨p.written, min (p.taken + n) p.written.length, min_le_right _ _⟩

@[simp] theorem out_empty : (empty : Pipe α).out = [] := rfl

@[simp] theorem written_empty : (empty : Pipe α).written = [] := rfl

@[simp] theorem written_write (p : Pipe α) (as : List α) :
    (p.write as).written = p.written ++ as := rfl

@[simp] theorem written_read (p : Pipe α) (n : ℕ) : (p.read n).written = p.written := rfl

@[simp] theorem out_write (p : Pipe α) (as : List α) : (p.write as).out = p.out :=
  List.take_append_of_le_length p.taken_le

@[simp] theorem out_read (p : Pipe α) (n : ℕ) : (p.read n).out = p.out ++ p.pending.take n := by
  rw [out, out, pending, read, ← List.take_take, List.take_length]
  exact List.take_add

end Pipe

end Ctcp
