import Mathlib.Data.Nat.Notation
import Mathlib.Logic.Function.Basic

/-! # The memory behind `alloc_skb` and `free_skb`, from `util.c`

Addresses are of any type, and so is what a packet buffer holds. -/

namespace Ctcp

open Function

variable {α β : Type*}

/-- An `Skb` in memory. -/
structure SkbCell (α β : Type*) where
  msgbuf : β
  next : Option α
  used : Bool

/-- `first` and `num`, with the cells that they are about. -/
structure SkbMemory (α β : Type*) where
  first : Option α
  num : ℕ
  cell : α → SkbCell α β

namespace SkbMemory

variable [DecidableEq α]

def setNext (s : SkbMemory α β) (a : α) (next : Option α) : SkbMemory α β :=
  { s with cell := update s.cell a { s.cell a with next := next } }

def setUsed (s : SkbMemory α β) (a : α) (used : Bool) : SkbMemory α β :=
  { s with cell := update s.cell a { s.cell a with used := used } }

/-- `alloc_skb`. When it calls `malloc`, it gets null, or an address with whatever is
there. -/
def allocSkb (s : SkbMemory α β) (malloc : Option (α × SkbCell α β)) :
    Option α × SkbMemory α β :=
  match s.first with
  | none =>
    match malloc with
    | none => (none, { s with num := s.num + 1 })
    | some (freeskb, cell) =>
      let s := { s with num := s.num + 1, cell := update s.cell freeskb cell }
      (some freeskb, (s.setNext freeskb none).setUsed freeskb true)
  | some freeskb =>
    let s := { s with first := (s.cell freeskb).next }
    (some freeskb, (s.setNext freeskb none).setUsed freeskb true)

/-- `free_skb` -/
def freeSkb (s : SkbMemory α β) (freeskb : α) : SkbMemory α β :=
  if (s.cell freeskb).used = false then s
  else
    let s :=
      match s.first with
      | none => { s with first := some freeskb }.setNext freeskb none
      | some first => { s.setNext freeskb (some first) with first := some freeskb }
    s.setUsed freeskb false

/-- The user of a buffer writes to it. -/
def write (s : SkbMemory α β) (a : α) (msgbuf : β) : SkbMemory α β :=
  { s with cell := update s.cell a { s.cell a with msgbuf := msgbuf } }

end SkbMemory

end Ctcp
