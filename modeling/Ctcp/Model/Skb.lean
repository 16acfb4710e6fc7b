import Ctcp.Library.Deque
import Ctcp.Library.Ring
import Mathlib.Data.Int.Notation
import Mathlib.Logic.Function.Basic

/-! # Packet buffers, from `util.c`, and queues of them, from `qbuffer.c` -/

namespace Ctcp

open Function

/-- An `Skb` is known by its number in the order of `malloc`, which never fails here. -/
abbrev Skb := ℕ

/-! ## The free list -/

/-- `first` with what follows it, the `used` flags, and `num`. -/
structure SkbPool where
  first : List Skb
  used : Skb → Bool
  num : ℕ

def allocSkb (pool : SkbPool) : Skb × SkbPool :=
  match pool.first with
  | [] => (pool.num, ⟨[], update pool.used pool.num true, pool.num + 1⟩)
  | freeskb :: first => (freeskb, ⟨first, update pool.used freeskb true, pool.num⟩)

def freeSkb (pool : SkbPool) (freeskb : Skb) : SkbPool :=
  if pool.used freeskb = false then pool
  else ⟨freeskb :: pool.first, update pool.used freeskb false, pool.num⟩

/-! ## Queues -/

/-- `qbuffer_t` without its mutex and condition variables. -/
structure QBuffer where
  maxSize : ℕ
  head : ℕ
  tail : ℕ
  size : ℕ
  q : ℕ → Skb

def qInit (maxSize : ℕ) : QBuffer := ⟨maxSize, 0, 0, 0, fun _ => 0⟩

/-- `q_push_back`; the caller waits while the queue is full. -/
def qPushBack (buff : QBuffer) (entry : Skb) : QBuffer :=
  { buff with
    head := (buff.head + 1) % buff.maxSize
    size := buff.size + 1
    q := update buff.q ((buff.head + 1) % buff.maxSize) entry }

/-- `modulo`; `%` of the source rounds towards zero. -/
def modulo (n : ℤ) (m : ℕ) : ℕ := ((n.tmod m + m).tmod m).toNat

/-- `q_push_front`; the caller waits while the queue is full. -/
def qPushFront (buff : QBuffer) (entry : Skb) : QBuffer :=
  { buff with
    q := update buff.q buff.tail entry
    tail := modulo (buff.tail - 1) buff.maxSize
    size := buff.size + 1 }

/-- `q_pop`; the caller waits while the queue is empty. -/
def qPop (buff : QBuffer) : Skb × QBuffer :=
  (buff.q ((buff.tail + 1) % buff.maxSize),
    { buff with tail := (buff.tail + 1) % buff.maxSize, size := buff.size - 1 })

/-- The calls on a queue, each with its wait. -/
def qbuffer : Object QBuffer (DequeOp Skb) (Option Skb) := fun buff op =>
  match op with
  | .pushBack entry =>
    if buff.size = buff.maxSize then none else some (none, qPushBack buff entry)
  | .pushFront entry =>
    if buff.size = buff.maxSize then none else some (none, qPushFront buff entry)
  | .pop => if buff.size = 0 then none else some (some (qPop buff).1, (qPop buff).2)

/-- The entries that the loop of `q_free` hands to the handler, from `head` down to
`tail + 1`. -/
def qFreed (buff : QBuffer) : List Skb :=
  (List.range (buff.head - buff.tail)).map fun i => buff.q ((buff.head - i) % buff.maxSize)

/-- `q_free` after its loop. -/
def qReset (buff : QBuffer) : QBuffer := { buff with head := 0, tail := 0, size := 0 }

/-- `q_free` with the handler `free_skb`. -/
def qFree (pool : SkbPool) (buff : QBuffer) : SkbPool × QBuffer :=
  ((qFreed buff).foldl freeSkb pool, qReset buff)

end Ctcp
