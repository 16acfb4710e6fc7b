import Ctcp.Library.Channel
import Ctcp.Model.Params

/-! # The circular byte buffer of `fifo.c`

Each completed call is one step under `q_mutex_`. A call that would have to wait
on a condition variable has no result here. -/

namespace Ctcp

/-- `fifo_t` without its mutex and condition variables. -/
structure Fifo where
  released : Bool
  maxSize : ℕ
  head : ℕ
  tail : ℕ
  q : ℕ → UInt8
  size : ℕ

namespace Fifo

/-- `memcpy` of a whole buffer to position `pos`. -/
def copyIn (q : ℕ → UInt8) (pos : ℕ) (bytes : List UInt8) : ℕ → UInt8 := fun i =>
  if pos ≤ i then bytes.getD (i - pos) (q i) else q i

/-- `memcpy` of `n` bytes out of position `pos`. -/
def copyOut (q : ℕ → UInt8) (pos n : ℕ) : List UInt8 :=
  (List.range n).map fun i => q (pos + i)

end Fifo

open Fifo

def fifoInit (maxSize : ℕ) : Fifo where
  released := false
  maxSize := maxSize
  head := 0
  tail := 0
  q := fun _ => 0
  size := 0

def fifoGetspace (Q : Fifo) : ℕ := Q.maxSize - Q.size

/-- `MIN` of `util.h` on `size_t`. -/
def minMacro (x y : UInt64) : UInt64 := y ^^^ ((x ^^^ y) &&& (if x < y then -1 else 0))

/-- `fifo_push`; the caller waits while the buffer is full and not released. -/
def fifoPush (Q : Fifo) (buf : List UInt8) : Option (ℕ × Fifo) :=
  if Q.size = Q.maxSize ∧ Q.released = false then none
  else
    let pushSize := min buf.length (Q.maxSize - Q.size)
    let tailToEnd := Q.maxSize - Q.tail
    let q :=
      if pushSize ≤ tailToEnd then copyIn Q.q Q.tail (buf.take pushSize)
      else
        copyIn (copyIn Q.q Q.tail (buf.take tailToEnd)) 0
          ((buf.drop tailToEnd).take (pushSize - tailToEnd))
    some (pushSize,
      { Q with
        q := q
        tail := (Q.tail + pushSize) % Q.maxSize
        size := Q.size + pushSize })

/-- `fifo_pop`; the caller waits while the buffer is empty and not released. -/
def fifoPop (Q : Fifo) (n : ℕ) : Option (List UInt8 × Fifo) :=
  if Q.size = 0 ∧ Q.released = false then none
  else
    let popSize := min n Q.size
    let headToEnd := Q.maxSize - Q.head
    let buf :=
      if popSize ≤ headToEnd then copyOut Q.q Q.head popSize
      else copyOut Q.q Q.head headToEnd ++ copyOut Q.q 0 (popSize - headToEnd)
    some (buf,
      { Q with
        head := (Q.head + popSize) % Q.maxSize
        size := Q.size - popSize })

def fifoRelease (Q : Fifo) : Fifo := { Q with released := true }

/-- The calls on a buffer, each with its wait. -/
def fifo : Object Fifo (ChannelOp UInt8) (ChannelReply UInt8) := fun Q op =>
  match op with
  | .push buf => (fifoPush Q buf).map fun pushed => (.pushed pushed.1, pushed.2)
  | .pop n => (fifoPop Q n).map fun popped => (.popped popped.1, popped.2)
  | .close => some (.closed, fifoRelease Q)

end Ctcp
