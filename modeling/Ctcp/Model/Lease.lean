import Ctcp.Library.Text
import Mathlib.Data.Int.Notation
import Mathlib.Logic.Function.Basic

/-! # The lease file

From `clictcp.c` the function `readLease`. What C leaves undefined has no result here: a word
that is too long for its buffer, a buffer that holds no word yet, an index outside `leases`,
and an `int` that overflows. -/

namespace Ctcp

/-- `MAX_SUBSTREAMS`, the length of `leases` in the functions that call `readLease`. -/
def maxSubstreams : ℕ := 5

/-- `INT_MAX` -/
def intMax : ℤ := 2147483647

/-- The fields of `dhcp_lease`. -/
inductive LeaseField where
  | interface
  | address
  | gateway
  | netmask
  deriving DecidableEq

/-- A `dhcp_lease`, with the strings that have been stored in it. -/
abbrev DhcpLease := LeaseField → Option (List UInt8)

/-! ## The table -/

/-- `leases` and the index into it. -/
structure LeaseTable where
  substreams : ℤ
  leases : ℕ → DhcpLease

namespace LeaseTable

/-- `substreams++` -/
def next (t : LeaseTable) : Option LeaseTable :=
  if t.substreams < intMax then some { t with substreams := t.substreams + 1 } else none

/-- An assignment to a field of `leases[substreams]`. -/
def store (t : LeaseTable) (f : LeaseField) (s : List UInt8) : Option LeaseTable :=
  if 0 ≤ t.substreams ∧ t.substreams < maxSubstreams then
    let k := t.substreams.toNat
    some { t with leases := Function.update t.leases k (Function.update (t.leases k) f (some s)) }
  else none

end LeaseTable

/-! ## The buffers -/

/-- A `char[64]`: the word in it, and whether the last `sscanf` has put it there. -/
structure ScanBuffer where
  word : Option (List UInt8)
  fresh : Bool

/-- A conversion `%s` into the buffer, which keeps what it holds when the line has no more
words. -/
def ScanBuffer.scan (buf : ScanBuffer) : Option (List UInt8) → Option ScanBuffer
  | none => some { buf with fresh := false }
  | some w => if w.length < 64 then some { word := some w, fresh := true } else none

structure LeaseReader where
  type : ScanBuffer
  val1 : ScanBuffer
  val2 : ScanBuffer
  table : LeaseTable
  /-- A word was used that the last `sscanf` had not read. -/
  leftover : Bool

/-! ## The loop -/

def strlen (s : List UInt8) : UInt64 := s.length.toUInt64

def strndup (s : List UInt8) (n : UInt64) : List UInt8 := s.take n.toNat

namespace LeaseReader

/-- `readLease` when it enters the loop. -/
def start : LeaseReader where
  type := { word := none, fresh := false }
  val1 := { word := none, fresh := false }
  val2 := { word := none, fresh := false }
  table := { substreams := -1, leases := fun _ _ => none }
  leftover := false

/-- `sscanf(line,"%s %s %s",type, val1, val2)`; nothing looks at its result. -/
def sscanf (r : LeaseReader) (line : List UInt8) : Option LeaseReader := do
  let type ← r.type.scan (scanWords line)[0]?
  let val1 ← r.val1.scan (scanWords line)[1]?
  let val2 ← r.val2.scan (scanWords line)[2]?
  return { r with type := type, val1 := val1, val2 := val2 }

/-- A buffer is read. -/
def use (r : LeaseReader) (buf : ScanBuffer) : Option (List UInt8 × LeaseReader) := do
  let w ← buf.word
  return (w, { r with leftover := r.leftover || !buf.fresh })

def next (r : LeaseReader) : Option LeaseReader := do
  let table ← r.table.next
  return { r with table := table }

def store (r : LeaseReader) (f : LeaseField) (s : List UInt8) : Option LeaseReader := do
  let table ← r.table.store f s
  return { r with table := table }

/-- What the body does after `option`, with the word in `val1`. -/
def option (r : LeaseReader) (val1 : List UInt8) : Option LeaseReader := do
  if val1 = ascii "subnet-mask" then
    let (val2, r) ← r.use r.val2
    r.store .netmask (strndup val2 (strlen val2 - 1))
  else if val1 = ascii "routers" then
    let (val2, r) ← r.use r.val2
    r.store .gateway (strndup val2 (strlen val2 - 1))
  else return r

/-- What the body does with the word in `type`. -/
def dispatch (r : LeaseReader) (type : List UInt8) : Option LeaseReader := do
  if type.head? = some 35 then return r  -- '#'
  else if type = ascii "lease" then r.next
  else if type = ascii "fixed-address" then
    let (val1, r) ← r.use r.val1
    r.store .address (strndup val1 (strlen val1 - 1))
  else if type = ascii "interface" then
    let (val1, r) ← r.use r.val1
    r.store .interface (strndup (val1.drop 1) (strlen val1 - 3))
  else if type = ascii "option" then
    let (val1, r) ← r.use r.val1
    r.option val1
  else return r

/-- The body of the loop. -/
def body (r : LeaseReader) (line : List UInt8) : Option LeaseReader := do
  let r ← r.sscanf line
  let (type, r) ← r.use r.type
  r.dispatch type

end LeaseReader

/-- `readLease` on the bytes of the file, if it can be opened: the result, and the reader with
the table as it leaves it. -/
def readLease (leasefile : Option (List UInt8)) : Option (ℤ × LeaseReader) :=
  match leasefile with
  | none => some (-1, .start)
  | some fp => do
    let r ← foldFgets 128 LeaseReader.body (fp.length + 1) .start fp
    if r.table.substreams < intMax then return (r.table.substreams + 1, r) else none

end Ctcp
