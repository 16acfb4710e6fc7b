import Ctcp.Library.Program
import Ctcp.Model.FiniteField
import Ctcp.Model.Packet
import Ctcp.Model.Random
import Mathlib.Logic.Function.Basic

/-! # The client's decoder block, from `clictcp.c`

A result `none` stands for an access outside an array or through a null pointer. -/

namespace Ctcp

open Function

/-- Bytes the client reads although it never wrote them: the part of `coeff` that
`bldack` leaves uninitialised, and what lies in memory behind a row's payload. -/
structure Residue where
  stack : ℕ → UInt8
  heap : ℕ → ℕ → UInt8

/-- `Coded_Block_t` without `skb` and `max_coding_wnd`. -/
structure CodedBlock where
  dofs : ℕ
  len : ℕ
  rows : ℕ → ℕ → UInt8
  rowLen : ℕ → ℕ
  content : ℕ → Option Payload
  dofsPushed : ℕ
  maxPacketIndex : ℕ

/-- The value `-1` that marks an empty row in its first coefficient. -/
def emptyRow : UInt8 := 0xff

/-- Row `r` holds an equation. -/
def CodedBlock.Occupied (blk : CodedBlock) (r : ℕ) : Prop := blk.rows r 0 ≠ emptyRow

instance (blk : CodedBlock) (r : ℕ) : Decidable (blk.Occupied r) :=
  inferInstanceAs (Decidable (_ ≠ _))

def initCodedBlock (blk : CodedBlock) : CodedBlock where
  dofs := 0
  len := blockSize
  rows r k := if r < blockSize ∧ k = 0 then emptyRow else blk.rows r k
  rowLen r := if r < blockSize then 0 else blk.rowLen r
  content r := if r < blockSize then none else blk.content r
  dofsPushed := 0
  maxPacketIndex := 0

/-! ## Rows of coefficients

A coefficient row is kept as the list of its first `num_packets` entries; the
entries behind them are written by the elimination but never read. -/

/-- Moves the first nonzero entry to the front, padding with zeros. -/
def shiftRow (buf : List UInt8) : ℕ × List UInt8 :=
  let shift := (buf.takeWhile (· == 0)).length
  (shift, buf.drop shift ++ List.replicate shift 0)

def isEmpty (coefficients : List UInt8) : Bool := coefficients.all (· == 0)

def normalize (coefficients : List UInt8) (payload : Payload) : List UInt8 × Payload :=
  if coefficients.headD 0 ≠ 1 then
    let logpivot := xFFlog (inverse (coefficients.headD 0))
    (coefficients.map (fastFFmult · logpivot), fun i => fastFFmult (payload i) logpivot)
  else (coefficients, payload)

/-! ## Elimination, "THE while loop" of `bldack` -/

/-- The loop body for an occupied row, on the coefficients: subtracts the multiple
of the row that cancels the leading one. Only `coeff.length` entries are kept. -/
def subtractCoeffs (row : ℕ → UInt8) (rowLen : ℕ) (coeff : List UInt8) : List UInt8 :=
  let logpivot := xFFlog (coeff.headD 0)
  coeff.mapIdx fun i c =>
    if i = 0 then 0
    else if i < rowLen then c ^^^ fastFFmult (row i) logpivot
    else c

/-- The same subtraction on the payload. -/
def subtractPayload (content : Payload) (pivot : UInt8) (payload : Payload) : Payload :=
  let logpivot := xFFlog pivot
  fun i => payload i ^^^ fastFFmult (content i) logpivot

/-- The loop body for an empty row: cuts the packet at the end of the block,
normalises it and stores it. -/
def insertRow (blk : CodedBlock) (start : ℕ) (coeff : List UInt8) (payload : Payload) :
    CodedBlock :=
  let numPackets := min coeff.length (blockSize - start)
  let row := normalize (coeff.take numPackets) payload
  { blk with
    rowLen := update blk.rowLen start numPackets
    rows := update blk.rows start fun k =>
      if k < numPackets then row.1.getD k 0 else blk.rows start k
    content := update blk.content start (some row.2)
    dofs := blk.dofs + 1 }

/-- The loop itself. `start` is a `uint8_t`, and grows in every round that does
not end the loop, so `blockSize` rounds are enough. -/
def eliminate (blk : CodedBlock) : ℕ → ℕ → List UInt8 → Payload → Option CodedBlock
  | 0, _, coeff, _ => if isEmpty coeff then some blk else none
  | fuel + 1, start, coeff, payload =>
    if isEmpty coeff then some blk
    else if blockSize ≤ start then none
    else if blk.Occupied start then
      match blk.content start with
      | none => none
      | some content =>
        let shifted := shiftRow (subtractCoeffs (blk.rows start) (blk.rowLen start) coeff)
        eliminate blk fuel ((start + shifted.1) % 256) shifted.2
          (subtractPayload content (coeff.headD 0) payload)
    else some (insertRow blk start coeff payload)

/-- The coefficients of an arriving packet, reconstructed from its header. -/
def arrivingCoeffs (rm : Residue) (msg : DataPckt) : List UInt8 :=
  if msg.flag = .coded then packetCoeffs msg.packetCoeff msg.blockno msg.numPackets.toNat
  else (List.range msg.numPackets.toNat).map fun i => if i = 0 then 1 else rm.stack i

/-- What `bldack` does with a packet of a block that is in the window and not full. -/
def insertPacket (rm : Residue) (blk : CodedBlock) (msg : DataPckt) : Option CodedBlock :=
  if blockSize < msg.numPackets.toNat then none
  else
    let shifted := shiftRow (arrivingCoeffs rm msg)
    eliminate blk blockSize ((msg.startPacket.toNat + shifted.1) % 256) shifted.2 msg.payload

/-! ## Back substitution -/

/-- One round of the inner loop of `unwrap`. -/
def unwrapOffset (blk : CodedBlock) (row offset : ℕ) : Option CodedBlock :=
  if blk.rows row offset = 0 then some blk
  else if blockSize ≤ row + offset then none
  else
    match blk.content row, blk.content (row + offset) with
    | some dst, some src =>
      let log := xFFlog (blk.rows row offset)
      some { blk with
        content := update blk.content row (some fun i => dst i ^^^ fastFFmult (src i) log) }
    | _, _ => none

/-- The inner loop of `unwrap`, `n` rounds from `offset` on. -/
def unwrapOffsets (row : ℕ) : ℕ → ℕ → CodedBlock → Option CodedBlock
  | 0, _, blk => some blk
  | n + 1, offset, blk => (unwrapOffset blk row offset).bind (unwrapOffsets row n (offset + 1))

def unwrapRow (blk : CodedBlock) (row : ℕ) : Option CodedBlock :=
  if blockSize ≤ row then none
  else
    (unwrapOffsets row (blk.rowLen row - 1) 1 blk).map fun blk =>
      { blk with rowLen := update blk.rowLen row 1 }

/-- The outer loop of `unwrap`: rows `low + n - 1` down to `low`. -/
def unwrapRows (low : ℕ) : ℕ → CodedBlock → Option CodedBlock
  | 0, blk => some blk
  | n + 1, blk => (unwrapRow blk (low + n)).bind (unwrapRows low n)

def unwrap (blk : CodedBlock) : Option CodedBlock :=
  unwrapRows blk.dofsPushed (blk.maxPacketIndex - 1 - blk.dofsPushed) blk

/-! ## Handing rows to the application -/

/-- The calls of the decoder on `usr_cache`; both are answered by a number. -/
inductive FifoCall where
  | getspace
  | push (bytes : List UInt8)

/-- Code that uses `usr_cache`. -/
abbrev FifoProgram := Program FifoCall ℕ

/-- The loop around `fifo_push`: `false` when a push returned 0, which means that
the buffer has been released. Every other round pushes at least one byte. -/
def pushBytes : ℕ → List UInt8 → FifoProgram Bool
  | 0, _ => .done true
  | fuel + 1, bytes =>
    if bytes = [] then .done true
    else .call (.push bytes) fun pushed =>
      if pushed = 0 then .done false else pushBytes fuel (bytes.drop pushed)

/-- Row `start` is a source row by itself. -/
def CodedBlock.Decoded (blk : CodedBlock) (start : ℕ) : Prop :=
  blk.Occupied start ∧ ∀ i < blk.rowLen start, 1 ≤ i → blk.rows start i = 0

instance (blk : CodedBlock) (start : ℕ) : Decidable (blk.Decoded start) :=
  inferInstanceAs (Decidable (_ ∧ _))

/-- The loop of `partial_write`; a pass over `blockSize` rows would leave the matrix. -/
def pushDecoded (rm : Residue) (blk : CodedBlock) : ℕ → ℕ → FifoProgram (Option CodedBlock)
  | 0, _ => .done none
  | fuel + 1, start =>
    if blockSize ≤ start then .done none
    else if blk.Decoded start then
      match blk.content start with
      | none => .done none
      | some content =>
        .call .getspace fun space =>
          if content.payloadLen ≤ space then
            (pushBytes content.payloadLen (content.data (rm.heap start))).bind fun pushed =>
              if pushed then pushDecoded rm blk fuel (start + 1) else .done (some blk)
          else .done (some { blk with dofsPushed := start })
    else .done (some { blk with dofsPushed := start })

def partialWrite (rm : Residue) (blk : CodedBlock) : FifoProgram (Option CodedBlock) :=
  match if blk.dofs = blk.maxPacketIndex then unwrap blk else some blk with
  | none => .done none
  | some blk => pushDecoded rm blk (blockSize + 1) blk.dofsPushed

/-- The loop of `writeAndFreeBlock`, `n` rows from row `i` on. -/
def writeRows (rm : Residue) (blk : CodedBlock) : ℕ → ℕ → FifoProgram (Option Unit)
  | 0, _ => .done (some ())
  | n + 1, i =>
    match blk.content i with
    | none => .done none
    | some content =>
      (pushBytes content.payloadLen (content.data (rm.heap i))).bind fun pushed =>
        if pushed then writeRows rm blk n (i + 1) else .done (some ())

def writeAndFreeBlock (rm : Residue) (blk : CodedBlock) : FifoProgram (Option Unit) :=
  writeRows rm blk (blk.len - blk.dofsPushed) blk.dofsPushed

end Ctcp
