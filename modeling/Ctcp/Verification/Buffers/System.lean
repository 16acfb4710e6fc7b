import Ctcp.Library.Execution
import Ctcp.Model.Skb
import Ctcp.Model.Transmit
import Ctcp.Verification.Buffers.Queue
import Ctcp.Verification.Pool.System

/-! # The packet buffers of the server

Who has which `Skb`, with `alloc_skb` and `free_skb` as atomic steps. Payloads are left
out, and so is what decides which jobs there are and from which block a packet is sent. -/

namespace Ctcp

open Function

/-! ## State -/

/-- A worker in `coding_job`, with the mutex of slot `k` locked: the rows it still has to
push, how many packets it still has to code, and the buffer for the next one. -/
structure BufferJob where
  k : ℕ
  rows : List ℕ
  coded : ℕ
  hand : Option Skb

/-- Where the server thread stands; `left` are the buffers that a loop still has to free. -/
inductive BufferPhase where
  | idle
  /-- In `send_one`, after its pop. -/
  | sending (skb : Skb)
  /-- In the loop of `handle_ack`, between two blocks. -/
  | acking
  /-- In `freeBlock`. -/
  | freeingRows (left : List Skb)
  /-- In `q_free`. -/
  | freeingQueue (left : List Skb)

/-- `coded a` says that the `flag` in buffer `a` is not `NORMAL`. In `own` are the
buffers that a thread has for itself, as `server_worker` for acknowledgements. -/
structure Buffers where
  pool : SkbPool
  coded : Skb → Bool
  currBlock : ℕ
  maxblockno : ℕ
  blocks : ℕ → List Skb
  codedQ : ℕ → QBuffer
  coders : Fin threads → Option BufferJob
  phase : BufferPhase
  own : List Skb

/-- The slot that `handle_ack` releases; it has the mutex of the block. -/
def Buffers.released (s : Buffers) : Option ℕ :=
  match s.phase with
  | .freeingRows _ | .freeingQueue _ => some (slot s.currBlock)
  | _ => none

/-- A worker has the mutex of the slot. -/
def Buffers.Codes (s : Buffers) (k : ℕ) : Prop := ∃ w c, s.coders w = some c ∧ c.k = k

/-- `curr_block_mutex` is free for `send_ctcp`. -/
def Buffers.Unlocked (s : Buffers) : Prop := s.phase = .idle ∨ ∃ skb, s.phase = .sending skb

/-- The rows that a job pushes as they are, in a block of `len` rows. -/
def jobRows (job : CodingJob) (len : ℕ) : List ℕ :=
  if job.codingWnd = 0 then
    List.range' job.start (min (job.start + job.dofRequest) len - job.start).toNat
  else []

/-- The number of packets that a job codes. -/
def jobCoded (job : CodingJob) (len : ℕ) : ℕ :=
  if job.codingWnd = 0 then (max 0 (job.dofRequest - (len - job.start))).toNat
  else job.dofRequest.toNat

/-! ## Steps -/

inductive BufferEvent where
  | fill
  | alloc (w : Fin threads)
  | borrow
  | release
  | other

inductive BufferStep : Buffers → BufferEvent → Buffers → Prop where
  /-- A round of `readBlock`. -/
  | fill {s : Buffers} (hlock : s.Unlocked) (hfree : ¬s.Codes (slot s.maxblockno))
      (hroom : (s.blocks (slot s.maxblockno)).length < blockSize) :
      BufferStep s .fill
        { s with
          pool := (allocSkb s.pool).2
          blocks := update s.blocks (slot s.maxblockno)
            (s.blocks (slot s.maxblockno) ++ [(allocSkb s.pool).1]) }
  /-- `send_ctcp` moves on to the next block. -/
  | move {s : Buffers} (hlock : s.Unlocked) (hfree : ¬s.Codes (slot s.maxblockno))
      (hfull : (s.blocks (slot s.maxblockno)).length = blockSize)
      (hmax : s.maxblockno < s.currBlock + numBlocks) :
      BufferStep s .other { s with maxblockno := s.maxblockno + 1 }
  /-- A job has passed its check, and takes the mutex of its block. -/
  | start {s : Buffers} {w : Fin threads} {job : CodingJob} (hnone : s.coders w = none)
      (hfree : ¬s.Codes (slot job.blockno)) (hlock : s.released ≠ some (slot job.blockno))
      (hrows : s.blocks (slot job.blockno) ≠ []) :
      BufferStep s .other
        { s with
          coders := update s.coders w (some
            { k := slot job.blockno
              rows := jobRows job (s.blocks (slot job.blockno)).length
              coded := jobCoded job (s.blocks (slot job.blockno)).length
              hand := none }) }
  | pushRow {s : Buffers} {w : Fin threads} {c : BufferJob} {row : ℕ} {rows : List ℕ} {skb : Skb}
      (hcoder : s.coders w = some c) (hrow : c.rows = row :: rows)
      (hskb : (s.blocks c.k)[row]? = some skb) (hroom : (s.codedQ c.k).size < 2 * blockSize) :
      BufferStep s .other
        { s with
          coded := update s.coded skb false
          codedQ := update s.codedQ c.k (qPushBack (s.codedQ c.k) skb)
          coders := update s.coders w (some { c with rows := rows }) }
  | alloc {s : Buffers} {w : Fin threads} {c : BufferJob} {n : ℕ} (hcoder : s.coders w = some c)
      (hrows : c.rows = []) (hn : c.coded = n + 1) (hhand : c.hand = none) :
      BufferStep s (.alloc w)
        { s with
          pool := (allocSkb s.pool).2
          coded := update s.coded (allocSkb s.pool).1 true
          coders := update s.coders w (some { c with hand := some (allocSkb s.pool).1 }) }
  | push {s : Buffers} {w : Fin threads} {c : BufferJob} {skb : Skb} (hcoder : s.coders w = some c)
      (hhand : c.hand = some skb) (hroom : (s.codedQ c.k).size < 2 * blockSize) :
      BufferStep s .other
        { s with
          codedQ := update s.codedQ c.k (qPushBack (s.codedQ c.k) skb)
          coders := update s.coders w (some { c with coded := c.coded - 1, hand := none }) }
  | finish {s : Buffers} {w : Fin threads} {c : BufferJob} (hcoder : s.coders w = some c)
      (hrows : c.rows = []) (hn : c.coded = 0) (hhand : c.hand = none) :
      BufferStep s .other { s with coders := update s.coders w none }
  | pop {s : Buffers} {k : ℕ} (hphase : s.phase = .idle) (hsize : 0 < (s.codedQ k).size) :
      BufferStep s .other
        { s with
          codedQ := update s.codedQ k (qPop (s.codedQ k)).2
          phase := .sending (qPop (s.codedQ k)).1 }
  | sent {s : Buffers} {skb : Skb} (hphase : s.phase = .sending skb) :
      BufferStep s .other
        { s with
          pool := if s.coded skb then freeSkb s.pool skb else s.pool
          phase := .idle }
  | ack {s : Buffers} (hphase : s.phase = .idle) : BufferStep s .other { s with phase := .acking }
  /-- The current block is acknowledged. -/
  | release {s : Buffers} (hphase : s.phase = .acking) (hfree : ¬s.Codes (slot s.currBlock)) :
      BufferStep s .release { s with phase := .freeingRows (s.blocks (slot s.currBlock)) }
  | freeRow {s : Buffers} {skb : Skb} {left : List Skb}
      (hphase : s.phase = .freeingRows (skb :: left)) :
      BufferStep s .other { s with pool := freeSkb s.pool skb, phase := .freeingRows left }
  /-- The end of `freeBlock`, and the beginning of `q_free`. -/
  | rowsFreed {s : Buffers} (hphase : s.phase = .freeingRows []) :
      BufferStep s .other
        { s with
          blocks := update s.blocks (slot s.currBlock) []
          phase := .freeingQueue (qFreed (s.codedQ (slot s.currBlock))) }
  | freeQueued {s : Buffers} {skb : Skb} {left : List Skb}
      (hphase : s.phase = .freeingQueue (skb :: left)) :
      BufferStep s .other { s with pool := freeSkb s.pool skb, phase := .freeingQueue left }
  | released {s : Buffers} (hphase : s.phase = .freeingQueue []) :
      BufferStep s .other
        { s with
          codedQ := update s.codedQ (slot s.currBlock) (qReset (s.codedQ (slot s.currBlock)))
          currBlock := s.currBlock + 1
          maxblockno := max (s.currBlock + 1) s.maxblockno
          phase := .acking }
  | ackEnd {s : Buffers} (hphase : s.phase = .acking) :
      BufferStep s .other { s with phase := .idle }
  /-- A thread takes a buffer for itself, and gives it back. -/
  | borrow {s : Buffers} :
      BufferStep s .borrow
        { s with pool := (allocSkb s.pool).2, own := (allocSkb s.pool).1 :: s.own }
  | giveBack {s : Buffers} {skb : Skb} (hskb : skb ∈ s.own) :
      BufferStep s .other { s with pool := freeSkb s.pool skb, own := s.own.erase skb }

/-- No buffer is allocated yet. -/
def noBuffers : Buffers where
  pool := ⟨[], fun _ => false, 0⟩
  coded := fun _ => false
  currBlock := 1
  maxblockno := 1
  blocks := fun _ => []
  codedQ := fun _ => qInit (2 * blockSize)
  coders := fun _ => none
  phase := .idle
  own := []

/-- `memory` is what `malloc` leaves in the blocks: as many entries as the length says. -/
def buffers (memory : ℕ → List Skb) : System Buffers BufferEvent where
  init s := s = { noBuffers with blocks := memory }
  step := BufferStep

end Ctcp
