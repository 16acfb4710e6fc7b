import Ctcp.Model.Packet
import Mathlib.Algebra.Ring.Int.Defs
import Mathlib.Algebra.Ring.Nat
import Mathlib.Data.Rat.Defs
import Mathlib.Logic.Function.Basic

/-! # The server's blocks, from `srvctcp.c`

Block numbers are natural numbers; the source keeps them in 32 bits. Skb
allocation succeeds, and the connection stays `ACTIVE`. -/

namespace Ctcp

open Function

/-! ## 32-bit integers -/

/-- An integer converted to `uint32_t`. -/
def uint32 (z : ℤ) : ℤ := z % 2 ^ 32

/-- An integer converted to `int`. -/
def int32 (z : ℤ) : ℤ := if uint32 z < 2 ^ 31 then uint32 z else uint32 z - 2 ^ 32

/-! ## State -/

/-- `coding_job_t`. -/
structure CodingJob where
  blockno : ℕ
  start : ℕ
  dofRequest : ℤ
  codingWnd : ℕ

/-- The fields of a `Substream_Path` that decide what is sent. -/
structure SubstreamPath where
  onFly : ℕ → ℕ
  packetsSent : ℕ → ℕ
  sndNxt : ℕ
  sndUna : ℕ
  sndCwnd : ℕ
  slr : ℚ

/-- The fields of a `srvctcp_sock` that its threads share, and its paths. The rows
of a `Block_t` are a list, whose length is `len`; `jobs` are those that the thread
pool has not started. -/
structure Server where
  dofReqLatest : ℤ
  maxblockno : ℕ
  currBlock : ℕ
  blocks : ℕ → List Payload
  dofRemain : ℕ → ℤ
  codedQ : ℕ → List DataPckt
  jobs : List CodingJob
  slrScaling : ℚ
  activePaths : ℕ → SubstreamPath
  numActive : ℕ

/-- The rows of the slot that block number `b` uses. -/
def Server.block (sk : Server) (b : ℕ) : List Payload := sk.blocks (slot b)

/-- What `malloc` leaves in the blocks of a socket: as many rows as the length of each
block says, with any bytes. A negative length has no rows to show here. -/
abbrev BlockMemory := ℕ → List Payload

/-- Memory in which every block has the length 0. -/
def noRows : BlockMemory := fun _ => []

def BlockMemory.Clear (memory : BlockMemory) : Prop := ∀ k, memory k = []

theorem BlockMemory.Clear.eq_noRows {memory : BlockMemory} (h : memory.Clear) : memory = noRows :=
  funext h

/-- `create_srvctcp_sock` on the memory that `malloc` returned; nothing is written to the
lengths of the blocks. -/
def createSrvctcpSock (memory : BlockMemory) (slrScaling : ℚ) (activePaths : ℕ → SubstreamPath)
    (numActive : ℕ) : Server where
  dofReqLatest := blockSize
  maxblockno := 1
  currBlock := 1
  blocks := memory
  dofRemain _ := 0
  codedQ _ := []
  jobs := []
  slrScaling := slrScaling
  activePaths := activePaths
  numActive := numActive

/-! ## Filling blocks -/

/-- `(uint16_t) MIN(PAYLOAD_SIZE-2, bytes_left)`. The macro does not parenthesise
its result, so the cast applies to its first operand only. -/
def bytesRead (bytesLeft : UInt32) : UInt16 :=
  let x : UInt64 := UInt64.ofNat (payloadSize - 2)
  (bytesLeft.toUInt16.toUInt64 ^^^
    ((x ^^^ bytesLeft.toUInt64) &&& (if x < bytesLeft.toUInt64 then -1 else 0))).toUInt16

/-- A row: the length of the data in network order, the data, and zeros. -/
def packRow (bytes : List UInt8) : Payload := fun i =>
  if (i : ℕ) = 0 then UInt8.ofNat (bytes.length / 256)
  else if (i : ℕ) = 1 then UInt8.ofNat (bytes.length % 256)
  else bytes.getD (i - 2) 0

/-- The loop of `readBlock`: the rows of the block and the bytes left over. -/
def readRows : ℕ → List Payload → List UInt8 → List Payload × List UInt8
  | 0, rows, buf => (rows, buf)
  | fuel + 1, rows, buf =>
    if rows.length < blockSize ∧ buf ≠ [] then
      let n := (bytesRead (UInt32.ofNat buf.length)).toNat
      readRows fuel (rows ++ [packRow (buf.take n)]) (buf.drop n)
    else (rows, buf)

/-- `readBlock`. Every round adds a row, so `blockSize` rounds are enough. -/
def readBlock (rows : List Payload) (buf : List UInt8) : List Payload × List UInt8 :=
  readRows blockSize rows buf

/-- What the loop of `send_ctcp` does next. -/
inductive SendStatus where
  /-- Go on with the loop condition. -/
  | goOn
  /-- Wait for a block to be freed, for at most 100 ms. -/
  | waits
  deriving DecidableEq

/-- One round of the loop of `send_ctcp` on the bytes `rest` that are left. -/
def sendCtcpRound (sk : Server) (rest : List UInt8) : Server × List UInt8 × SendStatus :=
  let i := sk.maxblockno
  let read := readBlock (sk.block i) rest
  if read.2.length < rest.length then
    let dofRequest : ℤ := read.1.length - (sk.block i).length
    ({ sk with
        blocks := update sk.blocks (slot i) read.1
        dofRemain := update sk.dofRemain (slot i) (sk.dofRemain (slot i) + dofRequest)
        jobs := sk.jobs ++ [⟨i, (sk.block i).length, dofRequest, 0⟩]
        dofReqLatest :=
          if i = sk.currBlock then sk.dofReqLatest + dofRequest else sk.dofReqLatest },
      read.2, .goOn)
  else if sk.maxblockno < sk.currBlock + numBlocks then
    ({ sk with maxblockno := sk.maxblockno + 1 }, rest, .goOn)
  else (sk, rest, .waits)

/-! ## Acknowledgements -/

/-- The first section of `server_worker`. -/
def startWorker (sk : Server) : Server :=
  { sk with dofReqLatest := (sk.block sk.currBlock).length }

/-- The loop body of `handle_ack`: the current block is done. -/
def freeCurrBlock (sk : Server) : Server :=
  { sk with
    blocks := update sk.blocks (slot sk.currBlock) []
    activePaths := fun j =>
      if j < sk.numActive then
        { sk.activePaths j with
          packetsSent := update (sk.activePaths j).packetsSent (slot sk.currBlock) 0 }
      else sk.activePaths j
    dofRemain := update sk.dofRemain (slot sk.currBlock) 0
    codedQ := update sk.codedQ (slot sk.currBlock) []
    currBlock := sk.currBlock + 1
    maxblockno := max (sk.currBlock + 1) sk.maxblockno }

/-- The loop of `handle_ack`, `n` rounds. -/
def freeBlocks : ℕ → Server → Server
  | 0, sk => sk
  | n + 1, sk => freeBlocks n (freeCurrBlock sk)

/-- The value that `handle_ack` computes for `dof_req_latest`, before it replaces a
negative one by zero; `sk` is the state after the loop. -/
def ackDofReq (sk : Server) (advanced : Bool) (ack : AckPckt) : ℤ :=
  let missing := uint32 ((sk.block sk.currBlock).length - ack.dofRec.toNat)
  if advanced then int32 missing else int32 (min (uint32 sk.dofReqLatest) missing)

/-- The section of `handle_ack` under `curr_block_mutex`. -/
def handleAckBlocks (sk : Server) (ack : AckPckt) : Server :=
  let freed := freeBlocks (ack.blockno - sk.currBlock) sk
  { freed with dofReqLatest := max 0 (ackDofReq freed (sk.currBlock < ack.blockno) ack) }

end Ctcp
