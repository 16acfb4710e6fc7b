import Ctcp.Model.Coding
import Ctcp.Model.Server
import Mathlib.Algebra.Order.Ring.Unbundled.Rat

/-! # Sending and coding, from `srvctcp.c`

Rates are rational numbers here. The estimators of a path are not modelled: whoever
uses these definitions supplies the loss rate and the window that they leave. -/

namespace Ctcp

open Function

/-- `MIN_DOF_REQUEST` -/
def minDofRequest : ℤ := 0

/-- `initsegs`, the window of a new path. -/
def initsegs : ℕ := 8

/-! ## Paths -/

/-- `init_stream` -/
def initStream : SubstreamPath where
  onFly _ := 0
  packetsSent _ := 0
  sndNxt := 1
  sndUna := 1
  sndCwnd := initsegs
  slr := 0

def Server.setPath (sk : Server) (pin : ℕ) (path : SubstreamPath) : Server :=
  { sk with activePaths := update sk.activePaths pin path }

/-- A SYN of an unknown client address. -/
def addPath (sk : Server) : Server :=
  { sk.setPath sk.numActive initStream with numActive := sk.numActive + 1 }

def removePath (sk : Server) (deadIndex : ℕ) : Server :=
  { sk with
    activePaths := fun j =>
      if deadIndex ≤ j ∧ j < sk.numActive - 1 then sk.activePaths (j + 1) else sk.activePaths j
    numActive := sk.numActive - 1 }

/-- What `timeout` does to a path that stays; `slr` is its long-term loss rate. -/
def timeoutPath (path : SubstreamPath) (slr : ℚ) : SubstreamPath :=
  if path.sndNxt ≠ path.sndUna then
    { path with slr := slr, sndCwnd := initsegs, sndUna := path.sndNxt }
  else { path with slr := slr }

/-- The end of `handle_ack` on a bad, a late or a good acknowledgement. -/
def ackPath (path : SubstreamPath) (ackno : ℕ) (slr : ℚ) (cwnd : ℕ) : SubstreamPath :=
  { path with sndUna := max path.sndUna ackno, slr := slr, sndCwnd := cwnd }

/-- `handle_ack`: what it returns, and the state it leaves. `slr` and `cwnd` are what
the estimators make of an acknowledgement that is not bad. -/
def handleAck (sk : Server) (ack : AckPckt) (pin : ℕ) (slr : ℚ) (cwnd : ℕ) : ℤ × Server :=
  let sk := handleAckBlocks sk ack
  let subpath := sk.activePaths pin
  if subpath.sndNxt < ack.ackno ∨ sk.currBlock < ack.blockno then
    (-1, sk.setPath pin
      { subpath with
        sndUna := if subpath.sndUna < ack.ackno then ack.ackno else subpath.sndUna })
  else
    (0, sk.setPath pin
      { subpath with
        sndUna := if ack.ackno ≤ subpath.sndUna then subpath.sndUna else ack.ackno
        slr := slr
        sndCwnd := cwnd })

/-! ## `send_segs` -/

/-- The local variables of `send_segs` between two blocks. -/
structure SegsLoop where
  pin : ℕ
  win : ℤ
  blockno : ℕ
  maxblockno : ℕ
  currOnFly : ℕ → ℕ

def window (path : SubstreamPath) : ℤ := path.sndCwnd - ((path.sndNxt : ℤ) - path.sndUna)

/-- The packets of a block that are in flight on a path; `fresh k` says that packet
`k` is not overdue yet. -/
def inFlight (path : SubstreamPath) (blockno : ℕ) (fresh : ℕ → Bool) : ℕ :=
  ((List.range' path.sndUna (path.sndNxt - path.sndUna)).filter fun k =>
    path.onFly (k % maxCwnd) = blockno ∧ fresh k).length

/-- `send_segs` up to its loop. -/
def segsStart (sk : Server) (pin : ℕ) (fresh : ℕ → ℕ → Bool) : SegsLoop where
  pin := pin
  win := window (sk.activePaths pin)
  blockno := sk.currBlock
  maxblockno := sk.maxblockno
  currOnFly j := inFlight (sk.activePaths j) sk.currBlock (fresh j)

/-- The condition of the loop over the blocks. -/
def SegsLoop.GoesOn (sk : Server) (l : SegsLoop) : Prop :=
  0 < l.win ∧ l.blockno ≤ sk.currBlock + numBlocks ∧
    (l.maxblockno = 0 ∨ l.blockno ≤ l.maxblockno)

instance (sk : Server) (l : SegsLoop) : Decidable (l.GoesOn sk) :=
  inferInstanceAs (Decidable (_ ∧ _))

/-- `p`, the scaled loss rate of a path. -/
def lossRate (sk : Server) (j : ℕ) : ℚ := min 1 (sk.slrScaling * (sk.activePaths j).slr)

def meanOnFly (sk : Server) (currOnFly : ℕ → ℕ) : ℚ :=
  (List.range sk.numActive).foldl (fun mean j => mean + (1 - lossRate sk j) * currOnFly j) 0

def dofRequestTmp (sk : Server) (blockno : ℕ) : ℤ :=
  if blockno = sk.currBlock then sk.dofReqLatest else (sk.block blockno).length

/-- The loop that counts `dof_needed` up; it ends at `win`, so `win` rounds are enough. -/
def needLoop (win : ℤ) (p mean : ℚ) (request : ℤ) : ℕ → ℕ → ℕ
  | 0, need => need
  | fuel + 1, need =>
    if (need : ℤ) < win ∧ need * (1 - p) + mean < request then
      needLoop win p mean request fuel (need + 1)
    else need

/-- `dof_needed` for the next block. `mean_OnFly` is taken before `CurrOnFly` is set
for that block, so it is about the block before. -/
def dofNeeded (sk : Server) (l : SegsLoop) : ℕ :=
  needLoop l.win (lossRate sk l.pin) (meanOnFly sk l.currOnFly) (dofRequestTmp sk l.blockno)
    l.win.toNat 0

/-- `CurrOnFly` after the block has been examined. -/
def nextOnFly (sk : Server) (l : SegsLoop) : ℕ → ℕ :=
  if l.blockno = sk.currBlock then l.currOnFly
  else fun j => (sk.activePaths j).packetsSent (slot l.blockno)

/-- A job is added when the credit of the block is less than what is needed. -/
def assignJob (sk : Server) (blockno need : ℕ) : Server :=
  if sk.dofRemain (slot blockno) < need then
    let dofRequest := minDofRequest + need - sk.dofRemain (slot blockno)
    { sk with
      jobs := sk.jobs ++ [⟨blockno, 0, dofRequest, maxCodingWnd⟩]
      dofRemain :=
        update sk.dofRemain (slot blockno) (sk.dofRemain (slot blockno) + dofRequest) }
  else sk

/-- `send_one` after its pop, with the increment of `snd_nxt` that follows it. -/
def sendOne (sk : Server) (blockno pin : ℕ) : Server :=
  let subpath := sk.activePaths pin
  sk.setPath pin
    { subpath with
      onFly := update subpath.onFly (subpath.sndNxt % maxCwnd) blockno
      sndNxt := subpath.sndNxt + 1 }

/-- The section after `send_one`. -/
def countSent (sk : Server) (blockno pin : ℕ) : Server :=
  let subpath := sk.activePaths pin
  { sk.setPath pin
      { subpath with
        packetsSent :=
          update subpath.packetsSent (slot blockno) (subpath.packetsSent (slot blockno) + 1) } with
    dofRemain := update sk.dofRemain (slot blockno) (sk.dofRemain (slot blockno) - 1) }

/-! ## `coding_job` -/

/-- The rows that a job goes by: it keeps the length of the block in a `uint8_t`. -/
def blockLenRows (rows : List Payload) : List Payload := rows.take (rows.length % 256)

theorem blockLenRows_of_le {rows : List Payload} (h : rows.length ≤ blockSize) :
    blockLenRows rows = rows := by
  have hlt : rows.length < 256 := h.trans_lt (by decide)
  rw [blockLenRows, Nat.mod_eq_of_lt hlt, List.take_length]

/-- Row `row` as an uncoded packet. -/
def rowPacket (rows : List Payload) (blockno row : ℕ) : DataPckt where
  flag := .normal
  seqno := 0
  blockno := blockno
  startPacket := UInt8.ofNat row
  numPackets := 1
  packetCoeff := 1
  payload := rows.getD row fun _ => 0

/-- The packets of an uncoded job: rows `start, …, start + dof_request - 1`, as far as
the block has them. -/
def uncodedPackets (rows : List Payload) (job : CodingJob) : List DataPckt :=
  if job.codingWnd = 0 then
    (List.range' job.start
      (min (job.start + job.dofRequest) rows.length - job.start).toNat).map
        (rowPacket rows job.blockno)
  else []

/-- The number of coded packets that a job makes. -/
def codedCount (rows : List Payload) (job : CodingJob) : ℕ :=
  if job.codingWnd = 0 then (max 0 (job.dofRequest - (rows.length - job.start))).toNat
  else job.dofRequest.toNat

/-- A packet that the coding loop may make from the rows of a block. -/
structure CodedFrom (rows : List Payload) (blockno : ℕ) (msg : DataPckt) : Prop where
  flag_eq : msg.flag = .coded
  blockno_eq : msg.blockno = blockno
  start_eq : msg.startPacket = 0
  num_eq : msg.numPackets.toNat = rows.length
  payload_eq : ∃ coeff, coeff.length = rows.length ∧ msg.payload = codedPayload rows coeff

/-- The packets of a job, in the order in which it pushes them. -/
structure JobPackets (rows : List Payload) (job : CodingJob) (msgs : List DataPckt) : Prop where
  split : ∃ coded, msgs = uncodedPackets rows job ++ coded ∧ coded.length = codedCount rows job ∧
    ∀ msg ∈ coded, CodedFrom rows job.blockno msg

end Ctcp
