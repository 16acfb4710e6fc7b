import Ctcp.Library.Execution
import Ctcp.Model.Transmit

/-! # The thread pool and the mutexes

The threads of the server once more, one lock, unlock or queue operation a step. What
a thread does between two of them only reads and writes what its mutexes protect, or
what no other thread uses. -/

namespace Ctcp

open Function

/-- `THREADS` -/
def threads : ℕ := 5

instance : NeZero threads := ⟨Nat.succ_ne_zero _⟩

/-- The thread of `send_ctcp`, the one of `server_worker`, and the pool. -/
inductive Thread where
  | sender
  | server
  | worker (w : Fin threads)

/-- `curr_block_mutex`, and the `block_mutex` of each slot. -/
inductive Mutex where
  | curr
  | block (k : ℕ)

/-! ## Where a thread stands -/

inductive SenderAt where
  | out
  /-- At the lock of `curr_block_mutex`. -/
  | calling (rest : List UInt8)
  /-- At the head of the loop. -/
  | looping (rest : List UInt8)
  | locked (rest : List UInt8)
  /-- In `addJob`. -/
  | adding (rest : List UInt8) (job : CodingJob)
  | added (rest : List UInt8)
  /-- No slot is free; about to wait for one. -/
  | parking (rest : List UInt8)
  /-- In `pthread_cond_timedwait`. -/
  | parked (rest : List UInt8)

inductive ServerAt where
  /-- Before the first section of `server_worker`. -/
  | booting
  | bootCurr
  | bootBlock
  /-- At the unlock of `curr_block_mutex` that ends a section. -/
  | releasing
  | idle
  /-- At the first lock of `send_segs`. -/
  | entering (pin : ℕ)
  | entered (pin : ℕ)
  /-- In `pthread_cond_wait` for new data. -/
  | sleeping (pin : ℕ)
  | woken (pin : ℕ)
  /-- At the lock for `curr_block` and `maxblockno`. -/
  | starting (pin : ℕ)
  | started (pin : ℕ)
  /-- At the head of the loop over the blocks. -/
  | looping (l : SegsLoop)
  /-- The request of the block is read. -/
  | examining (l : SegsLoop)
  | needing (l : SegsLoop) (need : ℕ)
  | assigning (l : SegsLoop) (need : ℕ)
  /-- In `addJob`. -/
  | adding (l : SegsLoop) (need : ℕ) (job : CodingJob)
  /-- At the head of the loop over the packets. -/
  | sending (l : SegsLoop) (currWin : ℕ)
  /-- In `send_one`, at its pop. -/
  | popping (l : SegsLoop) (currWin : ℕ)
  | popped (l : SegsLoop) (currWin : ℕ)
  /-- At the lock for the local `maxblockno`, which nothing reads. -/
  | updating (l : SegsLoop)
  | updated (l : SegsLoop)
  /-- At the first lock of `handle_ack`; then `start` is `curr_block_tmp`. -/
  | acking (pin : ℕ) (ack : AckPckt)
  | freeing (pin : ℕ) (ack : AckPckt) (start : ℕ)
  | freeingBlock (pin : ℕ) (ack : AckPckt) (start : ℕ)
  | demanding (pin : ℕ) (ack : AckPckt) (start : ℕ)

inductive WorkerAt where
  /-- In `takeJob`. -/
  | idle
  /-- At the lock of `curr_block_mutex`. -/
  | pending (job : CodingJob)
  | checking (job : CodingJob)
  /-- At the lock of the mutex of its block. -/
  | checked (job : CodingJob)
  | locked (job : CodingJob)
  /-- These packets are still to be pushed. -/
  | coding (job : CodingJob) (left : List DataPckt)

/-- `jobQ` is `job_q`, the next job first. -/
structure Pool where
  sk : Server
  jobQ : List CodingJob
  sender : SenderAt
  server : ServerAt
  workers : Fin threads → WorkerAt

/-! ## Mutexes -/

/-- The mutexes that `send_ctcp` has locked; `i` is `maxblockno`. -/
def SenderAt.Holds (i : ℕ) : SenderAt → Mutex → Prop
  | .looping _, .curr | .parking _, .curr => True
  | .locked _, .curr | .adding _ _, .curr | .added _, .curr => True
  | .locked _, .block k | .adding _ _, .block k | .added _, .block k => k = slot i
  | _, _ => False

/-- The mutexes that the server thread has locked. -/
def ServerAt.Holds (currBlock : ℕ) : ServerAt → Mutex → Prop
  | .bootCurr, .curr | .releasing, .curr | .entered _, .curr | .started _, .curr => True
  | .woken _, .curr | .updated _, .curr | .freeing _ _ _, .curr => True
  | .bootBlock, .curr | .freeingBlock _ _ _, .curr | .demanding _ _ _, .curr => True
  | .bootBlock, .block k | .freeingBlock _ _ _, .block k | .demanding _ _ _, .block k =>
    k = slot currBlock
  | .examining l, .curr => l.blockno = currBlock
  | .examining l, .block k => l.blockno ≠ currBlock ∧ k = slot l.blockno
  | .assigning l _, .block k | .adding l _ _, .block k | .sending l _, .block k =>
    k = slot l.blockno
  | _, _ => False

def WorkerAt.Holds : WorkerAt → Mutex → Prop
  | .checking _, .curr => True
  | .locked job, .block k | .coding job _, .block k => k = slot job.blockno
  | _, _ => False

def Pool.Holds (s : Pool) : Thread → Mutex → Prop
  | .sender => s.sender.Holds s.sk.maxblockno
  | .server => s.server.Holds s.sk.currBlock
  | .worker w => (s.workers w).Holds

def Pool.Free (s : Pool) (m : Mutex) : Prop := ∀ t, ¬s.Holds t m

/-- The mutex that a worker is about to lock. -/
def WorkerAt.wants : WorkerAt → Option Mutex
  | .pending _ => some .curr
  | .checked job => some (.block (slot job.blockno))
  | _ => none

/-- The thread is in `addJob`. -/
def Pool.Adds (s : Pool) : Thread → Prop
  | .sender => ∃ rest job, s.sender = .adding rest job
  | .server => ∃ l need job, s.server = .adding l need job
  | .worker _ => False

/-- `job_q` has no room. -/
def Pool.Full (s : Pool) : Prop := 2 * threads ≤ s.jobQ.length

/-! ## Steps -/

inductive PoolEvent where
  | call (rest : List UInt8)
  | send
  | read
  | serve
  | assign
  | addJob (t : Thread)
  | work (w : Fin threads)

/-- Steps of `send_ctcp`. -/
inductive SenderMove : Pool → PoolEvent → Pool → Prop where
  | call {s : Pool} {rest : List UInt8} (hat : s.sender = .out) (hne : rest ≠ [])
      (hlen : rest.length < 2 ^ 32) :
      SenderMove s (.call rest) { s with sender := .calling rest }
  | enter {s : Pool} {rest : List UInt8} (hat : s.sender = .calling rest)
      (hfree : s.Free .curr) : SenderMove s .send { s with sender := .looping rest }
  /-- The end of the call, also when the status has changed or the time is over. -/
  | leave {s : Pool} {rest : List UInt8} (hat : s.sender = .looping rest) :
      SenderMove s .send { s with sender := .out }
  | lock {s : Pool} {rest : List UInt8} (hat : s.sender = .looping rest) (hne : rest ≠ [])
      (hfree : s.Free (.block (slot s.sk.maxblockno))) :
      SenderMove s .send { s with sender := .locked rest }
  /-- Rows are read into the block. -/
  | read {s : Pool} {rest : List UInt8} {job : CodingJob} (hat : s.sender = .locked rest)
      (hjob : (sendCtcpRound s.sk rest).1.jobs = s.sk.jobs ++ [job]) :
      SenderMove s .read
        { s with
          sk := { (sendCtcpRound s.sk rest).1 with jobs := s.sk.jobs }
          sender := .adding (sendCtcpRound s.sk rest).2.1 job }
  /-- The block is full: the mutex is unlocked, and the loop goes on or waits. -/
  | move {s : Pool} {rest : List UInt8} (hat : s.sender = .locked rest)
      (hjobs : (sendCtcpRound s.sk rest).1.jobs = s.sk.jobs) :
      SenderMove s .read
        { s with
          sk := (sendCtcpRound s.sk rest).1
          sender :=
            if (sendCtcpRound s.sk rest).2.2 = .waits then .parking rest else .looping rest }
  | addJob {s : Pool} {rest : List UInt8} {job : CodingJob} (hat : s.sender = .adding rest job)
      (hroom : ¬s.Full) :
      SenderMove s (.addJob .sender) { s with jobQ := s.jobQ ++ [job], sender := .added rest }
  | unlock {s : Pool} {rest : List UInt8} (hat : s.sender = .added rest) :
      SenderMove s .send { s with sender := .looping rest }
  | park {s : Pool} {rest : List UInt8} (hat : s.sender = .parking rest) :
      SenderMove s .send { s with sender := .parked rest }
  /-- A block was freed, or the time is over. -/
  | wake {s : Pool} {rest : List UInt8} (hat : s.sender = .parked rest) (hfree : s.Free .curr) :
      SenderMove s .send { s with sender := .looping rest }

/-- Steps of `send_segs`. -/
inductive SegsStep : Pool → PoolEvent → Pool → Prop where
  | call {s : Pool} {pin : ℕ} (hat : s.server = .idle) (hpin : pin < s.sk.numActive) :
      SegsStep s .serve { s with server := .entering pin }
  | enter {s : Pool} {pin : ℕ} (hat : s.server = .entering pin) (hfree : s.Free .curr) :
      SegsStep s .serve { s with server := .entered pin }
  | sleep {s : Pool} {pin : ℕ} (hat : s.server = .entered pin) (hdone : s.sk.dofReqLatest = 0) :
      SegsStep s .serve { s with server := .sleeping pin }
  | wake {s : Pool} {pin : ℕ} (hat : s.server = .sleeping pin) (hfree : s.Free .curr) :
      SegsStep s .serve { s with server := .woken pin }
  | unlockWoken {s : Pool} {pin : ℕ} (hat : s.server = .woken pin) :
      SegsStep s .serve { s with server := .starting pin }
  | unlock {s : Pool} {pin : ℕ} (hat : s.server = .entered pin) (hdof : s.sk.dofReqLatest ≠ 0) :
      SegsStep s .serve { s with server := .starting pin }
  /-- The window is closed, or the status has changed. -/
  | giveUp {s : Pool} {pin : ℕ} (hat : s.server = .starting pin) :
      SegsStep s .serve { s with server := .idle }
  | lockStart {s : Pool} {pin : ℕ} (hat : s.server = .starting pin) (hfree : s.Free .curr) :
      SegsStep s .serve { s with server := .started pin }
  | start {s : Pool} {pin : ℕ} {fresh : ℕ → ℕ → Bool} (hat : s.server = .started pin) :
      SegsStep s .serve { s with server := .looping (segsStart s.sk pin fresh) }
  | leave {s : Pool} {l : SegsLoop} (hat : s.server = .looping l) (hend : ¬l.GoesOn s.sk) :
      SegsStep s .serve { s with server := .idle }
  | lockRequest {s : Pool} {l : SegsLoop} (hat : s.server = .looping l) (hgo : l.GoesOn s.sk)
      (hfree : if l.blockno = s.sk.currBlock then s.Free .curr
        else s.Free (.block (slot l.blockno))) :
      SegsStep s .serve { s with server := .examining l }
  | examine {s : Pool} {l : SegsLoop} (hat : s.server = .examining l) :
      SegsStep s .serve
        { s with
          server := .needing { l with currOnFly := nextOnFly s.sk l } (dofNeeded s.sk l) }
  | lockBlock {s : Pool} {l : SegsLoop} {need : ℕ} (hat : s.server = .needing l need)
      (hfree : s.Free (.block (slot l.blockno))) :
      SegsStep s .serve { s with server := .assigning l need }
  | assign {s : Pool} {l : SegsLoop} {need : ℕ} {job : CodingJob}
      (hat : s.server = .assigning l need)
      (hjob : (assignJob s.sk l.blockno need).jobs = s.sk.jobs ++ [job]) :
      SegsStep s .assign
        { s with
          sk := { assignJob s.sk l.blockno need with jobs := s.sk.jobs }
          server := .adding l need job }
  | enough {s : Pool} {l : SegsLoop} {need : ℕ} (hat : s.server = .assigning l need)
      (hjobs : (assignJob s.sk l.blockno need).jobs = s.sk.jobs) :
      SegsStep s .assign { s with server := .sending l need }
  /-- A job for the current block has priority. -/
  | addJob {s : Pool} {l : SegsLoop} {need : ℕ} {job : CodingJob}
      (hat : s.server = .adding l need job) (hroom : ¬s.Full) :
      SegsStep s (.addJob .server)
        { s with
          jobQ := if l.blockno = s.sk.currBlock then job :: s.jobQ else s.jobQ ++ [job]
          server := .sending l need }
  | unlockPop {s : Pool} {l : SegsLoop} {currWin : ℕ} (hat : s.server = .sending l currWin)
      (hmore : 1 ≤ currWin ∧ 0 < s.sk.dofRemain (slot l.blockno)) :
      SegsStep s .serve { s with server := .popping l currWin }
  | pop {s : Pool} {l : SegsLoop} {currWin : ℕ} {msg : DataPckt} {q : List DataPckt}
      (hat : s.server = .popping l currWin) (hq : s.sk.codedQ (slot l.blockno) = msg :: q) :
      SegsStep s .serve
        { s with
          sk := sendOne { s.sk with codedQ := update s.sk.codedQ (slot l.blockno) q }
            l.blockno l.pin
          server := .popped { l with win := l.win - 1 } (currWin - 1) }
  | count {s : Pool} {l : SegsLoop} {currWin : ℕ} (hat : s.server = .popped l currWin)
      (hfree : s.Free (.block (slot l.blockno))) :
      SegsStep s .serve
        { s with sk := countSent s.sk l.blockno l.pin, server := .sending l currWin }
  | next {s : Pool} {l : SegsLoop} {currWin : ℕ} (hat : s.server = .sending l currWin)
      (hend : ¬(1 ≤ currWin ∧ 0 < s.sk.dofRemain (slot l.blockno))) :
      SegsStep s .serve { s with server := .updating { l with blockno := l.blockno + 1 } }
  | lockUpdate {s : Pool} {l : SegsLoop} (hat : s.server = .updating l) (hfree : s.Free .curr) :
      SegsStep s .serve { s with server := .updated l }
  | update {s : Pool} {l : SegsLoop} (hat : s.server = .updated l) :
      SegsStep s .serve { s with server := .looping l }

/-- The other steps of `server_worker`, with `handle_ack`. -/
inductive ServerMove : Pool → PoolEvent → Pool → Prop where
  | lockBoot {s : Pool} (hat : s.server = .booting) (hfree : s.Free .curr) :
      ServerMove s .serve { s with server := .bootCurr }
  | lockBootBlock {s : Pool} (hat : s.server = .bootCurr)
      (hfree : s.Free (.block (slot s.sk.currBlock))) :
      ServerMove s .serve { s with server := .bootBlock }
  | boot {s : Pool} (hat : s.server = .bootBlock) :
      ServerMove s .serve { s with sk := startWorker s.sk, server := .releasing }
  | release {s : Pool} (hat : s.server = .releasing) :
      ServerMove s .serve { s with server := .idle }
  | ack {s : Pool} {pin : ℕ} {a : AckPckt} (hat : s.server = .idle)
      (hpin : pin < s.sk.numActive) : ServerMove s .serve { s with server := .acking pin a }
  | lockAck {s : Pool} {pin : ℕ} {a : AckPckt} (hat : s.server = .acking pin a)
      (hfree : s.Free .curr) :
      ServerMove s .serve { s with server := .freeing pin a s.sk.currBlock }
  | lockFree {s : Pool} {pin start : ℕ} {a : AckPckt} (hat : s.server = .freeing pin a start)
      (hmore : s.sk.currBlock < a.blockno) (hfree : s.Free (.block (slot s.sk.currBlock))) :
      ServerMove s .serve { s with server := .freeingBlock pin a start }
  | free {s : Pool} {pin start : ℕ} {a : AckPckt}
      (hat : s.server = .freeingBlock pin a start) :
      ServerMove s .serve { s with sk := freeCurrBlock s.sk, server := .freeing pin a start }
  | lockDemand {s : Pool} {pin start : ℕ} {a : AckPckt} (hat : s.server = .freeing pin a start)
      (hdone : a.blockno ≤ s.sk.currBlock) (hfree : s.Free (.block (slot s.sk.currBlock))) :
      ServerMove s .serve { s with server := .demanding pin a start }
  | demand {s : Pool} {pin start : ℕ} {a : AckPckt} {slr : ℚ} {cwnd : ℕ}
      (hat : s.server = .demanding pin a start) (hslr : 0 ≤ slr ∧ slr ≤ 1)
      (hcwnd : cwnd ≤ maxCwnd) :
      ServerMove s .serve
        { s with
          sk := { s.sk.setPath pin (ackPath (s.sk.activePaths pin) a.ackno slr cwnd) with
            dofReqLatest := max 0 (ackDofReq s.sk (start < s.sk.currBlock) a) }
          server := .releasing }
  | addPath {s : Pool} (hat : s.server = .idle) :
      ServerMove s .serve { s with sk := addPath s.sk }
  | removePath {s : Pool} {deadIndex : ℕ} (hat : s.server = .idle)
      (hdead : deadIndex < s.sk.numActive) :
      ServerMove s .serve { s with sk := removePath s.sk deadIndex }
  | timeout {s : Pool} {pin : ℕ} {slr : ℚ} (hat : s.server = .idle)
      (hpin : pin < s.sk.numActive) (hslr : 0 ≤ slr ∧ slr ≤ 1) :
      ServerMove s .serve
        { s with sk := s.sk.setPath pin (timeoutPath (s.sk.activePaths pin) slr) }

/-- Steps of a worker: `do_worker` with `coding_job`. -/
inductive WorkerMove : Pool → Fin threads → Pool → Prop where
  | take {s : Pool} {w : Fin threads} {job : CodingJob} {q : List CodingJob}
      (hat : s.workers w = .idle) (hq : s.jobQ = job :: q) :
      WorkerMove s w { s with jobQ := q, workers := update s.workers w (.pending job) }
  | lockCheck {s : Pool} {w : Fin threads} {job : CodingJob} (hat : s.workers w = .pending job)
      (hfree : s.Free .curr) :
      WorkerMove s w { s with workers := update s.workers w (.checking job) }
  | skip {s : Pool} {w : Fin threads} {job : CodingJob} (hat : s.workers w = .checking job)
      (hold : job.blockno < s.sk.currBlock) :
      WorkerMove s w { s with workers := update s.workers w .idle }
  | check {s : Pool} {w : Fin threads} {job : CodingJob} (hat : s.workers w = .checking job)
      (hnew : s.sk.currBlock ≤ job.blockno) :
      WorkerMove s w { s with workers := update s.workers w (.checked job) }
  | lockBlock {s : Pool} {w : Fin threads} {job : CodingJob} (hat : s.workers w = .checked job)
      (hfree : s.Free (.block (slot job.blockno))) :
      WorkerMove s w { s with workers := update s.workers w (.locked job) }
  | giveUp {s : Pool} {w : Fin threads} {job : CodingJob} (hat : s.workers w = .locked job)
      (hempty : blockLenRows (s.sk.block job.blockno) = []) :
      WorkerMove s w { s with workers := update s.workers w .idle }
  | run {s : Pool} {w : Fin threads} {job : CodingJob} {msgs : List DataPckt}
      (hat : s.workers w = .locked job) (hrows : blockLenRows (s.sk.block job.blockno) ≠ [])
      (hmsgs : JobPackets (blockLenRows (s.sk.block job.blockno)) job msgs) :
      WorkerMove s w { s with workers := update s.workers w (.coding job msgs) }
  | push {s : Pool} {w : Fin threads} {job : CodingJob} {msg : DataPckt} {left : List DataPckt}
      (hat : s.workers w = .coding job (msg :: left))
      (hroom : (s.sk.codedQ (slot job.blockno)).length < 2 * blockSize) :
      WorkerMove s w
        { s with
          sk := { s.sk with
            codedQ := update s.sk.codedQ (slot job.blockno)
              (s.sk.codedQ (slot job.blockno) ++ [msg]) }
          workers := update s.workers w (.coding job left) }
  | finish {s : Pool} {w : Fin threads} {job : CodingJob} (hat : s.workers w = .coding job []) :
      WorkerMove s w { s with workers := update s.workers w .idle }

inductive PoolStep : Pool → PoolEvent → Pool → Prop where
  | sender {s s' : Pool} {e : PoolEvent} (h : SenderMove s e s') : PoolStep s e s'
  | segs {s s' : Pool} {e : PoolEvent} (h : SegsStep s e s') : PoolStep s e s'
  | server {s s' : Pool} {e : PoolEvent} (h : ServerMove s e s') : PoolStep s e s'
  | worker {s s' : Pool} {w : Fin threads} (h : WorkerMove s w s') : PoolStep s (.work w) s'

/-- Any number of paths, all new, no data yet, and all workers in `takeJob`. -/
def pool (memory : BlockMemory) : System Pool PoolEvent where
  init s := ∃ scaling n, 0 ≤ scaling ∧ 0 < n ∧
    s = ⟨createSrvctcpSock memory scaling (fun _ => initStream) n, [], .out, .booting,
      fun _ => .idle⟩
  step := PoolStep

end Ctcp
