import Ctcp.Library.Execution
import Ctcp.Model.Transmit
import Ctcp.Verification.Store.Demand

/-! # The threads of the server

`send_ctcp`, the coding workers and the server thread with `send_segs` and
`handle_ack` take turns. A section under a mutex is one step, and a push to or a pop
from a queue is one of its own. Rounds of one call of `send_ctcp` may be further
apart here than its lock allows. -/

namespace Ctcp

open Function

/-! ## State -/

/-- How far a coding job is. -/
inductive Stage where
  /-- Its block number has not been compared with `curr_block` yet. -/
  | pending
  /-- It was found not to be old; it does not have the mutex of its block yet. -/
  | checked
  /-- It holds the mutex of its block, and has these packets to push. -/
  | pushing (left : List DataPckt)

/-- A coding job in the thread pool. It is fresh until its slot is freed. -/
structure Task where
  job : CodingJob
  stage : Stage
  fresh : Bool

def Task.slot (t : Task) : ℕ := Ctcp.slot t.job.blockno

/-- Whether the job holds the mutex of its block. -/
def Task.Holds (t : Task) : Prop := ∃ left, t.stage = .pushing left

/-- Where the server thread stands. -/
inductive Phase where
  /-- Before the first section of `server_worker`. -/
  | booting
  /-- Between two calls. -/
  | idle
  /-- At the head of the loop of `send_segs`. -/
  | looping (l : SegsLoop)
  /-- `dof_needed` is computed. -/
  | needing (l : SegsLoop) (need : ℕ)
  /-- In `send_one`, before its pop. -/
  | popping (l : SegsLoop) (currWin : ℕ)
  /-- `send_one` is done, `dof_remain` is not decremented yet. -/
  | popped (l : SegsLoop) (currWin : ℕ) (msg : DataPckt)
  /-- In `handle_ack`, under `curr_block_mutex`; `start` is `curr_block_tmp`. -/
  | acking (pin : ℕ) (ack : AckPckt) (start : ℕ)

/-- `curr_block_mutex` is free. -/
def Phase.Unlocked : Phase → Prop
  | .acking _ _ _ => False
  | _ => True

/-- The server with all rows ever filled, the jobs that are not done, the server
thread, and all packets ever pushed. -/
structure Pipeline where
  sk : Server
  filled : Filled
  tasks : List Task
  phase : Phase
  pushed : List DataPckt

/-- No worker holds the mutex of a block in slot `k`. -/
def Pipeline.SlotFree (s : Pipeline) (k : ℕ) : Prop := ∀ t ∈ s.tasks, t.Holds → t.slot ≠ k

theorem Task.not_holds {t : Task} (h : ∀ left, t.stage ≠ .pushing left) : ¬t.Holds :=
  fun ⟨left, hleft⟩ => h left hleft

theorem Pipeline.slotFree_nil {s : Pipeline} {k : ℕ} (htasks : s.tasks = []) : s.SlotFree k := by
  intro t ht
  rw [htasks] at ht
  exact (List.not_mem_nil ht).elim

theorem Pipeline.slotFree_singleton {s : Pipeline} {k : ℕ} {t : Task} (htasks : s.tasks = [t])
    (hstage : ∀ left, t.stage ≠ .pushing left) : s.SlotFree k := by
  intro u hu hholds
  rw [htasks] at hu
  obtain rfl := List.mem_singleton.mp hu
  exact (Task.not_holds hstage hholds).elim

/-- A job that moves on without the mutex leaves the slot free. -/
theorem Pipeline.SlotFree.replace {s : Pipeline} {k : ℕ} (h : s.SlotFree k) {pre post : List Task}
    {t t' : Task} (htasks : s.tasks = pre ++ t :: post)
    (hstage : ∀ left, t'.stage ≠ .pushing left) :
    Pipeline.SlotFree { s with tasks := pre ++ t' :: post } k := by
  intro u hu hholds
  rcases List.mem_append.mp hu with hpre | hpost
  · exact h u (by simp [htasks, hpre]) hholds
  · rcases List.mem_cons.mp hpost with rfl | hpost
    · exact (Task.not_holds hstage hholds).elim
    · exact h u (by simp [htasks, hpost]) hholds

/-- The tasks that the thread pool gets from the jobs that were added. -/
def newTasks (sk : Server) : List Task := sk.jobs.map fun job => ⟨job, .pending, true⟩

/-- The thread pool takes over the jobs that a section added to `sk`. -/
def Pipeline.commit (s : Pipeline) (sk : Server) (phase : Phase) : Pipeline where
  sk := { sk with jobs := [] }
  filled := s.filled
  tasks := s.tasks ++ newTasks sk
  phase := phase
  pushed := s.pushed

def Pipeline.fill (s : Pipeline) (rest : List UInt8) : Pipeline :=
  { s with filled := addRows s.filled s.sk.maxblockno (roundRows s.sk rest) }.commit
    (sendCtcpRound s.sk rest).1 s.phase

theorem Pipeline.commit_phase (s : Pipeline) (sk : Server) (phase : Phase) :
    (s.commit sk phase).phase = phase := rfl

theorem Pipeline.commit_nil {s : Pipeline} {sk : Server} (h : sk.jobs = []) (phase : Phase) :
    s.commit sk phase = { s with sk := sk, phase := phase } := by
  obtain ⟨req, mx, curr, blocks, remain, q, jobs, scaling, paths, n⟩ := sk
  obtain rfl : jobs = [] := h
  simp [Pipeline.commit, newTasks]

@[simp] theorem Pipeline.fill_phase (s : Pipeline) (rest : List UInt8) :
    (s.fill rest).phase = s.phase := Pipeline.commit_phase _ _ _

/-- Slot `k` is freed. -/
def Task.age (k : ℕ) (t : Task) : Task := if t.slot = k then { t with fresh := false } else t

/-- The next round of a loop of `send_segs` over the packets of a block, if there is one. -/
def nextPacket (sk : Server) (l : SegsLoop) (currWin : ℕ) : Phase :=
  if 1 ≤ currWin ∧ 0 < sk.dofRemain (slot l.blockno) then .popping l currWin
  else .looping { l with blockno := l.blockno + 1 }

/-! ## Steps -/

inductive PipelineEvent where
  | fill (rest : List UInt8)
  | start
  | segs (pin : ℕ)
  | examine
  | leave
  | assign
  | pop
  | decrement
  | ack (pin : ℕ) (a : AckPckt)
  | free
  | ackEnd
  | path
  | work

/-- The steps of the threads; a queue holds at most `cap` packets. -/
inductive PipelineStep (cap : ℕ) : Pipeline → PipelineEvent → Pipeline → Prop where
  /-- A round of `send_ctcp`. -/
  | fill {s : Pipeline} {rest : List UInt8} (hne : rest ≠ []) (hlen : rest.length < 2 ^ 32)
      (hlock : s.phase.Unlocked) (hfree : s.SlotFree (slot s.sk.maxblockno)) :
      PipelineStep cap s (.fill rest) (s.fill rest)
  | start {s : Pipeline} (hphase : s.phase = .booting) :
      PipelineStep cap s .start { s with sk := startWorker s.sk, phase := .idle }
  | segs {s : Pipeline} {pin : ℕ} {fresh : ℕ → ℕ → Bool} (hphase : s.phase = .idle)
      (hpin : pin < s.sk.numActive) :
      PipelineStep cap s (.segs pin) { s with phase := .looping (segsStart s.sk pin fresh) }
  | examine {s : Pipeline} {l : SegsLoop} (hphase : s.phase = .looping l) (hgo : l.GoesOn s.sk)
      (hfree : l.blockno = s.sk.currBlock ∨ s.SlotFree (slot l.blockno)) :
      PipelineStep cap s .examine
        { s with phase := .needing { l with currOnFly := nextOnFly s.sk l } (dofNeeded s.sk l) }
  | leave {s : Pipeline} {l : SegsLoop} (hphase : s.phase = .looping l)
      (hend : ¬l.GoesOn s.sk) : PipelineStep cap s .leave { s with phase := .idle }
  | assign {s : Pipeline} {l : SegsLoop} {need : ℕ} (hphase : s.phase = .needing l need)
      (hfree : s.SlotFree (slot l.blockno)) :
      PipelineStep cap s .assign
        (s.commit (assignJob s.sk l.blockno need)
          (nextPacket (assignJob s.sk l.blockno need) l need))
  | pop {s : Pipeline} {l : SegsLoop} {currWin : ℕ} {msg : DataPckt} {q : List DataPckt}
      (hphase : s.phase = .popping l currWin) (hq : s.sk.codedQ (slot l.blockno) = msg :: q) :
      PipelineStep cap s .pop
        { s with
          sk := sendOne { s.sk with codedQ := update s.sk.codedQ (slot l.blockno) q }
            l.blockno l.pin
          phase := .popped { l with win := l.win - 1 } (currWin - 1) msg }
  | decrement {s : Pipeline} {l : SegsLoop} {currWin : ℕ} {msg : DataPckt}
      (hphase : s.phase = .popped l currWin msg) (hfree : s.SlotFree (slot l.blockno)) :
      PipelineStep cap s .decrement
        { s with
          sk := countSent s.sk l.blockno l.pin
          phase := nextPacket (countSent s.sk l.blockno l.pin) l currWin }
  | ack {s : Pipeline} {pin : ℕ} {a : AckPckt} (hphase : s.phase = .idle)
      (hpin : pin < s.sk.numActive) :
      PipelineStep cap s (.ack pin a) { s with phase := .acking pin a s.sk.currBlock }
  | free {s : Pipeline} {pin start : ℕ} {a : AckPckt} (hphase : s.phase = .acking pin a start)
      (hmore : s.sk.currBlock < a.blockno) (hfree : s.SlotFree (slot s.sk.currBlock)) :
      PipelineStep cap s .free
        { s with
          sk := freeCurrBlock s.sk
          tasks := s.tasks.map (Task.age (slot s.sk.currBlock)) }
  /-- The rest of `handle_ack`; `slr` and `cwnd` are what it leaves in the path. -/
  | ackEnd {s : Pipeline} {pin start : ℕ} {a : AckPckt} {slr : ℚ} {cwnd : ℕ}
      (hphase : s.phase = .acking pin a start) (hdone : a.blockno ≤ s.sk.currBlock)
      (hfree : s.SlotFree (slot s.sk.currBlock)) (hslr : 0 ≤ slr ∧ slr ≤ 1)
      (hcwnd : cwnd ≤ maxCwnd) :
      PipelineStep cap s .ackEnd
        { s with
          sk := { s.sk.setPath pin (ackPath (s.sk.activePaths pin) a.ackno slr cwnd) with
            dofReqLatest := max 0 (ackDofReq s.sk (start < s.sk.currBlock) a) }
          phase := .idle }
  | addPath {s : Pipeline} (hphase : s.phase = .idle) :
      PipelineStep cap s .path { s with sk := addPath s.sk }
  | removePath {s : Pipeline} {deadIndex : ℕ} (hphase : s.phase = .idle)
      (hdead : deadIndex < s.sk.numActive) :
      PipelineStep cap s .path { s with sk := removePath s.sk deadIndex }
  | timeout {s : Pipeline} {pin : ℕ} {slr : ℚ} (hphase : s.phase = .idle)
      (hpin : pin < s.sk.numActive) (hslr : 0 ≤ slr ∧ slr ≤ 1) :
      PipelineStep cap s .path
        { s with sk := s.sk.setPath pin (timeoutPath (s.sk.activePaths pin) slr) }
  /-- The first section of `coding_job`: an old block is not coded. -/
  | skip {s : Pipeline} {pre post : List Task} {t : Task} (htasks : s.tasks = pre ++ t :: post)
      (hstage : t.stage = .pending) (hlock : s.phase.Unlocked)
      (hold : t.job.blockno < s.sk.currBlock) :
      PipelineStep cap s .work { s with tasks := pre ++ post }
  | check {s : Pipeline} {pre post : List Task} {t : Task} (htasks : s.tasks = pre ++ t :: post)
      (hstage : t.stage = .pending) (hlock : s.phase.Unlocked)
      (hnew : s.sk.currBlock ≤ t.job.blockno) :
      PipelineStep cap s .work { s with tasks := pre ++ { t with stage := .checked } :: post }
  /-- The job takes the mutex of its block and finds the block empty. -/
  | giveUp {s : Pipeline} {pre post : List Task} {t : Task} (htasks : s.tasks = pre ++ t :: post)
      (hstage : t.stage = .checked) (hfree : s.SlotFree t.slot)
      (hempty : blockLenRows (s.sk.block t.job.blockno) = []) :
      PipelineStep cap s .work { s with tasks := pre ++ post }
  /-- The job takes the mutex of its block; its packets follow from the rows there. -/
  | run {s : Pipeline} {pre post : List Task} {t : Task} {msgs : List DataPckt}
      (htasks : s.tasks = pre ++ t :: post) (hstage : t.stage = .checked)
      (hfree : s.SlotFree t.slot) (hrows : blockLenRows (s.sk.block t.job.blockno) ≠ [])
      (hmsgs : JobPackets (blockLenRows (s.sk.block t.job.blockno)) t.job msgs) :
      PipelineStep cap s .work
        { s with tasks := pre ++ { t with stage := .pushing msgs } :: post }
  | push {s : Pipeline} {pre post : List Task} {t : Task} {msg : DataPckt} {left : List DataPckt}
      (htasks : s.tasks = pre ++ t :: post) (hstage : t.stage = .pushing (msg :: left))
      (hroom : (s.sk.codedQ t.slot).length < cap) :
      PipelineStep cap s .work
        { s with
          sk := { s.sk with codedQ := update s.sk.codedQ t.slot (s.sk.codedQ t.slot ++ [msg]) }
          tasks := pre ++ { t with stage := .pushing left } :: post
          pushed := s.pushed ++ [msg] }
  | finish {s : Pipeline} {pre post : List Task} {t : Task} (htasks : s.tasks = pre ++ t :: post)
      (hstage : t.stage = .pushing []) : PipelineStep cap s .work { s with tasks := pre ++ post }

/-- Any number of paths, all new, and no data yet. -/
def pipeline (cap : ℕ) (memory : BlockMemory) : System Pipeline PipelineEvent where
  init s := ∃ scaling n, 0 ≤ scaling ∧ 0 < n ∧
    s = ⟨createSrvctcpSock memory scaling (fun _ => initStream) n, fun _ => [], [], .booting, []⟩
  step := PipelineStep cap

theorem System.Reachable.pipeStep {cap : ℕ} {memory : BlockMemory} {s s' : Pipeline}
    {e : PipelineEvent} (h : (pipeline cap memory).Reachable s) (hstep : PipelineStep cap s e s') :
    (pipeline cap memory).Reachable s' := .step h hstep

theorem System.Reachable.guardStep {cap : ℕ} {memory : BlockMemory}
    {C : Pipeline → PipelineEvent → Prop} {s s' : Pipeline} {e : PipelineEvent}
    (h : ((pipeline cap memory).guard C).Reachable s) (hstep : PipelineStep cap s e s')
    (hC : C s e) : ((pipeline cap memory).guard C).Reachable s' :=
  .step h ⟨hC, hstep⟩

/-- A fresh server with one path. -/
def onePath : Pipeline :=
  ⟨createSrvctcpSock noRows 1 (fun _ => initStream) 1, fun _ => [], [], .booting, []⟩

/-- The first round of `send_ctcp`, with one byte. -/
theorem reachable_oneByte {cap : ℕ} {C : Pipeline → PipelineEvent → Prop}
    (hC : C onePath (.fill [7])) :
    ((pipeline cap noRows).guard C).Reachable (onePath.fill [7]) := by
  have hinit : ((pipeline cap noRows).guard C).Reachable onePath :=
    .init ⟨1, 1, by decide, by decide, rfl⟩
  refine hinit.guardStep (.fill (List.cons_ne_nil 7 []) (by decide) trivial ?_) hC
  exact Pipeline.slotFree_nil rfl

end Ctcp
