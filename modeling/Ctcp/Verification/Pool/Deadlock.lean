import Ctcp.Verification.Pool.System
import Ctcp.Verification.Store.Invariant

/-! # Waiting for room in `job_q` -/

namespace Ctcp

open Function

variable {memory : BlockMemory} {s s' : Pool} {t : Thread} {w : Fin threads} {e : PoolEvent}

/-- The thread waits in `addJob`, and all workers wait for mutexes that it holds. -/
structure Pool.Deadlock (s : Pool) (t : Thread) : Prop where
  adds : s.Adds t
  full : s.Full
  stuck : ∀ w, ∃ m, (s.workers w).wants = some m ∧ s.Holds t m

/-- The worker waits for a mutex in `held`, or it will before it takes another job. -/
def WorkerAt.Bound (currBlock : ℕ) (held : Mutex → Prop) : WorkerAt → Prop
  | .pending job => held .curr ∨ currBlock ≤ job.blockno ∧ held (.block (slot job.blockno))
  | .checking job => currBlock ≤ job.blockno ∧ held (.block (slot job.blockno))
  | .checked job => held (.block (slot job.blockno))
  | _ => False

/-- The worker waits for a mutex of the thread, or it will before it takes another job. -/
def Pool.Bound (s : Pool) (t : Thread) (w : Fin threads) : Prop :=
  (s.workers w).Bound s.sk.currBlock (s.Holds t)

/-- Before a thread has to wait in `addJob`, and before the other one fills `job_q` while
it waits, some worker is not bound to the thread that waits. -/
def LeavesWorker (s : Pool) : PoolEvent → Prop
  | .read =>
    s.Full → ∀ rest, s.sender = .locked rest →
      (sendCtcpRound s.sk rest).1.jobs ≠ s.sk.jobs → ∃ w, ¬s.Bound .sender w
  | .assign =>
    s.Full → ∀ l need, s.server = .assigning l need →
      s.sk.dofRemain (slot l.blockno) < need → ∃ w, ¬s.Bound .server w
  | .addJob t =>
    2 * threads ≤ s.jobQ.length + 1 → ∀ t', t' ≠ t → s.Adds t' → ∃ w, ¬s.Bound t' w
  | _ => True

/-! ## Mutual exclusion -/

/-- No mutex has two holders. -/
def Pool.Exclusive (s : Pool) : Prop := ∀ t t' m, s.Holds t m → s.Holds t' m → t = t'

/-- A step in which `t` locks nothing, or one mutex that is free. -/
def Locks (t : Thread) (s s' : Pool) : Prop :=
  ∀ t' m, s'.Holds t' m → s.Holds t' m ∨ t' = t ∧ s.Free m

theorem Pool.Exclusive.locks (h : s.Exclusive) (hlocks : Locks t s s') : s'.Exclusive := by
  intro t₁ t₂ m h₁ h₂
  rcases hlocks t₁ m h₁ with hold₁ | ⟨rfl, hfree⟩
  · rcases hlocks t₂ m h₂ with hold₂ | ⟨rfl, hfree⟩
    · exact h t₁ t₂ m hold₁ hold₂
    · exact absurd hold₁ (hfree t₁)
  · rcases hlocks t₂ m h₂ with hold₂ | ⟨rfl, -⟩
    · exact absurd hold₂ (hfree t₂)
    · rfl

/-! ## What a step changes -/

theorem sendCtcpRound_currBlock (sk : Server) (rest : List UInt8) :
    (sendCtcpRound sk rest).1.currBlock = sk.currBlock := by
  rw [sendCtcpRound]
  split
  · rfl
  · split <;> rfl

/-- A round that adds a job stays at the block. -/
theorem sendCtcpRound_maxblockno {sk : Server} {rest : List UInt8}
    (h : (sendCtcpRound sk rest).1.jobs ≠ sk.jobs) :
    (sendCtcpRound sk rest).1.maxblockno = sk.maxblockno := by
  rw [sendCtcpRound] at *
  split
  · rfl
  · next hless =>
    rw [if_neg hless] at h
    split
    · next hmax => exact absurd (by rw [if_pos hmax]) h
    · rfl

/-- Of what the mutexes depend on, a step of the sender changes `maxblockno` only. -/
theorem SenderMove.frame (h : SenderMove s e s') :
    s'.workers = s.workers ∧ s'.server = s.server ∧ s'.sk.currBlock = s.sk.currBlock := by
  cases h <;> simp [sendCtcpRound_currBlock]

theorem SegsStep.frame (h : SegsStep s e s') :
    s'.workers = s.workers ∧ s'.sender = s.sender ∧ s'.sk.currBlock = s.sk.currBlock ∧
      s'.sk.maxblockno = s.sk.maxblockno := by
  cases h <;> simp [assignJob, sendOne, countSent, Server.setPath]
  split <;> simp

/-- Block numbers change under `curr_block_mutex` only. -/
theorem ServerMove.frame (h : ServerMove s e s') :
    s'.workers = s.workers ∧ s'.sender = s.sender ∧ s'.jobQ = s.jobQ ∧
      (s'.sk.currBlock = s.sk.currBlock ∧ s'.sk.maxblockno = s.sk.maxblockno ∨
        s.Holds .server .curr ∧ s.sk.currBlock ≤ s'.sk.currBlock) := by
  cases h <;> simp [*, startWorker, freeCurrBlock, Ctcp.addPath, Ctcp.removePath, Server.setPath,
    Pool.Holds, ServerAt.Holds]

theorem WorkerMove.frame (h : WorkerMove s w s') :
    s'.sender = s.sender ∧ s'.server = s.server ∧ s'.sk.currBlock = s.sk.currBlock ∧
      s'.sk.maxblockno = s.sk.maxblockno ∧ ∀ w', w' ≠ w → s'.workers w' = s.workers w' := by
  cases h <;> simp +contextual

theorem SenderMove.own (h : SenderMove s e s') {m : Mutex} (hm : s'.Holds .sender m) :
    s.Holds .sender m ∨ s.Free m := by
  cases h with
  | read hat hjob =>
      have hmax := @sendCtcpRound_maxblockno s.sk _ (by rw [hjob]; simp)
      cases m <;> simp_all [Pool.Holds, SenderAt.Holds]
  | move hat hjobs =>
      cases m with
      | curr => simp [Pool.Holds, SenderAt.Holds, hat]
      | block k =>
          simp only [Pool.Holds] at hm
          split at hm <;> exact hm.elim
  | _ => cases m <;> simp_all [Pool.Holds, SenderAt.Holds]

theorem SegsStep.own (h : SegsStep s e s') {m : Mutex} (hm : s'.Holds .server m) :
    s.Holds .server m ∨ s.Free m := by
  have hcurr := h.frame.2.2.1
  rw [Pool.Holds, hcurr] at hm
  cases h <;> cases m <;> simp_all [Pool.Holds, ServerAt.Holds]

theorem ServerMove.own (h : ServerMove s e s') {m : Mutex} (hm : s'.Holds .server m) :
    s.Holds .server m ∨ s.Free m := by
  cases h <;> cases m <;> simp_all [Pool.Holds, ServerAt.Holds]

theorem WorkerMove.own (h : WorkerMove s w s') {m : Mutex} (hm : s'.Holds (.worker w) m) :
    s.Holds (.worker w) m ∨ s.Free m := by
  cases h <;> cases m <;> simp_all [Pool.Holds, WorkerAt.Holds]

/-- `send_ctcp` takes the mutex of a block only under `curr_block_mutex`. -/
theorem SenderAt.Holds.curr {at' : SenderAt} {i j : ℕ} {m : Mutex} (h : at'.Holds i m) :
    at'.Holds j .curr := by
  cases at' <;> cases m <;> simp_all [SenderAt.Holds]

theorem ServerMove.sender_holds (h : ServerMove s e s') (hex : s.Exclusive) {m : Mutex}
    (hm : s'.Holds .sender m) : s.Holds .sender m := by
  obtain ⟨-, hsender, -, ⟨-, hmax⟩ | ⟨hholds, -⟩⟩ := h.frame
  · simpa only [Pool.Holds, hsender, hmax] using hm
  · rw [Pool.Holds, hsender] at hm
    exact absurd (hex .sender .server .curr hm.curr hholds) (by simp)

theorem PoolStep.exclusive (h : PoolStep s e s') (hex : s.Exclusive) : s'.Exclusive := by
  cases h with
  | sender h =>
      obtain ⟨hworkers, hserver, hcurr⟩ := h.frame
      apply hex.locks (t := .sender)
      intro t m hm
      cases t with
      | sender => exact (h.own hm).imp_right fun hfree => ⟨rfl, hfree⟩
      | server => exact Or.inl (by simpa only [Pool.Holds, hserver, hcurr] using hm)
      | worker w => exact Or.inl (by simpa only [Pool.Holds, hworkers] using hm)
  | segs h =>
      obtain ⟨hworkers, hsender, -, hmax⟩ := h.frame
      apply hex.locks (t := .server)
      intro t m hm
      cases t with
      | sender => exact Or.inl (by simpa only [Pool.Holds, hsender, hmax] using hm)
      | server => exact (h.own hm).imp_right fun hfree => ⟨rfl, hfree⟩
      | worker w => exact Or.inl (by simpa only [Pool.Holds, hworkers] using hm)
  | server h =>
      apply hex.locks (t := .server)
      intro t m hm
      cases t with
      | sender => exact Or.inl (h.sender_holds hex hm)
      | server => exact (h.own hm).imp_right fun hfree => ⟨rfl, hfree⟩
      | worker w => exact Or.inl (by simpa only [Pool.Holds, h.frame.1] using hm)
  | @worker _ w h =>
      obtain ⟨hsender, hserver, hcurr, hmax, hothers⟩ := h.frame
      apply hex.locks (t := .worker w)
      intro t m hm
      cases t with
      | sender => exact Or.inl (by simpa only [Pool.Holds, hsender, hmax] using hm)
      | server => exact Or.inl (by simpa only [Pool.Holds, hserver, hcurr] using hm)
      | worker w' =>
          by_cases he : w' = w
          · subst he
            exact (h.own hm).imp_right fun hfree => ⟨rfl, hfree⟩
          · exact Or.inl (by simpa only [Pool.Holds, hothers w' he] using hm)

/-! ## Waiting threads leave a worker -/

theorem WorkerAt.Bound.mono {at' : WorkerAt} {c c' : ℕ} {held held' : Mutex → Prop}
    (h : at'.Bound c' held') (hcurr : c ≤ c') (hheld : ∀ m, held' m → held m) :
    at'.Bound c held := by
  cases at' with
  | pending job => exact h.imp (hheld _) fun hblock => ⟨hcurr.trans hblock.1, hheld _ hblock.2⟩
  | checking job => exact ⟨hcurr.trans h.1, hheld _ h.2⟩
  | checked job => exact hheld _ h
  | _ => exact h

structure PoolInv (s : Pool) : Prop where
  exclusive : s.Exclusive
  room : s.jobQ.length ≤ 2 * threads
  free : ∀ t, s.Adds t → s.Full → ∃ w, ¬s.Bound t w

/-- A step leaves `job_q` alone, or `t` adds a job. -/
def Queues (t : Thread) (s : Pool) (e : PoolEvent) (s' : Pool) : Prop :=
  s'.jobQ = s.jobQ ∨ e = .addJob t ∧ ¬s.Full ∧ s'.jobQ.length = s.jobQ.length + 1

theorem SenderMove.queues (h : SenderMove s e s') : Queues .sender s e s' := by
  cases h <;> simp [Queues, *]

theorem SegsStep.queues (h : SegsStep s e s') : Queues .server s e s' := by
  cases h with
  | addJob hat hroom =>
      refine Or.inr ⟨rfl, hroom, ?_⟩
      dsimp only
      split <;> simp
  | _ => exact Or.inl rfl

theorem Queues.room {t : Thread} (h : Queues t s e s') (hroom : s.jobQ.length ≤ 2 * threads) :
    s'.jobQ.length ≤ 2 * threads := by
  rcases h with hq | ⟨-, hfull, hq⟩
  · rwa [hq]
  · rw [Pool.Full] at hfull
    omega

/-- A thread that waits while another one than it takes a step. -/
theorem PoolInv.free_other {a : Thread} (hinv : PoolInv s) (hne : t ≠ a) (hadds : s.Adds t)
    (hqueues : Queues a s e s') (hguard : LeavesWorker s e) (hworkers : s'.workers = s.workers)
    (hcurr : s.sk.currBlock ≤ s'.sk.currBlock) (hholds : ∀ m, s'.Holds t m → s.Holds t m)
    (hfull : s'.Full) : ∃ w, ¬s'.Bound t w := by
  have hexists : ∃ w, ¬s.Bound t w := by
    rcases hqueues with hq | ⟨rfl, -, hq⟩
    · exact hinv.free t hadds (by simpa only [Pool.Full, hq] using hfull)
    · rw [Pool.Full, hq] at hfull
      exact hguard hfull t hne hadds
  obtain ⟨w, hw⟩ := hexists
  refine ⟨w, fun h => hw ?_⟩
  rw [Pool.Bound, hworkers] at h
  exact h.mono hcurr hholds

theorem SenderMove.adds (h : SenderMove s e s') (hadds : s'.Adds .sender) :
    e = .read ∧ s'.jobQ = s.jobQ ∧ s'.sk.maxblockno = s.sk.maxblockno ∧
      ∃ rest, s.sender = .locked rest ∧ (sendCtcpRound s.sk rest).1.jobs ≠ s.sk.jobs := by
  cases h with
  | @read rest job hat hjob =>
      have hne : (sendCtcpRound s.sk rest).1.jobs ≠ s.sk.jobs := by
        rw [hjob]
        simp
      exact ⟨rfl, rfl, sendCtcpRound_maxblockno hne, _, hat, hne⟩
  | move hat hjobs =>
      obtain ⟨rest, job, hadding⟩ := hadds
      dsimp only at hadding
      split at hadding <;> contradiction
  | _ => simp_all [Pool.Adds]

theorem SegsStep.adds (h : SegsStep s e s') (hadds : s'.Adds .server) :
    e = .assign ∧ s'.jobQ = s.jobQ ∧ ∃ l need, s.server = .assigning l need ∧
      s.sk.dofRemain (slot l.blockno) < need ∧ ∃ job, s'.server = .adding l need job := by
  cases h with
  | @assign l need job hat hjob =>
      refine ⟨rfl, rfl, l, need, hat, ?_, job, rfl⟩
      by_contra hnot
      rw [assignJob, if_neg hnot] at hjob
      simp at hjob
  | _ => simp_all [Pool.Adds]

theorem SenderMove.poolInv (h : SenderMove s e s') (hinv : PoolInv s) (hguard : LeavesWorker s e) :
    PoolInv s' := by
  obtain ⟨hworkers, hserver, hcurr⟩ := h.frame
  refine ⟨(PoolStep.sender h).exclusive hinv.exclusive, h.queues.room hinv.room, ?_⟩
  intro t hadds hfull
  cases t with
  | worker w => exact hadds.elim
  | server =>
      apply hinv.free_other (by simp) (by simpa only [Pool.Adds, hserver] using hadds) h.queues
        hguard hworkers hcurr.ge _ hfull
      exact fun m hm => by simpa only [Pool.Holds, hserver, hcurr] using hm
  | sender =>
      obtain ⟨rfl, hq, hmax, rest, hat, hjobs⟩ := h.adds hadds
      obtain ⟨w, hw⟩ := hguard (by simpa only [Pool.Full, hq] using hfull) rest hat hjobs
      refine ⟨w, fun hbound => hw ?_⟩
      rw [Pool.Bound, hworkers] at hbound
      apply hbound.mono hcurr.ge
      intro m hm
      obtain ⟨rest', job, hadding⟩ := hadds
      rw [Pool.Holds, hadding, hmax] at hm
      rw [Pool.Holds, hat]
      cases m <;> exact hm

theorem SegsStep.poolInv (h : SegsStep s e s') (hinv : PoolInv s) (hguard : LeavesWorker s e) :
    PoolInv s' := by
  obtain ⟨hworkers, hsender, hcurr, hmax⟩ := h.frame
  refine ⟨(PoolStep.segs h).exclusive hinv.exclusive, h.queues.room hinv.room, ?_⟩
  intro t hadds hfull
  cases t with
  | worker w => exact hadds.elim
  | sender =>
      apply hinv.free_other (by simp) (by simpa only [Pool.Adds, hsender] using hadds) h.queues
        hguard hworkers hcurr.ge _ hfull
      exact fun m hm => by simpa only [Pool.Holds, hsender, hmax] using hm
  | server =>
      obtain ⟨rfl, hq, l, need, hat, hless, job, hadding⟩ := h.adds hadds
      obtain ⟨w, hw⟩ := hguard (by simpa only [Pool.Full, hq] using hfull) l need hat hless
      refine ⟨w, fun hbound => hw ?_⟩
      rw [Pool.Bound, hworkers] at hbound
      apply hbound.mono hcurr.ge
      intro m hm
      rw [Pool.Holds, hadding] at hm
      rw [Pool.Holds, hat]
      cases m <;> exact hm

theorem ServerMove.adds (h : ServerMove s e s') : ¬s'.Adds .server := by
  cases h <;> simp [Pool.Adds, *]

theorem ServerMove.poolInv (h : ServerMove s e s') (hinv : PoolInv s) (hguard : LeavesWorker s e) :
    PoolInv s' := by
  obtain ⟨hworkers, hsender, hq, hblocks⟩ := h.frame
  refine ⟨(PoolStep.server h).exclusive hinv.exclusive, hq ▸ hinv.room, ?_⟩
  intro t hadds hfull
  cases t with
  | worker w => exact hadds.elim
  | sender =>
      exact hinv.free_other (a := .server) (by simp)
        (by simpa only [Pool.Adds, hsender] using hadds) (Or.inl hq) hguard hworkers
        (hblocks.elim (fun h => h.1.ge) And.right)
        (fun m hm => h.sender_holds hinv.exclusive hm) hfull
  | server => exact (h.adds hadds).elim

/-- A worker that is not bound does not become so before it has taken a job. -/
theorem WorkerMove.bound (h : WorkerMove s w s') (hroom : s.jobQ.length ≤ 2 * threads)
    (hfull : s'.Full) (ht : ∀ m, s'.Holds t m → s.Holds t m) (hbound : s'.Bound t w) :
    s.Bound t w := by
  cases h with
  | @take job q hat hq =>
      rw [hq, List.length_cons] at hroom
      change 2 * threads ≤ q.length at hfull
      omega
  | lockCheck hat hfree =>
      rw [Pool.Bound] at *
      simp only [update_self] at hbound
      rw [hat]
      exact Or.inr ⟨hbound.1, ht _ hbound.2⟩
  | check hat hnew =>
      rw [Pool.Bound] at *
      simp only [update_self] at hbound
      rw [hat]
      exact ⟨hnew, ht _ hbound⟩
  | _ =>
      rw [Pool.Bound] at hbound
      simp only [update_self] at hbound
      exact hbound.elim

theorem WorkerMove.poolInv (h : WorkerMove s w s') (hinv : PoolInv s) : PoolInv s' := by
  obtain ⟨hsender, hserver, hcurr, hmax, hothers⟩ := h.frame
  have hq : s'.jobQ.length ≤ s.jobQ.length := by
    cases h with
    | take hat hq => simp [hq]
    | _ => exact le_rfl
  refine ⟨(PoolStep.worker h).exclusive hinv.exclusive, hq.trans hinv.room, ?_⟩
  intro t hadds hfull
  have ht : s.Adds t ∧ ∀ m, s'.Holds t m → s.Holds t m := by
    cases t with
    | worker w => exact hadds.elim
    | sender =>
        exact ⟨by simpa only [Pool.Adds, hsender] using hadds,
          fun m hm => by simpa only [Pool.Holds, hsender, hmax] using hm⟩
    | server =>
        exact ⟨by simpa only [Pool.Adds, hserver] using hadds,
          fun m hm => by simpa only [Pool.Holds, hserver, hcurr] using hm⟩
  obtain ⟨w', hw'⟩ := hinv.free t ht.1 (le_trans hfull hq)
  refine ⟨w', fun hbound => hw' ?_⟩
  by_cases he : w' = w
  · subst he
    exact h.bound hinv.room hfull ht.2 hbound
  · rw [Pool.Bound, hothers w' he] at hbound
    exact hbound.mono hcurr.ge ht.2

theorem poolInv_of_reachable (h : ((pool memory).guard LeavesWorker).Reachable s) :
    PoolInv s := by
  apply h.invariant
  · rintro s ⟨scaling, n, -, -, rfl⟩
    constructor
    case exclusive =>
      intro t t' m ht
      cases t <;> cases m <;> exact ht.elim
    case room => exact Nat.zero_le _
    case free =>
      intro t hadds
      cases t with
      | worker w => exact hadds.elim
      | sender => obtain ⟨rest, job, h⟩ := hadds; contradiction
      | server => obtain ⟨l, need, job, h⟩ := hadds; contradiction
  · rintro s e s' hinv ⟨hguard, hstep⟩
    cases hstep with
    | sender h => exact h.poolInv hinv hguard
    | segs h => exact h.poolInv hinv hguard
    | server h => exact h.poolInv hinv hguard
    | worker h => exact h.poolInv hinv

/-! ## Calls with one byte each -/

/-- Nobody has locked anything, `n` calls are done, and the first `m` workers, as far as
there was a job for them, have taken one and not gone on. -/
structure Backlog (m n : ℕ) (s : Pool) : Prop where
  sender : s.sender = .out
  server : s.server = .booting
  curr : s.sk.currBlock = 1
  max : s.sk.maxblockno = 1
  length_eq : (s.sk.block 1).length = n
  queue_eq : s.jobQ.length = n - m
  taken : ∀ w : Fin threads, (w : ℕ) < n → (w : ℕ) < m → ∃ job, s.workers w = .pending job
  idle : ∀ w : Fin threads, n ≤ w ∨ m ≤ w → s.workers w = .idle

variable {m n : ℕ}

theorem Backlog.free (h : Backlog m n s) (mutex : Mutex) : s.Free mutex := by
  intro t hm
  cases t with
  | sender =>
      rw [Pool.Holds, h.sender] at hm
      cases mutex <;> exact hm.elim
  | server =>
      rw [Pool.Holds, h.server] at hm
      cases mutex <;> exact hm.elim
  | worker w =>
      rw [Pool.Holds] at hm
      by_cases hw : (w : ℕ) < n ∧ (w : ℕ) < m
      · obtain ⟨job, hat⟩ := h.taken w hw.1 hw.2
        rw [hat] at hm
        cases mutex <;> exact hm.elim
      · rw [h.idle w (by omega)] at hm
        cases mutex <;> exact hm.elim

/-- The sender alone holds something. -/
theorem Backlog.free_sender (h : Backlog m n s) {at' : SenderAt} {mutex : Mutex}
    (hm : ¬at'.Holds s.sk.maxblockno mutex) : ({ s with sender := at' } : Pool).Free mutex := by
  intro t
  cases t with
  | sender => exact hm
  | server => exact h.free mutex .server
  | worker w => exact h.free mutex (.worker w)

theorem Backlog.exists_idle (h : Backlog m n s) (hm : m < threads) : ∃ w, s.workers w = .idle :=
  ⟨⟨m, hm⟩, h.idle ⟨m, hm⟩ (.inr le_rfl)⟩

theorem System.Reachable.poolStep {C : Pool → PoolEvent → Prop}
    (h : ((pool memory).guard C).Reachable s) (hstep : PoolStep s e s') (hC : C s e) :
    ((pool memory).guard C).Reachable s' := .step h ⟨hC, hstep⟩

section

variable {C : Pool → PoolEvent → Prop}

/-- A call of `send_ctcp` with one byte, up to `addJob`. -/
theorem exists_adding
    (hC : ∀ s e, s.server = .booting → (m < threads → ∃ w, s.workers w = .idle) → C s e)
    (h : ((pool memory).guard C).Reachable s) (hs : Backlog m n s) (hn : n < blockSize) :
    ∃ sk job, ((pool memory).guard C).Reachable { s with sk := sk, sender := .adding [] job } ∧
      sk.currBlock = 1 ∧ sk.maxblockno = 1 ∧ (sk.block 1).length = n + 1 := by
  have hround : sendCtcpRound s.sk [7] = (placeRows s.sk [packRow [7]], [], .goOn) := by
    apply sendCtcpRound_oneByte
    rw [hs.max, hs.length_eq]
    exact hn
  have hany : ∀ at' e, C { s with sender := at' } e := fun _ _ => hC _ _ hs.server hs.exists_idle
  have hcalled : ((pool memory).guard C).Reachable { s with sender := .calling [7] } :=
    h.poolStep (.sender (.call hs.sender (List.cons_ne_nil 7 []) (by decide)))
      (hC _ _ hs.server hs.exists_idle)
  have hentered : ((pool memory).guard C).Reachable { s with sender := .looping [7] } :=
    hcalled.poolStep (.sender (.enter rfl (hs.free_sender (by simp [SenderAt.Holds]))))
      (hany _ _)
  have hlocked : ((pool memory).guard C).Reachable { s with sender := .locked [7] } :=
    hentered.poolStep (.sender (.lock rfl (List.cons_ne_nil 7 [])
      (hs.free_sender (by simp [SenderAt.Holds])))) (hany _ _)
  have hjob : (sendCtcpRound s.sk [7]).1.jobs =
      s.sk.jobs ++ [⟨s.sk.maxblockno, (s.sk.block s.sk.maxblockno).length, 1, 0⟩] := by
    rw [hround]
    rfl
  have hadding := hlocked.poolStep (.sender (.read rfl hjob)) (hany _ _)
  dsimp only at hadding
  rw [hround] at hadding
  refine ⟨_, _, hadding, hs.curr, hs.max, ?_⟩
  have hlen := congrArg List.length (block_placeRows s.sk [packRow [7]])
  rw [hs.max, List.length_append, hs.length_eq] at hlen
  exact hlen

/-- The call ends, and the next of the `m` workers takes the job. -/
theorem exists_backlog_succ
    (hC : ∀ s e, s.server = .booting → (m < threads → ∃ w, s.workers w = .idle) → C s e)
    (hm : m ≤ threads) (hn : n < m + 2 * threads) (h : ((pool memory).guard C).Reachable s)
    (hs : Backlog m n s) :
    ∃ s', ((pool memory).guard C).Reachable s' ∧ Backlog m (n + 1) s' := by
  have hsize : n < blockSize := hn.trans_le ((Nat.add_le_add_right hm _).trans (by decide))
  obtain ⟨sk, job, hadding, hcurr, hmax, hlen⟩ := exists_adding hC h hs hsize
  have hroom : ¬s.Full := by
    rw [Pool.Full, hs.queue_eq]
    omega
  have hany : ∀ sk at' q e, C { s with sk := sk, sender := at', jobQ := q } e :=
    fun _ _ _ _ => hC _ _ hs.server hs.exists_idle
  have hout : ((pool memory).guard C).Reachable
      { s with sk := sk, jobQ := s.jobQ ++ [job], sender := .out } :=
    ((hadding.poolStep (.sender (.addJob rfl hroom)) (hany _ _ _ _)).poolStep
      (.sender (.unlock rfl)) (hany _ _ _ _)).poolStep (.sender (.leave rfl)) (hany _ _ _ _)
  by_cases hlt : n < m
  · let w₀ : Fin threads := ⟨n, hlt.trans_le hm⟩
    have hidle : s.workers w₀ = .idle := hs.idle w₀ (.inl le_rfl)
    have hnil : s.jobQ = [] := List.eq_nil_of_length_eq_zero (by rw [hs.queue_eq]; omega)
    have hqueue : s.jobQ ++ [job] = job :: [] := by rw [hnil, List.nil_append]
    have htake := hout.poolStep (.worker (.take hidle hqueue)) (hany _ _ _ _)
    refine ⟨_, htake, rfl, hs.server, hcurr, hmax, hlen, ?_, ?_, ?_⟩
    · rw [List.length_nil]
      omega
    · intro w hw hwm
      by_cases he : w = w₀
      · exact ⟨job, by rw [he]; exact update_self ..⟩
      · have hne : (w : ℕ) ≠ n := fun heq => he (Fin.ext heq)
        obtain ⟨job', hat⟩ := hs.taken w (by omega) hwm
        exact ⟨job', (update_of_ne he _ _).trans hat⟩
    · intro w hw
      have he : w ≠ w₀ := by
        rintro rfl
        change n + 1 ≤ n ∨ m ≤ n at hw
        omega
      exact (update_of_ne he _ _).trans (hs.idle w (by omega))
  · refine ⟨_, hout, rfl, hs.server, hcurr, hmax, hlen, ?_, ?_, ?_⟩
    · rw [List.length_append, hs.queue_eq, List.length_singleton]
      omega
    · exact fun w hw hwm => hs.taken w (by omega) hwm
    · exact fun w hw => hs.idle w (by omega)

/-- No call is done, and all threads are where they start. -/
theorem backlog_zero (m : ℕ) : ∃ s : Pool, (pool noRows).init s ∧ Backlog m 0 s := by
  refine ⟨_, ⟨1, 1, by decide, by decide, rfl⟩, ?_⟩
  constructor
  case queue_eq => exact (Nat.zero_sub m).symm
  case taken => exact fun w hw => absurd hw (Nat.not_lt_zero _)
  case idle => exact fun _ _ => rfl
  all_goals rfl

theorem exists_backlog
    (hC : ∀ s e, s.server = .booting → (m < threads → ∃ w, s.workers w = .idle) → C s e)
    (hm : m ≤ threads) (hn : n ≤ m + 2 * threads) :
    ∃ s, ((pool noRows).guard C).Reachable s ∧ Backlog m n s := by
  induction n with
  | zero =>
      obtain ⟨s, hinit, hs⟩ := backlog_zero m
      exact ⟨s, .init hinit, hs⟩
  | succ n ih =>
      obtain ⟨s, h, hs⟩ := ih (by omega)
      exact exists_backlog_succ hC hm hn h hs

end

/-! ## Deadlock -/

/-- A thread never waits in `addJob` for workers that all wait for it, in runs in which
it leaves one of them when it starts to wait. -/
theorem noDeadlock_of_reachable (h : ((pool memory).guard LeavesWorker).Reachable s) (t : Thread) :
    ¬s.Deadlock t := by
  rintro ⟨hadds, hfull, hstuck⟩
  obtain ⟨w, hw⟩ := (poolInv_of_reachable h).free t hadds hfull
  obtain ⟨m, hwants, hholds⟩ := hstuck w
  apply hw
  rw [Pool.Bound]
  cases hat : s.workers w with
  | pending job =>
      rw [hat] at hwants
      obtain rfl := Option.some.inj hwants
      exact Or.inl hholds
  | checked job =>
      rw [hat] at hwants
      obtain rfl := Option.some.inj hwants
      exact hholds
  | _ =>
      rw [hat] at hwants
      contradiction

theorem leavesWorker_of_idle (hidle : ∃ w, s.workers w = .idle) : LeavesWorker s e := by
  obtain ⟨w, hw⟩ := hidle
  have hfree : ∀ t, ¬s.Bound t w := fun t => by
    rw [Pool.Bound, hw]
    exact id
  cases e with
  | read => exact fun _ _ _ _ => ⟨w, hfree _⟩
  | assign => exact fun _ _ _ _ _ => ⟨w, hfree _⟩
  | addJob t => exact fun _ t' _ _ => ⟨w, hfree t'⟩
  | _ => trivial

/-- After ten calls with one byte `job_q` is full, and no worker has taken anything: the
next call waits, but not for good. -/
theorem noDeadlock_fullQueue : ∃ s : Pool, s.Adds .sender ∧ s.Full ∧ ∀ t, ¬s.Deadlock t := by
  have hC : ∀ s e, s.server = .booting → (0 < threads → ∃ w, s.workers w = .idle) →
      LeavesWorker s e := fun _ _ _ hidle => leavesWorker_of_idle (hidle (by decide))
  obtain ⟨s, h, hs⟩ := exists_backlog (n := 2 * threads) hC (Nat.zero_le _) (Nat.zero_add _).ge
  obtain ⟨sk, job, hadding, -⟩ := exists_adding hC h hs (by decide)
  exact ⟨{ s with sk := sk, sender := .adding [] job }, ⟨[], job, rfl⟩, hs.queue_eq.ge,
    fun t => noDeadlock_of_reachable hadding t⟩

/-- After 15 calls with one byte each worker has a job and is about to lock
`curr_block_mutex`, and `job_q` is full: the next call waits for room. -/
theorem deadlock_of_backlog : ∃ s, (pool noRows).Reachable s ∧ s.Deadlock .sender := by
  obtain ⟨s, h, hs⟩ := exists_backlog (C := fun _ _ => True) (m := threads)
    (fun _ _ _ _ => trivial) le_rfl le_rfl
  obtain ⟨sk, job, hadding, -⟩ := exists_adding (fun _ _ _ _ => trivial) h hs (by decide)
  refine ⟨_, hadding.of_guard, ⟨[], job, rfl⟩, ?_, ?_⟩
  · rw [Pool.Full, hs.queue_eq]
    decide
  · intro w
    obtain ⟨job', hat⟩ := hs.taken w (w.isLt.trans (by decide)) w.isLt
    exact ⟨.curr, congrArg WorkerAt.wants hat, trivial⟩

end Ctcp
