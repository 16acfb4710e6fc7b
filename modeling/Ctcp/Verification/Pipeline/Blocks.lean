import Ctcp.Verification.Pipeline.Once
import Ctcp.Verification.Pipeline.Script

/-! # Jobs and the blocks they are for -/

namespace Ctcp

open Function

variable {cap : ℕ} {s s' : Pipeline}

/-! ## Runs in which no block number gets ahead of or behind its slot -/

/-- New rows come into a slot only when no late job is left there, and `send_segs` has nothing
to send when it looks at the block behind the window: that has no more rows than are expected
to arrive of the packets in flight that `send_segs` has counted, those of the block before. -/
def KeepsBlocks (s : Pipeline) : PipelineEvent → Prop
  | .fill rest =>
    roundRows s.sk rest ≠ [] → ∀ t ∈ s.tasks, t.slot = slot s.sk.maxblockno → ¬t.Late s.slots
  | .examine =>
    ∀ l, s.phase = .looping l → l.blockno = s.sk.currBlock + numBlocks →
      ((s.sk.block l.blockno).length : ℚ) ≤ meanOnFly s.sk l.currOnFly
  | _ => True

/-- The block that the server thread sends packets of is in the window, and a packet in
its hand is one of that block. -/
def PhaseOwn (s : Pipeline) : Phase → Prop
  | .needing l need => 0 < need → l.blockno < s.sk.currBlock + numBlocks
  | .popping l _ => l.blockno < s.sk.currBlock + numBlocks
  | .popped l _ msg =>
    l.blockno < s.sk.currBlock + numBlocks ∧ PacketOf (s.filled l.blockno) l.blockno msg
  | _ => True

structure BlocksInv (s : Pipeline) : Prop where
  onTime : OnTime s.slots
  own : OwnInv s.slots
  once : OnceInv s.slots
  phase : PhaseOwn s s.phase

theorem PipeInv.holds (h : PipeInv s) : s.slots.Holds := h.store.held

theorem BlocksInv.keepsWindow (h : BlocksInv s) {e : PipelineEvent} (hkeep : KeepsBlocks s e)
    (hinv : PipeInv s) : KeepsWindow s.slots (slotEvent s e) := by
  constructor
  · rintro b added he
    cases e with
    | fill rest =>
        cases hrows : roundRows s.sk rest with
        | nil =>
            simp only [slotEvent, hrows] at he
            exact absurd he (by simp)
        | cons pl pls =>
            simp only [slotEvent, hrows] at he
            obtain ⟨rfl, -⟩ := SlotEvent.fill.inj he
            exact hkeep (by simp [hrows])
    | assign | pop | decrement =>
        simp only [slotEvent] at he
        grind
    | _ => simp [slotEvent] at he
  · rintro b need he
    cases e with
    | assign =>
        cases hp : s.phase with
        | needing l n =>
            have hphase := h.phase
            rw [hp] at hphase
            simp only [slotEvent, hp] at he
            split_ifs at he with hless
            obtain ⟨rfl, rfl⟩ := SlotEvent.assign.inj he
            apply hphase
            have hremain : 0 ≤ s.sk.dofRemain (slot l.blockno) := hinv.slots.remain _
            omega
        | _ =>
            simp only [slotEvent, hp] at he
            exact absurd he (by simp)
    | fill | pop | decrement =>
        simp only [slotEvent] at he
        grind
    | _ => simp [slotEvent] at he

/-! ## One step -/

/-- The other threads only add rows. -/
theorem PhaseOwn.mono {phase : Phase} (h : PhaseOwn s phase)
    (hcurr : s'.sk.currBlock = s.sk.currBlock)
    (hfilled : ∀ b msg, PacketOf (s.filled b) b msg → PacketOf (s'.filled b) b msg) :
    PhaseOwn s' phase := by
  cases phase with
  | needing l need => exact fun hpos => hcurr ▸ h hpos
  | popping l currWin =>
      change l.blockno < s'.sk.currBlock + numBlocks
      rw [hcurr]
      exact h
  | popped l currWin msg => exact ⟨hcurr ▸ h.1, hfilled _ _ h.2⟩
  | _ => trivial

/-- `send_segs` needs nothing of the block behind the window. -/
theorem lt_of_dofNeeded_pos {sk : Server} {l : SegsLoop} (hgo : l.GoesOn sk)
    (hkeep : l.blockno = sk.currBlock + numBlocks →
      ((sk.block l.blockno).length : ℚ) ≤ meanOnFly sk l.currOnFly)
    (hneed : 0 < dofNeeded sk l) : l.blockno < sk.currBlock + numBlocks := by
  refine lt_of_le_of_ne hgo.2.1 fun hend => ?_
  have hne : l.blockno ≠ sk.currBlock := by
    rw [hend]
    simp only [numBlocks]
    omega
  have hrequest : dofRequestTmp sk l.blockno = (sk.block l.blockno).length := if_neg hne
  rw [dofNeeded_eq_zero] at hneed
  · exact hneed.false
  · rw [hrequest]
    exact_mod_cast hkeep hend

theorem phaseOwn_nextPacket {sk : Server} {l : SegsLoop} {currWin : ℕ}
    (h : 0 < currWin → l.blockno < s.sk.currBlock + numBlocks) :
    PhaseOwn s (nextPacket sk l currWin) := by
  unfold nextPacket
  split_ifs with hgo
  · exact h hgo.1
  · trivial

theorem BlocksInv.phase_step {e : PipelineEvent} (h : BlocksInv s) (hinv : PipeInv s)
    (hkeep : KeepsBlocks s e) (hstep : PipelineStep cap s e s') : PhaseOwn s' s'.phase := by
  have hphase := h.phase
  cases hstep with
  | fill hne hlen _ _ =>
      apply hphase.mono
      · exact (hinv.store.fill hne hlen).curr_eq
      · exact fun b msg hmsg => hmsg.addRows
  | @examine l hloop hgo _ => exact lt_of_dofNeeded_pos hgo (hkeep l hloop)
  | @assign l need hneeding _ =>
      rw [hneeding] at hphase
      apply phaseOwn_nextPacket
      have hcurr : (assignJob s.sk l.blockno need).currBlock = s.sk.currBlock := by
        unfold assignJob
        split_ifs <;> rfl
      intro hpos
      exact hcurr ▸ hphase hpos
  | @pop l currWin msg q hpopping hq =>
      rw [hpopping] at hphase
      have hreach := hinv.phase
      rw [hpopping] at hreach
      refine ⟨hphase, ?_⟩
      have hmem : msg ∈ s.sk.codedQ (slot l.blockno) := by
        rw [hq]
        exact List.mem_cons_self
      exact h.own.queue _ hreach.2.1.curr_le hphase msg hmem
  | @decrement l currWin msg hpopped _ =>
      rw [hpopped] at hphase
      exact phaseOwn_nextPacket fun _ => hphase.1
  | skip _ _ _ _ | check _ _ _ _ | giveUp _ _ _ _ | run _ _ _ _ _ | push _ _ _ | finish _ _ =>
      exact hphase.mono rfl fun _ _ hmsg => hmsg
  | start _ | segs _ _ | leave _ _ | ack _ _ | ackEnd _ _ _ _ _ => trivial
  | addPath hidle | removePath hidle _ | timeout hidle _ _ =>
      rw [hidle]
      trivial
  | free hacking _ _ =>
      rw [hacking]
      trivial

theorem BlocksInv.step {e : PipelineEvent} (hinv : PipeInv s) (h : BlocksInv s)
    (hkeep : KeepsBlocks s e) (hstep : PipelineStep cap s e s') : BlocksInv s' := by
  have hslot := hstep.slotStep hinv
  have hwindow := h.keepsWindow hkeep hinv
  constructor
  case onTime => exact h.onTime.step hwindow.1 hslot
  case own => exact h.own.step hinv.slots h.onTime hinv.holds hwindow hslot
  case once => exact h.once.step hinv.holds hinv.store.length_block_le hslot
  case phase => exact h.phase_step hinv hkeep hstep

theorem blocksInv_init (h : (pipeline cap noRows).init s) : BlocksInv s := by
  obtain ⟨scaling, n, -, -, rfl⟩ := h
  constructor
  case onTime => exact onTime_of_fresh fun _ ht => (List.not_mem_nil ht).elim
  case own =>
    constructor
    case window => exact fun _ ht => (List.not_mem_nil ht).elim
    case left => exact fun _ ht => (List.not_mem_nil ht).elim
    case queue => exact fun _ _ _ _ hm => (List.not_mem_nil hm).elim
    case pushed => exact fun _ hm => (List.not_mem_nil hm).elim
  case once => exact fun _ _ => Nat.zero_le _
  case phase => trivial

theorem blocksInv_of_reachable (h : ((pipeline cap noRows).guard KeepsBlocks).Reachable s) :
    BlocksInv s :=
  h.invariant_of (J := PipeInv) (fun _ hs => pipeInv_of_reachable hs.of_guard)
    (fun s => @blocksInv_init cap s) fun _ _ _ hinv hown hstep => hown.step hinv hstep.1 hstep.2

/-- A job that reads rows, reads those of its own block. -/
theorem BlocksInv.reads (h : BlocksInv s) (hinv : PipeInv s) {t : Task} (ht : t ∈ s.tasks)
    (hholds : t.Holds) :
    s.sk.currBlock ≤ t.job.blockno ∧ t.job.blockno < s.sk.currBlock + numBlocks ∧
      s.sk.block t.job.blockno = s.filled t.job.blockno := by
  have hfresh := h.onTime.holds_fresh t ht hholds
  have hcurr := (hinv.slots.fresh t ht hfresh).current
  have hlt := h.own.window t ht hfresh
  exact ⟨hcurr, hlt, hinv.store.held _ hcurr hlt⟩

/-! ## Jobs packetize their own block -/

/-- While a job has the mutex, its slot holds its block; whatever was pushed is made from
the rows of the block that it names, and each row was queued at most once. -/
structure OwnPackets (s : Pipeline) : Prop where
  holds : ∀ t ∈ s.tasks, t.Holds → s.sk.currBlock ≤ t.job.blockno ∧
    t.job.blockno < s.sk.currBlock + numBlocks ∧
      s.sk.block t.job.blockno = s.filled t.job.blockno
  pushed : ∀ msg ∈ s.pushed, PacketOf (s.filled msg.blockno) msg.blockno msg
  once : ∀ b r, s.pushed.countP (IsRow b r ·) ≤ 1

theorem ownPackets_of_reachable {memory : BlockMemory} (hmem : memory.Clear)
    (h : ((pipeline cap memory).guard KeepsBlocks).Reachable s) : OwnPackets s := by
  rw [hmem.eq_noRows] at h
  have hinv := pipeInv_of_reachable h.of_guard
  have hown := blocksInv_of_reachable h
  constructor
  case holds => exact fun t ht hholds => hown.reads hinv ht hholds
  case pushed => exact hown.own.pushed
  case once =>
    intro b r
    have huses : s.pushed.countP (IsRow b r ·) + (s.tasks.map (Task.uses b r)).sum ≤
        if r < (s.filled b).length then 1 else 0 := hown.once b r
    split_ifs at huses <;> omega

theorem Tame.keepsBlocks {e : PipelineEvent} (h : Tame s e) : KeepsBlocks s e := by
  cases e with
  | fill rest => exact fun _ t ht hs hlate => hlate.1 (h.1 t ht hs)
  | examine =>
      intro l hl hend
      have hcurr := (h l hl).1
      simp only [numBlocks] at hend
      omega
  | _ => trivial

/-- The row of block 1 is queued. Block 1 is freed with the 99 after it, block 101 gets a
row in the same slot, and its job runs. -/
def refill : List PipelineAct :=
  [.fill 7, .check, .run, .push, .finish, .start, .ack ⟨1, 101, 0⟩] ++
    List.replicate numBlocks .free ++ [.ackEnd 0 initsegs, .fill 8, .check, .run, .push]

theorem ownPackets_refill : ∃ s : Pipeline, s.sk.currBlock = 101 ∧
    s.pushed.map DataPckt.blockno = [1, 101] ∧ OwnPackets s := by
  have hview : (refill.foldlM (Pipeline.act (2 * blockSize)) onePath).map (fun s =>
      (s.sk.currBlock, s.pushed.map DataPckt.blockno)) = some (101, [1, 101]) := by decide +kernel
  obtain ⟨s, hacts, hview⟩ := Option.map_eq_some_iff.mp hview
  obtain ⟨hcurr, hpushed⟩ := Prod.mk.injEq .. ▸ hview
  have hs := reachable_acts (fun _ _ => Tame.keepsBlocks) reachable_onePath hacts
  exact ⟨s, hcurr, hpushed, ownPackets_of_reachable (fun _ => rfl) hs⟩

/-! ## A late job -/

theorem roundRows_oneByte {sk : Server} (hempty : sk.block sk.maxblockno = []) (v : UInt8) :
    roundRows sk [v] = [packRow [v]] := by
  rw [roundRows, sendCtcpRound_oneByte (by simp [hempty, blockSize]), block_placeRows,
    List.drop_left]

theorem fill_oneByte_block (hempty : s.sk.block s.sk.maxblockno = []) (v : UInt8) :
    (s.fill [v]).sk.block s.sk.maxblockno = [packRow [v]] := by
  change (sendCtcpRound s.sk [v]).1.block s.sk.maxblockno = _
  rw [sendCtcpRound_oneByte (by simp [hempty, blockSize]), block_placeRows, hempty,
    List.nil_append]

theorem fill_oneByte_filled (hempty : s.sk.block s.sk.maxblockno = []) (v : UInt8) :
    (s.fill [v]).filled = addRows s.filled s.sk.maxblockno [packRow [v]] := by
  rw [← roundRows_oneByte hempty]
  rfl

theorem freeBlocks_codedQ_nil (n : ℕ) {sk : Server} {k : ℕ} (h : sk.codedQ k = []) :
    (freeBlocks n sk).codedQ k = [] := by
  induction n generalizing sk with
  | zero => exact h
  | succ n ih =>
      apply ih
      by_cases hk : k = slot sk.currBlock
      · simp [freeCurrBlock, hk]
      · simpa [freeCurrBlock, update_of_ne hk] using h

/-- `handle_ack` frees `n` blocks, while one job waits for its mutex. -/
theorem exists_freed (h : (pipeline cap noRows).Reachable s) {pin start : ℕ} {a : AckPckt}
    {t : Task} (hphase : s.phase = .acking pin a start) (htasks : s.tasks = [t])
    (hstage : t.stage = .checked) (n : ℕ) (hn : s.sk.currBlock + n ≤ a.blockno) :
    ∃ s' fresh, (pipeline cap noRows).Reachable s' ∧ s'.sk = freeBlocks n s.sk ∧
      s'.phase = .acking pin a start ∧ s'.filled = s.filled ∧ s'.pushed = s.pushed ∧
      s'.tasks = [⟨t.job, .checked, fresh⟩] := by
  induction n generalizing s t with
  | zero =>
      refine ⟨s, t.fresh, h, rfl, hphase, rfl, rfl, ?_⟩
      rw [htasks, ← hstage]
  | succ n ih =>
      have hfree : s.SlotFree (slot s.sk.currBlock) :=
        Pipeline.slotFree_singleton htasks (by simp [hstage])
      have hstep := h.pipeStep (.free hphase (by omega) hfree)
      have hone : s.tasks.map (Task.age (slot s.sk.currBlock)) =
          [t.age (slot s.sk.currBlock)] := by rw [htasks]; rfl
      obtain ⟨s', fresh, hs', hsk, hph, hfilled, hpushed, hts⟩ :=
        ih hstep hphase hone (by rw [Task.stage_age, hstage]) (by
          change s.sk.currBlock + 1 + n ≤ a.blockno
          omega)
      rw [Task.job_age] at hts
      exact ⟨s', fresh, hs', hsk, hph, hfilled, hpushed, hts⟩

/-- A late job for row 0 of block 1 pushes the row of block 101. -/
theorem exists_relabelled (h : (pipeline (2 * blockSize) noRows).Reachable s)
    (hlock : s.phase.Unlocked) {fresh : Bool}
    (htasks : s.tasks = [⟨⟨1, 0, 1, 0⟩, .checked, fresh⟩]) (hmax : s.sk.maxblockno = 101)
    (hempty : s.sk.block s.sk.maxblockno = []) (hqueue : s.sk.codedQ (slot 1) = [])
    (hfilled : s.filled 1 = [packRow [7]]) :
    ∃ s', (pipeline (2 * blockSize) noRows).Reachable s' ∧ ¬OwnPackets s' := by
  have hfill := h.pipeStep (e := .fill [8]) (.fill (List.cons_ne_nil 8 []) (by decide) hlock
    (Pipeline.slotFree_singleton htasks nofun))
  have htasks' : (s.fill [8]).tasks =
      [] ++ ⟨⟨1, 0, 1, 0⟩, .checked, fresh⟩ :: newTasks (sendCtcpRound s.sk [8]).1 := by
    change s.tasks ++ _ = _
    rw [htasks]
    rfl
  have hfree : (s.fill [8]).SlotFree (slot 1) := by
    intro t ht hholds
    rw [htasks'] at ht
    rcases List.mem_cons.mp ht with rfl | hnew
    · exact (Task.not_holds (by simp) hholds).elim
    · obtain ⟨job, -, rfl⟩ := List.mem_map.mp hnew
      exact (Task.not_holds (by simp) hholds).elim
  have hblock : (s.fill [8]).sk.block 1 = [packRow [8]] := by
    have hrows := fill_oneByte_block hempty 8
    rwa [hmax] at hrows
  have hshown : blockLenRows ((s.fill [8]).sk.block 1) = [packRow [8]] := by
    rw [hblock]
    rfl
  have hrun := hfill.pipeStep (@PipelineStep.run _ _ [] _ _ [rowPacket [packRow [8]] 1 0] htasks'
    rfl hfree (by simp [hshown]) (by
      rw [hshown]
      exact ⟨[], rfl, rfl, by simp⟩))
  have hqueue' : (s.fill [8]).sk.codedQ (slot 1) = [] := by
    change (sendCtcpRound s.sk [8]).1.codedQ (slot 1) = []
    rw [sendCtcpRound_oneByte (by simp [hempty, blockSize])]
    exact hqueue
  have hroom : ((s.fill [8]).sk.codedQ (slot 1)).length < 2 * blockSize := by
    rw [hqueue']
    decide
  have hpush := hrun.pipeStep (@PipelineStep.push _ _ [] _ _ _ _ rfl rfl hroom)
  refine ⟨_, hpush, fun hown => ?_⟩
  have hmsg := hown.pushed _ (List.mem_append_right _ (List.mem_singleton_self _))
  have hrows : (s.fill [8]).filled 1 = [packRow [7]] := by
    rw [fill_oneByte_filled hempty, hmax, addRows, update_of_ne (by decide), hfilled]
  rcases hmsg.made with ⟨row, hrow, hsame⟩ | ⟨n, -, hcoded⟩
  · change row < ((s.fill [8]).filled 1).length at hrow
    change _ = rowPacket ((s.fill [8]).filled 1) 1 row at hsame
    rw [hrows, List.length_singleton] at hrow
    obtain rfl : row = 0 := by omega
    rw [hrows] at hsame
    have hbyte := congrFun (congrArg DataPckt.payload hsame) ⟨2, by decide⟩
    exact absurd hbyte (by decide)
  · exact absurd hcoded.flag_eq (by decide)

/-- The job for row 0 of block 1 has passed its check when an acknowledgement for block
101 is handled. Then block 101 gets a row: the job pushes it under block number 1. -/
theorem not_ownPackets_of_late :
    ∃ s, (pipeline (2 * blockSize) noRows).Reachable s ∧ ¬OwnPackets s := by
  have hfill : ((pipeline (2 * blockSize) noRows).guard fun _ _ => True).Reachable
      (onePath.fill [7]) := reachable_oneByte trivial
  have hcheck := hfill.of_guard.pipeStep (@PipelineStep.check _ _ [] [] _ rfl rfl trivial le_rfl)
  have hstart := hcheck.pipeStep (.start rfl)
  have hack := hstart.pipeStep (e := .ack 0 ⟨1, 101, 0⟩) (.ack rfl (by decide))
  obtain ⟨s, fresh, hs, hsk, hphase, hfilled, -, htasks⟩ :=
    exists_freed hack rfl rfl rfl 100 le_rfl
  have hcurr : s.sk.currBlock = 101 := by
    rw [hsk, freeBlocks_currBlock]
    rfl
  have hmax : s.sk.maxblockno = 101 := by
    rw [hsk, freeBlocks_maxblockno _ le_rfl]
    rfl
  have hend := hs.pipeStep (.ackEnd hphase hcurr.ge
    (by
      rintro t ht ⟨left, hleft⟩
      rw [htasks] at ht
      obtain rfl := List.mem_singleton.mp ht
      simp at hleft)
    (show (0 : ℚ) ≤ 0 ∧ (0 : ℚ) ≤ 1 by decide) (show 8 ≤ maxCwnd by decide))
  refine exists_relabelled hend trivial htasks hmax ?_ ?_ ?_
  · have hheld := (pipeInv_of_reachable hs).store.held 101 hcurr.le (by
      rw [hcurr]
      decide)
    change s.sk.block s.sk.maxblockno = []
    rw [hmax, hheld, hfilled]
    rfl
  · change s.sk.codedQ (slot 1) = []
    rw [hsk]
    exact freeBlocks_codedQ_nil 100 rfl
  · change s.filled 1 = _
    rw [hfilled]
    rfl

end Ctcp
