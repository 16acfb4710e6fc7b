import Ctcp.Verification.Pipeline.Blocks

/-! # Block numbers that `send_segs` uses -/

namespace Ctcp

open Function

variable {cap : ℕ} {s s' : Pipeline}

/-! ## The window -/

/-- Blocks are coded and sent under numbers of the window, so that rows and packets of
a slot are those of the block that is meant. A job is fresh when it is created. -/
structure StaysInWindow (s : Pipeline) : Prop where
  jobs : ∀ t ∈ s.tasks, t.fresh →
    s.sk.currBlock ≤ t.job.blockno ∧ t.job.blockno < s.sk.currBlock + numBlocks
  reads : ∀ t ∈ s.tasks, t.Holds → s.sk.currBlock ≤ t.job.blockno ∧
    t.job.blockno < s.sk.currBlock + numBlocks ∧
      s.sk.block t.job.blockno = s.filled t.job.blockno
  sends : ∀ l currWin, s.phase = .popping l currWin → s.sk.currBlock ≤ l.blockno ∧
    l.blockno < s.sk.currBlock + numBlocks ∧ s.sk.block l.blockno = s.filled l.blockno
  pops : ∀ l currWin msg, s.phase = .popped l currWin msg → s.sk.currBlock ≤ l.blockno ∧
    l.blockno < s.sk.currBlock + numBlocks ∧ PacketOf (s.filled l.blockno) l.blockno msg

/-- No number gets ahead of the window, or behind it, in runs that keep the blocks. -/
theorem staysInWindow_of_reachable {memory : BlockMemory} (hmem : memory.Clear)
    (h : ((pipeline cap memory).guard KeepsBlocks).Reachable s) : StaysInWindow s := by
  rw [hmem.eq_noRows] at h
  have hinv := pipeInv_of_reachable h.of_guard
  have hown := blocksInv_of_reachable h
  have hphase := hinv.phase
  have hwindow := hown.phase
  constructor
  case jobs =>
    intro t ht hfresh
    exact ⟨(hinv.slots.fresh t ht hfresh).current, hown.own.window t ht hfresh⟩
  case reads => exact fun t ht hholds => hown.reads hinv ht hholds
  case sends =>
    intro l currWin hp
    rw [hp] at hphase hwindow
    exact ⟨hphase.2.1.curr_le, hwindow, hinv.store.held _ hphase.2.1.curr_le hwindow⟩
  case pops =>
    intro l currWin msg hp
    rw [hp] at hphase hwindow
    exact ⟨hphase.2.1.curr_le, hwindow.1, hwindow.2⟩

/-- A packet of block 1 is in hand, while a job codes it. -/
theorem staysInWindow_oneByteSent : ∃ s : Pipeline, (∃ l msg, s.phase = .popped l 1 msg) ∧
    (∃ t ∈ s.tasks, t.Holds) ∧ StaysInWindow s := by
  obtain ⟨s, l, msg, hs, hphase, -, -, -, hholds⟩ :=
    exists_oneByteSent (C := KeepsBlocks) fun _ _ => Tame.keepsBlocks
  exact ⟨s, ⟨l, msg, hphase⟩, hholds, staysInWindow_of_reachable (fun _ => rfl) hs⟩

/-! ## Filling the whole ring -/

/-- With bytes enough for a block, a round fills an empty block. -/
theorem sendCtcpRound_full {sk : Server} (hempty : sk.block sk.maxblockno = [])
    {rest : List UInt8} (hlen : blockSize * rowCapacity ≤ rest.length)
    (hlt : rest.length < 2 ^ 32) :
    ∃ added rest', added.length = blockSize ∧
      sendCtcpRound sk rest = (placeRows sk added, rest', .goOn) := by
  obtain ⟨added, hread⟩ : ∃ added, ReadSpec [] rest (readBlock [] rest) added :=
    readBlock_spec (Nat.zero_le _) hlt
  have hrows := hread.rows_eq
  have hsum := congrArg List.length hread.bytes_eq
  rw [List.length_append] at hsum
  have hbytes : (added.flatMap Payload.bytes).length ≤ added.length * rowCapacity := by
    rw [List.length_flatMap, ← List.length_map (fun pl : Payload => pl.bytes.length)]
    apply List.sum_le_card_nsmul
    intro n hn
    obtain ⟨pl, hpl, rfl⟩ := List.mem_map.mp hn
    obtain ⟨bytes, -, hpacks⟩ := hread.packs pl hpl
    rw [hpacks.bytes_eq]
    exact hpacks.length_le
  have hfull : added.length = blockSize := by
    rcases hread.done with hnil | hdone
    · rw [hnil, List.length_nil] at hsum
      have hle := hread.length_le
      simp only [List.length_nil, blockSize, rowCapacity_eq] at *
      omega
    · simpa using hdone
  refine ⟨added, (readBlock [] rest).2, hfull, ?_⟩
  have hshort := hread.length_lt (List.ne_nil_of_length_pos (by rw [hfull]; decide))
  rw [sendCtcpRound]
  simp only [hempty, hshort, if_true, hrows, List.nil_append, placeRows]
  simp

/-- A job pushes all its packets, when there is room for them. -/
theorem exists_pushed (h : (pipeline cap noRows).Reachable s) {job : CodingJob}
    {left : List DataPckt} (htasks : s.tasks = [⟨job, .pushing left, true⟩])
    (hroom : (s.sk.codedQ (slot job.blockno)).length + left.length ≤ cap) :
    ∃ pushed, (pipeline cap noRows).Reachable
      { s with
        sk := { s.sk with
          codedQ := update s.sk.codedQ (slot job.blockno) (s.sk.codedQ (slot job.blockno) ++ left) }
        tasks := []
        pushed := pushed } := by
  induction left generalizing s with
  | nil =>
      refine ⟨s.pushed, ?_⟩
      rw [List.append_nil, update_eq_self]
      exact h.pipeStep (@PipelineStep.finish cap s [] [] _ htasks rfl)
  | cons msg left ih =>
      rw [List.length_cons] at hroom
      have hpush := h.pipeStep (@PipelineStep.push cap s [] [] _ _ _ htasks rfl (by
        change (s.sk.codedQ (slot job.blockno)).length < cap
        omega))
      obtain ⟨pushed, hrest⟩ := ih hpush rfl (by
        simp only [Task.slot, update_self, List.length_append, List.length_singleton]
        omega)
      refine ⟨pushed, ?_⟩
      simpa [Task.slot, List.append_assoc] using hrest

/-- A job that is alone runs at once. -/
theorem exists_worked (h : (pipeline cap noRows).Reachable s) (hlock : s.phase.Unlocked)
    {job : CodingJob} {msgs : List DataPckt} (htasks : s.tasks = [⟨job, .pending, true⟩])
    (hcurr : s.sk.currBlock ≤ job.blockno) (hrows : s.sk.block job.blockno ≠ [])
    (hmsgs : JobPackets (s.sk.block job.blockno) job msgs)
    (hroom : (s.sk.codedQ (slot job.blockno)).length + msgs.length ≤ cap) :
    ∃ pushed, (pipeline cap noRows).Reachable
      { s with
        sk := { s.sk with
          codedQ := update s.sk.codedQ (slot job.blockno) (s.sk.codedQ (slot job.blockno) ++ msgs) }
        tasks := []
        pushed := pushed } := by
  have hcheck := h.pipeStep (@PipelineStep.check cap s [] [] _ htasks rfl hlock hcurr)
  have hlen := (pipeInv_of_reachable h).store.length_block_le job.blockno
  rw [← blockLenRows_of_le hlen] at hrows hmsgs
  have hrun := hcheck.pipeStep (@PipelineStep.run cap _ [] [] _ msgs rfl rfl
    (Pipeline.slotFree_singleton rfl nofun) hrows hmsgs)
  exact exists_pushed hrun rfl hroom

/-- A full block is filled, and its rows are queued. -/
structure Stocked (sk : Server) (b : ℕ) : Prop where
  length_eq : (sk.block b).length = blockSize
  remain_eq : sk.dofRemain (slot b) = blockSize
  queue_eq : (sk.codedQ (slot b)).length = blockSize

/-- Nothing has been done with the slot of the block. -/
structure Unused (sk : Server) (b : ℕ) : Prop where
  block_eq : sk.block b = []
  remain_eq : sk.dofRemain (slot b) = 0
  queue_eq : sk.codedQ (slot b) = []

/-- The server thread has not started, and `n` blocks are stocked. -/
structure Stock (n : ℕ) (s : Pipeline) : Prop where
  phase : s.phase = .booting
  tasks : s.tasks = []
  curr : s.sk.currBlock = 1
  max : s.sk.maxblockno = n + 1
  paths : s.sk.activePaths = fun _ => initStream
  numActive : s.sk.numActive = 1
  scaling : s.sk.slrScaling = 1
  stocked : ∀ b, 1 ≤ b → b ≤ n → Stocked s.sk b
  unused : ∀ b, n < b → b ≤ numBlocks → Unused s.sk b

/-- Slots of different blocks of the first window are different. -/
theorem slot_ne {b b' : ℕ} (hb : 1 ≤ b) (hb' : b ≤ numBlocks) (hc : 1 ≤ b')
    (hc' : b' ≤ numBlocks) (hne : b ≠ b') : slot b ≠ slot b' := fun hs =>
  hne (slot_inj hs hb (by omega) hc (by omega))

/-- A round on a full block moves on to the next one. -/
theorem fill_moved (hinv : PipeInv s) (hfull : (s.sk.block s.sk.maxblockno).length = blockSize)
    (hmax : s.sk.maxblockno < s.sk.currBlock + numBlocks) :
    s.fill [7] = { s with sk := { s.sk with maxblockno := s.sk.maxblockno + 1 } } := by
  have hspec := sendCtcpRound_spec hinv.store (List.cons_ne_nil 7 []) (by decide)
  have hround : (sendCtcpRound s.sk [7]).1 = { s.sk with maxblockno := s.sk.maxblockno + 1 } := by
    generalize sendCtcpRound s.sk [7] = r at hspec
    cases hspec with
    | placed added rest' hne _ hlen _ _ =>
        have hpos := List.length_pos_of_ne_nil hne
        omega
    | moved _ _ => rfl
    | waits hlast => omega
  have hrows : roundRows s.sk [7] = [] := by
    rw [roundRows, hround]
    exact List.drop_length
  have hfilled : addRows s.filled s.sk.maxblockno [] = s.filled := by simp [addRows]
  rw [Pipeline.fill, hrows, hfilled, hround]
  exact @Pipeline.commit_nil s { s.sk with maxblockno := s.sk.maxblockno + 1 } hinv.jobs s.phase

/-- A call of `send_ctcp` fills an empty block, and the job for its rows runs at once. -/
theorem exists_filled (h : (pipeline (2 * blockSize) noRows).Reachable s) (hlock : s.phase.Unlocked)
    (htasks : s.tasks = []) (hempty : s.sk.block s.sk.maxblockno = [])
    (hqueue : s.sk.codedQ (slot s.sk.maxblockno) = []) :
    ∃ s' added q, (pipeline (2 * blockSize) noRows).Reachable s' ∧ added.length = blockSize ∧
      q.length = blockSize ∧ s'.phase = s.phase ∧ s'.tasks = [] ∧
      s'.sk = { placeRows s.sk added with
        jobs := []
        codedQ := update s.sk.codedQ (slot s.sk.maxblockno) q } := by
  have hlen : (List.replicate (blockSize * rowCapacity) (7 : UInt8)).length =
    blockSize * rowCapacity := List.length_replicate
  have hsmall : blockSize * rowCapacity < 2 ^ 32 := by decide
  have hne : List.replicate (blockSize * rowCapacity) (7 : UInt8) ≠ [] :=
    List.ne_nil_of_length_pos (by rw [hlen]; decide)
  generalize List.replicate (blockSize * rowCapacity) (7 : UInt8) = rest at hlen hne
  obtain ⟨added, rest', hadded, hround⟩ := sendCtcpRound_full hempty hlen.ge (hlen.trans_lt hsmall)
  have hfill := h.pipeStep (e := .fill rest) (.fill hne (hlen.trans_lt hsmall) hlock
    (Pipeline.slotFree_nil htasks))
  let job : CodingJob := ⟨s.sk.maxblockno, 0, blockSize, 0⟩
  have hsk : (s.fill rest).sk = { placeRows s.sk added with jobs := [] } := by
    change { (sendCtcpRound s.sk rest).1 with jobs := [] } = _
    rw [hround]
  have htasks₁ : (s.fill rest).tasks = [⟨job, .pending, true⟩] := by
    change s.tasks ++ newTasks (sendCtcpRound s.sk rest).1 = _
    rw [hround, htasks, newTasks, placeRows, (pipeInv_of_reachable h).jobs, hempty, hadded]
    rfl
  have hcurr : (s.fill rest).sk.currBlock ≤ s.sk.maxblockno := by
    rw [hsk]
    exact (pipeInv_of_reachable h).store.curr_le
  have hlock₁ : (s.fill rest).phase.Unlocked := by
    rwa [Pipeline.fill_phase]
  have hblock : (s.fill rest).sk.block s.sk.maxblockno = added := by
    rw [hsk]
    exact (block_placeRows _ _).trans (by rw [hempty, List.nil_append])
  have hqueue₁ : (s.fill rest).sk.codedQ = s.sk.codedQ := by
    rw [hsk]
    rfl
  have hmsgs : JobPackets added job (uncodedPackets added job) := by
    refine ⟨[], (List.append_nil _).symm, ?_, by simp⟩
    rw [codedCount, if_pos rfl, hadded]
    rfl
  have hnum : (uncodedPackets added job).length = blockSize := by
    rw [uncodedPackets, if_pos rfl, List.length_map, List.length_range', hadded]
    rfl
  obtain ⟨pushed, hpushed⟩ := exists_worked hfill hlock₁ htasks₁ hcurr
    (by
      rw [hblock]
      exact List.ne_nil_of_length_pos (by rw [hadded]; decide))
    (by rwa [hblock])
    (by
      rw [hqueue₁, hqueue, hnum]
      decide)
  refine ⟨_, added, _, hpushed, hadded, hnum, Pipeline.fill_phase s rest, rfl, ?_⟩
  change { (s.fill rest).sk with
    codedQ := update (s.fill rest).sk.codedQ (slot s.sk.maxblockno)
      ((s.fill rest).sk.codedQ (slot s.sk.maxblockno) ++ uncodedPackets added job) } = _
  rw [hqueue₁, hqueue, List.nil_append, hsk]

theorem exists_stock_succ {n : ℕ} (hn : n < numBlocks)
    (h : (pipeline (2 * blockSize) noRows).Reachable s) (hs : Stock n s) :
    ∃ s', (pipeline (2 * blockSize) noRows).Reachable s' ∧ Stock (n + 1) s' := by
  obtain ⟨hblock, hremain, hqueue⟩ := hs.unused (n + 1) (Nat.lt_succ_self n) hn
  rw [← hs.max] at hblock hremain hqueue
  obtain ⟨s₁, added, q, h₁, hadded, hq, hphase, htasks, hsk⟩ :=
    exists_filled h (by rw [hs.phase]; trivial) hs.tasks hblock hqueue
  have hmax₁ : s₁.sk.maxblockno = s.sk.maxblockno := by rw [hsk]; rfl
  have hmoved := h₁.pipeStep (e := .fill [7]) (.fill (List.cons_ne_nil 7 []) (by decide)
    (by rw [hphase, hs.phase]; trivial) (Pipeline.slotFree_nil htasks))
  rw [fill_moved (pipeInv_of_reachable h₁)] at hmoved
  · refine ⟨_, hmoved, ?_⟩
    rw [hsk]
    have hcurr := hs.curr
    constructor
    case phase => exact hphase.trans hs.phase
    case tasks => exact htasks
    case curr => exact hs.curr
    case max => exact congrArg (· + 1) hs.max
    case paths => exact hs.paths
    case numActive => exact hs.numActive
    case scaling => exact hs.scaling
    case stocked =>
      intro b hb hb'
      by_cases he : b = n + 1
      · subst he
        rw [← hs.max]
        constructor
        · exact (congrArg List.length (block_placeRows _ _)).trans (by simp [hblock, hadded])
        · simp [placeRows, hremain, hadded]
        · simp [hq]
      · have hold := hs.stocked b hb (by omega)
        have hne : slot b ≠ slot s.sk.maxblockno := by
          rw [hs.max]
          exact slot_ne hb (by omega) (by omega) hn he
        exact ⟨by simpa [Server.block, placeRows, update_of_ne hne] using hold.length_eq,
          by simpa [placeRows, update_of_ne hne] using hold.remain_eq,
          by simpa [update_of_ne hne] using hold.queue_eq⟩
    case unused =>
      intro b hb hb'
      have hold := hs.unused b (by omega) hb'
      have hne : slot b ≠ slot s.sk.maxblockno := by
        rw [hs.max]
        exact slot_ne (by omega) hb' (by omega) hn (by omega)
      exact ⟨by simpa [Server.block, placeRows, update_of_ne hne] using hold.block_eq,
        by simpa [placeRows, update_of_ne hne] using hold.remain_eq,
        by simpa [update_of_ne hne] using hold.queue_eq⟩
  · rw [hmax₁, hsk]
    exact (congrArg List.length (block_placeRows _ _)).trans (by simp [hblock, hadded])
  · rw [hmax₁, hsk]
    change s.sk.maxblockno < s.sk.currBlock + numBlocks
    rw [hs.max, hs.curr]
    omega

theorem exists_stock {n : ℕ} (hn : n ≤ numBlocks) :
    ∃ s, (pipeline (2 * blockSize) noRows).Reachable s ∧ Stock n s := by
  induction n with
  | zero =>
      refine ⟨_, .init ⟨1, 1, by decide, by decide, rfl⟩, ?_⟩
      constructor
      case stocked => exact fun b hb hb' => by omega
      case unused => exact fun _ _ _ => ⟨rfl, rfl, rfl⟩
      all_goals rfl
  | succ n ih =>
      obtain ⟨s, h, hs⟩ := ih (by omega)
      exact exists_stock_succ hn h hs

/-! ## Sending the whole ring -/

/-- Blocks `1, …, 100` are full, and those from `b` on have not been sent. -/
structure Ready (b : ℕ) (sk : Server) : Prop where
  curr : sk.currBlock = 1
  req : sk.dofReqLatest = blockSize
  numActive : sk.numActive = 1
  scaling : sk.slrScaling = 1
  slr : (sk.activePaths 0).slr = 0
  full : ∀ b', 1 ≤ b' → b' ≤ numBlocks → (sk.block b').length = blockSize
  ahead : ∀ b', b ≤ b' → b' ≤ numBlocks →
    Stocked sk b' ∧ (sk.activePaths 0).packetsSent (slot b') = 0
  sent : ∀ b', 1 ≤ b' → b' < b → b' ≤ numBlocks → sk.dofRemain (slot b') = 0

theorem Ready.lossRate {b : ℕ} {sk : Server} (h : Ready b sk) : lossRate sk 0 = 0 := by
  simp [Ctcp.lossRate, h.slr]

theorem Ready.meanOnFly {b : ℕ} {sk : Server} (h : Ready b sk) (onFly : ℕ → ℕ) :
    meanOnFly sk onFly = onFly 0 := by
  simp [Ctcp.meanOnFly, h.numActive, h.lossRate, List.range_succ]

/-- With nothing in flight a full block needs one packet for each row. -/
theorem Ready.dofNeeded {b : ℕ} {sk : Server} (h : Ready b sk) {l : SegsLoop} (hpin : l.pin = 0)
    (hfly : l.currOnFly 0 = 0) (hwin : (blockSize : ℤ) ≤ l.win)
    (hrequest : dofRequestTmp sk l.blockno = blockSize) : dofNeeded sk l = blockSize := by
  apply le_antisymm
  · apply dofNeeded_le
    right
    rw [hpin, h.lossRate, h.meanOnFly, hfly, hrequest]
    simp
  · apply le_dofNeeded hwin
    intro k hk
    rw [hpin, h.lossRate, h.meanOnFly, hfly, hrequest]
    simpa using hk

/-- The loop of `send_segs` at block `b`, when all blocks before have been sent. -/
structure Looping (b : ℕ) (s : Pipeline) (l : SegsLoop) : Prop where
  phase : s.phase = .looping l
  tasks : s.tasks = []
  pin : l.pin = 0
  win : (blockSize * (numBlocks + 1 - b) : ℤ) < l.win
  blockno : l.blockno = b
  max : l.maxblockno = numBlocks + 1
  onFly : l.currOnFly 0 = 0
  ready : Ready b s.sk

/-- What sending packets of a block changes in the server. -/
structure Sent (pin b : ℕ) (q : List DataPckt) (remain : ℤ) (sk sk' : Server) : Prop where
  server_eq : ∃ path, sk' = { sk with
    activePaths := update sk.activePaths pin path
    codedQ := update sk.codedQ (slot b) q
    dofRemain := update sk.dofRemain (slot b) remain }
  slr_eq : (sk'.activePaths pin).slr = (sk.activePaths pin).slr
  packetsSent_eq : ∀ k, k ≠ slot b →
    (sk'.activePaths pin).packetsSent k = (sk.activePaths pin).packetsSent k

theorem Sent.trans {pin b : ℕ} {q q' : List DataPckt} {r r' : ℤ} {sk sk' sk'' : Server}
    (h : Sent pin b q r sk sk') (h' : Sent pin b q' r' sk' sk'') : Sent pin b q' r' sk sk'' := by
  constructor
  · obtain ⟨path, rfl⟩ := h.server_eq
    obtain ⟨path', rfl⟩ := h'.server_eq
    exact ⟨path', by simp⟩
  · exact h'.slr_eq.trans h.slr_eq
  · exact fun k hk => (h'.packetsSent_eq k hk).trans (h.packetsSent_eq k hk)

/-- A packet of the block is sent, and `dof_remain` is decremented. -/
theorem exists_packetSent (h : (pipeline cap noRows).Reachable s) {l : SegsLoop} {n : ℕ}
    {msg : DataPckt} {q : List DataPckt} (hphase : s.phase = .popping l (n + 1))
    (htasks : s.tasks = []) (hqueue : s.sk.codedQ (slot l.blockno) = msg :: q) :
    ∃ s', (pipeline cap noRows).Reachable s' ∧ s'.tasks = [] ∧
      s'.phase = nextPacket s'.sk { l with win := l.win - 1 } n ∧
      Sent l.pin l.blockno q (s.sk.dofRemain (slot l.blockno) - 1) s.sk s'.sk := by
  have hpop := h.pipeStep (.pop hphase hqueue)
  have hcount := hpop.pipeStep (.decrement rfl (by
    intro t ht
    change t ∈ s.tasks at ht
    rw [htasks] at ht
    exact (List.not_mem_nil ht).elim))
  refine ⟨_, hcount, htasks, rfl, ?_⟩
  constructor
  · exact ⟨_, by simp [countSent, sendOne, Server.setPath]; rfl⟩
  · simp [countSent, sendOne, Server.setPath]
  · intro k hk
    simp [countSent, sendOne, Server.setPath, hk]

/-- The packets of a block are sent one after the other. -/
theorem exists_blockSent {n : ℕ} (h : (pipeline cap noRows).Reachable s) {l : SegsLoop}
    (hphase : s.phase = .popping l (n + 1)) (htasks : s.tasks = [])
    (hremain : s.sk.dofRemain (slot l.blockno) = n + 1)
    (hqueue : (s.sk.codedQ (slot l.blockno)).length = n + 1) :
    ∃ s', (pipeline cap noRows).Reachable s' ∧ s'.tasks = [] ∧
      s'.phase = .looping { l with win := l.win - (n + 1), blockno := l.blockno + 1 } ∧
      Sent l.pin l.blockno [] 0 s.sk s'.sk := by
  induction n generalizing s l with
  | zero =>
      obtain ⟨msg, hone⟩ := List.length_eq_one_iff.mp hqueue
      obtain ⟨s', h', htasks', hphase', hsent⟩ := exists_packetSent h hphase htasks hone
      rw [hremain] at hsent
      exact ⟨s', h', htasks', by simp [hphase', nextPacket], hsent⟩
  | succ n ih =>
      obtain ⟨msg, q, hcons⟩ := List.exists_cons_of_length_eq_add_one hqueue
      obtain ⟨s₁, h₁, htasks₁, hphase₁, hsent₁⟩ := exists_packetSent h hphase htasks hcons
      have hq : q.length = n + 1 := by
        rw [hcons, List.length_cons] at hqueue
        omega
      have hremain₁ : s₁.sk.dofRemain (slot l.blockno) = n + 1 := by
        obtain ⟨path, hsk⟩ := hsent₁.server_eq
        simp [hsk, hremain]
      have hqueue₁ : s₁.sk.codedQ (slot l.blockno) = q := by
        obtain ⟨path, hsk⟩ := hsent₁.server_eq
        simp [hsk]
      have hpos : (0 : ℤ) < s₁.sk.dofRemain (slot l.blockno) := by
        rw [hremain₁]
        omega
      rw [nextPacket, if_pos ⟨Nat.le_add_left 1 n, hpos⟩] at hphase₁
      obtain ⟨s', h', htasks', hphase', hsent'⟩ :=
        ih h₁ hphase₁ htasks₁ hremain₁ ((congrArg List.length hqueue₁).trans hq)
      refine ⟨s', h', htasks', ?_, hsent₁.trans hsent'⟩
      rw [hphase']
      congr 2
      push_cast
      omega

/-- The blocks that are still to be sent do not notice that block `b` is sent. -/
theorem Ready.sent_block {b : ℕ} {sk sk' : Server} (h : Ready b sk) (hb : 1 ≤ b)
    (hb' : b ≤ numBlocks) (hsent : Sent 0 b [] 0 sk sk') : Ready (b + 1) sk' := by
  obtain ⟨path, rfl⟩ := hsent.server_eq
  constructor
  case curr => exact h.curr
  case req => exact h.req
  case numActive => exact h.numActive
  case scaling => exact h.scaling
  case slr => exact hsent.slr_eq.trans h.slr
  case full => exact h.full
  case ahead =>
    intro b' hlt hle
    have hne : slot b' ≠ slot b := slot_ne (by omega) hle hb hb' (by omega)
    obtain ⟨hstock, hzero⟩ := h.ahead b' (by omega) hle
    refine ⟨⟨hstock.length_eq, ?_, ?_⟩, (hsent.packetsSent_eq _ hne).trans hzero⟩
    · simpa [update_of_ne hne] using hstock.remain_eq
    · simpa [update_of_ne hne] using hstock.queue_eq
  case sent =>
    intro b' hpos hlt hle
    by_cases he : b' = b
    · simp [he]
    · have hne : slot b' ≠ slot b := slot_ne hpos hle hb hb' he
      simpa [update_of_ne hne] using h.sent b' hpos (by omega) hle

/-- Block `b` is sent, and the loop is at the next one. -/
theorem exists_looping_succ {b : ℕ} (hb : 1 ≤ b) (hb' : b ≤ numBlocks)
    (h : (pipeline cap noRows).Reachable s) {l : SegsLoop} (hl : Looping b s l) :
    ∃ s' l', (pipeline cap noRows).Reachable s' ∧ Looping (b + 1) s' l' := by
  have hready := hl.ready
  obtain ⟨hstock, hzero⟩ := hready.ahead b le_rfl hb'
  have hwin : (blockSize : ℤ) ≤ l.win := by
    have hroom := hl.win
    simp only [blockSize, numBlocks] at *
    omega
  have hgo : l.GoesOn s.sk := by
    refine ⟨lt_of_lt_of_le (by decide) hwin, ?_, Or.inr ?_⟩
    · rw [hl.blockno, hready.curr]
      omega
    · rw [hl.blockno, hl.max]
      omega
  have hrequest : dofRequestTmp s.sk l.blockno = blockSize := by
    rw [dofRequestTmp, hl.blockno]
    split
    · exact hready.req
    · rw [hstock.length_eq]
  have hneed := hready.dofNeeded hl.pin hl.onFly hwin hrequest
  have hfree : s.SlotFree (slot l.blockno) := Pipeline.slotFree_nil hl.tasks
  have hexamine := h.pipeStep (.examine hl.phase hgo (Or.inr hfree))
  have hassign := hexamine.pipeStep (.assign rfl hfree)
  have hnone : assignJob s.sk l.blockno (dofNeeded s.sk l) = s.sk := by
    rw [assignJob, if_neg]
    rw [hl.blockno, hstock.remain_eq, hneed]
    exact lt_irrefl _
  have hjobs := (pipeInv_of_reachable h).jobs
  rw [hnone, hneed, Pipeline.commit_nil hjobs, nextPacket, if_pos] at hassign
  · have hstart : ∀ phase, (pipeline cap noRows).Reachable { s with phase := phase } →
        phase = .popping { l with currOnFly := nextOnFly s.sk l } blockSize →
        ∃ s' l', (pipeline cap noRows).Reachable s' ∧ Looping (b + 1) s' l' := by
      rintro phase hpop rfl
      obtain ⟨s', h', htasks, hphase, hsent⟩ := exists_blockSent hpop rfl hl.tasks
        ((congrArg (fun b => s.sk.dofRemain (slot b)) hl.blockno).trans hstock.remain_eq)
        ((congrArg (fun b => (s.sk.codedQ (slot b)).length) hl.blockno).trans hstock.queue_eq)
      refine ⟨s', _, h', hphase, htasks, hl.pin, ?_, ?_, hl.max, ?_, ?_⟩
      · have hroom := hl.win
        simp only [blockSize, numBlocks] at *
        push_cast
        omega
      · exact congrArg (· + 1) hl.blockno
      · change nextOnFly s.sk l 0 = 0
        rw [nextOnFly]
        split
        · exact hl.onFly
        · rw [hl.blockno]
          exact hzero
      · have hsent₀ : Sent 0 b [] 0 s.sk s'.sk := by
          simpa [hl.pin, hl.blockno] using hsent
        exact hready.sent_block hb hb' hsent₀
    exact hstart _ hassign rfl
  · refine ⟨by decide, ?_⟩
    change 0 < s.sk.dofRemain (slot l.blockno)
    rw [hl.blockno, hstock.remain_eq]
    decide

/-- All blocks of the first window can be sent in one call. -/
theorem exists_looping {b : ℕ} (hb : b ≤ numBlocks) (h : (pipeline cap noRows).Reachable s)
    {l : SegsLoop} (hl : Looping 1 s l) :
    ∃ s' l', (pipeline cap noRows).Reachable s' ∧ Looping (b + 1) s' l' := by
  induction b with
  | zero => exact ⟨s, l, h, hl⟩
  | succ b ih =>
      obtain ⟨s₁, l₁, h₁, hl₁⟩ := ih (by omega)
      exact exists_looping_succ (by omega) hb h₁ hl₁

/-- An acknowledgement without rows leaves the demand for a full block. -/
theorem ackDofReq_full {sk : Server} {ack : AckPckt} (hreq : sk.dofReqLatest = blockSize)
    (hlen : (sk.block sk.currBlock).length = blockSize) (hrec : ack.dofRec = 0) :
    max 0 (ackDofReq sk false ack) = blockSize := by
  rw [ackDofReq, hreq, hlen, hrec]
  decide

/-- Such an acknowledgement for the current block, on the first path. -/
theorem acked (h : (pipeline cap noRows).Reachable s) (hphase : s.phase = .idle)
    (htasks : s.tasks = []) (hpin : 0 < s.sk.numActive) (hreq : s.sk.dofReqLatest = blockSize)
    (hlen : (s.sk.block s.sk.currBlock).length = blockSize) (ackno : ℕ) :
    (pipeline cap noRows).Reachable
      { s with
        sk := s.sk.setPath 0 (ackPath (s.sk.activePaths 0) ackno 0 initsegs)
        phase := .idle } := by
  have hfree : s.SlotFree (slot s.sk.currBlock) := Pipeline.slotFree_nil htasks
  have hack := h.pipeStep (@PipelineStep.ack cap s 0 ⟨ackno, s.sk.currBlock, 0⟩ hphase hpin)
  have hend := hack.pipeStep (@PipelineStep.ackEnd cap _ 0 _ _ 0 initsegs rfl le_rfl hfree
    (by norm_num) (by decide))
  have hfull := @ackDofReq_full s.sk ⟨ackno, s.sk.currBlock, 0⟩ hreq hlen rfl
  have hsame : decide (s.sk.currBlock < s.sk.currBlock) = false := decide_eq_false (lt_irrefl _)
  simp only [hsame, hfull] at hend
  rw [← hreq] at hend
  exact hend

/-- After the ring is stocked, an acknowledgement with a wrong `ackno` opens the window
of the path wide, and after a late one `send_segs` starts. -/
theorem exists_segs (h : (pipeline cap noRows).Reachable s) (hs : Stock numBlocks s) :
    ∃ s' l, (pipeline cap noRows).Reachable s' ∧ Looping 1 s' l := by
  have hpin : 0 < s.sk.numActive := by
    rw [hs.numActive]
    decide
  have hlen : (s.sk.block s.sk.currBlock).length = blockSize := by
    rw [hs.curr]
    exact (hs.stocked 1 le_rfl (by decide)).length_eq
  have hreq : (startWorker s.sk).dofReqLatest = blockSize := congrArg Nat.cast hlen
  have hstart := h.pipeStep (.start hs.phase)
  have hbad := acked hstart rfl hs.tasks hpin hreq hlen 4000
  have hlate := acked hbad rfl hs.tasks hpin hreq hlen 1
  have hsegs := hlate.pipeStep (@PipelineStep.segs cap _ 0 (fun _ _ => true) rfl hpin)
  refine ⟨_, _, hsegs, rfl, hs.tasks, rfl, ?_, hs.curr, hs.max, ?_, ?_⟩
  · simp [segsStart, window, Server.setPath, ackPath, hs.paths, initStream, initsegs,
      startWorker, blockSize, numBlocks]
  · simp [segsStart, inFlight, Server.setPath, ackPath, hs.paths, initStream, initsegs, startWorker]
  · constructor
    case curr => exact hs.curr
    case req => exact hreq
    case numActive => exact hs.numActive
    case scaling => exact hs.scaling
    case slr => simp [Server.setPath, ackPath]
    case full => exact fun b hb hb' => (hs.stocked b hb hb').length_eq
    case ahead =>
      intro b hb hb'
      have hstock := hs.stocked b hb hb'
      refine ⟨⟨hstock.length_eq, hstock.remain_eq, hstock.queue_eq⟩, ?_⟩
      simp [Server.setPath, ackPath, hs.paths, initStream, startWorker]
    case sent => exact fun b hb hb' _ => by omega

/-- With a window of 4007 packets the loop goes on to block 101, whose slot still holds
block 1: a job is added that codes the rows of block 1 as rows of block 101. -/
theorem not_staysInWindow_of_badAck :
    ¬∀ s, (pipeline (2 * blockSize) noRows).Reachable s → StaysInWindow s := by
  intro hall
  obtain ⟨s₁, h₁, hstock⟩ := exists_stock le_rfl
  obtain ⟨s₂, l₂, h₂, hfirst⟩ := exists_segs h₁ hstock
  obtain ⟨s, l, h, hl⟩ := exists_looping le_rfl h₂ hfirst
  have hready := hl.ready
  have hcurr : slot l.blockno = slot 1 := by
    rw [hl.blockno]
    rfl
  have hfree : s.SlotFree (slot l.blockno) := Pipeline.slotFree_nil hl.tasks
  have hgo : l.GoesOn s.sk := by
    refine ⟨?_, ?_, Or.inr ?_⟩
    · have hwin := hl.win
      simp only [blockSize, numBlocks] at hwin
      omega
    · rw [hl.blockno, hready.curr]
      decide
    · rw [hl.blockno, hl.max]
  have hremain : s.sk.dofRemain (slot l.blockno) = 0 := by
    rw [hcurr]
    exact hready.sent 1 le_rfl (by decide) (by decide)
  have hrequest : dofRequestTmp s.sk l.blockno = blockSize := by
    rw [dofRequestTmp, if_neg, Server.block, hcurr]
    · exact congrArg Nat.cast (hready.full 1 le_rfl (by decide))
    · rw [hl.blockno, hready.curr]
      decide
  have hneed : 0 < dofNeeded s.sk l := by
    apply le_dofNeeded hgo.1
    intro k hk
    obtain rfl : k = 0 := Nat.lt_one_iff.mp hk
    rw [hready.meanOnFly, hl.onFly, hrequest]
    norm_num [blockSize]
  have hexamine := h.pipeStep (.examine hl.phase hgo (Or.inr hfree))
  have hassign := hexamine.pipeStep (.assign rfl hfree)
  have hless : s.sk.dofRemain (slot l.blockno) < dofNeeded s.sk l := by
    rw [hremain]
    exact_mod_cast hneed
  rw [assignJob, if_pos hless] at hassign
  let job : CodingJob := ⟨l.blockno, 0,
    minDofRequest + dofNeeded s.sk l - s.sk.dofRemain (slot l.blockno), maxCodingWnd⟩
  have hnew : job ∈ s.sk.jobs ++ [job] := List.mem_append_right _ (List.mem_singleton_self job)
  have htask := List.mem_map_of_mem (f := fun job => (⟨job, .pending, true⟩ : Task)) hnew
  have hjob := (hall _ hassign).jobs _ (List.mem_append_right _ htask) rfl
  have hlt : l.blockno < s.sk.currBlock + numBlocks := hjob.2
  rw [hl.blockno, hready.curr] at hlt
  omega

end Ctcp
