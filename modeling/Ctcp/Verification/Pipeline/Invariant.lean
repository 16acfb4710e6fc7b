import Ctcp.Verification.Pipeline.Need
import Ctcp.Verification.Pipeline.Slots

/-! # What the server thread knows between its sections -/

namespace Ctcp

open Function

/-! ## The slots of a state -/

/-- The packet that the server thread holds between two sections. -/
def Phase.inHand : Phase → ℕ → ℤ
  | .popped l _ _ => handOf l.blockno
  | _ => 0

def Pipeline.slots (s : Pipeline) : Slots where
  currBlock := s.sk.currBlock
  blocks := s.sk.blocks
  filled := s.filled
  remain := s.sk.dofRemain
  queue := s.sk.codedQ
  inHand := s.phase.inHand
  tasks := s.tasks
  pushed := s.pushed

/-- What an event is for the slots. -/
def slotEvent (s : Pipeline) : PipelineEvent → SlotEvent
  | .fill rest =>
    match roundRows s.sk rest with
    | [] => .stay
    | pl :: pls => .fill s.sk.maxblockno (pl :: pls)
  | .assign =>
    match s.phase with
    | .needing l need =>
      if s.sk.dofRemain (slot l.blockno) < need then .assign l.blockno need else .stay
    | _ => .stay
  | .pop =>
    match s.phase with
    | .popping l _ =>
      match s.sk.codedQ (slot l.blockno) with
      | msg :: _ => .pop l.blockno msg
      | [] => .stay
    | _ => .stay
  | .decrement =>
    match s.phase with
    | .popped l _ _ => .decrement l.blockno
    | _ => .stay
  | .free => .free
  | .work => .work
  | _ => .stay

/-! ## The server thread -/

/-- `dof_req_latest` does not exceed what the current block has. -/
structure ReqKnown (sk : Server) : Prop where
  nonneg : 0 ≤ sk.dofReqLatest
  le_len : sk.dofReqLatest ≤ (sk.block sk.currBlock).length

/-- A block that `send_segs` may look at. -/
structure InReach (sk : Server) (l : SegsLoop) : Prop where
  curr_le : sk.currBlock ≤ l.blockno
  le_end : l.blockno ≤ sk.currBlock + numBlocks

/-- `handle_ack` leaves `dof_req_latest` behind while it frees blocks. -/
def PhaseInv (sk : Server) : Phase → Prop
  | .booting => True
  | .idle => ReqKnown sk
  | .looping l => ReqKnown sk ∧ sk.currBlock ≤ l.blockno
  | .needing l need => ReqKnown sk ∧ InReach sk l ∧ (0 < need → sk.block l.blockno ≠ [])
  | .popping l _ => ReqKnown sk ∧ InReach sk l ∧ 1 ≤ sk.dofRemain (slot l.blockno)
  | .popped l _ _ => ReqKnown sk ∧ InReach sk l ∧ 1 ≤ sk.dofRemain (slot l.blockno)
  | .acking _ _ start => start ≤ sk.currBlock ∧ (start = sk.currBlock → ReqKnown sk)

structure PipeInv (s : Pipeline) : Prop where
  store : StoreInv s.sk s.filled
  jobs : s.sk.jobs = []
  slots : SlotsInv s.slots
  phase : PhaseInv s.sk s.phase

/-! ## Steps for the slots -/

variable {cap : ℕ} {s s' : Pipeline}

theorem inHand_nextPacket (sk : Server) (l : SegsLoop) (currWin : ℕ) :
    (nextPacket sk l currWin).inHand = 0 := by
  unfold nextPacket
  split_ifs <;> rfl

/-- A round of `send_ctcp` in terms of `roundRows`. -/
inductive FillCase (s : Pipeline) (rest : List UInt8) : Prop where
  | placed (added : List Payload) (hne : added ≠ []) (hrows : roundRows s.sk rest = added)
      (hmax : s.sk.maxblockno < s.sk.currBlock + numBlocks)
      (heq : (sendCtcpRound s.sk rest).1 = placeRows s.sk added)
  | same (hrows : roundRows s.sk rest = []) (mx : ℕ)
      (heq : (sendCtcpRound s.sk rest).1 = { s.sk with maxblockno := mx })

theorem fillCase (h : StoreInv s.sk s.filled) {rest : List UInt8} (hne : rest ≠ [])
    (hlen : rest.length < 2 ^ 32) : FillCase s rest := by
  have hspec := sendCtcpRound_spec h hne hlen
  have hrows : roundRows s.sk rest = ((sendCtcpRound s.sk rest).1.block s.sk.maxblockno).drop
      (s.sk.block s.sk.maxblockno).length := rfl
  generalize hr : sendCtcpRound s.sk rest = r at hspec hrows
  cases hspec with
  | placed added rest' hadd hmax hlen' hpacks hbytes =>
      rw [block_placeRows, List.drop_left] at hrows
      exact .placed added hadd hrows hmax (by rw [hr])
  | moved hfull hmax =>
      refine .same ?_ (s.sk.maxblockno + 1) (by rw [hr])
      rw [hrows]
      exact List.drop_length
  | waits hmax =>
      refine .same ?_ s.sk.maxblockno (by rw [hr])
      rw [hrows]
      exact List.drop_length

theorem Pipeline.fill_of_placed {rest : List UInt8} {added : List Payload} (hjobs : s.sk.jobs = [])
    (hrows : roundRows s.sk rest = added)
    (heq : (sendCtcpRound s.sk rest).1 = placeRows s.sk added) :
    (s.fill rest).slots = s.slots.fill s.sk.maxblockno added := by
  simp only [Pipeline.fill, hrows, heq, Pipeline.slots, Pipeline.commit, newTasks, placeRows,
    hjobs, Slots.fill]
  rfl

theorem Pipeline.fill_of_same {rest : List UInt8} {mx : ℕ} (hjobs : s.sk.jobs = [])
    (hrows : roundRows s.sk rest = [])
    (heq : (sendCtcpRound s.sk rest).1 = { s.sk with maxblockno := mx }) :
    (s.fill rest).slots = s.slots := by
  have hfilled : addRows s.filled s.sk.maxblockno [] = s.filled := by simp [addRows]
  simp [Pipeline.fill, hrows, heq, Pipeline.slots, Pipeline.commit, newTasks, hjobs, hfilled]

/-- A job is added exactly when the credit falls short. -/
theorem assign_slots {l : SegsLoop} {need : ℕ} (hjobs : s.sk.jobs = [])
    (hhand : s.phase.inHand = 0) :
    (s.commit (assignJob s.sk l.blockno need)
      (nextPacket (assignJob s.sk l.blockno need) l need)).slots =
      if s.sk.dofRemain (slot l.blockno) < need then s.slots.assign l.blockno need
      else s.slots := by
  by_cases hless : s.sk.dofRemain (slot l.blockno) < need
  · have hsum : s.sk.dofRemain (slot l.blockno) +
        (need - s.sk.dofRemain (slot l.blockno)) = need := by omega
    have hreq : minDofRequest + need - s.sk.dofRemain (slot l.blockno) =
        need - s.sk.dofRemain (slot l.blockno) := by
      simp only [minDofRequest]
      omega
    rw [if_pos hless]
    simp only [Pipeline.slots, Pipeline.commit, inHand_nextPacket, Slots.assign, hhand]
    rw [assignJob, if_pos hless]
    simp only [newTasks, hjobs, hreq, hsum]
    rfl
  · rw [if_neg hless, assignJob, if_neg hless, Pipeline.commit_nil hjobs]
    simp only [Pipeline.slots, inHand_nextPacket, hhand]

theorem PipelineStep.workStep (h : PipeInv s) (hstep : PipelineStep cap s .work s') :
    WorkStep cap s.slots s'.slots := by
  have hshown : ∀ b, blockLenRows (s.sk.block b) = s.sk.block b := fun b =>
    blockLenRows_of_le (h.store.length_block_le b)
  cases hstep with
  | skip htasks hstage _ hold => exact .skip htasks hstage hold
  | check htasks hstage _ hnew => exact .check htasks hstage hnew
  | giveUp htasks hstage _ hempty =>
      rw [hshown] at hempty
      exact .giveUp htasks hstage hempty
  | run htasks hstage _ hrows hmsgs =>
      rw [hshown] at hrows hmsgs
      exact .run htasks hstage hrows hmsgs
  | push htasks hstage hroom => exact .push htasks hstage hroom
  | finish htasks hstage => exact .finish htasks hstage

theorem SlotStep.of_eq {x x' : Slots} (h : x' = x) : SlotStep cap x .stay x' := h ▸ .stay

/-- Every step of the threads is one of the slots. -/
theorem PipelineStep.slotStep {e : PipelineEvent} (h : PipeInv s)
    (hstep : PipelineStep cap s e s') : SlotStep cap s.slots (slotEvent s e) s'.slots := by
  cases hstep with
  | @fill rest hne hlen _ _ =>
      cases fillCase h.store hne hlen with
      | placed added hadd hrows hmax heq =>
          obtain ⟨pl, pls, rfl⟩ := List.exists_cons_of_ne_nil hadd
          rw [Pipeline.fill_of_placed h.jobs hrows heq]
          simp only [slotEvent, hrows]
          exact .fill hadd h.store.curr_le hmax
      | same hrows mx heq =>
          rw [Pipeline.fill_of_same h.jobs hrows heq]
          simp only [slotEvent, hrows]
          exact .stay
  | start hphase => exact .of_eq (by simp [Pipeline.slots, hphase, Phase.inHand, startWorker])
  | segs hphase _ => exact .of_eq (by simp [Pipeline.slots, hphase, Phase.inHand])
  | examine hphase _ _ => exact .of_eq (by simp [Pipeline.slots, hphase, Phase.inHand])
  | leave hphase _ => exact .of_eq (by simp [Pipeline.slots, hphase, Phase.inHand])
  | @assign l need hphase _ =>
      have hslots := @assign_slots s l need h.jobs (by rw [hphase]; rfl)
      have hinv := h.phase
      rw [hphase] at hinv
      obtain ⟨hreq, hreach, hrows⟩ := hinv
      simp only [slotEvent, hphase]
      rw [hslots]
      by_cases hless : s.sk.dofRemain (slot l.blockno) < need
      · rw [if_pos hless, if_pos hless]
        have hpos : 0 < need := by
          have := h.slots.remain (slot l.blockno)
          simp only [Pipeline.slots] at this
          omega
        exact .assign hless (hrows hpos) hreach.curr_le
      · rw [if_neg hless, if_neg hless]
        exact .stay
  | pop hphase hq =>
      simp only [slotEvent, hphase, hq]
      exact .pop hq (by rw [Pipeline.slots, hphase]; rfl)
  | @decrement l currWin msg hphase _ =>
      have hinv := h.phase
      rw [hphase] at hinv
      obtain ⟨-, -, hremain⟩ := hinv
      have hslots : (Pipeline.slots { s with
          sk := countSent s.sk l.blockno l.pin
          phase := nextPacket (countSent s.sk l.blockno l.pin) l currWin }) =
          { s.slots with
            remain := update s.slots.remain (slot l.blockno) (s.slots.remain (slot l.blockno) - 1)
            inHand := 0 } := by
        simp only [Pipeline.slots, inHand_nextPacket]
        rfl
      simp only [slotEvent, hphase]
      rw [hslots]
      exact .decrement (by simp [Pipeline.slots, hphase, Phase.inHand]) hremain
  | free hphase _ hfree =>
      have hhand : s.phase.inHand = 0 := by rw [hphase]; rfl
      exact .free hhand hfree
  | ackEnd hphase _ _ _ _ =>
      exact .of_eq (by simp [Pipeline.slots, hphase, Phase.inHand, Server.setPath])
  | ack hphase _ => exact .of_eq (by simp [Pipeline.slots, hphase, Phase.inHand])
  | addPath _ => exact .of_eq rfl
  | removePath _ _ => exact .of_eq rfl
  | timeout _ _ _ => exact .of_eq rfl
  | skip htasks hstage hlock hold =>
      exact .work (workStep h (.skip htasks hstage hlock hold))
  | check htasks hstage hlock hnew => exact .work (workStep h (.check htasks hstage hlock hnew))
  | giveUp htasks hstage hfree hempty =>
      exact .work (workStep h (.giveUp htasks hstage hfree hempty))
  | run htasks hstage hfree hrows hmsgs =>
      exact .work (workStep h (.run htasks hstage hfree hrows hmsgs))
  | push htasks hstage hroom => exact .work (workStep h (.push htasks hstage hroom))
  | finish htasks hstage => exact .work (workStep h (.finish htasks hstage))

/-! ## Steps for the server thread -/

/-- The other threads only add rows and credit. -/
theorem PhaseInv.mono {sk sk' : Server} {phase : Phase} (h : PhaseInv sk phase)
    (hcurr : sk'.currBlock = sk.currBlock) (hreq : ReqKnown sk → ReqKnown sk')
    (hrows : ∀ b, sk.block b ≠ [] → sk'.block b ≠ [])
    (hremain : ∀ k, sk.dofRemain k ≤ sk'.dofRemain k) : PhaseInv sk' phase := by
  have hreach : ∀ l, InReach sk l → InReach sk' l := fun l hl =>
    ⟨hcurr ▸ hl.curr_le, hcurr ▸ hl.le_end⟩
  cases phase with
  | booting => trivial
  | idle => exact hreq h
  | looping l => exact ⟨hreq h.1, hcurr ▸ h.2⟩
  | needing l need => exact ⟨hreq h.1, hreach l h.2.1, fun hpos => hrows _ (h.2.2 hpos)⟩
  | popping l currWin => exact ⟨hreq h.1, hreach l h.2.1, h.2.2.trans (hremain _)⟩
  | popped l currWin msg => exact ⟨hreq h.1, hreach l h.2.1, h.2.2.trans (hremain _)⟩
  | acking pin a start =>
      obtain ⟨hstart, hknown⟩ := h
      exact ⟨hcurr ▸ hstart, fun he => hreq (hknown (he.trans hcurr))⟩

theorem ReqKnown.fill (h : ReqKnown s.sk) (hstore : StoreInv s.sk s.filled) {sk' : Server}
    {filled' : Filled} (hfill : FillSpec s.sk s.filled sk' filled') : ReqKnown sk' := by
  obtain ⟨hlen, hreq⟩ := hfill.curr hstore
  have hnonneg := h.nonneg
  have hle := h.le_len
  constructor
  · omega
  · omega

/-- Whatever an acknowledgement says, the count it leaves is within the block. -/
theorem ackDofReq_le {sk : Server} {advanced : Bool} {a : AckPckt}
    (hlen : (sk.block sk.currBlock).length ≤ blockSize)
    (hreq : advanced = false → ReqKnown sk) :
    ackDofReq sk advanced a ≤ (sk.block sk.currBlock).length := by
  have hdof : a.dofRec.toNat < 256 := a.dofRec.toNat_lt
  simp only [blockSize] at hlen
  cases advanced with
  | true =>
      simp only [ackDofReq, int32, uint32, if_true]
      omega
  | false =>
      obtain ⟨hnonneg, hle⟩ := hreq rfl
      simp only [ackDofReq, int32, uint32, Bool.false_eq_true, if_false]
      omega

/-- A block that `send_segs` needs packets of is not empty. -/
theorem block_ne_nil {sk : Server} {l : SegsLoop} (hreq : ReqKnown sk)
    (hneed : 0 < dofNeeded sk l) : sk.block l.blockno ≠ [] := by
  have hpos := dofRequestTmp_pos hneed
  have hle := hreq.le_len
  apply List.ne_nil_of_length_pos
  unfold dofRequestTmp at hpos
  split_ifs at hpos with he
  · rw [he]
    omega
  · omega

theorem phaseInv_nextPacket {sk : Server} {l : SegsLoop} {currWin : ℕ} (hreq : ReqKnown sk)
    (hreach : InReach sk l) : PhaseInv sk (nextPacket sk l currWin) := by
  unfold nextPacket
  split_ifs with hgo
  · exact ⟨hreq, hreach, hgo.2⟩
  · exact ⟨hreq, hreach.curr_le.trans (Nat.le_succ _)⟩

/-! ## One step -/

theorem PipeInv.fill (h : PipeInv s) {rest : List UInt8} (hne : rest ≠ [])
    (hlen : rest.length < 2 ^ 32) (hslots : SlotsInv (s.fill rest).slots) :
    PipeInv (s.fill rest) := by
  have hfill := h.store.fill hne hlen
  have hround : (s.fill rest).sk = { (sendCtcpRound s.sk rest).1 with jobs := [] } := rfl
  constructor
  case store => exact { hfill.store with }
  case jobs => rfl
  case slots => exact hslots
  case phase =>
    change PhaseInv _ s.phase
    apply h.phase.mono
    · exact hfill.curr_eq
    · intro hreq
      have hnew := hreq.fill h.store hfill
      exact ⟨hnew.nonneg, hnew.le_len⟩
    · intro b hb
      rw [hround]
      cases fillCase h.store hne hlen with
      | placed added hadd hrows hmax heq =>
          rw [heq]
          by_cases hs : slot b = slot s.sk.maxblockno
          · simp [Server.block, placeRows, hs, hadd]
          · simpa [Server.block, placeRows, update_of_ne hs] using hb
      | same hrows mx heq =>
          rw [heq]
          exact hb
    · intro k
      rw [hround]
      cases fillCase h.store hne hlen with
      | placed added hadd hrows hmax heq =>
          rw [heq]
          by_cases hs : k = slot s.sk.maxblockno
          · simp [placeRows, hs]
          · simp [placeRows, update_of_ne hs]
      | same hrows mx heq => rw [heq]

/-- `send_segs` adds a job, or none. -/
theorem PipeInv.assign (h : PipeInv s) {l : SegsLoop} {need : ℕ}
    (hneeding : s.phase = .needing l need)
    (hslots : SlotsInv (s.commit (assignJob s.sk l.blockno need)
      (nextPacket (assignJob s.sk l.blockno need) l need)).slots) :
    PipeInv (s.commit (assignJob s.sk l.blockno need)
      (nextPacket (assignJob s.sk l.blockno need) l need)) := by
  have hphase := h.phase
  rw [hneeding] at hphase
  obtain ⟨hreq, hreach, -⟩ := hphase
  have hsk : ∃ remain jobs, assignJob s.sk l.blockno need =
      { s.sk with dofRemain := remain, jobs := jobs } := by
    unfold assignJob
    split_ifs
    · exact ⟨_, _, rfl⟩
    · exact ⟨_, _, rfl⟩
  obtain ⟨remain, jobs, hsk⟩ := hsk
  refine ⟨?_, rfl, hslots, ?_⟩
  · simp only [Pipeline.commit, hsk]
    exact { h.store with }
  · have hnext := @phaseInv_nextPacket (assignJob s.sk l.blockno need) l need
      (by rw [hsk]; exact ⟨hreq.nonneg, hreq.le_len⟩)
      (by rw [hsk]; exact ⟨hreach.curr_le, hreach.le_end⟩)
    apply hnext.mono
    · rfl
    · exact fun hr => ⟨hr.nonneg, hr.le_len⟩
    · exact fun _ hb => hb
    · exact fun _ => le_rfl

theorem PipeInv.step {e : PipelineEvent} (h : PipeInv s) (hstep : PipelineStep cap s e s') :
    PipeInv s' := by
  have hslots := h.slots.step (hstep.slotStep h)
  have hphase := h.phase
  cases hstep with
  | fill hne hlen _ _ => exact h.fill hne hlen hslots
  | start _ =>
      refine ⟨{ h.store with }, h.jobs, hslots, ?_⟩
      exact ⟨Int.natCast_nonneg _, le_rfl⟩
  | @segs pin fresh hidle _ =>
      rw [hidle] at hphase
      exact ⟨h.store, h.jobs, hslots, hphase, le_rfl⟩
  | @examine l hloop hgo _ =>
      rw [hloop] at hphase
      obtain ⟨hreq, hcurr⟩ := hphase
      exact ⟨h.store, h.jobs, hslots, hreq, ⟨hcurr, hgo.2.1⟩, block_ne_nil hreq⟩
  | leave hloop _ =>
      rw [hloop] at hphase
      exact ⟨h.store, h.jobs, hslots, hphase.1⟩
  | @assign l need hneeding _ =>
      exact h.assign hneeding hslots
  | @pop l currWin msg q hpopping hq =>
      rw [hpopping] at hphase
      obtain ⟨hreq, hreach, hremain⟩ := hphase
      refine ⟨{ h.store with }, h.jobs, hslots, ?_⟩
      exact ⟨⟨hreq.nonneg, hreq.le_len⟩, ⟨hreach.curr_le, hreach.le_end⟩, hremain⟩
  | @decrement l currWin msg hpopped _ =>
      rw [hpopped] at hphase
      obtain ⟨hreq, hreach, -⟩ := hphase
      refine ⟨{ h.store with }, h.jobs, hslots, ?_⟩
      apply phaseInv_nextPacket
      · exact ⟨hreq.nonneg, hreq.le_len⟩
      · exact ⟨hreach.curr_le, hreach.le_end⟩
  | ack hidle _ =>
      rw [hidle] at hphase
      exact ⟨h.store, h.jobs, hslots, le_rfl, fun _ => hphase⟩
  | @free pin start a hacking hmore _ =>
      rw [hacking] at hphase
      obtain ⟨hstart, -⟩ := hphase
      refine ⟨h.store.freeCurrBlock, h.jobs, hslots, ?_⟩
      rw [hacking]
      refine ⟨hstart.trans (Nat.le_succ _), fun he => ?_⟩
      change start = s.sk.currBlock + 1 at he
      omega
  | @ackEnd pin start a slr cwnd hacking hdone _ _ _ =>
      rw [hacking] at hphase
      obtain ⟨hstart, hknown⟩ := hphase
      refine ⟨{ h.store with }, h.jobs, hslots, ?_⟩
      have hle := @ackDofReq_le s.sk (decide (start < s.sk.currBlock)) a
        (h.store.length_block_le _) (fun hadv => by
          apply hknown
          have := of_decide_eq_false hadv
          omega)
      constructor
      · exact le_max_left _ _
      · exact max_le (Int.natCast_nonneg _) hle
  | addPath hidle =>
      rw [hidle] at hphase
      refine ⟨{ h.store with }, h.jobs, hslots, ?_⟩
      rw [hidle]
      exact ⟨hphase.nonneg, hphase.le_len⟩
  | removePath hidle _ =>
      rw [hidle] at hphase
      refine ⟨{ h.store with }, h.jobs, hslots, ?_⟩
      rw [hidle]
      exact ⟨hphase.nonneg, hphase.le_len⟩
  | timeout hidle _ _ =>
      rw [hidle] at hphase
      refine ⟨{ h.store with }, h.jobs, hslots, ?_⟩
      rw [hidle]
      exact ⟨hphase.nonneg, hphase.le_len⟩
  | skip _ _ _ _ => exact ⟨h.store, h.jobs, hslots, hphase⟩
  | check _ _ _ _ => exact ⟨h.store, h.jobs, hslots, hphase⟩
  | giveUp _ _ _ _ => exact ⟨h.store, h.jobs, hslots, hphase⟩
  | run _ _ _ _ _ => exact ⟨h.store, h.jobs, hslots, hphase⟩
  | push _ _ _ =>
      refine ⟨{ h.store with }, h.jobs, hslots, ?_⟩
      apply hphase.mono
      · rfl
      · exact fun hr => ⟨hr.nonneg, hr.le_len⟩
      · exact fun _ hb => hb
      · exact fun _ => le_rfl
  | finish _ _ => exact ⟨h.store, h.jobs, hslots, hphase⟩

theorem pipeInv_init (h : (pipeline cap noRows).init s) : PipeInv s := by
  obtain ⟨scaling, n, -, -, rfl⟩ := h
  refine ⟨storeInv_create _ _ _, rfl, ?_, trivial⟩
  constructor
  case fresh => exact fun t ht => (List.not_mem_nil ht).elim
  case request => exact fun t ht => (List.not_mem_nil ht).elim
  case remain => exact fun k => le_rfl
  case surplus => exact fun k => le_rfl

theorem pipeInv_of_reachable (h : (pipeline cap noRows).Reachable s) : PipeInv s :=
  h.invariant (fun _ => pipeInv_init) fun _ _ _ => PipeInv.step

end Ctcp
