import Ctcp.Verification.Pipeline.Plan
import Ctcp.Verification.Pipeline.System

/-! # One call of `send_segs`

A call runs from the head of its loop until it returns, while `send_ctcp` and the workers
take turns with it. What it does with each block is written down beside the state. -/

namespace Ctcp

open Function

/-! ## Calls -/

/-- The packets of block `b` that are counted on path `j` when a call starts: those in
flight for the current block, and those sent for a later one. -/
def countAt (sk : Server) (fresh : ℕ → ℕ → Bool) (b j : ℕ) : ℕ :=
  if b = sk.currBlock then inFlight (sk.activePaths j) sk.currBlock (fresh j)
  else (sk.activePaths j).packetsSent (slot b)

/-- The expectation of the packets that are counted for the block before `b` when a call
starts; for the current block it is that of the block itself. -/
def countedBefore (sk : Server) (fresh : ℕ → ℕ → Bool) (b : ℕ) : ℚ :=
  meanOnFly sk (countAt sk fresh (max sk.currBlock (b - 1)))

/-- A block that a call visits: the window that is left, what is requested, the loss rate,
the expectation of the packets counted for this block, and the packets sent. -/
structure Visit where
  blockno : ℕ
  win : ℤ
  request : ℤ
  p : ℚ
  own : ℚ
  sent : ℕ

/-- A call under way, with the blocks it has visited, the last one first. -/
structure SegsCall where
  s : Pipeline
  visits : List Visit

def visitOf (sk : Server) (l : SegsLoop) : Visit where
  blockno := l.blockno
  win := l.win
  request := dofRequestTmp sk l.blockno
  p := lossRate sk l.pin
  own := meanOnFly sk (nextOnFly sk l)
  sent := 0

/-- A packet of the block that was visited last is sent. -/
def countVisit : List Visit → List Visit
  | [] => []
  | v :: vs => { v with sent := v.sent + 1 } :: vs

def SegsCall.record (c : SegsCall) : PipelineEvent → List Visit
  | .examine =>
    match c.s.phase with
    | .looping l => visitOf c.s.sk l :: c.visits
    | _ => c.visits
  | .pop => countVisit c.visits
  | _ => c.visits

/-- The steps of all threads until the call returns. -/
inductive SegsCallStep (cap : ℕ) (c : SegsCall) (e : PipelineEvent) : SegsCall → Prop where
  | mk {s' : Pipeline} (hbusy : c.s.phase ≠ .idle) (hstep : PipelineStep cap c.s e s') :
      SegsCallStep cap c e ⟨s', c.record e⟩

/-- The steps of `send_segs` itself. -/
def PipelineEvent.ofSegs : PipelineEvent → Bool
  | .examine | .leave | .assign | .pop | .decrement => true
  | _ => false

/-- The number of packets that were sent. -/
def sentBy (visits : List Visit) : ℕ := (visits.map Visit.sent).sum

@[simp] theorem sentBy_cons (v : Visit) (vs : List Visit) :
    sentBy (v :: vs) = v.sent + sentBy vs := rfl

/-- The blocks come in order from `b` on, and each has what those before it left of the
window `w`. -/
def InTurn (b : ℕ) (w : ℤ) : List Visit → Prop
  | [] => True
  | v :: vs => v.blockno = b + vs.length ∧ v.win = w - sentBy vs ∧ 0 < v.win ∧ InTurn b w vs

/-- As many packets are sent as are planned with the packets of the block before. -/
def Visit.Done (sk : Server) (fresh : ℕ → ℕ → Bool) (v : Visit) : Prop :=
  Plans v.win v.p (countedBefore sk fresh v.blockno) v.request v.sent

/-! ## The other threads -/

/-- Where `send_segs` stands in its loop. -/
def Phase.InSegs : Phase → Prop
  | .looping _ | .needing _ _ | .popping _ _ | .popped _ _ _ => True
  | _ => False

/-- What other threads change beside a call. -/
structure Beside (s s' : Pipeline) : Prop where
  phase : s'.phase = s.phase
  curr : s'.sk.currBlock = s.sk.currBlock
  paths : s'.sk.activePaths = s.sk.activePaths
  active : s'.sk.numActive = s.sk.numActive
  scaling : s'.sk.slrScaling = s.sk.slrScaling
  remain : ∀ k, s.sk.dofRemain k ≤ s'.sk.dofRemain k

theorem length_le_readRows (fuel : ℕ) (rows : List Payload) (buf : List UInt8) :
    rows.length ≤ (readRows fuel rows buf).1.length := by
  induction fuel generalizing rows buf with
  | zero => exact le_rfl
  | succ fuel ih =>
      rw [readRows]
      split
      · have hrest := ih (rows ++ [packRow (buf.take (bytesRead (UInt32.ofNat buf.length)).toNat)])
          (buf.drop (bytesRead (UInt32.ofNat buf.length)).toNat)
        rw [List.length_append] at hrest
        exact (Nat.le_add_right _ _).trans hrest
      · exact le_rfl

theorem sendCtcpRound_beside (sk : Server) (rest : List UInt8) :
    (sendCtcpRound sk rest).1.currBlock = sk.currBlock ∧
      (sendCtcpRound sk rest).1.activePaths = sk.activePaths ∧
      (sendCtcpRound sk rest).1.numActive = sk.numActive ∧
      (sendCtcpRound sk rest).1.slrScaling = sk.slrScaling ∧
        ∀ k, sk.dofRemain k ≤ (sendCtcpRound sk rest).1.dofRemain k := by
  rw [sendCtcpRound]
  split
  · refine ⟨rfl, rfl, rfl, rfl, fun k => ?_⟩
    have hgrows : (sk.block sk.maxblockno).length ≤
        (readBlock (sk.block sk.maxblockno) rest).1.length := length_le_readRows _ _ _
    rcases eq_or_ne k (slot sk.maxblockno) with rfl | hne
    · simp only [update_self]
      omega
    · simp only [update_of_ne hne, le_refl]
  · split <;> exact ⟨rfl, rfl, rfl, rfl, fun _ => le_rfl⟩

theorem PipelineStep.beside {cap : ℕ} {s s' : Pipeline} {e : PipelineEvent}
    (hin : s.phase.InSegs) (he : e.ofSegs = false) (hstep : PipelineStep cap s e s') :
    Beside s s' := by
  cases hstep with
  | @fill rest =>
      obtain ⟨hcurr, hpaths, hactive, hscaling, hremain⟩ := sendCtcpRound_beside s.sk rest
      exact ⟨Pipeline.fill_phase s rest, hcurr, hpaths, hactive, hscaling, hremain⟩
  | start hphase | segs hphase _ | ack hphase _ | free hphase _ _ | ackEnd hphase _ _ _ _
  | addPath hphase | removePath hphase _ | timeout hphase _ _ =>
      rw [hphase] at hin
      exact hin.elim
  | examine | leave | assign | pop | decrement => cases he
  | skip | check | giveUp | run | push | finish =>
      exact ⟨rfl, rfl, rfl, rfl, rfl, fun _ => le_rfl⟩

/-! ## The invariant -/

section Invariant

variable {cap pin : ℕ} {fresh : ℕ → ℕ → Bool} {s₀ : Pipeline} {c c' : SegsCall} {e : PipelineEvent}

/-- What a call leaves as it was: the loss rates, and the packets counted for the blocks
from `b` on. -/
structure SameOnFly (sk sk' : Server) (b : ℕ) : Prop where
  active : sk'.numActive = sk.numActive
  rate : ∀ j, lossRate sk' j = lossRate sk j
  ahead : ∀ b', b ≤ b' → b' < sk.currBlock + numBlocks → ∀ j,
    (sk'.activePaths j).packetsSent (slot b') = (sk.activePaths j).packetsSent (slot b')

theorem SameOnFly.meanOnFly_eq {sk sk' : Server} {b : ℕ} (h : SameOnFly sk sk' b)
    (count : ℕ → ℕ) : meanOnFly sk' count = meanOnFly sk count := by
  rw [meanOnFly, meanOnFly, h.active]
  simp only [h.rate]

theorem SameOnFly.of_paths {sk sk₁ sk' : Server} {b : ℕ} (h : SameOnFly sk sk₁ b)
    (hpaths : sk'.activePaths = sk₁.activePaths) (hactive : sk'.numActive = sk₁.numActive)
    (hscaling : sk'.slrScaling = sk₁.slrScaling) : SameOnFly sk sk' b where
  active := hactive.trans h.active
  rate j := by
    rw [← h.rate, lossRate, lossRate, hpaths, hscaling]
  ahead b' hb hlt j := by
    rw [hpaths]
    exact h.ahead b' hb hlt j

theorem SameOnFly.succ {sk sk' : Server} {b : ℕ} (h : SameOnFly sk sk' b) :
    SameOnFly sk sk' (b + 1) :=
  { h with ahead := fun b' hb => h.ahead b' (Nat.le_of_succ_le hb) }

/-- A change of one path that leaves its loss rate alone. -/
theorem SameOnFly.setPath {sk sk₁ : Server} {b pin : ℕ} (h : SameOnFly sk sk₁ b)
    (path : SubstreamPath) (hslr : path.slr = (sk₁.activePaths pin).slr)
    (hsent : ∀ b', b ≤ b' → b' < sk.currBlock + numBlocks →
      path.packetsSent (slot b') = (sk₁.activePaths pin).packetsSent (slot b')) :
    SameOnFly sk (sk₁.setPath pin path) b where
  active := h.active
  rate j := by
    rw [← h.rate, lossRate, lossRate]
    by_cases hj : j = pin
    · subst hj
      simp only [Server.setPath, update_self, hslr]
    · simp only [Server.setPath, update_of_ne hj]
  ahead b' hb hlt j := by
    rw [← h.ahead b' hb hlt]
    by_cases hj : j = pin
    · subst hj
      simp only [Server.setPath, update_self, hsent b' hb hlt]
    · simp only [Server.setPath, update_of_ne hj]

/-- The loop is about to look at its next block. -/
structure AtHead (s₀ : Pipeline) (pin : ℕ) (fresh : ℕ → ℕ → Bool) (visits : List Visit)
    (l : SegsLoop) : Prop where
  pin_eq : l.pin = pin
  blockno_eq : l.blockno = s₀.sk.currBlock + visits.length
  win_eq : l.win = window (s₀.sk.activePaths pin) - sentBy visits
  onFly : l.blockno ≤ s₀.sk.currBlock + numBlocks →
    l.currOnFly = countAt s₀.sk fresh (max s₀.sk.currBlock (l.blockno - 1))
  done : ∀ v ∈ visits, v.Done s₀.sk fresh

/-- `left` packets more have to be sent of the block that was visited last. -/
structure AtBlock (s₀ : Pipeline) (pin : ℕ) (fresh : ℕ → ℕ → Bool) (visits : List Visit)
    (l : SegsLoop) (left : ℕ) : Prop where
  pin_eq : l.pin = pin
  blockno_eq : l.blockno + 1 = s₀.sk.currBlock + visits.length
  blockno_le : l.blockno ≤ s₀.sk.currBlock + numBlocks
  win_eq : l.win = window (s₀.sk.activePaths pin) - sentBy visits
  onFly : l.blockno < s₀.sk.currBlock + numBlocks → l.currOnFly = countAt s₀.sk fresh l.blockno
  last : ∃ v vs, visits = v :: vs ∧
    Plans v.win v.p (countedBefore s₀.sk fresh v.blockno) v.request (v.sent + left) ∧
    ∀ u ∈ vs, u.Done s₀.sk fresh

/-- The credit of a block covers the packets that are left. -/
def SegsPhase (s₀ : Pipeline) (pin : ℕ) (fresh : ℕ → ℕ → Bool) (visits : List Visit)
    (sk : Server) : Phase → Prop
  | .looping l => AtHead s₀ pin fresh visits l
  | .needing l need => AtBlock s₀ pin fresh visits l need
  | .popping l currWin =>
    AtBlock s₀ pin fresh visits l currWin ∧ 1 ≤ currWin ∧
      (currWin : ℤ) ≤ sk.dofRemain (slot l.blockno)
  | .popped l currWin _ =>
    AtBlock s₀ pin fresh visits l currWin ∧ (currWin : ℤ) + 1 ≤ sk.dofRemain (slot l.blockno)
  | .idle => ∀ v ∈ visits, v.Done s₀.sk fresh
  | _ => False

/-- What holds throughout a call that started in `s₀`. -/
structure SegsCallInv (s₀ : Pipeline) (pin : ℕ) (fresh : ℕ → ℕ → Bool) (c : SegsCall) : Prop where
  curr : c.s.sk.currBlock = s₀.sk.currBlock
  remain : ∀ k, 0 ≤ c.s.sk.dofRemain k
  sndNxt : (c.s.sk.activePaths pin).sndNxt = (s₀.sk.activePaths pin).sndNxt + sentBy c.visits
  counts : SameOnFly s₀.sk c.s.sk (s₀.sk.currBlock + c.visits.length)
  inTurn : InTurn s₀.sk.currBlock (window (s₀.sk.activePaths pin)) c.visits
  rate_le : ∀ v ∈ c.visits, v.p ≤ 1
  phase : SegsPhase s₀ pin fresh c.visits c.s.sk c.s.phase

theorem SegsPhase.inSegs {visits : List Visit} {sk : Server} {phase : Phase}
    (h : SegsPhase s₀ pin fresh visits sk phase) (hbusy : phase ≠ .idle) : phase.InSegs := by
  cases phase with
  | idle => exact hbusy rfl
  | booting | acking => exact h
  | looping | needing | popping | popped => trivial

/-- More credit does not matter. -/
theorem SegsPhase.mono {visits : List Visit} {sk sk' : Server} {phase : Phase}
    (h : SegsPhase s₀ pin fresh visits sk phase) (hremain : ∀ k, sk.dofRemain k ≤ sk'.dofRemain k) :
    SegsPhase s₀ pin fresh visits sk' phase := by
  cases phase with
  | popping l currWin => exact ⟨h.1, h.2.1, h.2.2.trans (hremain _)⟩
  | popped l currWin msg => exact ⟨h.1, h.2.trans (hremain _)⟩
  | _ => exact h

/-- After a section the call goes on with the block, or it is done with it. -/
theorem AtBlock.nextPacket {visits : List Visit} {sk : Server} {l : SegsLoop} {currWin : ℕ}
    (h : AtBlock s₀ pin fresh visits l currWin)
    (hremain : (currWin : ℤ) ≤ sk.dofRemain (slot l.blockno)) :
    SegsPhase s₀ pin fresh visits sk (nextPacket sk l currWin) := by
  rw [Ctcp.nextPacket]
  by_cases hmore : 1 ≤ currWin
  · rw [if_pos ⟨hmore, by omega⟩]
    exact ⟨h, hmore, hremain⟩
  · rw [if_neg fun hgo => hmore hgo.1]
    obtain rfl : currWin = 0 := by omega
    obtain ⟨v, vs, rfl, hplan, hdone⟩ := h.last
    refine ⟨h.pin_eq, h.blockno_eq, h.win_eq, fun hlt => ?_,
      List.forall_mem_cons.mpr ⟨hplan, hdone⟩⟩
    have hle : s₀.sk.currBlock ≤ l.blockno := by
      have hblock := h.blockno_eq
      rw [List.length_cons] at hblock
      omega
    simp only [Nat.add_sub_cancel, max_eq_right hle]
    exact h.onFly hlt

/-- A block is examined: its plan is made, with the window that is left. -/
theorem SegsCallInv.examine (h : SegsCallInv s₀ pin fresh c) {l : SegsLoop}
    (hphase : c.s.phase = .looping l) (hgo : l.GoesOn c.s.sk) :
    SegsCallInv s₀ pin fresh
      ⟨{ c.s with
        phase := .needing { l with currOnFly := nextOnFly c.s.sk l } (dofNeeded c.s.sk l) },
        visitOf c.s.sk l :: c.visits⟩ := by
  have hhead : AtHead s₀ pin fresh c.visits l := by
    have hp := h.phase
    rwa [hphase] at hp
  have hle : l.blockno ≤ s₀.sk.currBlock + numBlocks := h.curr ▸ hgo.2.1
  have honFly := hhead.onFly hle
  refine ⟨h.curr, h.remain, ?_, h.counts.succ, ?_, ?_, ?_⟩
  · rw [sentBy_cons, visitOf, Nat.zero_add]
    exact h.sndNxt
  · exact ⟨hhead.blockno_eq, hhead.win_eq, hgo.1, h.inTurn⟩
  · exact List.forall_mem_cons.mpr ⟨lossRate_le_one _ _, h.rate_le⟩
  · refine ⟨hhead.pin_eq, ?_, hle, ?_, fun hlt => ?_, _, _, rfl, ?_, hhead.done⟩
    · rw [List.length_cons, ← Nat.add_assoc]
      exact congrArg (· + 1) hhead.blockno_eq
    · rw [sentBy_cons, visitOf, Nat.zero_add]
      exact hhead.win_eq
    · funext j
      by_cases hfirst : l.blockno = s₀.sk.currBlock
      · simp only [nextOnFly, h.curr, if_pos hfirst]
        rw [honFly, hfirst, max_eq_left (Nat.sub_le _ _)]
      · simp only [nextOnFly, h.curr, countAt, if_neg hfirst]
        exact h.counts.ahead _ hhead.blockno_eq.ge hlt j
    · rw [visitOf, Nat.zero_add, countedBefore, ← honFly, ← h.counts.meanOnFly_eq]
      exact plans_needLoop hgo.1.le (lossRate_le_one _ _)

/-- The credit is topped up before the first packet. -/
theorem SegsCallInv.assign (h : SegsCallInv s₀ pin fresh c) {l : SegsLoop} {need : ℕ}
    (hphase : c.s.phase = .needing l need) :
    SegsCallInv s₀ pin fresh
      ⟨c.s.commit (assignJob c.s.sk l.blockno need)
        (nextPacket (assignJob c.s.sk l.blockno need) l need), c.visits⟩ := by
  have hblock : AtBlock s₀ pin fresh c.visits l need := by
    have hp := h.phase
    rwa [hphase] at hp
  have htop : (assignJob c.s.sk l.blockno need).currBlock = c.s.sk.currBlock ∧
      (assignJob c.s.sk l.blockno need).activePaths = c.s.sk.activePaths ∧
      (assignJob c.s.sk l.blockno need).numActive = c.s.sk.numActive ∧
      (assignJob c.s.sk l.blockno need).slrScaling = c.s.sk.slrScaling ∧
      (∀ k, c.s.sk.dofRemain k ≤ (assignJob c.s.sk l.blockno need).dofRemain k) ∧
      (need : ℤ) ≤ (assignJob c.s.sk l.blockno need).dofRemain (slot l.blockno) := by
    rw [assignJob]
    split
    · refine ⟨rfl, rfl, rfl, rfl, fun k => ?_, ?_⟩
      · rcases eq_or_ne k (slot l.blockno) with rfl | hne
        · simp only [update_self, minDofRequest]
          omega
        · simp only [update_of_ne hne, le_refl]
      · simp only [update_self, minDofRequest]
        omega
    · next henough => exact ⟨rfl, rfl, rfl, rfl, fun _ => le_rfl, Int.not_lt.mp henough⟩
  obtain ⟨hcurr, hpaths, hactive, hscaling, hgrows, henough⟩ := htop
  refine ⟨hcurr.trans h.curr, fun k => (h.remain k).trans (hgrows k), ?_,
    h.counts.of_paths hpaths hactive hscaling, h.inTurn, h.rate_le, ?_⟩
  · exact (congrArg (fun paths => (paths pin).sndNxt) hpaths).trans h.sndNxt
  · exact SegsPhase.mono (hblock.nextPacket henough) fun _ => le_rfl

/-- A packet is sent. -/
theorem SegsCallInv.pop (h : SegsCallInv s₀ pin fresh c) {l : SegsLoop} {currWin : ℕ}
    {msg : DataPckt} {q : List DataPckt} (hphase : c.s.phase = .popping l currWin) :
    SegsCallInv s₀ pin fresh
      ⟨{ c.s with
        sk := sendOne { c.s.sk with codedQ := update c.s.sk.codedQ (slot l.blockno) q }
          l.blockno l.pin
        phase := .popped { l with win := l.win - 1 } (currWin - 1) msg }, countVisit c.visits⟩ := by
  obtain ⟨hblock, hmore, henough⟩ : AtBlock s₀ pin fresh c.visits l currWin ∧ 1 ≤ currWin ∧
      (currWin : ℤ) ≤ c.s.sk.dofRemain (slot l.blockno) := by
    have hp := h.phase
    rwa [hphase] at hp
  obtain ⟨v, vs, hvisits, hplan, hdone⟩ := hblock.last
  obtain rfl : l.pin = pin := hblock.pin_eq
  have hsent : sentBy (countVisit c.visits) = sentBy c.visits + 1 := by
    rw [hvisits, countVisit, sentBy_cons, sentBy_cons]
    exact Nat.add_right_comm _ _ _
  have hlength : (countVisit c.visits).length = c.visits.length := by
    rw [hvisits]
    rfl
  refine ⟨h.curr, h.remain, ?_, ?_, ?_, ?_, ?_⟩
  · rw [hsent, ← Nat.add_assoc, ← h.sndNxt]
    exact congrArg SubstreamPath.sndNxt (update_self l.pin _ c.s.sk.activePaths)
  · rw [hlength]
    have hcounts : SameOnFly s₀.sk
        { c.s.sk with codedQ := update c.s.sk.codedQ (slot l.blockno) q } _ :=
      h.counts.of_paths rfl rfl rfl
    exact hcounts.setPath _ rfl fun _ _ _ => rfl
  · have hturn := h.inTurn
    rw [hvisits] at hturn ⊢
    exact hturn
  · have hrates := h.rate_le
    rw [hvisits] at hrates ⊢
    exact List.forall_mem_cons.mpr (List.forall_mem_cons.mp hrates)
  · refine ⟨⟨rfl, ?_, hblock.blockno_le, ?_, hblock.onFly, _, _, congrArg countVisit hvisits, ?_,
      hdone⟩, ?_⟩
    · rw [hblock.blockno_eq, hlength]
    · rw [hsent]
      have hwin := hblock.win_eq
      push_cast
      change l.win - 1 = _
      omega
    · have hsame : v.sent + 1 + (currWin - 1) = v.sent + currWin := by omega
      change Plans v.win v.p _ v.request (v.sent + 1 + (currWin - 1))
      rw [hsame]
      exact hplan
    · change ((currWin - 1 : ℕ) : ℤ) + 1 ≤ c.s.sk.dofRemain (slot l.blockno)
      omega

/-- The packet is paid for. -/
theorem SegsCallInv.decrement (h : SegsCallInv s₀ pin fresh c) {l : SegsLoop} {currWin : ℕ}
    {msg : DataPckt} (hphase : c.s.phase = .popped l currWin msg) :
    SegsCallInv s₀ pin fresh
      ⟨{ c.s with
        sk := countSent c.s.sk l.blockno l.pin
        phase := nextPacket (countSent c.s.sk l.blockno l.pin) l currWin }, c.visits⟩ := by
  obtain ⟨hblock, henough⟩ : AtBlock s₀ pin fresh c.visits l currWin ∧
      (currWin : ℤ) + 1 ≤ c.s.sk.dofRemain (slot l.blockno) := by
    have hp := h.phase
    rwa [hphase] at hp
  obtain rfl : l.pin = pin := hblock.pin_eq
  refine ⟨h.curr, fun k => ?_, ?_, ?_, h.inTurn, h.rate_le, hblock.nextPacket ?_⟩
  · rcases eq_or_ne k (slot l.blockno) with rfl | hne
    · simp only [countSent, update_self]
      omega
    · simp only [countSent, update_of_ne hne]
      exact h.remain k
  · exact (congrArg SubstreamPath.sndNxt (update_self l.pin _ c.s.sk.activePaths)).trans h.sndNxt
  · -- the packets counted are those of the block that was visited last
    have hset : SameOnFly s₀.sk (c.s.sk.setPath l.pin _) _ :=
      h.counts.setPath { c.s.sk.activePaths l.pin with
        packetsSent := update (c.s.sk.activePaths l.pin).packetsSent (slot l.blockno)
          ((c.s.sk.activePaths l.pin).packetsSent (slot l.blockno) + 1) } rfl
        fun b' hb hlt => ?_
    · exact hset.of_paths rfl rfl rfl
    · have hblockno := hblock.blockno_eq
      have hpos : 0 < c.visits.length := by
        obtain ⟨v, vs, hvisits, -⟩ := hblock.last
        exact hvisits ▸ Nat.succ_pos _
      refine update_of_ne (fun hs => ?_) _ _
      have heq := slot_inj (c := s₀.sk.currBlock) hs (by omega) hlt ?_ ?_
      all_goals omega
  · simp only [countSent, update_self]
    omega

theorem SegsCallInv.step (h : SegsCallInv s₀ pin fresh c) (hstep : SegsCallStep cap c e c') :
    SegsCallInv s₀ pin fresh c' := by
  obtain ⟨hbusy, hstep⟩ := hstep
  cases e with
  | examine =>
      cases hstep with
      | @examine l hphase hgo _ =>
          simp only [SegsCall.record, hphase]
          exact h.examine hphase hgo
  | leave =>
      cases hstep with
      | @leave l hphase _ =>
          have hhead : AtHead s₀ pin fresh c.visits l := by
            have hp := h.phase
            rwa [hphase] at hp
          exact ⟨h.curr, h.remain, h.sndNxt, h.counts, h.inTurn, h.rate_le, hhead.done⟩
  | assign =>
      cases hstep with
      | assign hphase _ => exact h.assign hphase
  | pop =>
      cases hstep with
      | pop hphase _ => exact h.pop hphase
  | decrement =>
      cases hstep with
      | decrement hphase _ => exact h.decrement hphase
  | _ =>
      have hbeside := hstep.beside (h.phase.inSegs hbusy) rfl
      refine ⟨hbeside.curr.trans h.curr, fun k => (h.remain k).trans (hbeside.remain k), ?_,
        h.counts.of_paths hbeside.paths hbeside.active hbeside.scaling, h.inTurn, h.rate_le, ?_⟩
      · exact (congrArg (fun paths => (paths pin).sndNxt) hbeside.paths).trans h.sndNxt
      · rw [hbeside.phase]
        exact h.phase.mono hbeside.remain

/-- Two steps for each block that may come, and two for each packet of the window. -/
def Phase.segsRank (curr : ℕ) : Phase → ℕ
  | .looping l => 2 * (curr + numBlocks + 1 - l.blockno) + 2 * l.win.toNat + 1
  | .needing l _ => 2 * (curr + numBlocks - l.blockno) + 2 * l.win.toNat + 2
  | .popping l _ => 2 * (curr + numBlocks - l.blockno) + 2 * l.win.toNat + 1
  | .popped l _ _ => 2 * (curr + numBlocks - l.blockno) + 2 * l.win.toNat + 2
  | _ => 0

def SegsCall.rank (c : SegsCall) : ℕ := c.s.phase.segsRank c.s.sk.currBlock

/-- The packets that are left fit into the window. -/
theorem AtBlock.le_win {visits : List Visit} {l : SegsLoop} {left : ℕ}
    (hturn : InTurn s₀.sk.currBlock (window (s₀.sk.activePaths pin)) visits)
    (h : AtBlock s₀ pin fresh visits l left) : (left : ℤ) ≤ l.win := by
  obtain ⟨v, vs, rfl, hplan, -⟩ := h.last
  have hle := hplan.le_win
  have hwin := h.win_eq
  have hlast := hturn.2.1
  rw [sentBy_cons] at hwin
  omega

end Invariant

end Ctcp
