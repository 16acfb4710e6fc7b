import Ctcp.Verification.Pipeline.Invariant
import Ctcp.Verification.Pipeline.Late
import Ctcp.Verification.Pipeline.Script

/-! # The room in the queues of coded packets -/

namespace Ctcp

open Function

/-! ## What still has to be pushed -/

/-- The packets that a job still has to push to slot `k`, when it goes on with the
blocks as they are. -/
def Task.toPush (x : Slots) (k : ℕ) (t : Task) : ℤ :=
  if t.slot = k then
    match t.stage with
    | .pending =>
      if t.job.blockno < x.currBlock ∨ x.blocks t.slot = [] then 0 else t.job.dofRequest
    | .checked => if x.blocks t.slot = [] then 0 else t.job.dofRequest
    | .pushing left => left.length
  else 0

def Slots.toPush (x : Slots) (k : ℕ) : ℤ := (x.tasks.map (Task.toPush x k)).sum

variable {cap : ℕ} {x x' : Slots} {s s' : Pipeline}

/-- Without late jobs this is what is owed. -/
theorem Task.toPush_eq_due (hinv : SlotsInv x) (h : OnTime x) {t : Task} (ht : t ∈ x.tasks)
    (k : ℕ) : t.toPush x k = t.due k := by
  by_cases hs : t.slot = k
  · rw [Task.toPush, if_pos hs]
    by_cases hf : t.fresh
    · have htask := hinv.fresh t ht hf
      have hdue : t.due k = t.left := if_pos ⟨hs, hf⟩
      rw [hdue, Task.left]
      cases t.stage with
      | pending =>
          refine if_neg ?_
          rintro (hold | hempty)
          · exact absurd htask.current (Nat.not_le.mpr hold)
          · exact htask.rows hempty
      | checked => exact if_neg htask.rows
      | pushing left => rfl
    · have hdue : t.due k = 0 := if_neg fun hn => hf hn.2
      rw [hdue]
      cases hstage : t.stage with
      | pending =>
          refine if_pos ?_
          by_contra hn
          exact hn (.inr (h.late_empty t ht ⟨hf, fun hp => hn (.inl hp.2)⟩))
      | checked => exact if_pos (h.late_empty t ht ⟨hf, fun hp => by simp [hstage] at hp⟩)
      | pushing left => exact absurd (h.holds_fresh t ht ⟨left, hstage⟩) hf
  · have hdue : t.due k = 0 := if_neg fun hn => hs hn.1
    rw [hdue]
    exact if_neg hs

theorem Slots.toPush_eq_owed (hinv : SlotsInv x) (h : OnTime x) (k : ℕ) :
    x.toPush k = x.owed k := by
  apply congrArg List.sum
  apply List.map_congr_left
  intro t ht
  exact Task.toPush_eq_due hinv h ht k

/-! ## When the queues are large enough -/

/-- Rows come into a slot only when no late job is left there, and neither `send_ctcp` nor
`send_segs` raises the credit of a slot above the capacity of its queue: the window of the
path is not above it, or what the block lacks is expected to arrive of a full queue and of
the packets in flight that `send_segs` has counted, those of the block before it. -/
def FitsQueue (s : Pipeline) : PipelineEvent → Prop
  | .fill rest =>
    roundRows s.sk rest ≠ [] →
      (∀ t ∈ s.tasks, t.slot = slot s.sk.maxblockno → ¬t.Late s.slots) ∧
      s.sk.dofRemain (slot s.sk.maxblockno) + (roundRows s.sk rest).length ≤ (2 * blockSize : ℕ)
  | .examine =>
    ∀ l, s.phase = .looping l → l.win ≤ (2 * blockSize : ℕ) ∨
      dofRequestTmp s.sk l.blockno ≤
        (2 * blockSize : ℕ) * (1 - lossRate s.sk l.pin) + meanOnFly s.sk l.currOnFly
  | _ => True

/-- The same for the slots. -/
def SlotFits (x : Slots) : SlotEvent → Prop
  | .fill b added =>
    (∀ t ∈ x.tasks, t.slot = slot b → ¬t.Late x) ∧
      x.remain (slot b) + added.length ≤ (2 * blockSize : ℕ)
  | .assign _ need => need ≤ 2 * blockSize
  | _ => True

structure FitInv (s : Pipeline) : Prop where
  onTime : OnTime s.slots
  surplus : ∀ k, s.slots.surplus k = 0
  remain : ∀ k, s.slots.remain k ≤ (2 * blockSize : ℕ)
  need : ∀ l need, s.phase = .needing l need → need ≤ 2 * blockSize

theorem SlotFits.refillsOnTime {e : SlotEvent} (h : SlotFits x e) : RefillsOnTime x e := by
  rintro b added rfl
  exact h.1

theorem SlotStep.remain_le {e : SlotEvent} (hfit : SlotFits x e) (hstep : SlotStep cap x e x')
    (h : ∀ k, x.remain k ≤ (2 * blockSize : ℕ)) (k : ℕ) : x'.remain k ≤ (2 * blockSize : ℕ) := by
  cases hstep with
  | stay => exact h k
  | @fill b added _ _ _ =>
      by_cases hs : k = slot b
      · subst hs
        simpa [Slots.fill] using hfit.2
      · simpa [Slots.fill, update_of_ne hs] using h k
  | @assign b need _ _ _ =>
      by_cases hs : k = slot b
      · subst hs
        have hneed : need ≤ 2 * blockSize := hfit
        simp only [Slots.assign, update_self]
        exact_mod_cast hneed
      · simpa [Slots.assign, update_of_ne hs] using h k
  | pop _ _ => exact h k
  | @decrement b _ _ =>
      by_cases hs : k = slot b
      · subst hs
        have hk := h (slot b)
        simp only [update_self]
        omega
      · simpa [update_of_ne hs] using h k
  | free _ _ =>
      by_cases hs : k = slot x.currBlock
      · simp [Slots.free, hs]
      · simpa [Slots.free, update_of_ne hs] using h k
  | work hw =>
      rw [hw.frame.2.2.1]
      exact h k

theorem FitInv.slotFits (h : FitInv s) {e : PipelineEvent} (hfit : FitsQueue s e) :
    SlotFits s.slots (slotEvent s e) := by
  cases e with
  | fill rest =>
      cases hrows : roundRows s.sk rest with
      | nil =>
          simp only [slotEvent, hrows]
          trivial
      | cons pl pls =>
          obtain ⟨hlate, hroom⟩ := hfit (by simp [hrows])
          rw [hrows] at hroom
          simp only [slotEvent, hrows]
          exact ⟨hlate, hroom⟩
  | assign =>
      cases hp : s.phase with
      | needing l need =>
          simp only [slotEvent, hp]
          split_ifs
          · exact h.need l need hp
          · trivial
      | _ =>
          simp only [slotEvent, hp]
          trivial
  | pop =>
      cases hp : s.phase with
      | popping l currWin =>
          simp only [slotEvent, hp]
          split <;> trivial
      | _ =>
          simp only [slotEvent, hp]
          trivial
  | decrement =>
      cases hp : s.phase with
      | _ =>
          simp only [slotEvent, hp]
          trivial
  | _ => trivial

theorem nextPacket_ne_needing (sk : Server) (l l' : SegsLoop) (currWin need : ℕ) :
    nextPacket sk l currWin ≠ .needing l' need := by
  unfold nextPacket
  split_ifs <;> simp

/-- `dof_needed` is new only where the loop looks at a block. -/
theorem PipelineStep.need_le {e : PipelineEvent} {n : ℕ} (hstep : PipelineStep cap s e s')
    (hexamine : e = .examine → ∀ l, s.phase = .looping l → dofNeeded s.sk l ≤ n)
    (h : ∀ l need, s.phase = .needing l need → need ≤ n) {l : SegsLoop} {need : ℕ}
    (hp : s'.phase = .needing l need) : need ≤ n := by
  cases hstep with
  | @examine l' hloop _ _ =>
      obtain ⟨-, rfl⟩ := Phase.needing.inj hp
      exact hexamine rfl l' hloop
  | assign _ _ => exact absurd hp (nextPacket_ne_needing _ _ _ _ _)
  | decrement _ _ => exact absurd hp (nextPacket_ne_needing _ _ _ _ _)
  | start _ | segs _ _ | leave _ _ | pop _ _ | ack _ _ | ackEnd _ _ _ _ _ => simp at hp
  | _ => exact h l need hp

theorem FitInv.step {e : PipelineEvent} (hinv : PipeInv s) (h : FitInv s) (hfit : FitsQueue s e)
    (hstep : PipelineStep cap s e s') : FitInv s' := by
  have hslot := hstep.slotStep hinv
  have hslotFits := h.slotFits hfit
  constructor
  case onTime => exact h.onTime.step hslotFits.refillsOnTime hslot
  case surplus => exact hslot.surplus_eq_zero hinv.slots h.onTime h.surplus
  case remain => exact hslot.remain_le hslotFits h.remain
  case need =>
    intro l need hp
    refine hstep.need_le ?_ h.need hp
    rintro rfl l hloop
    apply dofNeeded_le
    exact hfit l hloop

theorem fitInv_init (h : (pipeline cap noRows).init s) : FitInv s := by
  obtain ⟨scaling, n, -, -, rfl⟩ := h
  constructor
  case onTime =>
    constructor
    · exact fun _ ht => (List.not_mem_nil ht).elim
    · exact fun _ ht => (List.not_mem_nil ht).elim
  case surplus => exact fun _ => rfl
  case remain => exact fun _ => Int.natCast_nonneg _
  case need => exact fun _ _ hp => by simp at hp

theorem fitInv_of_reachable
    (h : ((pipeline cap noRows).guard FitsQueue).Reachable s) : FitInv s :=
  h.invariant_of (J := PipeInv) (fun _ hs => pipeInv_of_reachable hs.of_guard)
    (fun s => @fitInv_init cap s) fun _ _ _ hinv hfit hstep => hfit.step hinv hstep.1 hstep.2

/-! ## The main result -/

/-- No worker ever waits for room: the queue has room for what is still to be pushed. -/
structure QueuesFit (s : Pipeline) : Prop where
  fits : ∀ k, (s.sk.codedQ k).length + s.slots.toPush k ≤ (2 * blockSize : ℕ)
  room : ∀ t ∈ s.tasks, ∀ msg left, t.stage = .pushing (msg :: left) →
    (s.sk.codedQ t.slot).length < 2 * blockSize

theorem Slots.left_le_owed (hinv : SlotsInv x) {t : Task} (ht : t ∈ x.tasks) (hfresh : t.fresh) :
    t.left ≤ x.owed t.slot := by
  have hdue : t.due t.slot = t.left := if_pos ⟨rfl, hfresh⟩
  rw [← hdue]
  apply List.single_le_sum
  · intro d hd
    obtain ⟨u, hu, rfl⟩ := List.mem_map.mp hd
    exact Task.due_nonneg (hinv.request u hu) _
  · exact List.mem_map_of_mem ht

theorem FitInv.queuesFit (hinv : PipeInv s) (h : FitInv s) : QueuesFit s := by
  have hsum : ∀ k, (s.sk.codedQ k).length + s.slots.owed k ≤ (2 * blockSize : ℕ) := by
    intro k
    have hzero : (s.sk.codedQ k).length + s.slots.owed k -
        (s.slots.remain k - s.phase.inHand k) = 0 := h.surplus k
    have hremain := h.remain k
    have hhand : 0 ≤ s.phase.inHand k := by
      cases s.phase with
      | popped l _ _ =>
          simp only [Phase.inHand, handOf]
          split_ifs <;> omega
      | _ => exact le_rfl
    omega
  constructor
  case fits =>
    intro k
    rw [Slots.toPush_eq_owed hinv.slots h.onTime]
    exact hsum k
  case room =>
    intro t ht msg left hstage
    have hfresh := h.onTime.holds_fresh t ht ⟨_, hstage⟩
    have hleft := Slots.left_le_owed hinv.slots ht hfresh
    have hk := hsum t.slot
    simp only [Task.left, hstage, List.length_cons] at hleft
    omega

/-- When the credit stays within the capacity and no job is late, no push waits. -/
theorem queuesFit_of_reachable {memory : BlockMemory} (hmem : memory.Clear)
    (h : ((pipeline (2 * blockSize) memory).guard FitsQueue).Reachable s) : QueuesFit s := by
  rw [hmem.eq_noRows] at h
  exact (fitInv_of_reachable h).queuesFit (pipeInv_of_reachable h.of_guard)

theorem Tame.fitsQueue {e : PipelineEvent} (h : Tame s e) : FitsQueue s e := by
  cases e with
  | fill rest => exact fun _ => ⟨fun t ht hs hlate => hlate.1 (h.1 t ht hs), h.2⟩
  | examine => exact fun l hl => .inl (h l hl).2
  | _ => trivial

/-- A coded packet is queued, and the uncoded one is sent. -/
theorem queuesFit_oneByteSent : ∃ s : Pipeline, (∃ l msg, s.phase = .popped l 1 msg) ∧
    (s.sk.codedQ 1).map DataPckt.flag = [.coded] ∧ QueuesFit s := by
  obtain ⟨s, l, msg, hs, hphase, -, -, hqueue, -⟩ :=
    exists_oneByteSent (C := FitsQueue) fun _ _ => Tame.fitsQueue
  exact ⟨s, ⟨l, msg, hphase⟩, hqueue, queuesFit_of_reachable (fun _ => rfl) hs⟩

/-! ## When they are not -/

/-- As soon as `send_segs` asks for more than the capacity, the jobs exceed it. -/
theorem not_queuesFit_of_assign (hinv : PipeInv s) (hont : OnTime s.slots) {l : SegsLoop}
    {need : ℕ} (hphase : s.phase = .needing l need) (hneed : 2 * blockSize < need)
    (hstep : PipelineStep cap s .assign s') : ¬QueuesFit s' := by
  intro hfit
  have hslot := hstep.slotStep hinv
  have hinv' := hinv.step hstep
  have hont' : OnTime s'.slots := hont.step (fun b added he => by
    simp only [slotEvent, hphase] at he
    split_ifs at he) hslot
  have hsum := hfit.fits (slot l.blockno)
  rw [Slots.toPush_eq_owed hinv'.slots hont'] at hsum
  have hcredit := hinv'.slots.surplus (slot l.blockno)
  have hhand : s'.slots.inHand = 0 := by
    cases hstep with
    | assign => exact inHand_nextPacket _ _ _
  have hremain : (need : ℤ) ≤ s'.slots.remain (slot l.blockno) := by
    simp only [slotEvent, hphase] at hslot
    generalize s'.slots = x' at hslot ⊢
    split_ifs at hslot with hless
    · cases hslot with
      | assign => simp [Slots.assign]
    · cases hslot with
      | stay => exact Int.not_lt.mp hless
  rw [Slots.surplus, hhand, Pi.zero_apply] at hcredit
  change 0 ≤ ((s'.sk.codedQ (slot l.blockno)).length : ℤ) + _ - _ at hcredit
  omega

theorem exists_not_queuesFit (h : (pipeline cap noRows).Reachable s) (hont : OnTime s.slots)
    {l : SegsLoop} {need : ℕ} (hphase : s.phase = .needing l need) (hneed : 2 * blockSize < need)
    (hfree : s.SlotFree (slot l.blockno)) :
    ∃ s', (pipeline cap noRows).Reachable s' ∧ ¬QueuesFit s' := by
  have hstep := @PipelineStep.assign cap _ _ _ hphase hfree
  exact ⟨_, h.pipeStep hstep,
    not_queuesFit_of_assign (pipeInv_of_reachable h) hont hphase hneed hstep⟩

/-- One row is filled. Then an acknowledgement leaves a window of 1000 packets and a loss
rate of 1/2, which `SLR_scaling` doubles: `send_segs` asks for as many packets as the
window allows. -/
theorem not_queuesFit_of_lossy :
    ∃ s, (pipeline (2 * blockSize) noRows).Reachable s ∧ ¬QueuesFit s := by
  have hfill := System.Reachable.step (S := pipeline (2 * blockSize) noRows) (e := .fill [7])
    (.init ⟨2, 1, by decide, by decide, rfl⟩)
    (.fill (List.cons_ne_nil 7 []) (by decide) trivial fun t ht => (List.not_mem_nil ht).elim)
  have hstart := hfill.pipeStep (.start rfl)
  have hack := hstart.pipeStep (e := .ack 0 ⟨1, 1, 0⟩) (.ack rfl (by decide))
  have hend := hack.pipeStep (.ackEnd rfl le_rfl (Pipeline.slotFree_singleton rfl nofun)
    (show (0 : ℚ) ≤ 1 / 2 ∧ (1 / 2 : ℚ) ≤ 1 by norm_num) (show 1000 ≤ maxCwnd from le_rfl))
  have hsegs := hend.pipeStep (e := .segs 0)
    (@PipelineStep.segs _ _ 0 (fun _ _ => true) rfl (by decide))
  have hexamine := hsegs.pipeStep (.examine rfl (by decide) (.inl rfl))
  refine exists_not_queuesFit hexamine (onTime_of_fresh fun t ht => ?_) rfl ?_
    (Pipeline.slotFree_singleton rfl nofun)
  · obtain rfl := List.mem_singleton.mp (show t ∈ [_] from ht)
    rfl
  · decide +kernel

end Ctcp
