import Ctcp.Verification.Pipeline.System
import Mathlib.Algebra.Order.BigOperators.Group.List

/-! # The slots of the ring and the jobs for them

A slot has rows, credit, a queue of packets, and jobs. This file is about what the
threads do to the slots, without the control of the server thread. -/

namespace Ctcp

open Function

/-! ## The packets of one job -/

namespace JobPackets

variable {rows : List Payload} {job : CodingJob} {msgs : List DataPckt}

/-- A job whose rows are all there makes as many packets as it was asked for. -/
theorem length_eq (h : JobPackets rows job msgs) (hreq : 0 ≤ job.dofRequest)
    (hrest : job.codingWnd = 0 → job.start + job.dofRequest ≤ rows.length) :
    (msgs.length : ℤ) = job.dofRequest := by
  obtain ⟨coded, rfl, hcount, -⟩ := h.split
  rw [List.length_append, hcount]
  by_cases hwnd : job.codingWnd = 0
  · have hle := hrest hwnd
    rw [uncodedPackets, if_pos hwnd, codedCount, if_pos hwnd, List.length_map, List.length_range']
    omega
  · rw [uncodedPackets, if_neg hwnd, codedCount, if_neg hwnd, List.length_nil]
    omega

/-- An uncoded one makes nothing but its rows. -/
theorem uncoded_eq (h : JobPackets rows job msgs) (hwnd : job.codingWnd = 0)
    (hrest : job.start + job.dofRequest ≤ rows.length) :
    msgs = (List.range' job.start job.dofRequest.toNat).map (rowPacket rows job.blockno) := by
  obtain ⟨coded, rfl, hcount, -⟩ := h.split
  rw [codedCount, if_pos hwnd] at hcount
  have hnil : coded = [] := List.length_eq_zero_iff.mp (by omega)
  have hnum : (min (job.start + job.dofRequest) rows.length - job.start).toNat =
      job.dofRequest.toNat := by omega
  rw [hnil, List.append_nil, uncodedPackets, if_pos hwnd, hnum]

end JobPackets

/-! ## Slots -/

/-- What the threads share for each slot. While `send_one` is done and `dof_remain` is
not decremented yet, one packet of the slot is in hand. -/
structure Slots where
  currBlock : ℕ
  blocks : ℕ → List Payload
  filled : Filled
  remain : ℕ → ℤ
  queue : ℕ → List DataPckt
  inHand : ℕ → ℤ
  tasks : List Task
  pushed : List DataPckt

/-- No worker holds the mutex of a block in slot `k`. -/
def Slots.Free (x : Slots) (k : ℕ) : Prop := ∀ t ∈ x.tasks, t.Holds → t.slot ≠ k

/-- One packet of block `b` in hand. -/
def handOf (b : ℕ) : ℕ → ℤ := fun k => if slot b = k then 1 else 0

def Slots.fill (x : Slots) (b : ℕ) (added : List Payload) : Slots :=
  { x with
    blocks := update x.blocks (slot b) (x.blocks (slot b) ++ added)
    filled := addRows x.filled b added
    remain := update x.remain (slot b) (x.remain (slot b) + added.length)
    tasks := x.tasks ++ [⟨⟨b, (x.blocks (slot b)).length, added.length, 0⟩, .pending, true⟩] }

def Slots.assign (x : Slots) (b need : ℕ) : Slots :=
  { x with
    remain := update x.remain (slot b) need
    tasks := x.tasks ++ [⟨⟨b, 0, need - x.remain (slot b), maxCodingWnd⟩, .pending, true⟩] }

def Slots.free (x : Slots) : Slots :=
  { x with
    currBlock := x.currBlock + 1
    blocks := update x.blocks (slot x.currBlock) []
    remain := update x.remain (slot x.currBlock) 0
    queue := update x.queue (slot x.currBlock) []
    tasks := x.tasks.map (Task.age (slot x.currBlock)) }

/-- What the workers do to the jobs and the queues. -/
inductive WorkStep (cap : ℕ) (x : Slots) : Slots → Prop where
  | skip {pre post : List Task} {t : Task} (htasks : x.tasks = pre ++ t :: post)
      (hstage : t.stage = .pending) (hold : t.job.blockno < x.currBlock) :
      WorkStep cap x { x with tasks := pre ++ post }
  | check {pre post : List Task} {t : Task} (htasks : x.tasks = pre ++ t :: post)
      (hstage : t.stage = .pending) (hnew : x.currBlock ≤ t.job.blockno) :
      WorkStep cap x { x with tasks := pre ++ { t with stage := .checked } :: post }
  | giveUp {pre post : List Task} {t : Task} (htasks : x.tasks = pre ++ t :: post)
      (hstage : t.stage = .checked) (hempty : x.blocks t.slot = []) :
      WorkStep cap x { x with tasks := pre ++ post }
  | run {pre post : List Task} {t : Task} {msgs : List DataPckt}
      (htasks : x.tasks = pre ++ t :: post) (hstage : t.stage = .checked)
      (hrows : x.blocks t.slot ≠ []) (hmsgs : JobPackets (x.blocks t.slot) t.job msgs) :
      WorkStep cap x { x with tasks := pre ++ { t with stage := .pushing msgs } :: post }
  | push {pre post : List Task} {t : Task} {msg : DataPckt} {left : List DataPckt}
      (htasks : x.tasks = pre ++ t :: post) (hstage : t.stage = .pushing (msg :: left))
      (hroom : (x.queue t.slot).length < cap) :
      WorkStep cap x
        { x with
          queue := update x.queue t.slot (x.queue t.slot ++ [msg])
          tasks := pre ++ { t with stage := .pushing left } :: post
          pushed := x.pushed ++ [msg] }
  | finish {pre post : List Task} {t : Task} (htasks : x.tasks = pre ++ t :: post)
      (hstage : t.stage = .pushing []) : WorkStep cap x { x with tasks := pre ++ post }

inductive SlotEvent where
  | stay
  | fill (b : ℕ) (added : List Payload)
  | assign (b need : ℕ)
  | pop (b : ℕ) (msg : DataPckt)
  | decrement (b : ℕ)
  | free
  | work

/-- What the threads do to the slots. -/
inductive SlotStep (cap : ℕ) (x : Slots) : SlotEvent → Slots → Prop where
  | stay : SlotStep cap x .stay x
  | fill {b : ℕ} {added : List Payload} (hne : added ≠ []) (hcurr : x.currBlock ≤ b)
      (hlt : b < x.currBlock + numBlocks) : SlotStep cap x (.fill b added) (x.fill b added)
  | assign {b need : ℕ} (hless : x.remain (slot b) < need) (hrows : x.blocks (slot b) ≠ [])
      (hcurr : x.currBlock ≤ b) : SlotStep cap x (.assign b need) (x.assign b need)
  | pop {b : ℕ} {msg : DataPckt} {q : List DataPckt} (hq : x.queue (slot b) = msg :: q)
      (hhand : x.inHand = 0) :
      SlotStep cap x (.pop b msg)
        { x with queue := update x.queue (slot b) q, inHand := handOf b }
  | decrement {b : ℕ} (hhand : x.inHand = handOf b) (hremain : 1 ≤ x.remain (slot b)) :
      SlotStep cap x (.decrement b)
        { x with remain := update x.remain (slot b) (x.remain (slot b) - 1), inHand := 0 }
  | free (hhand : x.inHand = 0) (hfree : x.Free (slot x.currBlock)) : SlotStep cap x .free x.free
  | work {x' : Slots} (h : WorkStep cap x x') : SlotStep cap x .work x'

/-! ## What is owed -/

/-- The packets that a job still has to push, if it is not dropped. -/
def Task.left (t : Task) : ℤ :=
  match t.stage with
  | .pushing left => left.length
  | _ => t.job.dofRequest

/-- What a job owes to slot `k`: nothing once the slot has been freed. -/
def Task.due (k : ℕ) (t : Task) : ℤ := if t.slot = k ∧ t.fresh then t.left else 0

def Slots.owed (x : Slots) (k : ℕ) : ℤ := (x.tasks.map (Task.due k)).sum

/-- A job that is fresh belongs to the block in its slot. -/
structure TaskInv (x : Slots) (t : Task) : Prop where
  current : x.currBlock ≤ t.job.blockno
  rows : x.blocks t.slot ≠ []
  rest : t.job.codingWnd = 0 → t.job.start + t.job.dofRequest ≤ (x.blocks t.slot).length

/-- By how much the packets that are queued or owed exceed the credit. -/
def Slots.surplus (x : Slots) (k : ℕ) : ℤ :=
  (x.queue k).length + x.owed k - (x.remain k - x.inHand k)

structure SlotsInv (x : Slots) : Prop where
  fresh : ∀ t ∈ x.tasks, t.fresh → TaskInv x t
  request : ∀ t ∈ x.tasks, 0 ≤ t.job.dofRequest
  remain : ∀ k, 0 ≤ x.remain k
  surplus : ∀ k, 0 ≤ x.surplus k

/-! ## One step -/

variable {cap : ℕ} {x x' : Slots}

theorem Task.due_nonneg {t : Task} (h : 0 ≤ t.job.dofRequest) (k : ℕ) : 0 ≤ t.due k := by
  obtain ⟨job, stage, fresh⟩ := t
  unfold Task.due
  split_ifs with hk
  · cases stage with
    | pending => exact h
    | checked => exact h
    | pushing left => exact Int.natCast_nonneg _
  · rfl

/-- After one job is replaced every job is an old one or a new one. -/
theorem mem_replace {pre post new : List Task} {t t' : Task} (htasks : x.tasks = pre ++ t :: post)
    (ht' : t' ∈ pre ++ new ++ post) : t' ∈ x.tasks ∨ t' ∈ new := by
  rw [htasks]
  rcases List.mem_append.mp ht' with hleft | hpost
  · rcases List.mem_append.mp hleft with hpre | hnew
    · exact .inl (List.mem_append_left _ hpre)
    · exact .inr hnew
  · exact .inl (List.mem_append_right _ (List.mem_cons_of_mem t hpost))

/-- One job is replaced, or removed. -/
theorem surplus_replace (new : List Task) (queue : ℕ → List DataPckt) (pushed : List DataPckt)
    {pre post : List Task} {t : Task} (htasks : x.tasks = pre ++ t :: post) (k : ℕ) :
    Slots.surplus { x with queue := queue, tasks := pre ++ new ++ post, pushed := pushed } k =
      x.surplus k + ((queue k).length + (new.map (Task.due k)).sum) -
        ((x.queue k).length + t.due k) := by
  simp only [Slots.surplus, Slots.owed, htasks, List.map_append, List.map_cons, List.sum_append,
    List.sum_cons]
  omega

theorem Task.due_eq_zero {t : Task} (h : t.fresh → t.left = 0) (k : ℕ) : t.due k = 0 := by
  unfold Task.due
  split_ifs with hk
  · exact h hk.2
  · rfl

/-- A job goes on and owes what it owed. -/
theorem surplus_restage {pre post : List Task} {t t' : Task} {k : ℕ}
    (htasks : x.tasks = pre ++ t :: post) (hdue : t'.due k = t.due k) :
    Slots.surplus { x with tasks := pre ++ t' :: post } k = x.surplus k := by
  have hsum := surplus_replace [t'] x.queue x.pushed htasks k
  rw [List.map_singleton, List.sum_singleton, hdue, List.append_assoc, List.singleton_append]
    at hsum
  rw [hsum]
  omega

/-- A job that is dropped owes nothing. -/
theorem surplus_drop {pre post : List Task} {t : Task} (htasks : x.tasks = pre ++ t :: post)
    (hleft : t.fresh → t.left = 0) (k : ℕ) :
    Slots.surplus { x with tasks := pre ++ post } k = x.surplus k := by
  have hsum := surplus_replace [] x.queue x.pushed htasks k
  rw [List.append_nil] at hsum
  rw [hsum, Task.due_eq_zero hleft]
  simp

/-- The workers turn what is owed into packets. Only a job whose slot was freed after it
took the mutex would add to the surplus. -/
theorem WorkStep.surplus (h : SlotsInv x) (hstep : WorkStep cap x x') (k : ℕ) :
    x.surplus k ≤ x'.surplus k ∧
      ((∀ t ∈ x.tasks, t.Holds → t.fresh) → x'.surplus k = x.surplus k) := by
  cases hstep with
  | @skip pre post t htasks hstage hold =>
      have hdrop := surplus_drop htasks (fun hfresh =>
        absurd (h.fresh t (by simp [htasks]) hfresh).current (Nat.not_le.mpr hold)) k
      exact ⟨hdrop.ge, fun _ => hdrop⟩
  | @check pre post t htasks hstage hnew =>
      have hdue : Task.due k { t with stage := .checked } = t.due k := by
        simp only [Task.due, Task.left, hstage]
        rfl
      have hsame := surplus_restage htasks hdue
      exact ⟨hsame.ge, fun _ => hsame⟩
  | @giveUp pre post t htasks hstage hempty =>
      have hdrop := surplus_drop htasks (fun hfresh =>
        absurd hempty (h.fresh t (by simp [htasks]) hfresh).rows) k
      exact ⟨hdrop.ge, fun _ => hdrop⟩
  | @run pre post t msgs htasks hstage hrows hmsgs =>
      have hmem : t ∈ x.tasks := by simp [htasks]
      have hdue : Task.due k { t with stage := .pushing msgs } = t.due k := by
        by_cases hk : t.slot = k ∧ t.fresh
        · have hlen := hmsgs.length_eq (h.request t hmem) (h.fresh t hmem hk.2).rest
          have hold : t.due k = t.job.dofRequest := by
            rw [Task.due, if_pos hk, Task.left, hstage]
          rw [hold, ← hlen]
          exact if_pos hk
        · have hold : t.due k = 0 := if_neg hk
          rw [hold]
          exact if_neg hk
      have hsame := surplus_restage htasks hdue
      exact ⟨hsame.ge, fun _ => hsame⟩
  | @push pre post t msg left htasks hstage hroom =>
      have hmem : t ∈ x.tasks := by simp [htasks]
      have hsum := surplus_replace [{ t with stage := .pushing left }]
        (update x.queue t.slot (x.queue t.slot ++ [msg])) (x.pushed ++ [msg]) htasks k
      rw [List.map_singleton, List.sum_singleton, List.append_assoc, List.singleton_append] at hsum
      by_cases hk : t.slot = k
      · subst hk
        rw [update_self, List.length_append, List.length_singleton] at hsum
        by_cases hf : t.fresh
        · have hold : t.due t.slot = left.length + 1 := by simp [Task.due, Task.left, hf, hstage]
          have hnew : Task.due t.slot { t with stage := .pushing left } = left.length :=
            if_pos ⟨rfl, hf⟩
          rw [hold, hnew] at hsum
          constructor
          · omega
          · omega
        · have hold : t.due t.slot = 0 := if_neg fun hn => hf hn.2
          have hnew : Task.due t.slot { t with stage := .pushing left } = 0 :=
            if_neg fun hn => hf hn.2
          rw [hold, hnew] at hsum
          exact ⟨by omega, fun hfresh => absurd (hfresh t hmem ⟨_, hstage⟩) hf⟩
      · have hold : t.due k = 0 := if_neg fun hn => hk hn.1
        have hnew : Task.due k { t with stage := .pushing left } = 0 := if_neg fun hn => hk hn.1
        rw [update_of_ne (Ne.symm hk), hold, hnew] at hsum
        constructor
        · omega
        · omega
  | @finish pre post t htasks hstage =>
      have hdrop := surplus_drop htasks (fun _ => by simp [Task.left, hstage]) k
      exact ⟨hdrop.ge, fun _ => hdrop⟩

/-- Every job after a step of a worker was there before, with the same freshness. -/
theorem WorkStep.exists_task (hstep : WorkStep cap x x') {t' : Task} (ht' : t' ∈ x'.tasks) :
    ∃ t ∈ x.tasks, t'.job = t.job ∧ t'.fresh = t.fresh := by
  cases hstep with
  | @check pre post t htasks _ _ | @run pre post t _ htasks _ _ _
  | @push pre post t _ _ htasks _ _ =>
      rw [htasks]
      rcases List.mem_append.mp ht' with hpre | hpost
      · exact ⟨t', by simp [hpre], rfl, rfl⟩
      · rcases List.mem_cons.mp hpost with rfl | hpost
        · exact ⟨t, by simp, rfl, rfl⟩
        · exact ⟨t', by simp [hpost], rfl, rfl⟩
  | @skip pre post t htasks _ _ | @giveUp pre post t htasks _ _ | @finish pre post t htasks _ =>
      rw [htasks]
      rcases List.mem_append.mp ht' with hpre | hpost
      · exact ⟨t', by simp [hpre], rfl, rfl⟩
      · exact ⟨t', by simp [hpost], rfl, rfl⟩

theorem WorkStep.frame (hstep : WorkStep cap x x') :
    x'.currBlock = x.currBlock ∧ x'.blocks = x.blocks ∧ x'.remain = x.remain ∧
      x'.filled = x.filled ∧ x'.inHand = x.inHand := by
  cases hstep with
  | _ => exact ⟨rfl, rfl, rfl, rfl, rfl⟩

/-- Jobs of the same kind in the same place are alike. -/
theorem TaskInv.congr {t t' : Task} (h : TaskInv x t) (hjob : t'.job = t.job)
    (hcurr : x'.currBlock = x.currBlock) (hblocks : x'.blocks = x.blocks) : TaskInv x' t' := by
  have hslot : t'.slot = t.slot := congrArg (fun job : CodingJob => Ctcp.slot job.blockno) hjob
  constructor
  · rw [hjob, hcurr]
    exact h.current
  · rw [hslot, hblocks]
    exact h.rows
  · rw [hslot, hjob, hblocks]
    exact h.rest

theorem SlotsInv.work (h : SlotsInv x) (hstep : WorkStep cap x x') : SlotsInv x' := by
  obtain ⟨hcurr, hblocks, hremain, -⟩ := hstep.frame
  constructor
  case fresh =>
    intro t' ht' hfresh
    obtain ⟨t, ht, hjob, hf⟩ := hstep.exists_task ht'
    exact (h.fresh t ht (hf ▸ hfresh)).congr hjob hcurr hblocks
  case request =>
    intro t' ht'
    obtain ⟨t, ht, hjob, -⟩ := hstep.exists_task ht'
    exact hjob ▸ h.request t ht
  case remain => exact hremain ▸ h.remain
  case surplus => exact fun k => (h.surplus k).trans (hstep.surplus h k).1

/-- New rows change nothing for the jobs of the block. -/
theorem TaskInv.fill {t : Task} (h : TaskInv x t) (b : ℕ) (added : List Payload) :
    TaskInv (x.fill b added) t := by
  have hlen : (x.blocks t.slot).length ≤ ((x.fill b added).blocks t.slot).length := by
    by_cases hs : t.slot = slot b
    · simp [Slots.fill, hs]
    · simp [Slots.fill, update_of_ne hs]
  have hpos := List.length_pos_of_ne_nil h.rows
  constructor
  case current => exact h.current
  case rows => exact List.ne_nil_of_length_pos (hpos.trans_le hlen)
  case rest =>
    intro hwnd
    have hrest := h.rest hwnd
    omega

theorem surplus_fill (x : Slots) (b : ℕ) (added : List Payload) (k : ℕ) :
    (x.fill b added).surplus k = x.surplus k := by
  by_cases hs : k = slot b
  · subst hs
    simp [Slots.surplus, Slots.fill, Slots.owed, Task.due, Task.left, Task.slot]
    omega
  · have hs' : slot b ≠ k := Ne.symm hs
    simp [Slots.surplus, Slots.fill, Slots.owed, Task.due, Task.slot, update_of_ne hs, hs']

theorem SlotsInv.fill (h : SlotsInv x) {b : ℕ} {added : List Payload} (hne : added ≠ [])
    (hcurr : x.currBlock ≤ b) : SlotsInv (x.fill b added) := by
  constructor
  case fresh =>
    intro t ht hfresh
    rcases List.mem_append.mp ht with hold | hnew
    · exact (h.fresh t hold hfresh).fill b added
    · obtain rfl := List.mem_singleton.mp hnew
      have hrows : (x.fill b added).blocks (slot b) = x.blocks (slot b) ++ added :=
        update_self _ _ _
      constructor
      · exact hcurr
      · simp [Task.slot, hrows, hne]
      · simp [Task.slot, hrows]
  case request =>
    intro t ht
    rcases List.mem_append.mp ht with hold | hnew
    · exact h.request t hold
    · obtain rfl := List.mem_singleton.mp hnew
      exact Int.natCast_nonneg _
  case remain =>
    intro k
    have hk := h.remain k
    by_cases hs : k = slot b
    · subst hs
      simp only [Slots.fill, update_self]
      omega
    · simpa [Slots.fill, update_of_ne hs] using hk
  case surplus => exact fun k => (h.surplus k).trans_eq (surplus_fill x b added k).symm

theorem surplus_assign (x : Slots) (b need k : ℕ) :
    (x.assign b need).surplus k = x.surplus k := by
  by_cases hs : k = slot b
  · subst hs
    simp [Slots.surplus, Slots.assign, Slots.owed, Task.due, Task.left, Task.slot]
    omega
  · have hs' : slot b ≠ k := Ne.symm hs
    simp [Slots.surplus, Slots.assign, Slots.owed, Task.due, Task.slot, update_of_ne hs, hs']

theorem SlotsInv.assign (h : SlotsInv x) {b need : ℕ} (hless : x.remain (slot b) < need)
    (hrows : x.blocks (slot b) ≠ []) (hcurr : x.currBlock ≤ b) : SlotsInv (x.assign b need) := by
  constructor
  case fresh =>
    intro t ht hfresh
    rcases List.mem_append.mp ht with hold | hnew
    · have hinv := h.fresh t hold hfresh
      exact ⟨hinv.current, hinv.rows, hinv.rest⟩
    · obtain rfl := List.mem_singleton.mp hnew
      exact ⟨hcurr, hrows, fun hwnd => absurd hwnd (show maxCodingWnd ≠ 0 by decide)⟩
  case request =>
    intro t ht
    rcases List.mem_append.mp ht with hold | hnew
    · exact h.request t hold
    · obtain rfl := List.mem_singleton.mp hnew
      exact Int.sub_nonneg_of_le hless.le
  case remain =>
    intro k
    by_cases hs : k = slot b
    · subst hs
      simp [Slots.assign]
    · simpa [Slots.assign, update_of_ne hs] using h.remain k
  case surplus => exact fun k => (h.surplus k).trans_eq (surplus_assign x b need k).symm

theorem surplus_pop {b : ℕ} {msg : DataPckt} {q : List DataPckt}
    (hq : x.queue (slot b) = msg :: q) (hhand : x.inHand = 0) (k : ℕ) :
    Slots.surplus { x with queue := update x.queue (slot b) q, inHand := handOf b } k =
      x.surplus k := by
  simp only [Slots.surplus, Slots.owed, hhand, Pi.zero_apply]
  by_cases hs : k = slot b
  · subst hs
    simp only [handOf, if_true, update_self]
    rw [hq, List.length_cons]
    omega
  · simp only [handOf, if_neg (Ne.symm hs), update_of_ne hs]

theorem SlotsInv.pop (h : SlotsInv x) {b : ℕ} {msg : DataPckt} {q : List DataPckt}
    (hq : x.queue (slot b) = msg :: q) (hhand : x.inHand = 0) :
    SlotsInv { x with queue := update x.queue (slot b) q, inHand := handOf b } := by
  constructor
  case fresh =>
    intro t ht hfresh
    have hinv := h.fresh t ht hfresh
    exact ⟨hinv.current, hinv.rows, hinv.rest⟩
  case request => exact h.request
  case remain => exact h.remain
  case surplus => exact fun k => (h.surplus k).trans_eq (surplus_pop hq hhand k).symm

theorem surplus_decrement {b : ℕ} (hhand : x.inHand = handOf b) (k : ℕ) :
    Slots.surplus
      { x with remain := update x.remain (slot b) (x.remain (slot b) - 1), inHand := 0 } k =
        x.surplus k := by
  simp only [Slots.surplus, Slots.owed, hhand, Pi.zero_apply]
  by_cases hs : k = slot b
  · subst hs
    simp only [handOf, if_true, update_self]
    omega
  · simp only [handOf, if_neg (Ne.symm hs), update_of_ne hs]

theorem SlotsInv.decrement (h : SlotsInv x) {b : ℕ} (hhand : x.inHand = handOf b)
    (hremain : 1 ≤ x.remain (slot b)) :
    SlotsInv
      { x with remain := update x.remain (slot b) (x.remain (slot b) - 1), inHand := 0 } := by
  constructor
  case fresh =>
    intro t ht hfresh
    have hinv := h.fresh t ht hfresh
    exact ⟨hinv.current, hinv.rows, hinv.rest⟩
  case request => exact h.request
  case remain =>
    intro k
    by_cases hs : k = slot b
    · subst hs
      simp only [update_self]
      omega
    · simpa [update_of_ne hs] using h.remain k
  case surplus => exact fun k => (h.surplus k).trans_eq (surplus_decrement hhand k).symm

@[simp] theorem Task.job_age (k : ℕ) (t : Task) : (t.age k).job = t.job := by
  unfold Task.age
  split_ifs <;> rfl

@[simp] theorem Task.slot_age (k : ℕ) (t : Task) : (t.age k).slot = t.slot := by
  rw [Task.slot, Task.job_age, Task.slot]

@[simp] theorem Task.stage_age (k : ℕ) (t : Task) : (t.age k).stage = t.stage := by
  unfold Task.age
  split_ifs <;> rfl

theorem Task.fresh_age (k : ℕ) (t : Task) : (t.age k).fresh ↔ t.fresh ∧ t.slot ≠ k := by
  unfold Task.age
  split_ifs with hk
  · simp [hk]
  · simp [hk]

theorem Task.due_age (k j : ℕ) (t : Task) : (t.age k).due j = if j = k then 0 else t.due j := by
  have hleft : (t.age k).left = t.left := by simp [Task.left]
  simp only [Task.due, Task.slot_age, Task.fresh_age, hleft]
  grind

theorem surplus_free (hhand : x.inHand = 0) (k : ℕ) :
    x.free.surplus k = if k = slot x.currBlock then 0 else x.surplus k := by
  have howed : x.free.owed k = if k = slot x.currBlock then 0 else x.owed k := by
    rw [Slots.owed, Slots.free, List.map_map]
    split_ifs with hs
    · apply List.sum_eq_zero
      intro d hd
      obtain ⟨t, -, rfl⟩ := List.mem_map.mp hd
      exact (Task.due_age _ _ _).trans (if_pos hs)
    · apply congrArg List.sum
      apply List.map_congr_left
      intro t _
      exact (Task.due_age _ _ _).trans (if_neg hs)
  rw [Slots.surplus, howed]
  by_cases hs : k = slot x.currBlock
  · simp [Slots.free, hs, hhand]
  · simp [Slots.free, hs, Slots.surplus]

theorem SlotsInv.free (h : SlotsInv x) (hhand : x.inHand = 0) : SlotsInv x.free := by
  constructor
  case fresh =>
    intro t ht hfresh
    obtain ⟨u, hu, rfl⟩ := List.mem_map.mp ht
    obtain ⟨hf, hs⟩ := (Task.fresh_age _ _).mp hfresh
    have hinv := h.fresh u hu hf
    have hne : u.job.blockno ≠ x.currBlock := fun he => hs (congrArg Ctcp.slot he)
    have hcurr := hinv.current
    have hrows : x.free.blocks u.slot = x.blocks u.slot := update_of_ne hs _ _
    constructor
    case current =>
      rw [Task.job_age]
      change x.currBlock + 1 ≤ _
      omega
    case rows =>
      rw [Task.slot_age, hrows]
      exact hinv.rows
    case rest =>
      rw [Task.slot_age, Task.job_age, hrows]
      exact hinv.rest
  case request =>
    intro t ht
    obtain ⟨u, hu, rfl⟩ := List.mem_map.mp ht
    rw [Task.job_age]
    exact h.request u hu
  case remain =>
    intro k
    by_cases hs : k = slot x.currBlock
    · simp [Slots.free, hs]
    · simpa [Slots.free, update_of_ne hs] using h.remain k
  case surplus =>
    intro k
    rw [surplus_free hhand]
    split_ifs
    · rfl
    · exact h.surplus k

theorem SlotsInv.step {e : SlotEvent} (h : SlotsInv x) (hstep : SlotStep cap x e x') :
    SlotsInv x' := by
  cases hstep with
  | stay => exact h
  | fill hne hcurr _ => exact h.fill hne hcurr
  | assign hless hrows hcurr => exact h.assign hless hrows hcurr
  | pop hq hhand => exact h.pop hq hhand
  | decrement hhand hremain => exact h.decrement hhand hremain
  | free hhand _ => exact h.free hhand
  | work hw => exact h.work hw

end Ctcp
