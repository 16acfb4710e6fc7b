import Ctcp.Verification.Pipeline.Invariant
import Ctcp.Verification.Pipeline.Script
import Mathlib.Logic.Relation

/-! # Coding credit is backed by packets -/

namespace Ctcp

open Function

variable {cap : ℕ} {s s' : Pipeline}

/-! ## The workers serve a waiting pop -/

/-- Steps of the workers alone. -/
def Works (cap : ℕ) : Pipeline → Pipeline → Prop :=
  Relation.ReflTransGen fun s s' => PipelineStep cap s .work s'

theorem exists_due_of_owed_pos {x : Slots} {k : ℕ} (h : 0 < x.owed k) :
    ∃ t ∈ x.tasks, t.slot = k ∧ t.fresh ∧ 0 < t.left := by
  by_contra hnone
  apply h.not_ge
  refine (List.sum_le_card_nsmul _ 0 fun d hd => ?_).trans_eq (nsmul_zero _)
  obtain ⟨t, ht, rfl⟩ := List.mem_map.mp hd
  unfold Task.due
  split_ifs with hk
  · exact Int.not_lt.mp fun hpos => hnone ⟨t, ht, hk.1, hk.2, hpos⟩
  · rfl

/-- In front of a pop there is a packet in the queue, or some job still owes one. -/
theorem PipeInv.queued_or_owed (h : PipeInv s) {l : SegsLoop} {currWin : ℕ}
    (hphase : s.phase = .popping l currWin) :
    s.sk.codedQ (slot l.blockno) ≠ [] ∨
      ∃ t ∈ s.tasks, t.slot = slot l.blockno ∧ t.fresh ∧ 0 < t.left := by
  by_cases hq : s.sk.codedQ (slot l.blockno) = []
  · right
    have hinv := h.phase
    rw [hphase] at hinv
    obtain ⟨-, -, hremain⟩ := hinv
    have hcredit : s.sk.dofRemain (slot l.blockno) - s.phase.inHand (slot l.blockno) ≤
        (s.sk.codedQ (slot l.blockno)).length + s.slots.owed (slot l.blockno) :=
      Int.sub_nonneg.mp (h.slots.surplus _)
    have hhand : s.phase.inHand (slot l.blockno) = 0 := by rw [hphase]; rfl
    rw [hq, List.length_nil, hhand] at hcredit
    exact exists_due_of_owed_pos (x := s.slots) (by omega)
  · exact .inl hq

/-- A push makes the queue of its slot nonempty. -/
theorem exists_works_push {k : ℕ} {pre post : List Task} {t : Task} {msg : DataPckt}
    {left : List DataPckt} (hcap : 0 < cap) (htasks : s.tasks = pre ++ t :: post)
    (hslot : t.slot = k) (hstage : t.stage = .pushing (msg :: left))
    (hq : s.sk.codedQ k = []) : ∃ s', Works cap s s' ∧ s'.sk.codedQ k ≠ [] := by
  subst hslot
  refine ⟨_, .single (.push htasks hstage ?_), ?_⟩
  · rw [hq]
    exact hcap
  · simp

theorem PipeInv.exists_works_run (h : PipeInv s) {pre post : List Task} {t : Task}
    (hcap : 0 < cap) (htasks : s.tasks = pre ++ t :: post) (hfresh : t.fresh)
    (hstage : t.stage = .checked) (hreq : 0 < t.job.dofRequest) (hfree : s.SlotFree t.slot)
    (hq : s.sk.codedQ t.slot = []) : ∃ s', Works cap s s' ∧ s'.sk.codedQ t.slot ≠ [] := by
  have hmem : t ∈ s.tasks := by simp [htasks]
  have htask := h.slots.fresh t hmem hfresh
  have hlen := h.store.length_block_le t.job.blockno
  have hmsgs := jobPackets_somePackets hlen t.job
  have hcount := hmsgs.length_eq hreq.le htask.rest
  obtain ⟨msg, left, hcons⟩ : ∃ msg left, somePackets (s.sk.block t.job.blockno) t.job =
      msg :: left := List.exists_cons_of_length_pos (by omega)
  rw [hcons] at hmsgs
  have hrows : s.sk.block t.job.blockno ≠ [] := htask.rows
  rw [← blockLenRows_of_le hlen] at hrows hmsgs
  have hrun : PipelineStep cap s .work _ := .run htasks hstage hfree hrows hmsgs
  let t' : Task := { t with stage := .pushing (msg :: left) }
  obtain ⟨s', hworks, hs'⟩ :=
    @exists_works_push cap { s with tasks := pre ++ t' :: post } _ _ _ t' _ _ hcap rfl rfl rfl hq
  exact ⟨s', .head hrun hworks, hs'⟩

/-- The workers alone put a packet in the queue that the server thread waits for. -/
theorem PipeInv.exists_works (h : PipeInv s) (hcap : 0 < cap) {l : SegsLoop} {currWin : ℕ}
    (hphase : s.phase = .popping l currWin) :
    ∃ s', Works cap s s' ∧ s'.sk.codedQ (slot l.blockno) ≠ [] := by
  -- Jobs that hold the mutex with nothing left to push have to finish first.
  induction hn : s.tasks.length generalizing s with
  | zero =>
      rcases h.queued_or_owed hphase with hq | ⟨t, ht, -⟩
      · exact ⟨s, .refl, hq⟩
      · rw [List.length_eq_zero_iff.mp hn] at ht
        exact (List.not_mem_nil ht).elim
  | succ n ih =>
      by_cases hq : s.sk.codedQ (slot l.blockno) = []
      · by_cases hfree : s.SlotFree (slot l.blockno)
        · obtain ⟨t, ht, hslot, hfresh, hpos⟩ :=
            (h.queued_or_owed hphase).resolve_left (by simp [hq])
          obtain ⟨pre, post, htasks⟩ := List.append_of_mem ht
          rw [← hslot] at hfree hq ⊢
          cases hstage : t.stage with
          | pending =>
              have hreq : 0 < t.job.dofRequest := by simpa [Task.left, hstage] using hpos
              have hcheck : PipelineStep cap s .work _ :=
                .check htasks hstage (by rw [hphase]; trivial) (h.slots.fresh t ht hfresh).current
              have hfree' := @Pipeline.SlotFree.replace s t.slot hfree _ _ _
                { t with stage := .checked } htasks (by simp)
              obtain ⟨s', hworks, hs'⟩ :=
                (h.step hcheck).exists_works_run hcap rfl hfresh rfl hreq hfree' hq
              exact ⟨s', .head hcheck hworks, hs'⟩
          | checked =>
              have hreq : 0 < t.job.dofRequest := by simpa [Task.left, hstage] using hpos
              exact h.exists_works_run hcap htasks hfresh hstage hreq hfree hq
          | pushing left => exact absurd rfl (hfree t ht ⟨left, hstage⟩)
        · obtain ⟨t, ht, ⟨left, hstage⟩, hslot⟩ :
              ∃ t ∈ s.tasks, t.Holds ∧ t.slot = slot l.blockno := by
            simpa [Pipeline.SlotFree] using hfree
          obtain ⟨pre, post, htasks⟩ := List.append_of_mem ht
          cases left with
          | nil =>
              have hfinish : PipelineStep cap s .work _ := .finish htasks hstage
              have hlen : (pre ++ post).length = n := by
                rw [htasks, List.length_append, List.length_cons] at hn
                rw [List.length_append]
                omega
              obtain ⟨s', hworks, hs'⟩ :=
                @ih { s with tasks := pre ++ post } (h.step hfinish) hphase hlen
              exact ⟨s', .head hfinish hworks, hs'⟩
          | cons msg left => exact exists_works_push hcap htasks hslot hstage hq
      · exact ⟨s, .refl, hq⟩

/-! ## The main result -/

/-- Credit is backed by packets, and a pop will be served. In `owed` a job that has
not run counts with its `dof_request`, one that runs with the packets left to push,
and one whose slot has been freed does not count. -/
structure Backed (cap : ℕ) (s : Pipeline) : Prop where
  credit : ∀ k, s.sk.dofRemain k - s.phase.inHand k ≤ (s.sk.codedQ k).length + s.slots.owed k
  /-- A job that runs before its slot is freed pushes what it was asked for. -/
  runs : ∀ t ∈ s.tasks, t.fresh → s.sk.currBlock ≤ t.job.blockno ∧
    blockLenRows (s.sk.block t.job.blockno) ≠ [] ∧
      ∀ msgs, JobPackets (blockLenRows (s.sk.block t.job.blockno)) t.job msgs →
      (msgs.length : ℤ) = t.job.dofRequest ∧ (t.job.codingWnd = 0 → msgs =
        (List.range' t.job.start t.job.dofRequest.toNat).map
          (rowPacket (s.sk.block t.job.blockno) t.job.blockno))
  /-- `handle_ack` sets the count anew before it gives up `curr_block_mutex`. -/
  request : s.phase ≠ .booting → s.phase.Unlocked →
    s.sk.dofReqLatest ≤ (s.sk.block s.sk.currBlock).length
  pops : ∀ l currWin, s.phase = .popping l currWin →
    (s.sk.codedQ (slot l.blockno) ≠ [] ∨
      ∃ t ∈ s.tasks, t.slot = slot l.blockno ∧ t.fresh ∧ 0 < t.left) ∧
    ∃ s', Works cap s s' ∧ s'.sk.codedQ (slot l.blockno) ≠ []

theorem PipeInv.request_le (h : PipeInv s) (hboot : s.phase ≠ .booting)
    (hlock : s.phase.Unlocked) : s.sk.dofReqLatest ≤ (s.sk.block s.sk.currBlock).length := by
  have hinv := h.phase
  cases hp : s.phase with
  | booting => exact absurd hp hboot
  | idle =>
      rw [hp] at hinv
      exact hinv.le_len
  | acking pin a start =>
      rw [hp] at hlock
      exact hlock.elim
  | _ =>
      rw [hp] at hinv
      exact hinv.1.le_len

/-- In every interleaving the credit of a slot is backed by packets that are queued
or owed, so no pop waits for a packet that nobody makes. -/
theorem backed_of_reachable {memory : BlockMemory} (hmem : memory.Clear) (hcap : 0 < cap)
    (h : (pipeline cap memory).Reachable s) : Backed cap s := by
  rw [hmem.eq_noRows] at h
  have hinv := pipeInv_of_reachable h
  constructor
  case credit => exact fun k => Int.sub_nonneg.mp (hinv.slots.surplus k)
  case runs =>
    intro t ht hfresh
    have htask := hinv.slots.fresh t ht hfresh
    rw [blockLenRows_of_le (hinv.store.length_block_le _)]
    refine ⟨htask.current, htask.rows, fun msgs hmsgs => ⟨?_, fun hwnd => ?_⟩⟩
    · exact hmsgs.length_eq (hinv.slots.request t ht) htask.rest
    · exact hmsgs.uncoded_eq hwnd (htask.rest hwnd)
  case request => exact hinv.request_le
  case pops => exact fun l currWin hphase =>
    ⟨hinv.queued_or_owed hphase, hinv.exists_works hcap hphase⟩

/-- A packet is in hand, one is queued, and the credit is 2. -/
theorem backed_oneByteSent : ∃ s : Pipeline, (∃ l msg, s.phase = .popped l 1 msg) ∧
    (s.sk.codedQ 1).map DataPckt.flag = [.coded] ∧ Backed (2 * blockSize) s := by
  obtain ⟨s, l, msg, hs, hphase, -, -, hqueue, -⟩ :=
    exists_oneByteSent (C := fun _ _ => True) fun _ _ _ => trivial
  exact ⟨s, ⟨l, msg, hphase⟩, hqueue, backed_of_reachable (fun _ => rfl) (by decide) hs.of_guard⟩

/-! ## Lengths that nobody has set -/

namespace UnsetLength

/-- `malloc` leaves the length 256 in block 1, which is 0 as a `uint8_t`. -/
def memory : BlockMemory := fun k => if k = 1 then List.replicate 256 (packRow []) else []

def start : Pipeline :=
  ⟨createSrvctcpSock memory 1 (fun _ => initStream) 1, fun _ => [], [], .booting, []⟩

/-- `send_segs` asks for 8 packets of block 1; the job for them gives up. -/
def script : List PipelineAct := [.start, .segs, .examine, .assign, .check, .run]

theorem script_result : (script.foldlM (Pipeline.act (2 * blockSize)) start).map (fun s =>
    (s.sk.dofRemain 1, s.phase.inHand 1, (s.sk.codedQ 1).length, s.slots.owed 1)) =
      some (8, 0, 0, 0) := by
  decide +kernel

end UnsetLength

/-- The credit of a block whose length nobody has set is not backed by anything. -/
theorem not_backed_of_unsetLength :
    ¬∀ memory s, (pipeline (2 * blockSize) memory).Reachable s → Backed (2 * blockSize) s := by
  intro hall
  obtain ⟨s, hacts, hview⟩ := Option.map_eq_some_iff.mp UnsetLength.script_result
  have hinit : ((pipeline (2 * blockSize) UnsetLength.memory).guard fun _ _ => True).Reachable
      UnsetLength.start := .init ⟨1, 1, by decide, by decide, rfl⟩
  have hs := reachable_acts (fun _ _ _ => trivial) hinit hacts
  have hcredit := (hall _ s hs.of_guard).credit 1
  simp only [Prod.mk.injEq] at hview
  obtain ⟨hremain, hhand, hqueue, howed⟩ := hview
  rw [hremain, hhand, hqueue, howed] at hcredit
  exact absurd hcredit (by decide)

end Ctcp
