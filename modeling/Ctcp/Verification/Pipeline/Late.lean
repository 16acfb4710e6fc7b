import Ctcp.Verification.Pipeline.Slots

/-! # Jobs that outlive their block

A job compares its block number with `curr_block` under one mutex and reads its rows
under another. In between its slot can be freed, and filled anew. -/

namespace Ctcp

open Function

/-- The slot of the job has been freed, and the job will not be dropped as old. -/
def Task.Late (x : Slots) (t : Task) : Prop :=
  ¬t.fresh ∧ ¬(t.stage = .pending ∧ t.job.blockno < x.currBlock)

/-- New rows come into a slot only when no late job is left there. -/
def RefillsOnTime (x : Slots) (e : SlotEvent) : Prop :=
  ∀ b added, e = .fill b added → ∀ t ∈ x.tasks, t.slot = slot b → ¬t.Late x

/-- Late jobs find their block empty, and a job that pushes is not late. -/
structure OnTime (x : Slots) : Prop where
  late_empty : ∀ t ∈ x.tasks, t.Late x → x.blocks t.slot = []
  holds_fresh : ∀ t ∈ x.tasks, t.Holds → t.fresh

variable {cap : ℕ} {x x' : Slots}

theorem onTime_of_fresh (h : ∀ t ∈ x.tasks, t.fresh) : OnTime x where
  late_empty t ht hlate := absurd (h t ht) hlate.1
  holds_fresh t ht _ := h t ht

theorem OnTime.fill (h : OnTime x) {b : ℕ} {added : List Payload}
    (hok : ∀ t ∈ x.tasks, t.slot = slot b → ¬t.Late x) : OnTime (x.fill b added) := by
  constructor
  case late_empty =>
    intro t ht hlate
    rcases List.mem_append.mp ht with hold | hnew
    · have hs : t.slot ≠ slot b := fun hs => hok t hold hs hlate
      exact (update_of_ne hs _ _).trans (h.late_empty t hold hlate)
    · obtain rfl := List.mem_singleton.mp hnew
      exact absurd rfl hlate.1
  case holds_fresh =>
    intro t ht hholds
    rcases List.mem_append.mp ht with hold | hnew
    · exact h.holds_fresh t hold hholds
    · obtain rfl := List.mem_singleton.mp hnew
      rfl

theorem OnTime.assign (h : OnTime x) (b need : ℕ) : OnTime (x.assign b need) := by
  constructor
  case late_empty =>
    intro t ht hlate
    rcases List.mem_append.mp ht with hold | hnew
    · exact h.late_empty t hold hlate
    · obtain rfl := List.mem_singleton.mp hnew
      exact absurd rfl hlate.1
  case holds_fresh =>
    intro t ht hholds
    rcases List.mem_append.mp ht with hold | hnew
    · exact h.holds_fresh t hold hholds
    · obtain rfl := List.mem_singleton.mp hnew
      rfl

theorem OnTime.free (h : OnTime x) (hfree : x.Free (slot x.currBlock)) : OnTime x.free := by
  constructor
  case late_empty =>
    intro t' ht' hlate
    obtain ⟨t, ht, rfl⟩ := List.mem_map.mp ht'
    rw [Task.slot_age]
    by_cases hs : t.slot = slot x.currBlock
    · simp [Slots.free, hs]
    · have hrows : x.free.blocks t.slot = x.blocks t.slot := update_of_ne hs _ _
      rw [hrows]
      apply h.late_empty t ht
      obtain ⟨hold, hnew⟩ := hlate
      refine ⟨fun hf => hold ((Task.fresh_age _ _).mpr ⟨hf, hs⟩), fun hp => hnew ?_⟩
      rw [Task.stage_age, Task.job_age]
      exact ⟨hp.1, hp.2.trans (Nat.lt_succ_self _)⟩
  case holds_fresh =>
    intro t' ht' hholds
    obtain ⟨t, ht, rfl⟩ := List.mem_map.mp ht'
    have hholds' : t.Holds := by simpa [Task.Holds] using hholds
    exact (Task.fresh_age _ _).mpr ⟨h.holds_fresh t ht hholds', hfree t ht hholds'⟩

/-- A worker's step leaves the other jobs alone; the one it is about was there before. -/
theorem OnTime.replace (h : OnTime x) (new : List Task) {pre post : List Task} {t : Task}
    (htasks : x.tasks = pre ++ t :: post)
    (hnew : ∀ t' ∈ new, t'.slot = t.slot ∧ (t'.Late x → t.Late x) ∧ (t'.Holds → t'.fresh))
    (queue : ℕ → List DataPckt) (pushed : List DataPckt) :
    OnTime { x with queue := queue, tasks := pre ++ new ++ post, pushed := pushed } := by
  have hmem : ∀ t' ∈ pre ++ new ++ post, t' ∈ x.tasks ∨ t' ∈ new :=
    fun _ => mem_replace htasks
  constructor
  case late_empty =>
    intro t' ht' hlate
    rcases hmem t' ht' with hold | hin
    · exact h.late_empty t' hold hlate
    · obtain ⟨hslot, hkeep, -⟩ := hnew t' hin
      rw [hslot]
      exact h.late_empty t (by simp [htasks]) (hkeep hlate)
  case holds_fresh =>
    intro t' ht' hholds
    rcases hmem t' ht' with hold | hin
    · exact h.holds_fresh t' hold hholds
    · exact (hnew t' hin).2.2 hholds

theorem OnTime.drop (h : OnTime x) {pre post : List Task} {t : Task}
    (htasks : x.tasks = pre ++ t :: post) : OnTime { x with tasks := pre ++ post } := by
  simpa using h.replace [] htasks (by simp) x.queue x.pushed

/-- A job that finds rows in its slot is not late. -/
theorem OnTime.fresh_of_run (h : OnTime x) {t : Task} (ht : t ∈ x.tasks)
    (hstage : t.stage = .checked) (hrows : x.blocks t.slot ≠ []) : t.fresh := by
  by_contra hold
  exact hrows (h.late_empty t ht ⟨hold, fun hp => by simp [hstage] at hp⟩)

theorem OnTime.work (h : OnTime x) (hstep : WorkStep cap x x') : OnTime x' := by
  cases hstep with
  | skip htasks _ _ => exact h.drop htasks
  | @check pre post t htasks hstage hnew =>
      have hstill := h.replace [{ t with stage := .checked }] htasks (fun t' ht' => by
        obtain rfl := List.mem_singleton.mp ht'
        refine ⟨rfl, fun hlate => ⟨hlate.1, fun hp => ?_⟩, fun hholds => ?_⟩
        · exact absurd hp.2 (Nat.not_lt.mpr hnew)
        · obtain ⟨left, hleft⟩ := hholds
          simp at hleft) x.queue x.pushed
      simpa using hstill
  | giveUp htasks _ _ => exact h.drop htasks
  | @run pre post t msgs htasks hstage hrows hmsgs =>
      have hfresh := h.fresh_of_run (by simp [htasks]) hstage hrows
      have hstill := h.replace [{ t with stage := .pushing msgs }] htasks
        (fun t' ht' => by
          obtain rfl := List.mem_singleton.mp ht'
          exact ⟨rfl, fun hlate => absurd hfresh hlate.1, fun _ => hfresh⟩) x.queue x.pushed
      simpa using hstill
  | @push pre post t msg left htasks hstage hroom =>
      have hfresh := h.holds_fresh t (by simp [htasks]) ⟨_, hstage⟩
      have hstill := h.replace [{ t with stage := .pushing left }] htasks
        (fun t' ht' => by
          obtain rfl := List.mem_singleton.mp ht'
          exact ⟨rfl, fun hlate => absurd hfresh hlate.1, fun _ => hfresh⟩)
        (update x.queue t.slot (x.queue t.slot ++ [msg])) (x.pushed ++ [msg])
      simpa using hstill
  | finish htasks _ => exact h.drop htasks

theorem OnTime.step {e : SlotEvent} (h : OnTime x) (hok : RefillsOnTime x e)
    (hstep : SlotStep cap x e x') : OnTime x' := by
  cases hstep with
  | stay => exact h
  | fill _ _ _ => exact h.fill (hok _ _ rfl)
  | assign _ _ _ => exact h.assign _ _
  | pop _ _ => exact ⟨h.late_empty, h.holds_fresh⟩
  | decrement _ _ => exact ⟨h.late_empty, h.holds_fresh⟩
  | free _ hfree => exact h.free hfree
  | work hw => exact h.work hw

/-- Without late jobs the packets never exceed the credit. -/
theorem SlotStep.surplus_eq_zero {e : SlotEvent} (hinv : SlotsInv x) (h : OnTime x)
    (hzero : ∀ k, x.surplus k = 0) (hstep : SlotStep cap x e x') (k : ℕ) : x'.surplus k = 0 := by
  cases hstep with
  | stay => exact hzero k
  | fill _ _ _ => exact (surplus_fill _ _ _ _).trans (hzero k)
  | assign _ _ _ => exact (surplus_assign _ _ _ _).trans (hzero k)
  | pop hq hhand => exact (surplus_pop hq hhand k).trans (hzero k)
  | decrement hhand _ => exact (surplus_decrement hhand k).trans (hzero k)
  | free hhand _ =>
      rw [surplus_free hhand]
      split_ifs
      · rfl
      · exact hzero k
  | work hw => exact ((hw.surplus hinv k).2 h.holds_fresh).trans (hzero k)

end Ctcp
