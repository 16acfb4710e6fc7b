import Ctcp.Verification.Pipeline.Own

/-! # Each row of a block is queued once -/

namespace Ctcp

open Function

/-! ## Uses of a row -/

/-- Row `r` of block `b`, uncoded. -/
def IsRow (b r : ℕ) (msg : DataPckt) : Prop :=
  msg.flag = .normal ∧ msg.blockno = b ∧ msg.startPacket.toNat = r

instance (b r : ℕ) (msg : DataPckt) : Decidable (IsRow b r msg) :=
  inferInstanceAs (Decidable (_ ∧ _))

/-- How often a job is still going to push the row. -/
def Task.uses (b r : ℕ) (t : Task) : ℕ :=
  match t.stage with
  | .pushing left => left.countP (IsRow b r ·)
  | _ =>
    if t.job.codingWnd = 0 ∧ t.job.blockno = b ∧ t.job.start ≤ r ∧
      (r : ℤ) < t.job.start + t.job.dofRequest then 1 else 0

@[simp] theorem Task.uses_age (b r k : ℕ) (t : Task) : (t.age k).uses b r = t.uses b r := by
  simp [Task.uses]

def Slots.uses (x : Slots) (b r : ℕ) : ℕ :=
  x.pushed.countP (IsRow b r ·) + (x.tasks.map (Task.uses b r)).sum

/-- Each row is used once, and only rows that there are. -/
def OnceInv (x : Slots) : Prop :=
  ∀ b r, x.uses b r ≤ if r < (x.filled b).length then 1 else 0

/-! ## The packets of one job -/

theorem countP_rowPacket_le {rows : List Payload} (hlen : rows.length ≤ blockSize)
    (b r start n : ℕ) (hend : start + n ≤ rows.length ∨ n = 0) :
    ((List.range' start n).map (rowPacket rows b)).countP (IsRow b r ·) ≤
      if start ≤ r ∧ r < start + n then 1 else 0 := by
  have hcount : ((List.range' start n).map (rowPacket rows b)).countP (IsRow b r ·) ≤
      (List.range' start n).count r := by
    rw [List.countP_map]
    apply List.countP_mono_left
    intro row hrow his
    obtain ⟨hge, hlt⟩ := List.mem_range'_1.mp hrow
    have hstart : (UInt8.ofNat row).toNat = r := (of_decide_eq_true his).2.2
    simp only [blockSize] at hlen
    rw [UInt8.toNat_ofNat', Nat.mod_eq_of_lt (by omega)] at hstart
    exact beq_iff_eq.mpr hstart
  rw [(List.nodup_range' (s := start) (n := n)).count] at hcount
  simpa [List.mem_range'_1] using hcount

/-- A job pushes the rows that it was created for, each of them once. -/
theorem JobPackets.uses_le {rows : List Payload} {job : CodingJob} {msgs : List DataPckt}
    (h : JobPackets rows job msgs) (hlen : rows.length ≤ blockSize) (b r : ℕ) :
    msgs.countP (IsRow b r ·) ≤
      if job.codingWnd = 0 ∧ job.blockno = b ∧ job.start ≤ r ∧
        (r : ℤ) < job.start + job.dofRequest then 1 else 0 := by
  obtain ⟨coded, rfl, -, hcoded⟩ := h.split
  have hnone : coded.countP (IsRow b r ·) = 0 := by
    apply List.countP_eq_zero.mpr
    intro msg hmsg
    have hflag := (hcoded msg hmsg).flag_eq
    simp [IsRow, hflag]
  rw [List.countP_append, hnone, Nat.add_zero]
  by_cases hwnd : job.codingWnd = 0
  · rw [uncodedPackets, if_pos hwnd]
    by_cases hb : job.blockno = b
    · subst hb
      have hmin : min (job.start + job.dofRequest) rows.length ≤ (rows.length : ℤ) :=
        min_le_right _ _
      have hmin' : min (job.start + job.dofRequest) rows.length ≤ job.start + job.dofRequest :=
        min_le_left _ _
      refine (countP_rowPacket_le hlen _ _ _ _ (by omega)).trans ?_
      split_ifs with hin hreq
      · exact le_rfl
      · exact absurd ⟨hwnd, rfl, hin.1, by omega⟩ hreq
      · exact Nat.zero_le _
      · exact le_rfl
    · refine (Nat.le_of_eq (List.countP_eq_zero.mpr fun msg hmsg => ?_)).trans (Nat.zero_le _)
      obtain ⟨row, -, rfl⟩ := List.mem_map.mp hmsg
      simp [IsRow, rowPacket, hb]
  · rw [uncodedPackets, if_neg hwnd]
    exact Nat.zero_le _

/-! ## One step -/

variable {cap : ℕ} {x x' : Slots}

/-- One job is replaced or removed, and what it pushes it no longer has. -/
theorem OnceInv.replace (h : OnceInv x) (new : List Task) (queue : ℕ → List DataPckt)
    (pushed : List DataPckt) {pre post : List Task} {t : Task}
    (htasks : x.tasks = pre ++ t :: post)
    (huses : ∀ b r, pushed.countP (IsRow b r ·) + (new.map (Task.uses b r)).sum ≤
      x.pushed.countP (IsRow b r ·) + t.uses b r) :
    OnceInv { x with queue := queue, tasks := pre ++ new ++ post, pushed := pushed } := by
  intro b r
  have hold := h b r
  have hle := huses b r
  simp only [Slots.uses, htasks, List.map_append, List.map_cons, List.sum_append,
    List.sum_cons] at hold ⊢
  omega

theorem OnceInv.work (h : OnceInv x) (hlen : ∀ b, (x.blocks (slot b)).length ≤ blockSize)
    (hstep : WorkStep cap x x') : OnceInv x' := by
  cases hstep with
  | skip htasks _ _ | giveUp htasks _ _ | finish htasks _ =>
      simpa using h.replace [] x.queue x.pushed htasks (by simp)
  | @check pre post t htasks hstage _ =>
      have hsame : ∀ b r, Task.uses b r { t with stage := .checked } = t.uses b r := by
        intro b r
        simp only [Task.uses, hstage]
      simpa using h.replace [{ t with stage := .checked }] x.queue x.pushed htasks (by simp [hsame])
  | @run pre post t msgs htasks hstage _ hmsgs =>
      have hle : ∀ b r, Task.uses b r { t with stage := .pushing msgs } ≤ t.uses b r := by
        intro b r
        have huses := hmsgs.uses_le (hlen t.job.blockno) b r
        simpa only [Task.uses, hstage] using huses
      simpa using h.replace [{ t with stage := .pushing msgs }] x.queue x.pushed htasks
        (by simpa using hle)
  | @push pre post t msg left htasks hstage _ =>
      have hmove : ∀ b r, (x.pushed ++ [msg]).countP (IsRow b r ·) +
          Task.uses b r { t with stage := .pushing left } ≤
          x.pushed.countP (IsRow b r ·) + t.uses b r := by
        intro b r
        simp only [Task.uses, hstage, List.countP_append, List.countP_cons, List.countP_nil]
        omega
      simpa using h.replace [{ t with stage := .pushing left }]
        (update x.queue t.slot (x.queue t.slot ++ [msg])) (x.pushed ++ [msg]) htasks
        (by simpa using hmove)

theorem OnceInv.fill (h : OnceInv x) {b : ℕ} {added : List Payload}
    (hrows : x.blocks (slot b) = x.filled b) : OnceInv (x.fill b added) := by
  intro b' r
  have hold := h b' r
  simp only [Slots.uses, Slots.fill, List.map_append, List.map_singleton, List.sum_append,
    List.sum_singleton, Task.uses, hrows] at hold ⊢
  by_cases hb : b' = b
  · subst hb
    simp only [addRows, update_self, List.length_append] at hold ⊢
    split_ifs at hold ⊢ <;> omega
  · have hb' : b ≠ b' := Ne.symm hb
    simp only [addRows, update_of_ne hb, hb', false_and, and_false, if_false]
    exact hold

theorem OnceInv.step {e : SlotEvent} (h : OnceInv x) (hheld : x.Holds)
    (hlen : ∀ b, (x.blocks (slot b)).length ≤ blockSize) (hstep : SlotStep cap x e x') :
    OnceInv x' := by
  cases hstep with
  | stay => exact h
  | fill _ hcurr hlt => exact h.fill (hheld _ hcurr hlt)
  | @assign b' need _ _ _ =>
      intro b r
      have hsame : (x.assign b' need).uses b r = x.uses b r := by
        simp [Slots.uses, Slots.assign, Task.uses, maxCodingWnd]
      exact hsame.trans_le (h b r)
  | pop _ _ => exact h
  | decrement _ _ => exact h
  | free _ _ =>
      intro b r
      have hsame : x.free.uses b r = x.uses b r := by
        simp [Slots.uses, Slots.free, Function.comp_def]
      exact hsame.trans_le (h b r)
  | work hw => exact h.work hlen hw

end Ctcp
