import Ctcp.Verification.Buffers.Queue

/-! # `qbuffer_t` is a double-ended queue -/

namespace Ctcp

open Function

variable {buff buff' : QBuffer} {entry : Skb} {op : DequeOp Skb} {answer : Option Skb}
  {maxSize : ℕ} {ops : List (DequeOp Skb)} {answers : List (Option Skb)}

/-! ## Pushing to the front -/

theorem modulo_eq_emod {m : ℕ} (h : 0 < m) (n : ℤ) : (modulo n m : ℤ) = n % m := by
  have hpos : (0 : ℤ) < m := by omega
  have hlow := Int.lt_tmod_of_pos n hpos
  have hmod : n.tmod m % m = n % m := by rw [Int.tmod_def, Int.sub_mul_emod_self_left]
  rw [modulo, Int.tmod_eq_emod_of_nonneg (by omega), Int.add_emod_right, hmod,
    Int.toNat_of_nonneg (Int.emod_nonneg _ (by omega))]

/-- One step down from position `tail`, around the end of the array. -/
theorem modulo_pred {tail m : ℕ} (h : tail < m) :
    modulo ((tail : ℤ) - 1) m = if tail = 0 then m - 1 else tail - 1 := by
  have hmod := modulo_eq_emod (show 0 < m by omega) ((tail : ℤ) - 1)
  split
  case isTrue hzero =>
    rw [← Int.add_emod_right, Int.emod_eq_of_lt (by omega) (by omega)] at hmod
    omega
  case isFalse hpos =>
    rw [Int.emod_eq_of_lt (by omega) (by omega)] at hmod
    omega

theorem modulo_pred_lt {tail m : ℕ} (h : tail < m) : modulo ((tail : ℤ) - 1) m < m := by
  rw [modulo_pred h]
  split <;> omega

theorem modulo_pred_add {tail m : ℕ} (h : tail < m) (k : ℕ) :
    (modulo ((tail : ℤ) - 1) m + (k + 1)) % m = (tail + k) % m := by
  rw [modulo_pred h]
  split
  case isTrue hzero =>
    rw [hzero, Nat.zero_add, show m - 1 + (k + 1) = k + m by omega, Nat.add_mod_right]
  case isFalse hpos =>
    rw [show tail - 1 + (k + 1) = tail + k by omega]

theorem QBuffer.Inv.qPushFront (h : buff.Inv) (hroom : buff.size < buff.maxSize) :
    (qPushFront buff entry).Inv := by
  refine ⟨modulo_pred_lt h.tail_lt, hroom, ?_⟩
  change buff.head = (modulo ((buff.tail : ℤ) - 1) buff.maxSize + (buff.size + 1)) % buff.maxSize
  rw [modulo_pred_add h.tail_lt, h.head_eq]

theorem contents_qPushFront (h : buff.Inv) (hroom : buff.size < buff.maxSize) :
    (qPushFront buff entry).contents = entry :: buff.contents := by
  have htail := h.tail_lt
  have hfront : (modulo ((buff.tail : ℤ) - 1) buff.maxSize + 1) % buff.maxSize = buff.tail := by
    rw [modulo_pred_add htail 0, Nat.add_zero, Nat.mod_eq_of_lt htail]
  apply ringContents_cons
  · change (modulo ((buff.tail : ℤ) - 1) buff.maxSize + 1 + 1) % _ = _
    exact modulo_pred_add htail 1
  · change update buff.q buff.tail entry
      ((modulo ((buff.tail : ℤ) - 1) buff.maxSize + 1) % buff.maxSize) = entry
    rw [hfront, update_self]
  · intro i hi
    change update buff.q buff.tail entry ((buff.tail + 1 + i) % buff.maxSize) = _
    apply update_of_ne
    rw [mod_eq_ite (by omega)]
    split <;> omega

/-! ## Completed calls -/

theorem qbuffer_pushBack : qbuffer buff (.pushBack entry) = some (answer, buff') ↔
    buff.size ≠ buff.maxSize ∧ answer = none ∧ buff' = qPushBack buff entry := by
  simp [qbuffer, eq_comm]

theorem qbuffer_pushFront : qbuffer buff (.pushFront entry) = some (answer, buff') ↔
    buff.size ≠ buff.maxSize ∧ answer = none ∧ buff' = qPushFront buff entry := by
  simp [qbuffer, eq_comm]

theorem qbuffer_pop : qbuffer buff .pop = some (answer, buff') ↔
    buff.size ≠ 0 ∧ answer = some (qPop buff).1 ∧ buff' = (qPop buff).2 := by
  simp [qbuffer, eq_comm]

theorem maxSize_qbuffer (hcall : qbuffer buff op = some (answer, buff')) :
    buff'.maxSize = buff.maxSize := by
  cases op with
  | pushBack entry =>
      obtain ⟨-, -, rfl⟩ := qbuffer_pushBack.mp hcall
      rfl
  | pushFront entry =>
      obtain ⟨-, -, rfl⟩ := qbuffer_pushFront.mp hcall
      rfl
  | pop =>
      obtain ⟨-, -, rfl⟩ := qbuffer_pop.mp hcall
      rfl

theorem QBuffer.Inv.call (h : buff.Inv) (hcall : qbuffer buff op = some (answer, buff')) :
    buff'.Inv := by
  have hsize := h.size_le
  cases op with
  | pushBack entry =>
      obtain ⟨hfull, -, rfl⟩ := qbuffer_pushBack.mp hcall
      exact h.qPushBack (by omega)
  | pushFront entry =>
      obtain ⟨hfull, -, rfl⟩ := qbuffer_pushFront.mp hcall
      exact h.qPushFront (by omega)
  | pop =>
      obtain ⟨hempty, -, rfl⟩ := qbuffer_pop.mp hcall
      exact h.qPop (by omega)

/-- A completed call does to the contents what the call of a bounded queue does. -/
theorem qbuffer_eq_boundedDeque (h : buff.Inv) (op : DequeOp Skb) :
    (qbuffer buff op).map (Prod.map id QBuffer.contents) =
      boundedDeque buff.maxSize buff.contents op := by
  have hsize := h.size_le
  cases op with
  | pushBack entry =>
      by_cases hfull : buff.size = buff.maxSize
      · simp [qbuffer, boundedDeque, hfull]
      · have hroom : buff.size < buff.maxSize := by omega
        simp [qbuffer, boundedDeque, hfull, hroom, contents_qPushBack h hroom]
  | pushFront entry =>
      by_cases hfull : buff.size = buff.maxSize
      · simp [qbuffer, boundedDeque, hfull]
      · have hroom : buff.size < buff.maxSize := by omega
        simp [qbuffer, boundedDeque, hfull, hroom, contents_qPushFront h hroom]
  | pop =>
      by_cases hempty : buff.size = 0
      · have hnil : buff.contents = [] := List.eq_nil_of_length_eq_zero (by simpa using hempty)
        simp [qbuffer, boundedDeque, hempty, hnil]
      · have hcons := contents_qPop (show 0 < buff.size by omega)
        simp [qbuffer, boundedDeque, hempty, hcons]

/-- The slots of the entries that a queue holds are not written. -/
theorem qbuffer_keeps (h : buff.Inv) (hcall : qbuffer buff op = some (answer, buff')) {i : ℕ}
    (hi : i < buff.size) :
    buff'.q ((buff.tail + 1 + i) % buff.maxSize) = buff.q ((buff.tail + 1 + i) % buff.maxSize) := by
  have hsize := h.size_le
  have htail := h.tail_lt
  have hhead := h.head_eq
  cases op with
  | pushBack entry =>
      obtain ⟨hfull, -, rfl⟩ := qbuffer_pushBack.mp hcall
      apply update_of_ne
      rw [hhead, Nat.mod_add_mod, mod_eq_ite (by omega), mod_eq_ite (by omega)]
      split <;> split <;> omega
  | pushFront entry =>
      obtain ⟨hfull, -, rfl⟩ := qbuffer_pushFront.mp hcall
      apply update_of_ne
      rw [mod_eq_ite (by omega)]
      split <;> omega
  | pop =>
      obtain ⟨-, -, rfl⟩ := qbuffer_pop.mp hcall
      rfl

/-! ## Runs -/

/-- What holds of a queue that was made for `maxSize` entries. -/
def QBuffer.Sound (maxSize : ℕ) (buff : QBuffer) : Prop := buff.Inv ∧ buff.maxSize = maxSize

theorem sound_qInit (h : 0 < maxSize) : (qInit maxSize).Sound maxSize := ⟨inv_qInit h, rfl⟩

theorem QBuffer.Sound.call (h : buff.Sound maxSize)
    (hcall : qbuffer buff op = some (answer, buff')) : buff'.Sound maxSize :=
  ⟨h.1.call hcall, (maxSize_qbuffer hcall).trans h.2⟩

theorem QBuffer.Sound.run (h : buff.Sound maxSize)
    (hrun : qbuffer.run buff ops = some (answers, buff')) : buff'.Sound maxSize :=
  Object.run_invariant (fun _ _ _ _ hs hcall => hs.call hcall) h hrun

theorem qbuffer_run_eq_boundedDeque (h : buff.Sound maxSize) (ops : List (DequeOp Skb)) :
    (qbuffer.run buff ops).map (Prod.map id QBuffer.contents) =
      (boundedDeque maxSize).run buff.contents ops := by
  apply Object.run_refines (fun _ _ _ _ hs hcall => QBuffer.Sound.call hs hcall) ?_ h
  rintro s op ⟨hs, rfl⟩
  exact qbuffer_eq_boundedDeque hs op

/-- What is true of a queue after a run of completed calls. -/
structure QueueRefines (maxSize : ℕ) (ops : List (DequeOp Skb)) (answers : List (Option Skb))
    (buff : QBuffer) : Prop where
  size_le : buff.size ≤ buff.maxSize
  tail_lt : buff.tail < buff.maxSize
  head_eq : buff.head = (buff.tail + buff.size) % buff.maxSize
  /-- Nothing is lost, and nothing is returned twice. -/
  conserves : (ops.map DequeOp.pushed).sum = (answers.map poppedOf).sum + buff.contents
  /-- The next call does what the queue of the contents does. -/
  next : ∀ op, (qbuffer buff op).map (Prod.map id QBuffer.contents) =
    boundedDeque maxSize buff.contents op
  /-- It does not write where an entry is stored. -/
  keeps : ∀ op answer buff', qbuffer buff op = some (answer, buff') → ∀ i < buff.size,
    buff'.q ((buff.tail + 1 + i) % buff.maxSize) = buff.q ((buff.tail + 1 + i) % buff.maxSize)

/-- A `qbuffer_t` is a bounded double-ended queue, over every sequence of completed calls:
a call completes exactly when it does there, and returns the same. -/
theorem qbuffer_refines_deque (h : 1 ≤ maxSize) (ops : List (DequeOp Skb)) :
    (qbuffer.run (qInit maxSize) ops).map (Prod.map id QBuffer.contents) =
        (boundedDeque maxSize).run [] ops ∧
      ∀ answers buff, qbuffer.run (qInit maxSize) ops = some (answers, buff) →
        QueueRefines maxSize ops answers buff := by
  have hstart := sound_qInit h
  have hspec := qbuffer_run_eq_boundedDeque hstart ops
  refine ⟨hspec, ?_⟩
  intro answers buff hrun
  have hsound := hstart.run hrun
  constructor
  case size_le => exact hsound.1.size_le
  case tail_lt => exact hsound.1.tail_lt
  case head_eq => exact hsound.1.head_eq
  case conserves =>
    rw [hrun] at hspec
    simpa using boundedDeque_run_conserves hspec.symm
  case next =>
    intro op
    rw [qbuffer_eq_boundedDeque hsound.1, hsound.2]
  case keeps => exact fun op answer buff' hcall i hi => qbuffer_keeps hsound.1 hcall hi

theorem qbuffer_refines_deque_two :
    (qbuffer.run (qInit 2) [.pushBack 7, .pushFront 8, .pop]).map (Prod.map id QBuffer.contents) =
      some ([none, none, some 8], [7]) :=
  (qbuffer_refines_deque (by decide) _).1

end Ctcp
