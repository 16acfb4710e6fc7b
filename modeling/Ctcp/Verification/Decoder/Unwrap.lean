import Ctcp.Verification.Decoder.Insertion

/-! # `unwrap` recovers the source rows, whatever the rows before them hold -/

namespace Ctcp

open Function

variable {blk : CodedBlock} {p : ℕ → Payload} {low n r : ℕ}

/-- The rows between `dofs_pushed` and `max_packet_index` are normalised, name no row
beyond `max_packet_index` and hold the combinations that their coefficients say. -/
structure Solvable (p : ℕ → Payload) (blk : CodedBlock) : Prop where
  index_le : blk.maxPacketIndex ≤ blockSize
  pushed_le : blk.dofsPushed ≤ blk.maxPacketIndex
  occupied : ∀ r, blk.dofsPushed ≤ r → r < blk.maxPacketIndex → blk.Occupied r
  lead : ∀ r, blk.dofsPushed ≤ r → r < blk.maxPacketIndex → blk.rows r 0 = 1
  support : ∀ r, blk.dofsPushed ≤ r → r < blk.maxPacketIndex →
    ∀ k < blk.rowLen r, blk.rows r k ≠ 0 → r + k < blk.maxPacketIndex
  content_eq : ∀ r, blk.dofsPushed ≤ r → r < blk.maxPacketIndex →
    ∃ content, blk.content r = some content ∧ content.toVec =
      ∑ k ∈ Finset.range (blk.width r), (⟨blk.rows r k⟩ : GF256) • (p (r + k)).toVec

/-- The block with rows `low, …, low + n - 1` replaced by source rows. -/
def solveRows (p : ℕ → Payload) (low n : ℕ) (blk : CodedBlock) : CodedBlock :=
  { blk with
    content := fun r => if low ≤ r ∧ r < low + n then some (p r) else blk.content r
    rowLen := fun r => if low ≤ r ∧ r < low + n then 1 else blk.rowLen r }

theorem solveRows_zero : solveRows p low 0 blk = blk := by
  have hnone : ∀ r, ¬(low ≤ r ∧ r < low + 0) := fun r h => by omega
  simp only [solveRows, hnone, if_false]

theorem solveRows_succ :
    solveRows p low n (solveRow blk (low + n) (p (low + n))) = solveRows p low (n + 1) blk := by
  have hiff : ∀ r, r ≠ low + n → (low ≤ r ∧ r < low + (n + 1) ↔ low ≤ r ∧ r < low + n) :=
    fun r hr => by omega
  have hcontent : (solveRows p low n (solveRow blk (low + n) (p (low + n)))).content =
      (solveRows p low (n + 1) blk).content := by
    funext r
    by_cases hr : r = low + n
    · simp [solveRows, solveRow, hr]
    · simp [solveRows, solveRow, hr, hiff r hr]
  have hlen : (solveRows p low n (solveRow blk (low + n) (p (low + n)))).rowLen =
      (solveRows p low (n + 1) blk).rowLen := by
    funext r
    by_cases hr : r = low + n
    · simp [solveRows, solveRow, hr]
    · simp [solveRows, solveRow, hr, hiff r hr]
  simp only [solveRows, solveRow] at hcontent hlen ⊢
  rw [hcontent, hlen]

theorem solveRows_solveRows :
    solveRows p low n (solveRows p low n blk) = solveRows p low n blk := by
  simp only [solveRows]
  congr 1 <;> funext r <;> split <;> rfl

/-! ## One row -/

/-- What `unwrap` needs of row `r`: its leading term is the source row, and the other
rows that it names are source rows below `m`. -/
structure RowSolvable (p : ℕ → Payload) (blk : CodedBlock) (m r : ℕ) : Prop where
  support : ∀ k < blk.rowLen r, blk.rows r k ≠ 0 → r + k < m
  content_eq : ∃ content, blk.content r = some content ∧
    content.toVec = (p r).toVec + ∑ k ∈ Finset.Ico 1 (blk.rowLen r),
      (⟨blk.rows r k⟩ : GF256) • (p (r + k)).toVec

theorem Solvable.rowSolvable (h : Solvable p blk) (hlow : blk.dofsPushed ≤ r)
    (hr : r < blk.maxPacketIndex) : RowSolvable p blk blk.maxPacketIndex r where
  support := h.support r hlow hr
  content_eq := by
    obtain ⟨content, hcontent, heq⟩ := h.content_eq r hlow hr
    refine ⟨content, hcontent, ?_⟩
    have hpos : 0 < blk.width r := Nat.le_max_left _ _
    have hend : Finset.Ico 1 (blk.width r) = Finset.Ico 1 (blk.rowLen r) := by
      ext k
      simp only [CodedBlock.width, Finset.mem_Ico]
      omega
    rw [heq, Finset.range_eq_Ico, Finset.sum_eq_sum_Ico_succ_bot hpos,
      h.lead r hlow hr, GF256.mk_one, one_smul, Nat.add_zero, Nat.zero_add, hend]

/-- The last row has nothing behind its leading entry. -/
theorem RowSolvable.content_of_last {m : ℕ} (h : RowSolvable p blk m r) (hr : m ≤ r + 1) :
    blk.content r = some (p r) := by
  obtain ⟨content, hcontent, heq⟩ := h.content_eq
  have hzero : ∑ k ∈ Finset.Ico 1 (blk.rowLen r),
      (⟨blk.rows r k⟩ : GF256) • (p (r + k)).toVec = 0 := by
    refine Finset.sum_eq_zero fun k hk => ?_
    obtain ⟨hk₁, hk₂⟩ := Finset.mem_Ico.mp hk
    have hrow : blk.rows r k = 0 := by
      by_contra hne
      have := h.support k hk₂ hne
      omega
    rw [hrow, GF256.mk_zero, zero_smul]
  rw [hzero, add_zero, Payload.toVec_inj] at heq
  rw [hcontent, heq]

/-! ## All rows -/

theorem unwrapRows_eq {m : ℕ} (hm : m ≤ blockSize) (hn : low + n ≤ m)
    (hrows : ∀ r, low ≤ r → r < low + n → RowSolvable p blk m r)
    (hlater : ∀ r, low + n ≤ r → r < m → blk.content r = some (p r)) :
    unwrapRows low n blk = some (solveRows p low n blk) := by
  induction n generalizing blk with
  | zero => rw [unwrapRows, solveRows_zero]
  | succ n ih =>
      have hrow := hrows (low + n) (Nat.le_add_right _ _) (Nat.lt_succ_self _)
      obtain ⟨dst, hdst, hvec⟩ := hrow.content_eq
      have hnamed : ∀ k < blk.rowLen (low + n), 1 ≤ k → blk.rows (low + n) k ≠ 0 →
          low + n + k < blockSize ∧ blk.content (low + n + k) = some (p (low + n + k)) := by
        intro k hk hpos hne
        have hlt := hrow.support k hk hne
        exact ⟨hlt.trans_le hm, hlater _ (by omega) hlt⟩
      rw [unwrapRows, unwrapRow_eq (by omega) hdst hvec hnamed, Option.bind_some, ih (by omega),
        solveRows_succ]
      · intro r hlow hr
        have hne : r ≠ low + n := hr.ne
        have hold := hrows r hlow (by omega)
        constructor
        · simpa [solveRow, hne] using hold.support
        · simpa [solveRow, hne] using hold.content_eq
      · intro r hge hr
        by_cases he : r = low + n
        · simp [solveRow, he]
        · simpa [solveRow, he] using hlater r (by omega) hr

/-- The rows that `unwrap` goes through. -/
def CodedBlock.rounds (blk : CodedBlock) : ℕ := blk.maxPacketIndex - 1 - blk.dofsPushed

theorem Solvable.unwrap_eq (h : Solvable p blk) :
    unwrap blk = some (solveRows p blk.dofsPushed blk.rounds blk) := by
  have hle := h.pushed_le
  by_cases hnone : blk.rounds = 0
  · change unwrapRows blk.dofsPushed blk.rounds blk = _
    rw [hnone, unwrapRows, solveRows_zero]
  · have hrounds : blk.dofsPushed + blk.rounds + 1 = blk.maxPacketIndex := by
      rw [CodedBlock.rounds] at hnone ⊢
      omega
    refine unwrapRows_eq h.index_le (by omega) (fun r hlow hr => ?_) fun r hge hr => ?_
    · exact h.rowSolvable hlow (by omega)
    · exact (h.rowSolvable (by omega) hr).content_of_last (by omega)

/-- A solved block is solvable again: its rows have only their leading entry left. -/
theorem Solvable.solveRows (h : Solvable p blk) :
    unwrap (solveRows p blk.dofsPushed blk.rounds blk) =
      some (solveRows p blk.dofsPushed blk.rounds blk) := by
  have hsolved : Solvable p (Ctcp.solveRows p blk.dofsPushed blk.rounds blk) := by
    constructor
    case index_le => exact h.index_le
    case pushed_le => exact h.pushed_le
    case occupied => exact h.occupied
    case lead => exact h.lead
    case support =>
      intro r hlow hr k hk hne
      by_cases hin : blk.dofsPushed ≤ r ∧ r < blk.dofsPushed + blk.rounds
      · have hk' : k < 1 := by simpa [Ctcp.solveRows, hin] using hk
        obtain rfl : k = 0 := Nat.lt_one_iff.mp hk'
        exact hr
      · exact h.support r hlow hr k (by simpa [Ctcp.solveRows, hin] using hk) hne
    case content_eq =>
      intro r hlow hr
      by_cases hin : blk.dofsPushed ≤ r ∧ r < blk.dofsPushed + blk.rounds
      · have hlead : blk.rows r 0 = 1 := h.lead r hlow hr
        refine ⟨p r, by simp [Ctcp.solveRows, hin], ?_⟩
        simp [Ctcp.solveRows, CodedBlock.width, hin, hlead, GF256.mk_one]
      · simpa [Ctcp.solveRows, CodedBlock.width, hin] using h.content_eq r hlow hr
  have heq := hsolved.unwrap_eq
  change unwrap _ = some (Ctcp.solveRows p blk.dofsPushed blk.rounds
    (Ctcp.solveRows p blk.dofsPushed blk.rounds blk)) at heq
  rwa [solveRows_solveRows] at heq

/-- A block after `unwrap`. -/
structure Solved (p : ℕ → Payload) (blk blk' : CodedBlock) : Prop where
  content_eq : ∀ r, blk.dofsPushed ≤ r → r < blk.maxPacketIndex → blk'.content r = some (p r)
  rowLen_eq : ∀ r, blk.dofsPushed ≤ r → r + 1 < blk.maxPacketIndex → blk'.rowLen r = 1
  outside : ∀ r, r < blk.dofsPushed ∨ blk.maxPacketIndex ≤ r →
    blk'.content r = blk.content r ∧ blk'.rowLen r = blk.rowLen r
  rows_eq : blk'.rows = blk.rows
  again : unwrap blk' = some blk'

theorem unwrap_solves (h : Solvable p blk) :
    ∃ blk', unwrap blk = some blk' ∧ Solved p blk blk' := by
  refine ⟨_, h.unwrap_eq, ?_⟩
  have hrounds : blk.rounds = blk.maxPacketIndex - 1 - blk.dofsPushed := rfl
  constructor
  case content_eq =>
    intro r hlow hr
    by_cases hlast : r + 1 < blk.maxPacketIndex
    · exact if_pos ⟨hlow, by omega⟩
    · rw [← (h.rowSolvable hlow hr).content_of_last (by omega)]
      exact if_neg (by omega)
  case rowLen_eq => exact fun r hlow hr => if_pos ⟨hlow, by omega⟩
  case outside => exact fun r hr => ⟨if_neg (by omega), if_neg (by omega)⟩
  case rows_eq => rfl
  case again => exact h.solveRows

/-- Two rows, the first of which names the second. -/
def twoRows : CodedBlock where
  dofs := 2
  len := blockSize
  rows r k := if k = 0 then 1 else if r = 0 ∧ k = 1 then 2 else 0
  rowLen r := 2 - r
  content r := some fun _ => if r = 0 then 7 else 1
  dofsPushed := 0
  maxPacketIndex := 2

theorem unwrap_solves_twoRows : ∃ blk', unwrap twoRows = some blk' ∧
    Solved (fun r _ => if r = 0 then 5 else 1) twoRows blk' := by
  refine unwrap_solves ?_
  constructor
  case index_le => decide
  case pushed_le => decide
  case occupied => exact fun r _ _ => by simp [CodedBlock.Occupied, emptyRow, twoRows]
  case lead => exact fun r _ _ => rfl
  case support =>
    intro r _ hr k hk _
    change r < 2 at hr
    change k < 2 - r at hk
    change r + k < 2
    omega
  case content_eq =>
    intro r _ hr
    change r < 2 at hr
    refine ⟨_, rfl, ?_⟩
    interval_cases r
    · have hbyte : (⟨7⟩ : GF256) = ⟨5⟩ + ⟨2⟩ * ⟨1⟩ := by decide
      funext i
      simpa [twoRows, CodedBlock.width, Finset.sum_range_succ, GF256.mk_one, Payload.toVec] using
        hbyte
    · simp [twoRows, CodedBlock.width, GF256.mk_one]

end Ctcp
