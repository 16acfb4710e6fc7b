import Ctcp.Verification.Decoder.Soundness
import Mathlib.LinearAlgebra.FiniteDimensional.Lemmas

/-! # Back substitution -/

namespace Ctcp

open Function Submodule

variable {blk blk' : CodedBlock} {p : ℕ → Payload}

/-- The payload of row `r`, if there is one. -/
def CodedBlock.contentVec (blk : CodedBlock) (r : ℕ) : Fin payloadSize → GF256 :=
  ((blk.content r).getD fun _ => 0).toVec

/-! ## Decoded rows -/

theorem BlockShape.rowVec_of_decoded (h : BlockShape blk) {r : Fin blockSize}
    (hr : blk.Decoded r) : blk.rowVec r = Pi.single r 1 := by
  funext j
  simp only [CodedBlock.rowVec, place]
  by_cases hj : j = r
  · subst hj
    simp [h.rowLen_pos j j.2 hr.1, h.lead j j.2 hr.1, GF256.mk_one]
  · rw [Pi.single_eq_of_ne hj]
    by_cases hle : (r : ℕ) ≤ j
    · rw [if_pos hle]
      have hne : (r : ℕ) ≠ j := fun he => hj (Fin.ext he.symm)
      by_cases hlen : (j : ℕ) - r < blk.rowLen r
      · rw [if_pos hlen, hr.2 _ hlen (by omega), GF256.mk_zero]
      · rw [if_neg hlen, GF256.mk_zero]
    · rw [if_neg hle]

theorem combine_single (p : ℕ → Payload) (r : Fin blockSize) :
    combine p (Pi.single r 1) = (p r).toVec := by
  rw [combine, Fintype.linearCombination_apply_single, one_smul]

/-- A decoded row of a sound block is the source row. -/
theorem BlockSound.content_of_decoded (h : BlockSound p blk) {r : ℕ} (hr : blk.Decoded r)
    (hlt : r < blockSize) : blk.content r = some (p r) := by
  obtain ⟨content, hcontent⟩ := Option.isSome_iff_exists.mp (h.held r hlt hr.1)
  have hvec := h.content_eq r hlt hr.1 content hcontent
  have hrow := h.toBlockShape.rowVec_of_decoded (r := ⟨r, hlt⟩) hr
  rw [show blk.rowVec r = Pi.single ⟨r, hlt⟩ 1 from hrow, combine_single] at hvec
  rw [hcontent, Payload.toVec_inj.mp hvec]

/-- The combination of a row, one term for each stored coefficient. -/
theorem BlockShape.combine_rowVec (h : BlockShape blk) {r : ℕ} (hlt : r < blockSize)
    (hocc : blk.Occupied r) (p : ℕ → Payload) :
    combine p (blk.rowVec r) =
      ∑ k ∈ Finset.range (blk.rowLen r), (⟨blk.rows r k⟩ : GF256) • (p (r + k)).toVec := by
  rw [CodedBlock.rowVec, combine_place p (h.rowLen_le r hlt hocc)
    fun k hk => if_neg (Nat.not_lt.mpr hk)]
  exact Finset.sum_congr rfl fun k hk => by rw [if_pos (Finset.mem_range.mp hk)]

/-! ## One row -/

/-- The effect of `unwrap` on a row: it becomes a source row by itself. -/
def solveRow (blk : CodedBlock) (row : ℕ) (dst : Payload) : CodedBlock :=
  { blk with
    content := update blk.content row (some dst)
    rowLen := update blk.rowLen row 1 }

/-- The inner loop subtracts the rows that the coefficients name. -/
theorem unwrapOffsets_spec {row n offset : ℕ} {dst : Payload} (hpos : 1 ≤ offset)
    (hdst : blk.content row = some dst)
    (hheld : ∀ k < offset + n, offset ≤ k → blk.rows row k ≠ 0 →
      row + k < blockSize ∧ (blk.content (row + k)).isSome) :
    ∃ dst', unwrapOffsets row n offset blk =
        some { blk with content := update blk.content row (some dst') } ∧
      dst'.toVec = dst.toVec - ∑ k ∈ Finset.Ico offset (offset + n),
        (⟨blk.rows row k⟩ : GF256) • blk.contentVec (row + k) := by
  induction n generalizing offset blk dst with
  | zero =>
      refine ⟨dst, ?_, by simp⟩
      rw [unwrapOffsets, ← hdst, update_eq_self]
  | succ n ih =>
      rw [Finset.sum_eq_sum_Ico_succ_bot (by omega)]
      by_cases hzero : blk.rows row offset = 0
      · obtain ⟨dst', heq, hvec⟩ := @ih blk (offset + 1) _ (by omega) hdst
          fun k hk hle => hheld k (by omega) (by omega)
        refine ⟨dst', ?_, ?_⟩
        · simpa [unwrapOffsets, unwrapOffset, hzero] using heq
        · rw [hvec, hzero, GF256.mk_zero, zero_smul, zero_add, Nat.add_right_comm,
            Nat.add_assoc]
      · obtain ⟨hlt, hsome⟩ := hheld offset (by omega) le_rfl hzero
        obtain ⟨src, hsrc⟩ := Option.isSome_iff_exists.mp hsome
        let first := subtractPayload src (blk.rows row offset) dst
        let blk₁ : CodedBlock := { blk with content := update blk.content row (some first) }
        have hother : ∀ k, 1 ≤ k → blk₁.content (row + k) = blk.content (row + k) := by
          intro k hk
          exact update_of_ne (by omega) _ _
        have hfirst : unwrapOffset blk row offset = some blk₁ := by
          simp only [unwrapOffset, if_neg hzero, if_neg (Nat.not_le.mpr hlt), hdst, hsrc]
          rfl
        obtain ⟨dst', heq, hvec⟩ := @ih blk₁ (offset + 1) _ (by omega)
          (update_self _ _ _) fun k hk hle => by
            rw [hother k (by omega)]
            exact hheld k (by omega) (by omega)
        refine ⟨dst', ?_, ?_⟩
        · rw [unwrapOffsets, hfirst, Option.bind_some, heq]
          simp [blk₁, update_idem]
        · have hsum : ∑ k ∈ Finset.Ico (offset + 1) (offset + 1 + n),
              (⟨blk₁.rows row k⟩ : GF256) • blk₁.contentVec (row + k) =
              ∑ k ∈ Finset.Ico (offset + 1) (offset + (n + 1)),
                (⟨blk.rows row k⟩ : GF256) • blk.contentVec (row + k) := by
            rw [Nat.add_right_comm, Nat.add_assoc]
            refine Finset.sum_congr rfl fun k hk => ?_
            rw [CodedBlock.contentVec, hother k (by have := Finset.mem_Ico.mp hk; omega)]
            rfl
          rw [hvec, hsum, toVec_subtractPayload _ _ hzero, sub_sub]
          simp only [CodedBlock.contentVec, hsrc, Option.getD_some]

theorem decoded_solveRow {row r : ℕ} {dst : Payload}
    (h : r = row ∧ blk.Occupied row ∨ r ≠ row ∧ blk.Decoded r) :
    (solveRow blk row dst).Decoded r := by
  rcases h with ⟨rfl, hocc⟩ | ⟨hne, hdec⟩
  · refine ⟨hocc, fun i hi hpos => ?_⟩
    simp only [solveRow, update_self] at hi
    omega
  · refine ⟨hdec.1, fun i hi hpos => hdec.2 i ?_ hpos⟩
    simpa only [solveRow, update_of_ne hne] using hi

theorem BlockShape.solveRow (h : BlockShape blk) {row : ℕ} (hocc : blk.Occupied row)
    (dst : Payload) : BlockShape (solveRow blk row dst) where
  len_eq := h.len_eq
  lead := h.lead
  rowLen_pos r hr hr' := by
    by_cases he : r = row
    · simp [Ctcp.solveRow, he]
    · simpa [Ctcp.solveRow, he] using h.rowLen_pos r hr hr'
  rowLen_le r hr hr' := by
    by_cases he : r = row
    · simpa [Ctcp.solveRow, he] using he ▸ hr
    · simpa [Ctcp.solveRow, he] using h.rowLen_le r hr hr'
  support r hr hr' k hk hne := by
    by_cases he : r = row
    · have hk' : k = 0 := by simpa [Ctcp.solveRow, he] using hk
      subst hk'
      exact h.support r hr hr' 0 (h.rowLen_pos r hr hr') hne
    · exact h.support r hr hr' k (by simpa [Ctcp.solveRow, he] using hk) hne
  held r hr hr' := by
    by_cases he : r = row
    · simp [Ctcp.solveRow, he]
    · simpa [Ctcp.solveRow, he] using h.held r hr hr'
  dofs_eq := h.dofs_eq
  index_le := h.index_le
  pushed_le := h.pushed_le
  pushed r hr := by
    refine decoded_solveRow ?_
    by_cases he : r = row
    · exact .inl ⟨he, hocc⟩
    · exact .inr ⟨he, h.pushed r hr⟩

/-- A row turns into the source row when the rows that it names are source rows. -/
theorem unwrapRow_eq {row : ℕ} {dst : Payload} (hlt : row < blockSize)
    (hdst : blk.content row = some dst)
    (hvec : dst.toVec = (p row).toVec + ∑ k ∈ Finset.Ico 1 (blk.rowLen row),
      (⟨blk.rows row k⟩ : GF256) • (p (row + k)).toVec)
    (hnamed : ∀ k < blk.rowLen row, 1 ≤ k → blk.rows row k ≠ 0 →
      row + k < blockSize ∧ blk.content (row + k) = some (p (row + k))) :
    unwrapRow blk row = some (solveRow blk row (p row)) := by
  obtain ⟨dst', heq, hvec'⟩ := unwrapOffsets_spec (n := blk.rowLen row - 1) le_rfl hdst
    fun k hk hle hne => by
      obtain ⟨hlt', hcontent⟩ := hnamed k (by omega) hle hne
      exact ⟨hlt', Option.isSome_iff_exists.mpr ⟨_, hcontent⟩⟩
  have hsum : ∑ k ∈ Finset.Ico 1 (1 + (blk.rowLen row - 1)),
        (⟨blk.rows row k⟩ : GF256) • blk.contentVec (row + k) =
      ∑ k ∈ Finset.Ico 1 (blk.rowLen row),
        (⟨blk.rows row k⟩ : GF256) • (p (row + k)).toVec := by
    have hend : Finset.Ico 1 (1 + (blk.rowLen row - 1)) = Finset.Ico 1 (blk.rowLen row) := by
      ext k
      simp only [Finset.mem_Ico]
      omega
    rw [hend]
    refine Finset.sum_congr rfl fun k hk => ?_
    obtain ⟨hk₁, hk₂⟩ := Finset.mem_Ico.mp hk
    by_cases hne : blk.rows row k = 0
    · rw [hne, GF256.mk_zero, zero_smul, zero_smul]
    · rw [CodedBlock.contentVec, (hnamed k hk₂ hk₁ hne).2, Option.getD_some]
  have hdst' : dst' = p row := by
    rw [← Payload.toVec_inj, hvec', hsum, hvec, add_sub_cancel_right]
  rw [unwrapRow, if_neg (Nat.not_le.mpr hlt), heq, hdst']
  rfl

/-- The content of a row of a sound block, its leading term apart. -/
theorem BlockSound.content_split (h : BlockSound p blk) {r : ℕ} (hlt : r < blockSize)
    (hocc : blk.Occupied r) {content : Payload} (hcontent : blk.content r = some content) :
    content.toVec = (p r).toVec + ∑ k ∈ Finset.Ico 1 (blk.rowLen r),
      (⟨blk.rows r k⟩ : GF256) • (p (r + k)).toVec := by
  rw [h.content_eq r hlt hocc content hcontent, h.combine_rowVec hlt hocc,
    Finset.range_eq_Ico, Finset.sum_eq_sum_Ico_succ_bot (h.rowLen_pos r hlt hocc),
    h.lead r hlt hocc, GF256.mk_one, one_smul, Nat.add_zero]

/-- A row whose later rows are decoded gets decoded, and a sound block stays sound. -/
theorem unwrapRow_spec (h : BlockShape blk) {row : ℕ} (hrow : row < blk.maxPacketIndex)
    (hocc : blk.Occupied row)
    (hlater : ∀ r, row < r → r < blk.maxPacketIndex → blk.Decoded r) :
    ∃ dst, unwrapRow blk row = some (solveRow blk row dst) ∧
      BlockShape (solveRow blk row dst) ∧
      ∀ p, BlockSound p blk → BlockSound p (solveRow blk row dst) := by
  have hlt : row < blockSize := hrow.trans_le h.index_le
  obtain ⟨dst, hdst⟩ := Option.isSome_iff_exists.mp (h.held row hlt hocc)
  have hnamed : ∀ k < blk.rowLen row, 1 ≤ k → blk.rows row k ≠ 0 →
      row + k < blockSize ∧ blk.Decoded (row + k) := by
    intro k hk hk' hne
    have hlt' := h.support row hlt hocc k hk hne
    exact ⟨hlt'.trans_le h.index_le, hlater _ (by omega) hlt'⟩
  obtain ⟨dst', heq, -⟩ := unwrapOffsets_spec (n := blk.rowLen row - 1) le_rfl hdst
    fun k hk hle hne => by
      obtain ⟨hlt', hdec⟩ := hnamed k (by omega) hle hne
      exact ⟨hlt', h.held _ hlt' hdec.1⟩
  have hunwrap : unwrapRow blk row = some (solveRow blk row dst') := by
    rw [unwrapRow, if_neg (Nat.not_le.mpr hlt), heq]
    rfl
  refine ⟨dst', hunwrap, h.solveRow hocc dst', fun p hp => ⟨h.solveRow hocc dst', ?_⟩⟩
  intro r hr hr' content hcontent
  by_cases he : r = row
  · subst he
    have hsolved := unwrapRow_eq hlt hdst (hp.content_split hlt hocc hdst) fun k hk hk' hne =>
      ⟨(hnamed k hk hk' hne).1,
        hp.content_of_decoded (hnamed k hk hk' hne).2 (hnamed k hk hk' hne).1⟩
    have hdec : (solveRow blk r dst').Decoded r := decoded_solveRow (.inl ⟨rfl, hocc⟩)
    have hsingle := (h.solveRow hocc dst').rowVec_of_decoded (r := ⟨r, hlt⟩) hdec
    rw [Option.some.inj (hunwrap.symm.trans hsolved)] at hcontent
    obtain rfl : p r = content := by simpa [solveRow] using hcontent
    rw [show (solveRow blk r dst').rowVec r = Pi.single ⟨r, hlt⟩ 1 from hsingle, combine_single]
  · have hvec' : (solveRow blk row dst').rowVec r = blk.rowVec r := by
      simp only [CodedBlock.rowVec, solveRow, update_of_ne he]
    rw [hvec']
    exact hp.content_eq r hr hr' content (by simpa [solveRow, he] using hcontent)

/-! ## All rows -/

/-- A block after `unwrap`: all its rows from `low` on are source rows. -/
structure Unwrapped (low : ℕ) (blk blk' : CodedBlock) : Prop where
  shape : BlockShape blk'
  rows_eq : blk'.rows = blk.rows
  dofs_eq : blk'.dofs = blk.dofs
  pushed_eq : blk'.dofsPushed = blk.dofsPushed
  index_eq : blk'.maxPacketIndex = blk.maxPacketIndex
  decoded : ∀ r, low ≤ r → r < blk.maxPacketIndex → blk'.Decoded r
  sound : ∀ p, BlockSound p blk → BlockSound p blk'

theorem unwrapRows_spec (low n : ℕ) (h : BlockShape blk) (hn : low + n ≤ blk.maxPacketIndex)
    (hall : ∀ r < blk.maxPacketIndex, blk.Occupied r)
    (hlater : ∀ r, low + n ≤ r → r < blk.maxPacketIndex → blk.Decoded r) :
    ∃ blk', unwrapRows low n blk = some blk' ∧ Unwrapped low blk blk' := by
  induction n generalizing blk with
  | zero => exact ⟨blk, rfl, ⟨h, rfl, rfl, rfl, rfl, hlater, fun _ hp => hp⟩⟩
  | succ n ih =>
      have hrow : low + n < blk.maxPacketIndex := hn
      obtain ⟨dst, heq, hshape, hsound⟩ := unwrapRow_spec h hrow (hall _ hrow)
        fun r hr hr' => hlater r (by omega) hr'
      obtain ⟨blk', hrest, hun⟩ := ih hshape hrow.le hall fun r hr hr' => by
        refine decoded_solveRow ?_
        by_cases he : r = low + n
        · exact .inl ⟨he, hall _ hrow⟩
        · exact .inr ⟨he, hlater r (by omega) hr'⟩
      refine ⟨blk', by rw [unwrapRows, heq, Option.bind_some, hrest], ?_⟩
      exact ⟨hun.shape, hun.rows_eq, hun.dofs_eq, hun.pushed_eq, hun.index_eq, hun.decoded,
        fun p hp => hun.sound p (hsound p hp)⟩

/-- A block with a row for every packet index is unwrapped without a fault. -/
theorem unwrap_spec (h : BlockShape blk) (hd : blk.dofs = blk.maxPacketIndex) :
    ∃ blk', unwrap blk = some blk' ∧ Unwrapped 0 blk blk' := by
  have hall : ∀ r < blk.maxPacketIndex, blk.Occupied r := fun r hr => h.occupied_of_dofs_eq hd hr
  by_cases hn : blk.dofsPushed + 1 ≤ blk.maxPacketIndex
  · obtain ⟨blk', heq, hun⟩ := unwrapRows_spec blk.dofsPushed
      (blk.maxPacketIndex - 1 - blk.dofsPushed) h (by omega) hall fun r hr hr' => by
        -- the last row has nothing behind its leading entry
        refine ⟨hall r hr', fun i hi hpos => ?_⟩
        by_contra hne
        have := h.support r (hr'.trans_le h.index_le) (hall r hr') i hi hne
        omega
    refine ⟨blk', heq, ?_⟩
    refine ⟨hun.shape, hun.rows_eq, hun.dofs_eq, hun.pushed_eq, hun.index_eq, ?_, hun.sound⟩
    intro r _ hr
    by_cases hle : blk.dofsPushed ≤ r
    · exact hun.decoded r hle hr
    · exact hun.shape.pushed r (by rw [hun.pushed_eq]; omega)
  · refine ⟨blk, ?_, h, rfl, rfl, rfl, rfl, fun r _ hr => h.pushed r (by omega), fun _ hp => hp⟩
    rw [unwrap, show blk.maxPacketIndex - 1 - blk.dofsPushed = 0 by omega]
    rfl

/-- Back substitution does not change what the block spans. -/
theorem Unwrapped.span_eq (h : BlockShape blk) (hun : Unwrapped 0 blk blk') :
    blk'.span = blk.span := by
  refine (eq_of_le_of_finrank_eq ?_ ?_).symm
  · refine span_le.mpr ?_
    rintro _ ⟨r, hr, rfl⟩
    have hocc := CodedBlock.mem_occupied.mp hr
    change blk.rowVec r ∈ blk'.span
    rw [pi_eq_sum_univ' (blk.rowVec r)]
    refine sum_mem fun j _ => ?_
    by_cases hj : j < blk.maxPacketIndex
    · have hdec := hun.decoded j (Nat.zero_le _) hj
      have hmem : blk'.rowVec j ∈ blk'.span :=
        mem_rowSpan (v := fun r : Fin blockSize => blk'.rowVec r)
          (CodedBlock.mem_occupied.mpr hdec.1)
      rw [hun.shape.rowVec_of_decoded hdec] at hmem
      exact smul_mem _ _ (by simpa [Pi.single_apply] using hmem)
    · have hzero : blk.rowVec r j = 0 := by
        simp only [CodedBlock.rowVec, place]
        split
        · split
          · by_contra hne
            have := h.support r r.2 hocc _ ‹_› (GF256.mk_ne_zero.mp hne)
            omega
          · rfl
        · rfl
      rw [hzero, zero_smul]
      exact zero_mem _
  · rw [h.finrank_span, hun.shape.finrank_span, hun.dofs_eq]

end Ctcp
