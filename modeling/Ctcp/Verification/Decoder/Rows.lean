import Ctcp.Library.Echelon
import Ctcp.Model.CodedBlock
import Ctcp.Verification.Field.GF256
import Mathlib.Algebra.BigOperators.Pi
import Mathlib.LinearAlgebra.Finsupp.LinearCombination

/-! # Coefficient rows as vectors over GF(256) -/

namespace Ctcp

open Function

/-- A payload as a vector of field elements. -/
def Payload.toVec (pl : Payload) : Fin payloadSize → GF256 := fun i => ⟨pl i⟩

theorem Payload.toVec_inj {a b : Payload} : a.toVec = b.toVec ↔ a = b := by
  constructor
  · intro h
    funext i
    exact congrArg GF256.byte (congrFun h i)
  · exact congrArg _

namespace GF256

theorem mk_zero : (⟨0⟩ : GF256) = 0 := rfl

theorem mk_xor (x y : UInt8) : (⟨x ^^^ y⟩ : GF256) = ⟨x⟩ - ⟨y⟩ := by
  rw [sub_eq_add_neg]
  rfl

theorem mk_one : (⟨1⟩ : GF256) = 1 := rfl

theorem mk_fastFFmult (x : UInt8) {y : UInt8} (h : y ≠ 0) :
    (⟨fastFFmult x (xFFlog y)⟩ : GF256) = ⟨y⟩ * ⟨x⟩ := by
  rw [fastFFmult_eq x h, mul_comm]

theorem mk_ne_zero {x : UInt8} : (⟨x⟩ : GF256) ≠ 0 ↔ x ≠ 0 :=
  not_congr byte_eq_zero.symm

end GF256

/-! ## Vectors of a row -/

/-- The entries `f 0, f 1, …` placed from position `start` on. -/
def place (start : ℕ) (f : ℕ → UInt8) : Fin blockSize → GF256 := fun j =>
  if start ≤ j then ⟨f (j - start)⟩ else 0

/-- The vector of a packet's coefficients. -/
def coeffVec (start : ℕ) (coeff : List UInt8) : Fin blockSize → GF256 :=
  place start fun k => coeff.getD k 0

/-- The vector of row `r`. -/
def CodedBlock.rowVec (blk : CodedBlock) (r : ℕ) : Fin blockSize → GF256 :=
  place r fun k => if k < blk.rowLen r then blk.rows r k else 0

/-- The combination of source rows that a vector stands for. -/
def combine (p : ℕ → Payload) : (Fin blockSize → GF256) →ₗ[GF256] Fin payloadSize → GF256 :=
  Fintype.linearCombination GF256 fun j : Fin blockSize => (p j).toVec

/-! ## `isEmpty` and `shiftRow` -/

theorem isEmpty_iff {coeff : List UInt8} : isEmpty coeff = true ↔ ∀ k, coeff.getD k 0 = 0 := by
  simp only [isEmpty, List.all_eq_true, beq_iff_eq, List.getD_eq_getElem?_getD]
  constructor
  · intro h k
    cases hk : coeff[k]? with
    | none => rfl
    | some c => exact h c (List.mem_of_getElem? hk)
  · intro h c hc
    obtain ⟨k, hk⟩ := List.mem_iff_getElem?.mp hc
    simpa [hk] using h k

/-- A row is the zeros that the shift skips, then the entry it stops at. -/
theorem shiftRow_split (buf : List UInt8) :
    buf = List.replicate (shiftRow buf).1 0 ++ buf.drop (shiftRow buf).1 ∧
      (buf.drop (shiftRow buf).1).head? ≠ some 0 := by
  induction buf with
  | nil => simp [shiftRow]
  | cons c cs ih =>
      by_cases hc : c = 0
      · subst hc
        have hs : (shiftRow (0 :: cs)).1 = (shiftRow cs).1 + 1 := by simp [shiftRow]
        rw [hs, List.replicate_succ, List.drop_succ_cons, List.cons_append]
        exact ⟨congrArg _ ih.1, ih.2⟩
      · have hs : (shiftRow (c :: cs)).1 = 0 := by simp [shiftRow, hc]
        simp [hs, hc]

theorem shiftRow_le (buf : List UInt8) : (shiftRow buf).1 ≤ buf.length := by
  have h := congrArg List.length (shiftRow_split buf).1
  simp only [List.length_append, List.length_replicate] at h
  omega

@[simp] theorem length_shiftRow (buf : List UInt8) : (shiftRow buf).2.length = buf.length := by
  have h := shiftRow_le buf
  simp only [shiftRow] at h
  simp only [shiftRow, List.length_append, List.length_drop, List.length_replicate]
  omega

/-- The entries that the shift skips are zero. -/
theorem getD_of_lt_shift {buf : List UInt8} {k : ℕ} (h : k < (shiftRow buf).1) :
    buf.getD k 0 = 0 := by
  rw [(shiftRow_split buf).1, List.getD_eq_getElem?_getD,
    List.getElem?_append_left (by simpa using h), List.getElem?_replicate, if_pos h,
    Option.getD_some]

theorem getD_shiftRow (buf : List UInt8) (k : ℕ) :
    (shiftRow buf).2.getD k 0 = buf.getD ((shiftRow buf).1 + k) 0 := by
  simp only [shiftRow, List.getD_eq_getElem?_getD]
  rcases Nat.lt_or_ge k (buf.drop (buf.takeWhile (· == 0)).length).length with hk | hk
  · rw [List.getElem?_append_left hk, List.getElem?_drop]
  · have hout : buf.length ≤ (buf.takeWhile (· == 0)).length + k := by
      rw [List.length_drop] at hk
      omega
    rw [List.getElem?_append_right hk, List.getElem?_replicate, List.getElem?_eq_none hout]
    split <;> rfl

theorem isEmpty_shiftRow (buf : List UInt8) : isEmpty (shiftRow buf).2 = isEmpty buf := by
  rw [Bool.eq_iff_iff, isEmpty_iff, isEmpty_iff]
  simp only [getD_shiftRow]
  constructor
  · intro h k
    rcases Nat.lt_or_ge k (shiftRow buf).1 with hk | hk
    · exact getD_of_lt_shift hk
    · simpa [Nat.add_sub_cancel' hk] using h (k - (shiftRow buf).1)
  · exact fun h k => h _

/-- After a shift a row that is not empty has a nonzero leading entry. -/
theorem headD_shiftRow {buf : List UInt8} (h : isEmpty buf = false) :
    (shiftRow buf).2.headD 0 ≠ 0 := by
  have hsplit := shiftRow_split buf
  have hdrop : buf.drop (shiftRow buf).1 ≠ [] := by
    intro hd
    rw [hd, List.append_nil] at hsplit
    have hall : isEmpty buf = true := by
      rw [hsplit.1]
      simp [isEmpty]
    simp [hall] at h
  obtain ⟨c, cs, hcs⟩ := List.exists_cons_of_ne_nil hdrop
  have hc := hsplit.2
  rw [hcs] at hc
  have hval : (shiftRow buf).2.headD 0 = c := by
    change (buf.drop (shiftRow buf).1 ++ List.replicate (shiftRow buf).1 0).headD 0 = c
    rw [hcs]
    rfl
  rw [hval]
  exact fun h0 => hc (by rw [h0]; rfl)

/-- A row with a zero in front is shifted by at least one entry. -/
theorem shiftRow_pos {buf : List UInt8} (hne : buf ≠ []) (h : buf.headD 0 = 0) :
    0 < (shiftRow buf).1 := by
  cases buf with
  | nil => exact (hne rfl).elim
  | cons c cs =>
      obtain rfl : c = 0 := h
      simp [shiftRow]

/-! ## What each operation does to the vectors -/

/-- A shift moves the row and its position together. -/
theorem coeffVec_shiftRow (start : ℕ) (buf : List UInt8) :
    coeffVec (start + (shiftRow buf).1) (shiftRow buf).2 = coeffVec start buf := by
  funext j
  simp only [coeffVec, place, getD_shiftRow]
  by_cases h₁ : start + (shiftRow buf).1 ≤ j
  · rw [if_pos h₁, if_pos (by omega)]
    congr 2
    omega
  · rw [if_neg h₁]
    by_cases h₂ : start ≤ j
    · rw [if_pos h₂, getD_of_lt_shift (by omega), GF256.mk_zero]
    · rw [if_neg h₂]

theorem getD_zero (coeff : List UInt8) : coeff.getD 0 0 = coeff.headD 0 := by cases coeff <;> rfl

theorem getD_subtractCoeffs (row : ℕ → UInt8) (rowLen : ℕ) (coeff : List UInt8) (i : ℕ) :
    (subtractCoeffs row rowLen coeff).getD i 0 =
      if coeff.length ≤ i ∨ i = 0 then 0
      else if i < rowLen then coeff.getD i 0 ^^^ fastFFmult (row i) (xFFlog (coeff.headD 0))
      else coeff.getD i 0 := by
  simp only [subtractCoeffs, List.getD_eq_getElem?_getD, List.getElem?_mapIdx]
  rcases Nat.lt_or_ge i coeff.length with hi | hi
  · rw [List.getElem?_eq_getElem hi]
    simp only [Option.map_some, Option.getD_some, Nat.not_le.mpr hi, false_or]
  · simp [hi]

@[simp] theorem length_subtractCoeffs (row : ℕ → UInt8) (rowLen : ℕ) (coeff : List UInt8) :
    (subtractCoeffs row rowLen coeff).length = coeff.length := by simp [subtractCoeffs]

/-- A subtraction that reaches no further than the packet subtracts the row's vector. -/
theorem coeffVec_subtractCoeffs {blk : CodedBlock} {start : ℕ} {coeff : List UInt8}
    (hpivot : coeff.headD 0 ≠ 0) (hone : blk.rows start 0 = 1) (hlen : 0 < blk.rowLen start)
    (hfit : ∀ i, coeff.length ≤ i → i < blk.rowLen start → blk.rows start i = 0) :
    coeffVec start (subtractCoeffs (blk.rows start) (blk.rowLen start) coeff) =
      coeffVec start coeff - (⟨coeff.headD 0⟩ : GF256) • blk.rowVec start := by
  funext j
  simp only [coeffVec, CodedBlock.rowVec, place, Pi.sub_apply, Pi.smul_apply, smul_eq_mul]
  by_cases hj : start ≤ j
  · simp only [if_pos hj, getD_subtractCoeffs]
    generalize (j : ℕ) - start = i
    rcases Nat.eq_zero_or_pos i with rfl | hi
    · rw [if_pos (.inr rfl), if_pos hlen, hone, GF256.mk_one, mul_one, getD_zero, sub_self]
      rfl
    · by_cases hout : coeff.length ≤ i
      · have hrow : (if i < blk.rowLen start then blk.rows start i else 0) = 0 := by
          split
          · exact hfit i hout ‹_›
          · rfl
        rw [if_pos (.inl hout), hrow, List.getD_eq_default _ _ hout, GF256.mk_zero, mul_zero,
          sub_zero]
      · rw [if_neg (by omega)]
        by_cases hr : i < blk.rowLen start
        · rw [if_pos hr, if_pos hr, GF256.mk_xor, GF256.mk_fastFFmult _ hpivot]
        · rw [if_neg hr, if_neg hr, GF256.mk_zero, mul_zero, sub_zero]
  · simp [if_neg hj]

theorem toVec_subtractPayload (content payload : Payload) {pivot : UInt8} (h : pivot ≠ 0) :
    (subtractPayload content pivot payload).toVec =
      payload.toVec - (⟨pivot⟩ : GF256) • content.toVec := by
  funext i
  simp only [Payload.toVec, subtractPayload, GF256.mk_xor, GF256.mk_fastFFmult _ h,
    Pi.sub_apply, Pi.smul_apply, smul_eq_mul]

theorem mk_getD_normalize (coeff : List UInt8) (pl : Payload) (h : coeff.headD 0 ≠ 0) (k : ℕ) :
    (⟨(normalize coeff pl).1.getD k 0⟩ : GF256) = ⟨coeff.headD 0⟩⁻¹ * ⟨coeff.getD k 0⟩ := by
  by_cases hone : coeff.headD 0 = 1
  · simp only [normalize, hone, ne_eq, not_true_eq_false, if_false, GF256.mk_one, inv_one,
      one_mul]
  · have hmap : (coeff.map (fastFFmult · (xFFlog (inverse (coeff.headD 0))))).getD k 0 =
        fastFFmult (coeff.getD k 0) (xFFlog (inverse (coeff.headD 0))) := by
      rw [List.getD_eq_getElem?_getD, List.getD_eq_getElem?_getD, List.getElem?_map]
      cases coeff[k]? <;> rfl
    simp only [normalize, ne_eq, hone, not_false_eq_true, if_true]
    rw [hmap, GF256.mk_fastFFmult _ (GF256.inverse_ne_zero h), GF256.inverse_eq h]

theorem toVec_normalize (coeff : List UInt8) (pl : Payload) (h : coeff.headD 0 ≠ 0) :
    (normalize coeff pl).2.toVec = (⟨coeff.headD 0⟩ : GF256)⁻¹ • pl.toVec := by
  by_cases hone : coeff.headD 0 = 1
  · simp only [normalize, hone, ne_eq, not_true_eq_false, if_false, GF256.mk_one, inv_one,
      one_smul]
  · funext i
    simp only [normalize, ne_eq, hone, not_false_eq_true, if_true, Payload.toVec, Pi.smul_apply,
      smul_eq_mul]
    rw [GF256.mk_fastFFmult _ (GF256.inverse_ne_zero h), GF256.inverse_eq h]

/-! ## The stored row -/

section insertRow

variable {blk : CodedBlock} {start : ℕ} {coeff : List UInt8} {pl : Payload}

theorem headD_take (coeff : List UInt8) {n : ℕ} (h : 0 < n) :
    (coeff.take n).headD 0 = coeff.headD 0 := by
  obtain ⟨n, rfl⟩ : ∃ m, n = m + 1 := ⟨n - 1, by omega⟩
  cases coeff <;> rfl

/-- The entry at `k` of the row that `insertRow` writes. -/
theorem mk_insertRow_rows (blk : CodedBlock) (pl : Payload) (h : coeff.headD 0 ≠ 0) {k : ℕ}
    (hk : k < min coeff.length (blockSize - start)) :
    (⟨(insertRow blk start coeff pl).rows start k⟩ : GF256) =
      ⟨coeff.headD 0⟩⁻¹ * ⟨coeff.getD k 0⟩ := by
  have htake := headD_take coeff (show 0 < min coeff.length (blockSize - start) by omega)
  have hget : (coeff.take (min coeff.length (blockSize - start))).getD k 0 = coeff.getD k 0 := by
    rw [List.getD_eq_getElem?_getD, List.getD_eq_getElem?_getD, List.getElem?_take, if_pos hk]
  simp only [insertRow, update_self, if_pos hk]
  rw [mk_getD_normalize _ _ (by rwa [htake]), htake, hget]

theorem insertRow_rows_of_ne {r : ℕ} (h : r ≠ start) :
    (insertRow blk start coeff pl).rows r = blk.rows r := update_of_ne h _ _

theorem insertRow_rowLen_of_ne {r : ℕ} (h : r ≠ start) :
    (insertRow blk start coeff pl).rowLen r = blk.rowLen r := update_of_ne h _ _

theorem insertRow_content_of_ne {r : ℕ} (h : r ≠ start) :
    (insertRow blk start coeff pl).content r = blk.content r := update_of_ne h _ _

@[simp] theorem insertRow_rowLen :
    (insertRow blk start coeff pl).rowLen start = min coeff.length (blockSize - start) :=
  update_self _ _ _

@[simp] theorem insertRow_dofs : (insertRow blk start coeff pl).dofs = blk.dofs + 1 := rfl

@[simp] theorem insertRow_len : (insertRow blk start coeff pl).len = blk.len := rfl

@[simp] theorem insertRow_dofsPushed :
    (insertRow blk start coeff pl).dofsPushed = blk.dofsPushed := rfl

@[simp] theorem insertRow_maxPacketIndex :
    (insertRow blk start coeff pl).maxPacketIndex = blk.maxPacketIndex := rfl

theorem length_pos_of_headD (h : coeff.headD 0 ≠ 0) : 0 < coeff.length := by
  cases coeff with
  | nil => exact (h rfl).elim
  | cons c cs => exact Nat.succ_pos _

theorem insertRow_rows_zero (hlt : start < blockSize) (h : coeff.headD 0 ≠ 0) :
    (insertRow blk start coeff pl).rows start 0 = 1 := by
  have hpos := length_pos_of_headD h
  have hval := mk_insertRow_rows blk pl h (show 0 < min coeff.length (blockSize - start) by omega)
  rw [getD_zero, inv_mul_cancel₀ (GF256.mk_ne_zero.mpr h)] at hval
  exact congrArg GF256.byte hval

/-- The stored row is the arriving one, scaled to lead with one. -/
theorem rowVec_insertRow (hlt : start < blockSize) (h : coeff.headD 0 ≠ 0) :
    (insertRow blk start coeff pl).rowVec start =
      (⟨coeff.headD 0⟩ : GF256)⁻¹ • coeffVec start coeff := by
  funext j
  simp only [CodedBlock.rowVec, coeffVec, place, Pi.smul_apply, smul_eq_mul, insertRow_rowLen]
  by_cases hj : start ≤ j
  · rw [if_pos hj, if_pos hj]
    by_cases hk : (j : ℕ) - start < min coeff.length (blockSize - start)
    · rw [if_pos hk, mk_insertRow_rows _ _ h hk]
    · have hout : coeff.length ≤ (j : ℕ) - start := by omega
      rw [if_neg hk, List.getD_eq_default _ _ hout, GF256.mk_zero, mul_zero]
  · rw [if_neg hj, if_neg hj, mul_zero]

theorem rowVec_insertRow_of_ne {r : ℕ} (h : r ≠ start) :
    (insertRow blk start coeff pl).rowVec r = blk.rowVec r := by
  simp only [CodedBlock.rowVec, insertRow_rows_of_ne h, insertRow_rowLen_of_ne h]

theorem insertRow_content (blk : CodedBlock) (pl : Payload) (h : coeff.headD 0 ≠ 0)
    (hlt : start < blockSize) :
    ∃ content, (insertRow blk start coeff pl).content start = some content ∧
      content.toVec = (⟨coeff.headD 0⟩ : GF256)⁻¹ • pl.toVec := by
  have hpos := length_pos_of_headD h
  refine ⟨_, update_self _ _ _, ?_⟩
  have htake := headD_take coeff (show 0 < min coeff.length (blockSize - start) by omega)
  rw [toVec_normalize _ _ (by rwa [htake]), htake]

end insertRow

end Ctcp
