import Ctcp.Verification.Decoder.Soundness
import Ctcp.Verification.Decoder.Substitution

/-! # One run of the elimination loop is one step of Gaussian elimination -/

namespace Ctcp

open Function Submodule

variable {blk : CodedBlock} {p : ℕ → Payload} {s : ℕ} {v : List UInt8} {pl : Payload}

/-! ## The statement -/

/-- Number of coefficients of a row; the leading one always counts. -/
def CodedBlock.width (blk : CodedBlock) (r : ℕ) : ℕ := max 1 (blk.rowLen r)

/-- What a block is asked to satisfy: its rows are normalised and their contents are the
combinations of source rows that the coefficients say. -/
structure RowConditions (p : ℕ → Payload) (blk : CodedBlock) : Prop where
  lead : ∀ r < blockSize, blk.Occupied r → blk.rows r 0 = 1
  rowLen_le : ∀ r < blockSize, blk.Occupied r → r + blk.rowLen r ≤ blockSize
  content_eq : ∀ r < blockSize, blk.Occupied r → ∃ content, blk.content r = some content ∧
    content.toVec =
      ∑ k ∈ Finset.range (blk.width r), (⟨blk.rows r k⟩ : GF256) • (p (r + k)).toVec
  dofs_eq : blk.dofs = blk.occupied.card

/-- The span of the stored rows. -/
def CodedBlock.rowsSpan (blk : CodedBlock) : Submodule GF256 (Fin blockSize → GF256) :=
  rowSpan blk.occupied fun r => place r fun k => if k < blk.width r then blk.rows r k else 0

/-- The loop of `bldack` on a packet with coefficients `v` from row `s` on. -/
def runLoop (blk : CodedBlock) (s : ℕ) (v : List UInt8) (pl : Payload) : Option CodedBlock :=
  eliminate blk blockSize ((s + (shiftRow v).1) % 256) (shiftRow v).2 pl

theorem insertPacket_eq_runLoop (rm : Residue) (blk : CodedBlock) (msg : DataPckt)
    (h : msg.numPackets.toNat ≤ blockSize) :
    insertPacket rm blk msg =
      runLoop blk msg.startPacket.toNat (arrivingCoeffs rm msg) msg.payload :=
  if_neg (Nat.not_lt.mpr h)

/-- The block `blk'` has one row more than `blk`, made from the vector `w`. -/
structure FillsRow (p : ℕ → Payload) (blk : CodedBlock) (w : Fin blockSize → GF256)
    (r : ℕ) (blk' : CodedBlock) : Prop where
  lt : r < blockSize
  free : ¬blk.Occupied r
  filled : blk'.Occupied r
  kept : ∀ r', r' ≠ r → blk'.rows r' = blk.rows r' ∧ blk'.rowLen r' = blk.rowLen r' ∧
    blk'.content r' = blk.content r'
  dofs_eq : blk'.dofs = blk.dofs + 1
  conditions : RowConditions p blk'
  span_eq : blk'.rowsSpan = blk.rowsSpan ⊔ span GF256 {w}

/-! ## A block in normal form -/

/-- The block as the loop sees it: with room for every row, and every row at least as
long as its leading entry. -/
def CodedBlock.normal (blk : CodedBlock) : CodedBlock :=
  { blk with
    len := blockSize
    rowLen := blk.width
    dofsPushed := 0
    maxPacketIndex := blockSize }

theorem sameReads_normal (blk : CodedBlock) : SameReads blk.normal blk where
  rows_eq := rfl
  content_eq := rfl
  subtract_eq start coeff := by
    refine List.mapIdx_eq_mapIdx_iff.mpr fun i hi => ?_
    by_cases hzero : i = 0
    · rw [if_pos hzero, if_pos hzero]
    · have hiff : i < blk.normal.rowLen start ↔ i < blk.rowLen start := by
        change i < max 1 (blk.rowLen start) ↔ _
        omega
      simp only [hzero, if_false, hiff]
      rfl

theorem RowConditions.sound (h : RowConditions p blk) : BlockSound p blk.normal where
  len_eq := rfl
  lead := h.lead
  rowLen_pos _ _ _ := Nat.le_max_left _ _
  rowLen_le r hr hocc := by
    have := h.rowLen_le r hr hocc
    change r + max 1 (blk.rowLen r) ≤ blockSize
    omega
  support r hr hocc k hk _ := by
    have := h.rowLen_le r hr hocc
    change k < max 1 (blk.rowLen r) at hk
    change r + k < blockSize
    omega
  held r hr hocc := by
    obtain ⟨content, hcontent, -⟩ := h.content_eq r hr hocc
    exact Option.isSome_iff_exists.mpr ⟨content, hcontent⟩
  dofs_eq := h.dofs_eq
  index_le := le_rfl
  pushed_le := Nat.zero_le _
  pushed r hr := (Nat.not_lt_zero r hr).elim
  content_eq r hr hocc content hcontent := by
    obtain ⟨content', hcontent', heq⟩ := h.content_eq r hr hocc
    obtain rfl : content' = content := Option.some.inj (hcontent'.symm.trans hcontent)
    rw [heq, CodedBlock.rowVec, combine_place p (n := blk.width r)]
    · exact Finset.sum_congr rfl fun k hk => by
        rw [if_pos (show k < blk.normal.rowLen r from Finset.mem_range.mp hk)]
        rfl
    · have := h.rowLen_le r hr hocc
      change r + max 1 (blk.rowLen r) ≤ blockSize
      omega
    · exact fun k hk => if_neg (Nat.not_lt.mpr hk)

theorem BlockSound.rowConditions (h : BlockSound p blk.normal) : RowConditions p blk where
  lead := h.lead
  rowLen_le r hr hocc :=
    (Nat.add_le_add_left (Nat.le_max_right _ _) r).trans (h.rowLen_le r hr hocc)
  content_eq r hr hocc := by
    obtain ⟨content, hcontent⟩ := Option.isSome_iff_exists.mp (h.held r hr hocc)
    exact ⟨content, hcontent,
      (h.content_eq r hr hocc content hcontent).trans (h.combine_rowVec hr hocc p)⟩
  dofs_eq := h.dofs_eq

/-- A stored row has a length of its own. -/
theorem normal_insertRow {start : ℕ} {coeff : List UInt8} (hpos : 0 < coeff.length)
    (hlt : start < blockSize) :
    (insertRow blk start coeff pl).normal = insertRow blk.normal start coeff pl := by
  have hwidth : (insertRow blk start coeff pl).width =
      update blk.width start (min coeff.length (blockSize - start)) := by
    funext r
    by_cases hr : r = start
    · rw [hr, update_self, CodedBlock.width, insertRow_rowLen]
      omega
    · rw [update_of_ne hr, CodedBlock.width, insertRow_rowLen_of_ne hr, CodedBlock.width]
  simp only [CodedBlock.normal, hwidth]
  rfl

/-- A residual packet that leads at a free row fills it. -/
theorem fillsRow_insertRow (h : BlockSound p blk.normal) {start : ℕ} {coeff : List UInt8}
    (hres : Residual blk.normal start coeff) (hne : isEmpty coeff = false)
    (hfree : ¬blk.Occupied start) (hpl : pl.toVec = combine p (coeffVec start coeff)) :
    FillsRow p blk (coeffVec start coeff) start (insertRow blk start coeff pl) := by
  have hshape := h.toBlockShape
  have hlt := (hres.start_lt hne).trans_le hshape.index_le
  have hnormal := @normal_insertRow blk pl _ _ (length_pos_of_headD (hres.lead hne)) hlt
  constructor
  case lt => exact hlt
  case free => exact hfree
  case filled => exact (occupied_insertRow hres hne hshape start).mpr (.inl rfl)
  case kept =>
    intro r' hr
    exact ⟨insertRow_rows_of_ne hr, insertRow_rowLen_of_ne hr, insertRow_content_of_ne hr⟩
  case dofs_eq => rfl
  case conditions =>
    apply BlockSound.rowConditions
    rw [hnormal]
    exact h.insertRow hres hne hfree hpl
  case span_eq =>
    change (insertRow blk start coeff pl).normal.span = _
    rw [hnormal, span_insertRow hshape hres hne hfree]
    rfl

/-! ## The step -/

/-- One run of the loop: a packet in the span of the stored rows changes nothing, any
other fills one row. The loop ends within `blockSize` rounds and never leaves the matrix. -/
theorem elimination_step (h : RowConditions p blk) (hv : 1 ≤ v.length)
    (hs : s + v.length ≤ blockSize)
    (hpl : pl.toVec = ∑ i ∈ Finset.range v.length, (⟨v.getD i 0⟩ : GF256) • (p (s + i)).toVec)
    (hlen : ∀ r < blockSize, blk.Occupied r → blk.rowLen r ≤ v.length) :
    (coeffVec s v ∈ blk.rowsSpan → runLoop blk s v pl = some blk) ∧
      (coeffVec s v ∉ blk.rowsSpan → ∃ r blk', runLoop blk s v pl = some blk' ∧
        FillsRow p blk (coeffVec s v) r blk') := by
  have hsound := h.sound
  have hshape := hsound.toBlockShape
  let I : ℕ → ℕ → List UInt8 → Payload → Prop := fun _ start coeff pl =>
    coeff.length = v.length ∧ pl.toVec = combine p (coeffVec start coeff) ∧
      blk.rowsSpan ⊔ span GF256 {coeffVec start coeff} =
        blk.rowsSpan ⊔ span GF256 {coeffVec s v}
  -- each round subtracts a multiple of a stored row from both sides
  have hround : RoundKeeps blk.normal I := by
    intro fuel start coeff pl content hres hne hocc hcontent hI
    obtain ⟨hlength, hpl, hspan⟩ := hI
    have hlt := (hres.start_lt hne).trans_le hshape.index_le
    have hend : blk.normal.EndsWithin start coeff.length := by
      intro i hi hle
      have := hlen start hlt hocc
      change i < max 1 (blk.rowLen start) at hi
      omega
    exact ⟨length_nextCoeffs.trans hlength,
      hsound.toVec_nextCoeffs hres hne hocc hend hcontent hpl,
      (span_nextCoeffs hshape hres hne hocc hend).trans hspan⟩
  have hres : Residual blk.normal (s + (shiftRow v).1) (shiftRow v).2 := by
    refine residual_shiftRow (by omega) fun k hk => ?_
    by_contra hout
    refine hk (List.getD_eq_default _ _ ?_)
    change ¬s + k < blockSize at hout
    omega
  have hI : I blockSize (s + (shiftRow v).1) (shiftRow v).2 pl := by
    refine ⟨length_shiftRow v, ?_, by rw [coeffVec_shiftRow]⟩
    rw [coeffVec_shiftRow, hpl, coeffVec, combine_place p hs fun k hk =>
      List.getD_eq_default _ _ hk]
  have hstart : (s + (shiftRow v).1) % 256 = s + (shiftRow v).1 := by
    have := shiftRow_le v
    have h32 : blockSize = 32 := rfl
    exact Nat.mod_eq_of_lt (by omega)
  rw [runLoop, hstart]
  obtain ⟨_, start, coeff, pl', ⟨-, hpl', hspan⟩, hres', -,
      ⟨hempty, heq⟩ | ⟨hne, hfree, heq⟩⟩ :=
    eliminate_cases (sameReads_normal blk) hshape hround hres hI (Nat.le_add_left _ _)
  · refine ⟨fun _ => heq, fun hnot => (hnot ?_).elim⟩
    rw [coeffVec_of_isEmpty hempty, span_zero_singleton, sup_bot_eq] at hspan
    rw [hspan]
    exact mem_sup_right (mem_span_singleton_self _)
  · refine ⟨fun hmem => ?_, fun _ => ⟨start, _, heq, ?_⟩⟩
    · -- the packet would lead at a free row, which a member of the span does not
      have hlt := (hres'.start_lt hne).trans_le hshape.index_le
      rw [sup_span_of_mem hmem] at hspan
      have hmem' : coeffVec start coeff ∈ blk.normal.span := by
        rw [show blk.normal.span = blk.rowsSpan from rfl, ← hspan]
        exact mem_sup_right (mem_span_singleton_self _)
      exact (hfree (CodedBlock.mem_occupied.mp
        (hshape.echelon.lead_mem hmem' (leadsAt_coeffVec hres' hne hlt)))).elim
    · have hfills := fillsRow_insertRow hsound hres' hne hfree hpl'
      exact { hfills with span_eq := hfills.span_eq.trans hspan }

/-- Row 0 is stored, as the combination of the source rows 0 and 1 with the coefficients
1 and 2. -/
def oneRow : CodedBlock where
  dofs := 1
  len := blockSize
  rows r k := if r = 0 then if k = 0 then 1 else if k = 1 then 2 else 0 else emptyRow
  rowLen r := if r = 0 then 2 else 0
  content r := if r = 0 then some fun _ => 7 else none
  dofsPushed := 0
  maxPacketIndex := 2

theorem occupied_oneRow {r : ℕ} : oneRow.Occupied r ↔ r = 0 := by
  by_cases hr : r = 0 <;> simp [CodedBlock.Occupied, emptyRow, oneRow, hr]

theorem rowConditions_oneRow : RowConditions (fun r _ => if r = 0 then 5 else 1) oneRow := by
  constructor
  case lead =>
    intro r _ hocc
    obtain rfl := occupied_oneRow.mp hocc
    rfl
  case rowLen_le => exact fun r _ hocc => occupied_oneRow.mp hocc ▸ (by decide)
  case content_eq =>
    intro r _ hocc
    obtain rfl := occupied_oneRow.mp hocc
    have hbyte : (⟨7⟩ : GF256) = ⟨5⟩ + ⟨2⟩ * ⟨1⟩ := by decide
    refine ⟨_, rfl, funext fun i => ?_⟩
    simpa [oneRow, CodedBlock.width, Finset.sum_range_succ, GF256.mk_one, Payload.toVec] using hbyte
  case dofs_eq => decide

/-- The stored row is subtracted from both packets: one fills row 1, the other is twice
the stored row and changes nothing. -/
theorem elimination_step_oneRow :
    (∃ r blk', runLoop oneRow 0 [3, 1] (fun _ => 14) = some blk' ∧
      FillsRow (fun r _ => if r = 0 then 5 else 1) oneRow (coeffVec 0 [3, 1]) r blk') ∧
    runLoop oneRow 0 [2, 4] (fun _ => 14) = some oneRow := by
  have hlen : ∀ r < blockSize, oneRow.Occupied r → oneRow.rowLen r ≤ 2 :=
    fun r _ hocc => occupied_oneRow.mp hocc ▸ le_rfl
  constructor
  · have hbyte : (⟨14⟩ : GF256) = ⟨3⟩ * ⟨5⟩ + ⟨1⟩ * ⟨1⟩ := by decide
    have hpl : Payload.toVec (fun _ => 14) = ∑ i ∈ Finset.range [3, 1].length,
        (⟨[3, 1].getD i 0⟩ : GF256) •
          Payload.toVec ((fun r _ => if r = 0 then 5 else 1 : ℕ → Payload) (0 + i)) := by
      funext i
      simpa [Finset.sum_range_succ, Payload.toVec] using hbyte
    have hstep := elimination_step rowConditions_oneRow (by decide) (by decide) hpl hlen
    have hdofs : (runLoop oneRow 0 [3, 1] fun _ => 14).map CodedBlock.dofs = some 2 := by
      decide +kernel
    refine hstep.2 fun hmem => ?_
    rw [hstep.1 hmem] at hdofs
    exact absurd hdofs (by decide)
  · have hbyte : (⟨14⟩ : GF256) = ⟨2⟩ * ⟨5⟩ + ⟨4⟩ * ⟨1⟩ := by decide
    have hpl : Payload.toVec (fun _ => 14) = ∑ i ∈ Finset.range [2, 4].length,
        (⟨[2, 4].getD i 0⟩ : GF256) •
          Payload.toVec ((fun r _ => if r = 0 then 5 else 1 : ℕ → Payload) (0 + i)) := by
      funext i
      simpa [Finset.sum_range_succ, Payload.toVec] using hbyte
    have hstep := elimination_step rowConditions_oneRow (by decide) (by decide) hpl hlen
    have hdofs : (runLoop oneRow 0 [2, 4] fun _ => 14).map CodedBlock.dofs = some 1 := by
      decide +kernel
    refine hstep.1 (by_contra fun hnot => ?_)
    obtain ⟨r, blk', heq, hfills⟩ := hstep.2 hnot
    rw [heq, Option.map_some, hfills.dofs_eq] at hdofs
    exact absurd hdofs (by decide)

end Ctcp
