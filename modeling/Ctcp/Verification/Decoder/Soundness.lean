import Ctcp.Verification.Decoder.Elimination
import Mathlib.Algebra.BigOperators.Fin
import Mathlib.LinearAlgebra.Span.Basic

/-! # The stored rows are combinations of the source rows -/

namespace Ctcp

open Function Submodule

/-! ## Truthful packets -/

/-- A packet that the sender may form for the rows `p` of its block. -/
inductive Truthful (p : ℕ → Payload) (msg : DataPckt) : Prop where
  | normal (hflag : msg.flag = .normal) (hstart : msg.startPacket.toNat < blockSize)
      (hnum : msg.numPackets = 1) (hpayload : msg.payload = p msg.startPacket.toNat)
  | coded (hflag : msg.flag = .coded) (hstart : msg.startPacket = 0)
      (hpos : 1 ≤ msg.numPackets.toNat) (hnum : msg.numPackets.toNat ≤ blockSize)
      (hpayload : ∀ i, (⟨msg.payload i⟩ : GF256) =
        ∑ k ∈ Finset.range msg.numPackets.toNat,
          (⟨(packetCoeffs msg.packetCoeff msg.blockno msg.numPackets.toNat).getD k 0⟩ : GF256) *
            ⟨p k i⟩)

/-- The rows a truthful packet mentions lie inside the block. -/
theorem Truthful.le_blockSize {p : ℕ → Payload} {msg : DataPckt} (h : Truthful p msg) :
    msg.startPacket.toNat + msg.numPackets.toNat ≤ blockSize := by
  cases h with
  | normal _ hstart hnum _ =>
      rw [hnum]
      exact hstart
  | coded _ hstart _ hnum _ =>
      rw [hstart]
      simpa using hnum

theorem combine_place (p : ℕ → Payload) {start n : ℕ} {f : ℕ → UInt8}
    (hn : start + n ≤ blockSize) (hf : ∀ k, n ≤ k → f k = 0) :
    combine p (place start f) = ∑ k ∈ Finset.range n, (⟨f k⟩ : GF256) • (p (start + k)).toVec := by
  let g : ℕ → Fin payloadSize → GF256 := fun j =>
    (if start ≤ j then (⟨f (j - start)⟩ : GF256) else 0) • (p j).toVec
  have hsum : combine p (place start f) = ∑ j ∈ Finset.range blockSize, g j := by
    rw [combine, Fintype.linearCombination_apply]
    exact Fin.sum_univ_eq_sum_range g blockSize
  obtain ⟨rest, hrest⟩ := Nat.exists_eq_add_of_le hn
  have hlow : ∑ j ∈ Finset.range start, g j = 0 :=
    Finset.sum_eq_zero fun j hj => by
      simp only [g, if_neg (Nat.not_le.mpr (Finset.mem_range.mp hj)), zero_smul]
  have hhigh : ∑ j ∈ Finset.range rest, g (start + n + j) = 0 :=
    Finset.sum_eq_zero fun j _ => by
      simp only [g, if_pos (show start ≤ start + n + j by omega)]
      rw [hf _ (by omega), GF256.mk_zero, zero_smul]
  rw [hsum, hrest, Finset.sum_range_add, Finset.sum_range_add, hlow, hhigh, zero_add, add_zero]
  exact Finset.sum_congr rfl fun k _ => by
    simp only [g, Nat.le_add_right, if_true, Nat.add_sub_cancel_left]

/-- The payload of a truthful packet is the combination its header announces. -/
theorem Truthful.payload_eq {p : ℕ → Payload} {msg : DataPckt} (h : Truthful p msg)
    (rm : Residue) : msg.payload.toVec =
      combine p (coeffVec msg.startPacket.toNat (arrivingCoeffs rm msg)) := by
  rw [coeffVec, combine_place p h.le_blockSize fun k hk =>
    List.getD_eq_default _ _ (by rwa [length_arrivingCoeffs])]
  cases h with
  | normal hflag _ hnum hpayload =>
      have hcoeffs : arrivingCoeffs rm msg = [1] := by simp [arrivingCoeffs, hflag, hnum]
      simp [hcoeffs, hnum, hpayload, GF256.mk_one]
  | coded hflag hstart _ _ hpayload =>
      funext i
      rw [Payload.toVec, hpayload i, Finset.sum_apply]
      simp [arrivingCoeffs, hflag, hstart, Payload.toVec]

/-! ## Packets that fit the rows they meet -/

/-- The rows that the elimination of a packet meets. -/
def metRows (blk : CodedBlock) : ℕ → ℕ → List UInt8 → List ℕ
  | 0, _, _ => []
  | fuel + 1, start, coeff =>
    if isEmpty coeff = false ∧ start < blockSize ∧ blk.Occupied start then
      start :: metRows blk fuel (start + (nextCoeffs blk start coeff).1)
        (nextCoeffs blk start coeff).2
    else []

/-- Row `r` has no nonzero coefficient at an offset of `n` or more. -/
def CodedBlock.EndsWithin (blk : CodedBlock) (r n : ℕ) : Prop :=
  ∀ i < blk.rowLen r, n ≤ i → blk.rows r i = 0

instance (blk : CodedBlock) (r n : ℕ) : Decidable (blk.EndsWithin r n) :=
  inferInstanceAs (Decidable (∀ _ < _, _))

/-- No row that the packet meets reaches further than the packet itself. -/
def Fits (rm : Residue) (blk : CodedBlock) (msg : DataPckt) : Prop :=
  ∀ r ∈ metRows blk blockSize (arriving rm msg).1 (arriving rm msg).2,
    blk.EndsWithin r msg.numPackets.toNat

instance (rm : Residue) (blk : CodedBlock) (msg : DataPckt) : Decidable (Fits rm blk msg) :=
  inferInstanceAs (Decidable (∀ _ ∈ _, _))

variable {blk : CodedBlock} {start fuel n : ℕ} {coeff : List UInt8} {pl : Payload}
  {msg : DataPckt}

/-- The head of the rows still to be met, and what is left after it. -/
theorem metRows_cons (hshape : BlockShape blk) (hres : Residual blk start coeff)
    (hne : isEmpty coeff = false) (hocc : blk.Occupied start) :
    metRows blk (fuel + 1) start coeff =
      start :: metRows blk fuel (start + (nextCoeffs blk start coeff).1)
        (nextCoeffs blk start coeff).2 :=
  if_pos ⟨hne, (hres.start_lt hne).trans_le hshape.index_le, hocc⟩

/-- A packet over one row vanishes at the first row it meets. -/
theorem isEmpty_nextCoeffs (h : coeff.length ≤ 1) :
    isEmpty (nextCoeffs blk start coeff).2 = true := by
  rw [nextCoeffs, isEmpty_shiftRow, isEmpty_iff]
  intro k
  rw [getD_subtractCoeffs, if_pos (by omega)]

/-- A round against a row that ends within the packet subtracts that row. -/
theorem coeffVec_nextCoeffs (hshape : BlockShape blk) (hres : Residual blk start coeff)
    (hne : isEmpty coeff = false) (hocc : blk.Occupied start)
    (hend : blk.EndsWithin start coeff.length) :
    coeffVec (start + (nextCoeffs blk start coeff).1) (nextCoeffs blk start coeff).2 =
      coeffVec start coeff - (⟨coeff.headD 0⟩ : GF256) • blk.rowVec start := by
  have hlt := (hres.start_lt hne).trans_le hshape.index_le
  rw [nextCoeffs, coeffVec_shiftRow]
  exact coeffVec_subtractCoeffs (hres.lead hne) (hshape.lead start hlt hocc)
    (hshape.rowLen_pos start hlt hocc) fun i hi hlen => hend i hlen hi

/-! ## Contents -/

/-- Every stored payload is the combination that its row of coefficients says. -/
structure BlockSound (p : ℕ → Payload) (blk : CodedBlock) : Prop extends BlockShape blk where
  content_eq : ∀ r < blockSize, blk.Occupied r → ∀ content, blk.content r = some content →
    content.toVec = combine p (blk.rowVec r)

variable {p : ℕ → Payload}

theorem blockSound_init (p : ℕ → Payload) (blk : CodedBlock) :
    BlockSound p (initCodedBlock blk) where
  toBlockShape := blockShape_init blk
  content_eq r hr _ content h := by simp [initCodedBlock, hr] at h

theorem BlockSound.insertRow (h : BlockSound p blk) (hres : Residual blk start coeff)
    (hne : isEmpty coeff = false) (hfree : ¬blk.Occupied start)
    (hpl : pl.toVec = combine p (coeffVec start coeff)) :
    BlockSound p (insertRow blk start coeff pl) where
  toBlockShape := h.toBlockShape.insertRow hres hne hfree
  content_eq r hr hocc content hcontent := by
    have hlt := (hres.start_lt hne).trans_le h.index_le
    by_cases he : r = start
    · subst he
      obtain ⟨stored, hstored, hvec⟩ :=
        insertRow_content blk pl (hres.lead hne) hlt
      obtain rfl : stored = content := Option.some.inj (hstored.symm.trans hcontent)
      rw [hvec, hpl, rowVec_insertRow hlt (hres.lead hne), map_smul]
    · rw [insertRow_content_of_ne he] at hcontent
      rw [rowVec_insertRow_of_ne he]
      exact h.content_eq r hr
        (((occupied_insertRow hres hne h.toBlockShape r).mp hocc).resolve_left he) content hcontent

/-- A round takes the same multiple of a row from both sides of a true equation. -/
theorem BlockSound.toVec_nextCoeffs (h : BlockSound p blk) (hres : Residual blk start coeff)
    (hne : isEmpty coeff = false) (hocc : blk.Occupied start)
    (hend : blk.EndsWithin start coeff.length) {content : Payload}
    (hcontent : blk.content start = some content)
    (hpl : pl.toVec = combine p (coeffVec start coeff)) :
    (subtractPayload content (coeff.headD 0) pl).toVec =
      combine p (coeffVec (start + (nextCoeffs blk start coeff).1)
        (nextCoeffs blk start coeff).2) := by
  have hlt := (hres.start_lt hne).trans_le h.index_le
  rw [coeffVec_nextCoeffs h.toBlockShape hres hne hocc hend, map_sub, map_smul,
    toVec_subtractPayload _ _ (hres.lead hne), hpl, h.content_eq start hlt hocc content hcontent]

/-- A packet that is the combination its header announces keeps the block sound,
provided that it is over one row or fits the rows it meets. -/
theorem insertPacket_sound (h : BlockSound p blk) (hrec : Recorded blk msg) (rm : Residue)
    (hpayload : msg.payload.toVec =
      combine p (coeffVec msg.startPacket.toNat (arrivingCoeffs rm msg)))
    (hfit : msg.numPackets.toNat ≤ 1 ∨ Fits rm blk msg) :
    ∃ blk', insertPacket rm blk msg = some blk' ∧ BlockSound p blk' := by
  have hshape := h.toBlockShape
  -- until it vanishes, the payload stays the combination of its coefficients
  let I : ℕ → ℕ → List UInt8 → Payload → Prop := fun fuel start coeff pl =>
    isEmpty coeff = true ∨ pl.toVec = combine p (coeffVec start coeff) ∧
      (coeff.length ≤ 1 ∨ ∀ r ∈ metRows blk fuel start coeff, blk.EndsWithin r coeff.length)
  have hround : RoundKeeps blk I := by
    intro fuel start coeff pl content hres hne hocc hcontent hI
    obtain ⟨hpl, hfit⟩ := hI.resolve_left (by simp [hne])
    by_cases hone : coeff.length ≤ 1
    · exact .inl (isEmpty_nextCoeffs hone)
    have hmet := hfit.resolve_left hone
    rw [metRows_cons hshape hres hne hocc, List.forall_mem_cons] at hmet
    refine .inr ⟨h.toVec_nextCoeffs hres hne hocc hmet.1 hcontent hpl, .inr ?_⟩
    rw [length_nextCoeffs]
    exact hmet.2
  have hI : I blockSize (arriving rm msg).1 (arriving rm msg).2 msg.payload := by
    refine .inr ⟨?_, ?_⟩
    · rw [arriving, coeffVec_shiftRow]
      exact hpayload
    · rw [length_arriving]
      exact hfit
  obtain ⟨_, start, coeff, pl, hend, hres, -, ⟨-, heq⟩ | ⟨hne, hfree, heq⟩⟩ :=
    insertPacket_cases hshape hrec rm hround hI
  · exact ⟨_, heq, h⟩
  · have hpl := (hend.resolve_left (by simp [hne])).1
    exact ⟨_, heq, h.insertRow hres hne hfree hpl⟩

/-! ## Spans -/

/-- The subspace that the rows of a block span. -/
def CodedBlock.span (blk : CodedBlock) : Submodule GF256 (Fin blockSize → GF256) :=
  rowSpan blk.occupied fun r => blk.rowVec r

theorem BlockShape.finrank_span (h : BlockShape blk) :
    Module.finrank GF256 blk.span = blk.dofs := by
  rw [CodedBlock.span, h.echelon.finrank_rowSpan, h.dofs_eq]

/-- The full coefficient vector of a packet. -/
def DataPckt.vector (rm : Residue) (msg : DataPckt) : Fin blockSize → GF256 :=
  coeffVec msg.startPacket.toNat (arrivingCoeffs rm msg)

theorem span_insertRow (hshape : BlockShape blk) (hres : Residual blk start coeff)
    (hne : isEmpty coeff = false) (hfree : ¬blk.Occupied start) :
    (insertRow blk start coeff pl).span = blk.span ⊔ span GF256 {coeffVec start coeff} := by
  have hlt := (hres.start_lt hne).trans_le hshape.index_le
  have hlead := hres.lead hne
  have hrows : (fun r : Fin blockSize => (insertRow blk start coeff pl).rowVec r) =
      update (fun r : Fin blockSize => blk.rowVec r) ⟨start, hlt⟩
        ((⟨coeff.headD 0⟩ : GF256)⁻¹ • coeffVec start coeff) := by
    funext r
    by_cases he : r = ⟨start, hlt⟩
    · rw [he, update_self, rowVec_insertRow hlt hlead]
    · rw [update_of_ne he, rowVec_insertRow_of_ne fun h => he (Fin.ext h)]
  have hnot : (⟨start, hlt⟩ : Fin blockSize) ∉ blk.occupied := by
    rwa [CodedBlock.mem_occupied]
  have hunit : IsUnit ((⟨coeff.headD 0⟩ : GF256)⁻¹) :=
    (inv_ne_zero (GF256.mk_ne_zero.mpr hlead)).isUnit
  rw [CodedBlock.span, occupied_insertRow_eq hres hne hshape hlt, hrows, rowSpan_insert hnot,
    span_singleton_smul_eq hunit]
  rfl

theorem coeffVec_of_isEmpty (h : isEmpty coeff = true) : coeffVec start coeff = 0 := by
  funext j
  simp only [coeffVec, place, isEmpty_iff.mp h, GF256.mk_zero, ite_self, Pi.zero_apply]

theorem leadsAt_coeffVec (hres : Residual blk start coeff) (hne : isEmpty coeff = false)
    (hlt : start < blockSize) : LeadsAt (coeffVec start coeff) ⟨start, hlt⟩ := by
  constructor
  · simp only [coeffVec, place, le_refl, if_true, Nat.sub_self, getD_zero]
    exact GF256.mk_ne_zero.mpr (hres.lead hne)
  · exact fun j hj => if_neg (Nat.not_le.mpr hj)

/-- A round leaves alone what the rows and the packet span. -/
theorem span_nextCoeffs (hshape : BlockShape blk) (hres : Residual blk start coeff)
    (hne : isEmpty coeff = false) (hocc : blk.Occupied start)
    (hend : blk.EndsWithin start coeff.length) :
    blk.span ⊔ span GF256
        {coeffVec (start + (nextCoeffs blk start coeff).1) (nextCoeffs blk start coeff).2} =
      blk.span ⊔ span GF256 {coeffVec start coeff} := by
  have hlt := (hres.start_lt hne).trans_le hshape.index_le
  have hrow : blk.rowVec start ∈ blk.span :=
    mem_rowSpan (v := fun r : Fin blockSize => blk.rowVec r) (r := ⟨start, hlt⟩)
      (CodedBlock.mem_occupied.mpr hocc)
  rw [coeffVec_nextCoeffs hshape hres hne hocc hend]
  apply sup_span_congr
  rw [sub_sub_cancel_left]
  exact neg_mem (smul_mem _ _ hrow)

/-- A packet that fits extends the span of the block by its vector. -/
theorem insertPacket_span (hshape : BlockShape blk) (hrec : Recorded blk msg) (rm : Residue)
    (hfit : Fits rm blk msg) {blk' : CodedBlock} (heq : insertPacket rm blk msg = some blk') :
    blk'.span = blk.span ⊔ span GF256 {msg.vector rm} := by
  let I : ℕ → ℕ → List UInt8 → Payload → Prop := fun fuel start coeff _ =>
    blk.span ⊔ span GF256 {coeffVec start coeff} = blk.span ⊔ span GF256 {msg.vector rm} ∧
      ∀ r ∈ metRows blk fuel start coeff, blk.EndsWithin r coeff.length
  have hround : RoundKeeps blk I := by
    intro fuel start coeff pl content hres hne hocc _ hI
    obtain ⟨hspan, hmet⟩ := hI
    rw [metRows_cons hshape hres hne hocc, List.forall_mem_cons] at hmet
    refine ⟨(span_nextCoeffs hshape hres hne hocc hmet.1).trans hspan, ?_⟩
    rw [length_nextCoeffs]
    exact hmet.2
  have hI : I blockSize (arriving rm msg).1 (arriving rm msg).2 msg.payload := by
    refine ⟨by rw [arriving, coeffVec_shiftRow]; rfl, ?_⟩
    rw [length_arriving]
    exact hfit
  obtain ⟨_, start, coeff, pl, hend, hres, -, ⟨hempty, h⟩ | ⟨hne, hfree, h⟩⟩ :=
    insertPacket_cases hshape hrec rm hround hI
  · obtain rfl : blk = blk' := Option.some.inj (h.symm.trans heq)
    rw [← hend.1, coeffVec_of_isEmpty hempty, span_zero_singleton, sup_bot_eq]
  · obtain rfl := Option.some.inj (h.symm.trans heq)
    rw [span_insertRow hshape hres hne hfree, hend.1]

/-- A packet over one row that the block already determines changes nothing. -/
theorem insertPacket_of_mem (hshape : BlockShape blk) (hrec : Recorded blk msg) (rm : Residue)
    (hone : msg.numPackets.toNat ≤ 1) (hmem : msg.vector rm ∈ blk.span) :
    insertPacket rm blk msg = some blk := by
  let I : ℕ → ℕ → List UInt8 → Payload → Prop := fun _ start coeff _ =>
    coeff.length ≤ 1 ∧ (isEmpty coeff = true ∨ coeffVec start coeff = msg.vector rm)
  have hround : RoundKeeps blk I := by
    intro fuel start coeff pl content _ _ _ _ hI
    exact ⟨by rw [length_nextCoeffs]; exact hI.1, .inl (isEmpty_nextCoeffs hI.1)⟩
  have hI : I blockSize (arriving rm msg).1 (arriving rm msg).2 msg.payload :=
    ⟨by rwa [length_arriving], .inr (by rw [arriving, coeffVec_shiftRow]; rfl)⟩
  obtain ⟨_, start, coeff, pl, hend, hres, -, ⟨-, h⟩ | ⟨hne, hfree, h⟩⟩ :=
    insertPacket_cases hshape hrec rm hround hI
  · exact h
  · -- the packet would lead at a free row, which a member of the span does not
    have hlt := (hres.start_lt hne).trans_le hshape.index_le
    have hvec := hend.2.resolve_left (by simp [hne])
    have hin := hshape.echelon.lead_mem hmem (hvec ▸ leadsAt_coeffVec hres hne hlt)
    exact (hfree (CodedBlock.mem_occupied.mp hin)).elim

end Ctcp
