import Ctcp.Verification.Decoder.Rows

/-! # The elimination loop of `bldack` -/

namespace Ctcp

open Function Submodule

/-! ## The shape of a block -/

/-- The rows that hold an equation. -/
def CodedBlock.occupied (blk : CodedBlock) : Finset (Fin blockSize) :=
  Finset.univ.filter fun r => blk.Occupied r

theorem CodedBlock.mem_occupied {blk : CodedBlock} {r : Fin blockSize} :
    r ∈ blk.occupied ↔ blk.Occupied r := by simp [CodedBlock.occupied]

/-- What holds of every block whatever the payloads are. -/
structure BlockShape (blk : CodedBlock) : Prop where
  len_eq : blk.len = blockSize
  lead : ∀ r < blockSize, blk.Occupied r → blk.rows r 0 = 1
  rowLen_pos : ∀ r < blockSize, blk.Occupied r → 0 < blk.rowLen r
  rowLen_le : ∀ r < blockSize, blk.Occupied r → r + blk.rowLen r ≤ blockSize
  support : ∀ r < blockSize, blk.Occupied r → ∀ k < blk.rowLen r, blk.rows r k ≠ 0 →
    r + k < blk.maxPacketIndex
  held : ∀ r < blockSize, blk.Occupied r → (blk.content r).isSome
  dofs_eq : blk.dofs = blk.occupied.card
  index_le : blk.maxPacketIndex ≤ blockSize
  pushed_le : blk.dofsPushed ≤ blockSize
  pushed : ∀ r < blk.dofsPushed, blk.Decoded r

namespace BlockShape

variable {blk : CodedBlock}

/-- An occupied row lies below `maxPacketIndex`, because its leading entry does. -/
theorem lt_index (h : BlockShape blk) {r : ℕ} (hr : r < blockSize) (hocc : blk.Occupied r) :
    r < blk.maxPacketIndex := by
  refine h.support r hr hocc 0 (h.rowLen_pos r hr hocc) ?_
  rw [h.lead r hr hocc]
  decide

theorem occupied_subset (h : BlockShape blk) :
    blk.occupied.map Fin.valEmbedding ⊆ Finset.range blk.maxPacketIndex := by
  intro r hr
  obtain ⟨i, hi, rfl⟩ := Finset.mem_map.mp hr
  exact Finset.mem_range.mpr (h.lt_index i.2 (CodedBlock.mem_occupied.mp hi))

theorem dofs_le_index (h : BlockShape blk) : blk.dofs ≤ blk.maxPacketIndex := by
  simpa [h.dofs_eq] using Finset.card_le_card h.occupied_subset

theorem dofs_le (h : BlockShape blk) : blk.dofs ≤ blockSize := h.dofs_le_index.trans h.index_le

theorem dofs_eq_index_of_full (h : BlockShape blk) (hfull : blk.dofs = blockSize) :
    blk.dofs = blk.maxPacketIndex :=
  le_antisymm h.dofs_le_index (hfull ▸ h.index_le)

/-- When the degrees of freedom reach `maxPacketIndex`, all rows below it are there. -/
theorem occupied_of_dofs_eq (h : BlockShape blk) (hd : blk.dofs = blk.maxPacketIndex) {r : ℕ}
    (hr : r < blk.maxPacketIndex) : blk.Occupied r := by
  have heq := Finset.eq_of_subset_of_card_le h.occupied_subset (by simp [← h.dofs_eq, hd])
  obtain ⟨i, hi, rfl⟩ := Finset.mem_map.mp (heq ▸ Finset.mem_range.mpr hr)
  exact CodedBlock.mem_occupied.mp hi

theorem echelon (h : BlockShape blk) : Echelon blk.occupied fun r => blk.rowVec r where
  lead r hr := by
    have hocc := CodedBlock.mem_occupied.mp hr
    simp only [CodedBlock.rowVec, place, le_refl, if_true, Nat.sub_self,
      h.rowLen_pos r r.2 hocc, h.lead r r.2 hocc, GF256.mk_one]
  low r _ j hj := if_neg (Nat.not_le.mpr hj)

end BlockShape

theorem not_occupied_init (blk : CodedBlock) {r : ℕ} (hr : r < blockSize) :
    ¬(initCodedBlock blk).Occupied r := by
  simp [CodedBlock.Occupied, initCodedBlock, hr]

theorem occupied_init (blk : CodedBlock) : (initCodedBlock blk).occupied = ∅ :=
  Finset.filter_eq_empty_iff.mpr fun r _ => not_occupied_init blk r.2

/-- A block just initialised. -/
theorem blockShape_init (blk : CodedBlock) : BlockShape (initCodedBlock blk) where
  len_eq := rfl
  lead _ hr h := (not_occupied_init blk hr h).elim
  rowLen_pos _ hr h := (not_occupied_init blk hr h).elim
  rowLen_le _ hr h := (not_occupied_init blk hr h).elim
  support _ hr h := (not_occupied_init blk hr h).elim
  held _ hr h := (not_occupied_init blk hr h).elim
  dofs_eq := by rw [occupied_init]; rfl
  index_le := Nat.zero_le _
  pushed_le := Nat.zero_le _
  pushed r hr := (Nat.not_lt_zero r hr).elim

/-! ## One round -/

/-- What holds of the packet in every round of the loop. -/
structure Residual (blk : CodedBlock) (start : ℕ) (coeff : List UInt8) : Prop where
  length_le : coeff.length ≤ blockSize
  support : ∀ k, coeff.getD k 0 ≠ 0 → start + k < blk.maxPacketIndex
  lead : isEmpty coeff = false → coeff.headD 0 ≠ 0

variable {blk : CodedBlock} {start : ℕ} {coeff : List UInt8} {pl : Payload}

theorem Residual.start_lt (h : Residual blk start coeff) (hne : isEmpty coeff = false) :
    start < blk.maxPacketIndex := h.support 0 (by rw [getD_zero]; exact h.lead hne)

/-- A row shifted to its leading entry is a residual. -/
theorem residual_shiftRow (hlen : coeff.length ≤ blockSize)
    (hsupp : ∀ k, coeff.getD k 0 ≠ 0 → start + k < blk.maxPacketIndex) :
    Residual blk (start + (shiftRow coeff).1) (shiftRow coeff).2 where
  length_le := by rwa [length_shiftRow]
  support k hk := by
    rw [getD_shiftRow] at hk
    have := hsupp _ hk
    omega
  lead h := headD_shiftRow (by rwa [isEmpty_shiftRow] at h)

/-- The packet after a round in which it met row `start`. -/
def nextCoeffs (blk : CodedBlock) (start : ℕ) (coeff : List UInt8) : ℕ × List UInt8 :=
  shiftRow (subtractCoeffs (blk.rows start) (blk.rowLen start) coeff)

theorem length_nextCoeffs : (nextCoeffs blk start coeff).2.length = coeff.length := by
  simp [nextCoeffs]

theorem Residual.next (h : Residual blk start coeff) (hshape : BlockShape blk)
    (hne : isEmpty coeff = false) (hocc : blk.Occupied start) :
    Residual blk (start + (nextCoeffs blk start coeff).1) (nextCoeffs blk start coeff).2 := by
  have hlt : start < blockSize := (h.start_lt hne).trans_le hshape.index_le
  refine residual_shiftRow (by simpa using h.length_le) fun k hk => ?_
  -- a nonzero entry comes from the packet or from the row, and both end in time
  rw [getD_subtractCoeffs] at hk
  by_contra hk'
  have hc : coeff.getD k 0 = 0 := by
    by_contra hc
    exact hk' (h.support k hc)
  have hrow : k < blk.rowLen start → blk.rows start k = 0 := by
    intro hlen
    by_contra hr
    exact hk' (hshape.support start hlt hocc k hlen hr)
  by_cases h₁ : coeff.length ≤ k ∨ k = 0
  · exact hk (if_pos h₁)
  · rw [if_neg h₁, hc] at hk
    by_cases h₂ : k < blk.rowLen start
    · rw [if_pos h₂, hrow h₂] at hk
      exact hk (by simp [fastFFmult])
    · exact hk (if_neg h₂)

/-- Every round moves the packet on, and `start` never wraps around. -/
theorem Residual.next_start (h : Residual blk start coeff) (hshape : BlockShape blk)
    (hne : isEmpty coeff = false) :
    start < start + (nextCoeffs blk start coeff).1 ∧
      (start + (nextCoeffs blk start coeff).1) % 256 =
        start + (nextCoeffs blk start coeff).1 := by
  have hlt : start < blockSize := (h.start_lt hne).trans_le hshape.index_le
  have hcons := length_pos_of_headD (h.lead hne)
  have hzero : (subtractCoeffs (blk.rows start) (blk.rowLen start) coeff).headD 0 = 0 := by
    rw [← getD_zero, getD_subtractCoeffs, if_pos (.inr rfl)]
  have hpos := shiftRow_pos (List.ne_nil_of_length_pos (by simpa using hcons)) hzero
  have hle := shiftRow_le (subtractCoeffs (blk.rows start) (blk.rowLen start) coeff)
  have hlen := h.length_le
  rw [length_subtractCoeffs] at hle
  have h32 : blockSize = 32 := rfl
  constructor
  · exact Nat.lt_add_of_pos_right hpos
  · exact Nat.mod_eq_of_lt (by simp only [nextCoeffs]; omega)

/-! ## The whole loop -/

/-- The loop finds the same in both blocks. -/
structure SameReads (blk other : CodedBlock) : Prop where
  rows_eq : other.rows = blk.rows
  content_eq : other.content = blk.content
  subtract_eq : ∀ start coeff, subtractCoeffs (other.rows start) (other.rowLen start) coeff =
    subtractCoeffs (blk.rows start) (blk.rowLen start) coeff

theorem SameReads.refl (blk : CodedBlock) : SameReads blk blk := ⟨rfl, rfl, fun _ _ => rfl⟩

/-- A round against an occupied row. -/
theorem eliminate_next {other : CodedBlock} (hreads : SameReads blk other)
    (hshape : BlockShape blk) (hres : Residual blk start coeff) (hne : isEmpty coeff = false)
    (hocc : blk.Occupied start) {content : Payload} (hcontent : blk.content start = some content)
    (fuel : ℕ) (pl : Payload) :
    eliminate other (fuel + 1) start coeff pl =
      eliminate other fuel (start + (nextCoeffs blk start coeff).1)
        (nextCoeffs blk start coeff).2 (subtractPayload content (coeff.headD 0) pl) := by
  have hlt : start < blockSize := (hres.start_lt hne).trans_le hshape.index_le
  have hocc' : other.Occupied start := by rwa [CodedBlock.Occupied, hreads.rows_eq]
  have hcontent' : other.content start = some content := by rw [hreads.content_eq, hcontent]
  rw [← (hres.next_start hshape hne).2, nextCoeffs, ← hreads.subtract_eq]
  simp [eliminate, hne, Nat.not_le.mpr hlt, hocc', hcontent']

/-- Every round against a stored row keeps `I`. -/
def RoundKeeps (blk : CodedBlock) (I : ℕ → ℕ → List UInt8 → Payload → Prop) : Prop :=
  ∀ fuel start coeff pl content, Residual blk start coeff → isEmpty coeff = false →
    blk.Occupied start → blk.content start = some content → I (fuel + 1) start coeff pl →
      I fuel (start + (nextCoeffs blk start coeff).1) (nextCoeffs blk start coeff).2
        (subtractPayload content (coeff.headD 0) pl)

/-- The loop carries an invariant to its end, where the packet has either vanished
or become a row. Fuel for the remaining rows is enough. -/
theorem eliminate_cases {other : CodedBlock} (hreads : SameReads blk other)
    (hshape : BlockShape blk) {I : ℕ → ℕ → List UInt8 → Payload → Prop}
    (hround : RoundKeeps blk I) {fuel : ℕ} (hres : Residual blk start coeff)
    (hI : I fuel start coeff pl) (hfuel : blockSize ≤ start + fuel) :
    ∃ fuel' start' coeff' pl', I fuel' start' coeff' pl' ∧ Residual blk start' coeff' ∧
      coeff'.length = coeff.length ∧
      (isEmpty coeff' = true ∧ eliminate other fuel start coeff pl = some other ∨
        isEmpty coeff' = false ∧ ¬blk.Occupied start' ∧
          eliminate other fuel start coeff pl = some (insertRow other start' coeff' pl')) := by
  induction fuel generalizing start coeff pl with
  | zero =>
      have hempty : isEmpty coeff = true := by
        by_contra hne
        have := hres.start_lt (by simpa using hne)
        have := hshape.index_le
        omega
      exact ⟨0, start, coeff, pl, hI, hres, rfl, .inl ⟨hempty, by simp [eliminate, hempty]⟩⟩
  | succ fuel ih =>
      cases hempty : isEmpty coeff with
      | true =>
          exact ⟨_, start, coeff, pl, hI, hres, rfl, .inl ⟨hempty, by simp [eliminate, hempty]⟩⟩
      | false =>
          have hlt : start < blockSize := (hres.start_lt hempty).trans_le hshape.index_le
          by_cases hocc : blk.Occupied start
          · obtain ⟨content, hcontent⟩ := Option.isSome_iff_exists.mp (hshape.held start hlt hocc)
            have hnext := hres.next_start hshape hempty
            obtain ⟨fuel', start', coeff', pl', hI', hres', hlen, hend⟩ :=
              ih (hres.next hshape hempty hocc)
                (hround fuel start coeff pl content hres hempty hocc hcontent hI) (by omega)
            rw [eliminate_next hreads hshape hres hempty hocc hcontent]
            exact ⟨fuel', start', coeff', pl', hI', hres', hlen.trans length_nextCoeffs, hend⟩
          · have hocc' : ¬other.Occupied start := by rwa [CodedBlock.Occupied, hreads.rows_eq]
            refine ⟨_, start, coeff, pl, hI, hres, rfl, .inr ⟨hempty, hocc, ?_⟩⟩
            simp [eliminate, hempty, Nat.not_le.mpr hlt, hocc']

/-! ## Storing a row -/

section insertRow

variable (hres : Residual blk start coeff) (hne : isEmpty coeff = false)
  (hfree : ¬blk.Occupied start)
include hres hne

theorem occupied_insertRow (hshape : BlockShape blk) (r : ℕ) :
    (insertRow blk start coeff pl).Occupied r ↔ r = start ∨ blk.Occupied r := by
  by_cases hr : r = start
  · subst hr
    have hlt := (hres.start_lt hne).trans_le hshape.index_le
    simp [CodedBlock.Occupied, insertRow_rows_zero hlt (hres.lead hne), emptyRow]
  · simp [CodedBlock.Occupied, insertRow_rows_of_ne hr, hr]

theorem occupied_insertRow_eq (hshape : BlockShape blk) (hlt : start < blockSize) :
    (insertRow blk start coeff pl).occupied = insert ⟨start, hlt⟩ blk.occupied := by
  ext r
  rw [CodedBlock.mem_occupied, Finset.mem_insert, CodedBlock.mem_occupied,
    occupied_insertRow hres hne hshape, Fin.ext_iff]

omit hres hne in
include hfree in
theorem decoded_insertRow {r : ℕ} (h : blk.Decoded r) :
    (insertRow blk start coeff pl).Decoded r := by
  have hr : r ≠ start := fun he => hfree (he ▸ h.1)
  simpa [CodedBlock.Decoded, CodedBlock.Occupied, insertRow_rows_of_ne hr,
    insertRow_rowLen_of_ne hr] using h

include hfree in
theorem BlockShape.insertRow (hshape : BlockShape blk) :
    BlockShape (insertRow blk start coeff pl) := by
  have hlt := (hres.start_lt hne).trans_le hshape.index_le
  have hlead := hres.lead hne
  have hocc := @occupied_insertRow _ _ _ pl hres hne hshape
  have hpos := length_pos_of_headD hlead
  exact
    { len_eq := hshape.len_eq
      lead := by
        intro r hr h
        by_cases he : r = start
        · rw [he]
          exact insertRow_rows_zero hlt hlead
        · rw [insertRow_rows_of_ne he]
          exact hshape.lead r hr (((hocc r).mp h).resolve_left he)
      rowLen_pos := by
        intro r hr h
        by_cases he : r = start
        · rw [he, insertRow_rowLen]
          omega
        · rw [insertRow_rowLen_of_ne he]
          exact hshape.rowLen_pos r hr (((hocc r).mp h).resolve_left he)
      rowLen_le := by
        intro r hr h
        by_cases he : r = start
        · rw [he, insertRow_rowLen]
          omega
        · rw [insertRow_rowLen_of_ne he]
          exact hshape.rowLen_le r hr (((hocc r).mp h).resolve_left he)
      support := by
        intro r hr h k hk hrow
        by_cases he : r = start
        · subst he
          rw [insertRow_rowLen] at hk
          refine hres.support k fun hc => ?_
          have hval := mk_insertRow_rows blk pl hlead hk
          rw [hc, GF256.mk_zero, mul_zero] at hval
          exact hrow (congrArg GF256.byte hval)
        · rw [insertRow_rowLen_of_ne he] at hk
          rw [insertRow_rows_of_ne he] at hrow
          exact hshape.support r hr (((hocc r).mp h).resolve_left he) k hk hrow
      held := by
        intro r hr h
        by_cases he : r = start
        · obtain ⟨content, hcontent, _⟩ :=
            insertRow_content blk pl hlead hlt
          rw [he, hcontent]
          rfl
        · rw [insertRow_content_of_ne he]
          exact hshape.held r hr (((hocc r).mp h).resolve_left he)
      dofs_eq := by
        have hnot : (⟨start, hlt⟩ : Fin blockSize) ∉ blk.occupied := by
          rwa [CodedBlock.mem_occupied]
        rw [occupied_insertRow_eq hres hne hshape hlt, Finset.card_insert_of_notMem hnot,
          insertRow_dofs, hshape.dofs_eq]
      index_le := hshape.index_le
      pushed_le := hshape.pushed_le
      pushed := fun r hr => decoded_insertRow hfree (hshape.pushed r hr) }

end insertRow

/-! ## An arriving packet -/

/-- The packet at the start of the loop. -/
def arriving (rm : Residue) (msg : DataPckt) : ℕ × List UInt8 :=
  (msg.startPacket.toNat + (shiftRow (arrivingCoeffs rm msg)).1,
    (shiftRow (arrivingCoeffs rm msg)).2)

@[simp] theorem length_arrivingCoeffs (rm : Residue) (msg : DataPckt) :
    (arrivingCoeffs rm msg).length = msg.numPackets.toNat := by
  unfold arrivingCoeffs
  split <;> simp

theorem length_arriving (rm : Residue) (msg : DataPckt) :
    (arriving rm msg).2.length = msg.numPackets.toNat := by simp [arriving]

/-- The largest row the packet mentions has been recorded. -/
def Recorded (blk : CodedBlock) (msg : DataPckt) : Prop :=
  msg.startPacket.toNat + msg.numPackets.toNat ≤ blk.maxPacketIndex

theorem residual_arriving (hshape : BlockShape blk) {msg : DataPckt} (hrec : Recorded blk msg)
    (rm : Residue) : Residual blk (arriving rm msg).1 (arriving rm msg).2 := by
  have hindex := hshape.index_le
  unfold Recorded at hrec
  refine residual_shiftRow (by rw [length_arrivingCoeffs]; omega) fun k hk => ?_
  by_contra hout
  refine hk (List.getD_eq_default _ _ ?_)
  rw [length_arrivingCoeffs]
  omega

/-- What a packet can do to its block: nothing, or store one new row. Any
invariant of the rounds holds where the loop ends. -/
theorem insertPacket_cases (hshape : BlockShape blk) {msg : DataPckt} (hrec : Recorded blk msg)
    (rm : Residue) {I : ℕ → ℕ → List UInt8 → Payload → Prop} (hround : RoundKeeps blk I)
    (hI : I blockSize (arriving rm msg).1 (arriving rm msg).2 msg.payload) :
    ∃ fuel start coeff pl, I fuel start coeff pl ∧ Residual blk start coeff ∧
      coeff.length = msg.numPackets.toNat ∧
      (isEmpty coeff = true ∧ insertPacket rm blk msg = some blk ∨
        isEmpty coeff = false ∧ ¬blk.Occupied start ∧
          insertPacket rm blk msg = some (insertRow blk start coeff pl)) := by
  obtain ⟨fuel, start, coeff, pl, hend, hres, hlen, hcases⟩ :=
    eliminate_cases (.refl blk) hshape hround (residual_arriving hshape hrec rm) hI
      (Nat.le_add_left _ _)
  have hindex := hshape.index_le
  unfold Recorded at hrec
  have h32 : blockSize = 32 := rfl
  have hstart : (arriving rm msg).1 % 256 = (arriving rm msg).1 := by
    have hle := shiftRow_le (arrivingCoeffs rm msg)
    rw [length_arrivingCoeffs] at hle
    refine Nat.mod_eq_of_lt ?_
    simp only [arriving]
    omega
  have heq : insertPacket rm blk msg =
      eliminate blk blockSize (arriving rm msg).1 (arriving rm msg).2 msg.payload := by
    rw [← hstart]
    simp only [insertPacket, arriving]
    rw [if_neg (by omega)]
  rw [heq]
  exact ⟨fuel, start, coeff, pl, hend, hres, hlen.trans (length_arriving rm msg), hcases⟩

/-- A block after a packet. -/
structure InsertSpec (blk blk' : CodedBlock) : Prop where
  shape : BlockShape blk'
  pushed_eq : blk'.dofsPushed = blk.dofsPushed
  index_eq : blk'.maxPacketIndex = blk.maxPacketIndex
  dofs_le : blk.dofs ≤ blk'.dofs

/-- A packet never faults and keeps the shape of its block. -/
theorem insertPacket_spec (hshape : BlockShape blk) {msg : DataPckt} (hrec : Recorded blk msg)
    (rm : Residue) : ∃ blk', insertPacket rm blk msg = some blk' ∧ InsertSpec blk blk' := by
  obtain ⟨_, start, coeff, pl, -, hres, -, ⟨-, heq⟩ | ⟨hne, hfree, heq⟩⟩ :=
    insertPacket_cases hshape hrec rm (I := fun _ _ _ _ => True)
      (fun _ _ _ _ _ _ _ _ _ _ => trivial) trivial
  · exact ⟨_, heq, hshape, rfl, rfl, le_rfl⟩
  · exact ⟨_, heq, hshape.insertRow hres hne hfree, rfl, rfl, Nat.le_succ _⟩

end Ctcp
