import Ctcp.Verification.Decoder.Counts

/-! # What an acknowledgement says -/

namespace Ctcp

open Function

variable {allow : FifoCall → ℕ → Prop} {rm : Residue} {msg : DataPckt} {csk mid csk' : Client}
  {t : List (FifoCall × ℕ)}

/-! ## Degrees of freedom over one packet -/

theorem AbsorbSpec.dofs_le (h : AbsorbSpec rm msg csk mid) (hshape : ClientShape csk)
    (hmsg : InBlock msg) {b : ℕ} (hb : csk.InWindow b) :
    (csk.block b).dofs ≤ (mid.block b).dofs := by
  by_cases habs : b = msg.blockno ∧ csk.Absorbs msg
  · obtain ⟨rfl, habs⟩ := habs
    obtain ⟨blk, heq, hspec⟩ := insertPacket_spec
      ((hshape.block msg.blockno).recordIndex hmsg) recorded_recordIndex rm
    rw [Option.some.inj ((h.absorbed habs).symm.trans heq)]
    exact hspec.dofs_le
  · rcases h.other b hb habs with heq | ⟨-, -, heq⟩
    · exact (congrArg CodedBlock.dofs heq).ge
    · exact (congrArg CodedBlock.dofs heq).ge

theorem AbsorbSpec.inWindow_iff (h : AbsorbSpec rm msg csk mid) {b : ℕ} :
    mid.InWindow b ↔ csk.InWindow b := by
  rw [Client.InWindow, h.curr_eq, Client.InWindow]

/-- What the client has of a block never shrinks. -/
theorem AbsorbSpec.dofsOf_le (h : AbsorbSpec rm msg csk mid) (hshape : ClientShape csk)
    (hmsg : InBlock msg) (b : ℕ) : csk.dofsOf b ≤ mid.dofsOf b := by
  by_cases hb : csk.InWindow b
  · rw [hb.dofsOf_eq, (h.inWindow_iff.mpr hb).dofsOf_eq]
    exact h.dofs_le hshape hmsg hb
  · refine le_of_eq ?_
    rw [Client.InWindow, not_and_or, not_le, not_lt] at hb
    simp only [Client.dofsOf, h.curr_eq]
    by_cases hlt : b < csk.currBlock
    · rw [if_pos hlt, if_pos hlt]
    · rw [if_neg hlt, if_neg hlt, if_neg (by omega), if_neg (by omega)]

/-- A packet raises `maxPacketIndex` of its own block only, as long as it is not for
a block too far ahead. -/
theorem AbsorbSpec.index_le (h : AbsorbSpec rm msg csk mid) (hshape : ClientShape csk)
    (hmsg : InBlock msg) (hahead : msg.blockno < csk.currBlock + numBlocks) {len : ℕ → ℕ}
    (hlen : msg.startPacket.toNat + msg.numPackets.toNat ≤ len msg.blockno)
    (hindex : ∀ b, csk.InWindow b → (csk.block b).maxPacketIndex ≤ len b) {b : ℕ}
    (hb : csk.InWindow b) : (mid.block b).maxPacketIndex ≤ len b := by
  have hmax : b = msg.blockno →
      (recordIndex (csk.block b) msg).maxPacketIndex ≤ len b := by
    rintro rfl
    exact max_le hlen (hindex _ hb)
  by_cases habs : b = msg.blockno ∧ csk.Absorbs msg
  · obtain ⟨rfl, habs⟩ := habs
    obtain ⟨blk, heq, hspec⟩ := insertPacket_spec
      ((hshape.block msg.blockno).recordIndex hmsg) recorded_recordIndex rm
    rw [Option.some.inj ((h.absorbed habs).symm.trans heq), hspec.index_eq]
    exact hmax rfl
  · rcases h.other b hb habs with heq | ⟨hcurr, hs, heq⟩
    · exact heq ▸ hindex b hb
    · rw [heq]
      exact hmax (slot_inj hs hb.1 hb.2 hcurr hahead)

theorem DeliverSpec.index_le (h : DeliverSpec allow mid t csk') {len : ℕ → ℕ}
    (hindex : ∀ b, mid.InWindow b → (mid.block b).maxPacketIndex ≤ len b) {b : ℕ}
    (hb : csk'.InWindow b) : (csk'.block b).maxPacketIndex ≤ len b := by
  rcases h.window b hb with ⟨hin, hkept⟩ | ⟨-, blk, hkept⟩
  · exact hkept.index_eq ▸ hindex b hin
  · rw [hkept.index_eq]
    exact Nat.zero_le _

/-! ## The acknowledgement -/

/-- The skip-ahead loop stops at the first block that is not full, or at the end of
the ring. -/
theorem skipAhead_stops (fuel : ℕ) {b : ℕ} (hfuel : csk.currBlock + numBlocks ≤ b + fuel)
    (hle : b ≤ csk.currBlock + numBlocks) :
    ∃ b', skipAhead csk fuel b (csk.block b).dofs = (b', (csk.block b').dofs) ∧ b ≤ b' ∧
      b' ≤ csk.currBlock + numBlocks ∧ (∀ c, b ≤ c → c < b' → csk.Full c) ∧
      (b' < csk.currBlock + numBlocks → ¬csk.Full b') := by
  induction fuel generalizing b with
  | zero => exact ⟨b, rfl, le_rfl, hle, fun c hc hc' => absurd hc' (Nat.not_lt.mpr hc), by omega⟩
  | succ fuel ih =>
      by_cases hgo : (csk.block b).dofs = (csk.block b).len ∧ b < csk.currBlock + numBlocks
      · obtain ⟨b', heq, hle', hend, hfull, hopen⟩ := @ih (b + 1) (by omega) hgo.2
        refine ⟨b', by rw [skipAhead, if_pos hgo, heq], by omega, hend, fun c hc hc' => ?_, hopen⟩
        by_cases he : c = b
        · rw [he]
          exact hgo.1
        · exact hfull c (by omega) hc'
      · exact ⟨b, by rw [skipAhead, if_neg hgo], le_rfl, hle,
          fun c hc hc' => absurd hc' (Nat.not_lt.mpr hc), fun hlt hfull => hgo ⟨hfull, hlt⟩⟩

/-- The client has every block before the one that an acknowledgement names, and at least
as much of that block as it says. -/
theorem buildAck_dofsOf (h : ClientShape mid) (seqno : ℕ) :
    (∀ b < (buildAck mid seqno).blockno, mid.dofsOf b = blockSize) ∧
      (buildAck mid seqno).dofRec.toNat ≤ mid.dofsOf (buildAck mid seqno).blockno := by
  obtain ⟨b, heq, hle, hend, hfull, -⟩ :=
    skipAhead_stops numBlocks (le_refl (mid.currBlock + numBlocks)) (Nat.le_add_right _ _)
  simp only [buildAck, heq]
  constructor
  · intro c hc
    by_cases hdec : c < mid.currBlock
    · rw [Client.dofsOf, if_pos hdec]
    · have hin : mid.InWindow c := ⟨Nat.not_lt.mp hdec, hc.trans_le hend⟩
      rw [hin.dofsOf_eq, hfull c hin.1 hc, (h.block c).len_eq]
  · by_cases hlast : mid.currBlock + numBlocks ≤ b
    · rw [if_pos hlast]
      exact Nat.zero_le _
    · have hin : mid.InWindow b := ⟨hle, Nat.not_le.mp hlast⟩
      rw [if_neg hlast, hin.dofsOf_eq, UInt8.toNat_ofNat']
      exact Nat.mod_le _ _

/-- The loop before delivery finds the block that delivery ends at: both are the first
that is not full. -/
theorem skipAhead_eq (h : DeliverEnds mid csk') :
    skipAhead mid numBlocks mid.currBlock (mid.block mid.currBlock).dofs =
      (csk'.currBlock, (mid.block csk'.currBlock).dofs) := by
  obtain ⟨b, heq, hle, hend, hfull, hopen⟩ :=
    skipAhead_stops numBlocks (le_refl (mid.currBlock + numBlocks)) (Nat.le_add_right _ _)
  have hadd := h.le_add
  have hb : b = csk'.currBlock := by
    rcases lt_trichotomy b csk'.currBlock with hlt | he | hgt
    · exact (hopen (by omega) (h.full b hle hlt)).elim
    · exact he
    · have hkept := h.kept _ le_rfl (by omega)
      have hcurr : mid.Full csk'.currBlock := hfull _ h.le hgt
      refine (h.rest ?_).elim
      rw [Client.Full, hkept.dofs_eq, hkept.len_eq]
      exact hcurr
  rw [heq, hb]

/-- The acknowledgement names the block that is current after delivery, and the
degrees of freedom of that block. -/
theorem buildAck_eq (h : DeliverEnds mid csk') (seqno : ℕ) :
    (buildAck mid seqno).blockno = csk'.currBlock ∧
      (buildAck mid seqno).dofRec = UInt8.ofNat (csk'.block csk'.currBlock).dofs := by
  simp only [buildAck, skipAhead_eq h]
  refine ⟨trivial, ?_⟩
  by_cases hlast : mid.currBlock + numBlocks ≤ csk'.currBlock
  · rw [if_pos hlast, (h.fresh _ csk'.inWindow_currBlock hlast).1]
    rfl
  · rw [if_neg hlast, (h.kept _ le_rfl (Nat.not_le.mp hlast)).dofs_eq]

theorem DeliverSpec.ends (h : DeliverSpec allow mid t csk') (hmid : ClientShape mid) :
    DeliverEnds mid csk' where
  le := h.le
  full b hb hb' := (h.full b hb hb').trans (hmid.block b).len_eq.symm
  kept b hb hlt := by
    rcases h.window b ⟨hb, hlt.trans_le (Nat.add_le_add_right h.le _)⟩ with
      ⟨-, hkept⟩ | ⟨hge, -⟩
    · exact ⟨hkept.dofs_eq, (h.shape.block b).len_eq.trans (hmid.block b).len_eq.symm,
        hkept.index_eq⟩
    · exact absurd hlt (Nat.not_lt.mpr hge)
  fresh b hb hge := by
    rcases h.window b hb with ⟨hin, -⟩ | ⟨-, blk, hkept⟩
    · exact absurd hin.2 (Nat.not_lt.mpr hge)
    · exact ⟨hkept.dofs_eq, (h.shape.block b).len_eq⟩
  le_add := h.le_add
  rest := by
    rw [Client.Full, (h.shape.block _).len_eq]
    exact h.rest.ne

end Ctcp
