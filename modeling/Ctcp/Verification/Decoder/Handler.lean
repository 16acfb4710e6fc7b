import Ctcp.Verification.Decoder.Delivery

/-! # One packet through `unmarshallData` and `bldack` -/

namespace Ctcp

open Function Program

/-! ## Blocks and slots -/

namespace Client

variable {csk : Client} {b b' : ℕ} {blk : CodedBlock}

@[simp] theorem setBlock_currBlock : (csk.setBlock b blk).currBlock = csk.currBlock := rfl

@[simp] theorem block_setBlock_self : (csk.setBlock b blk).block b = blk := update_self _ _ _

theorem block_setBlock_of_slot_ne (h : slot b' ≠ slot b) :
    (csk.setBlock b blk).block b' = csk.block b' := update_of_ne h _ _

theorem block_setBlock_of_slot_eq (h : slot b' = slot b) :
    (csk.setBlock b blk).block b' = blk := by
  rw [block, h]
  exact update_self _ _ _

/-- Block `b` is one of those that the ring can hold now. -/
def InWindow (csk : Client) (b : ℕ) : Prop :=
  csk.currBlock ≤ b ∧ b < csk.currBlock + numBlocks

instance (csk : Client) (b : ℕ) : Decidable (csk.InWindow b) :=
  inferInstanceAs (Decidable (_ ∧ _))

theorem inWindow_currBlock (csk : Client) : csk.InWindow csk.currBlock :=
  ⟨le_rfl, Nat.lt_add_of_pos_right (by decide)⟩

theorem InWindow.slot_ne {c : ℕ} (hc : csk.InWindow c) (hb : csk.InWindow b) (hne : b ≠ c) :
    slot b ≠ slot c := fun h => hne (slot_inj h hb.1 hb.2 hc.1 hc.2)

/-- Degrees of freedom the client has for block `b`: all of them once it is decoded. -/
def dofsOf (csk : Client) (b : ℕ) : ℕ :=
  if b < csk.currBlock then blockSize
  else if b < csk.currBlock + numBlocks then (csk.block b).dofs
  else 0

theorem InWindow.dofsOf_eq (h : csk.InWindow b) : csk.dofsOf b = (csk.block b).dofs := by
  rw [dofsOf, if_neg (Nat.not_lt.mpr h.1), if_pos h.2]

/-- Number of source rows handed to the application. -/
def rowsPushed (csk : Client) : ℕ :=
  blockSize * (csk.currBlock - 1) + (csk.block csk.currBlock).dofsPushed

end Client

/-- What holds of the client between any two steps of `bldack`. -/
structure ClientShape (csk : Client) : Prop where
  shape : ∀ k, BlockShape (csk.blocks k)
  curr_pos : 1 ≤ csk.currBlock
  unpushed : ∀ b, csk.InWindow b → b ≠ csk.currBlock → (csk.block b).dofsPushed = 0

theorem ClientShape.block {csk : Client} (h : ClientShape csk) (b : ℕ) :
    BlockShape (csk.block b) := h.shape _

/-- Every block of the window is sound for its own source rows. -/
def ClientSound (p : ℕ → ℕ → Payload) (csk : Client) : Prop :=
  ∀ b, csk.InWindow b → BlockSound (p b) (csk.block b)

/-- All source rows are framed. -/
def AllFramed (p : ℕ → ℕ → Payload) : Prop := ∀ b r, (p b r).Framed

theorem ClientShape.setBlock {csk : Client} (h : ClientShape csk) {b : ℕ} {blk : CodedBlock}
    (hblk : BlockShape blk)
    (hpushed : ∀ b', csk.InWindow b' → slot b' = slot b → b' ≠ csk.currBlock →
      blk.dofsPushed = 0) : ClientShape (csk.setBlock b blk) where
  shape k := by
    by_cases hk : k = slot b
    · rw [hk]
      simpa [Client.setBlock] using hblk
    · simpa [Client.setBlock, hk] using h.shape k
  curr_pos := h.curr_pos
  unpushed b' hb' hne := by
    by_cases hs : slot b' = slot b
    · rw [Client.block_setBlock_of_slot_eq hs]
      exact hpushed b' hb' hs hne
    · rw [Client.block_setBlock_of_slot_ne hs]
      exact h.unpushed b' hb' hne

theorem clientShape_create (raw : ℕ → CodedBlock) : ClientShape (createClictcpSock raw) where
  shape _ := blockShape_init _
  curr_pos := le_rfl
  unpushed _ _ _ := rfl

theorem clientSound_create (p : ℕ → ℕ → Payload) (raw : ℕ → CodedBlock) :
    ClientSound p (createClictcpSock raw) := fun b _ => blockSound_init (p b) _

/-! ## The decode loop -/

variable {allow : FifoCall → ℕ → Prop} {rm : Residue} {csk csk' : Client}

/-- What delivery does: it decodes the leading full blocks and leaves the
equations of all others alone. -/
structure DeliverSpec (allow : FifoCall → ℕ → Prop) (csk : Client) (t : List (FifoCall × ℕ))
    (csk' : Client) : Prop where
  shape : ClientShape csk'
  le : csk.currBlock ≤ csk'.currBlock
  le_add : csk'.currBlock ≤ csk.currBlock + numBlocks
  full : ∀ b, csk.currBlock ≤ b → b < csk'.currBlock → (csk.block b).dofs = blockSize
  rest : (csk'.block csk'.currBlock).dofs < blockSize
  window : ∀ b, csk'.InWindow b →
    (csk.InWindow b ∧ Kept (csk.block b) (csk'.block b)) ∨
      (csk.currBlock + numBlocks ≤ b ∧ ∃ blk, Kept (initCodedBlock blk) (csk'.block b))
  out : Refused allow ∨ ∀ p, ClientSound p csk → AllFramed p →
    sourceBytes p csk'.rowsPushed = sourceBytes p csk.rowsPushed ++ pushedBytes t

namespace DeliverSpec

variable {t : List (FifoCall × ℕ)}

/-- Delivery does not change what the client knows about any block. -/
theorem dofsOf_eq (h : DeliverSpec allow csk t csk') : csk'.dofsOf = csk.dofsOf := by
  funext b
  have hle := h.le
  have hadd := h.le_add
  simp only [Client.dofsOf]
  by_cases h₁ : b < csk'.currBlock
  · rw [if_pos h₁]
    by_cases h₂ : b < csk.currBlock
    · rw [if_pos h₂]
    · rw [if_neg h₂, if_pos (by omega), h.full b (by omega) h₁]
  · rw [if_neg h₁, if_neg (show ¬b < csk.currBlock by omega)]
    by_cases h₂ : b < csk'.currBlock + numBlocks
    · rw [if_pos h₂]
      rcases h.window b ⟨by omega, h₂⟩ with ⟨hin, hkept⟩ | ⟨hout, blk, hkept⟩
      · rw [if_pos hin.2, hkept.dofs_eq]
      · rw [if_neg (by omega), hkept.dofs_eq]
        rfl
    · rw [if_neg h₂, if_neg (by omega)]

theorem sound (h : DeliverSpec allow csk t csk') {p : ℕ → ℕ → Payload}
    (hp : ClientSound p csk) : ClientSound p csk' := by
  intro b hb
  rcases h.window b hb with ⟨hin, hkept⟩ | ⟨-, blk, hkept⟩
  · exact hkept.sound _ (hp b hin)
  · exact hkept.sound _ (blockSound_init _ _)

end DeliverSpec

/-- The state after one round of the decode loop. -/
def nextBlock (csk : Client) (blk : CodedBlock) : Client :=
  { csk.setBlock csk.currBlock (initCodedBlock blk) with currBlock := csk.currBlock + 1 }

theorem nextBlock_block_of_ne {blk : CodedBlock} {b : ℕ} (hb : csk.InWindow b)
    (hne : b ≠ csk.currBlock) : (nextBlock csk blk).block b = csk.block b :=
  Client.block_setBlock_of_slot_ne (csk.inWindow_currBlock.slot_ne hb hne)

theorem nextBlock_block_last {blk : CodedBlock} :
    (nextBlock csk blk).block (csk.currBlock + numBlocks) = initCodedBlock blk :=
  Client.block_setBlock_of_slot_eq (slot_add_numBlocks _)

/-- The blocks of the new window: one old block left it and a fresh one came in. -/
theorem nextBlock_window {blk : CodedBlock} {b : ℕ} (hb : (nextBlock csk blk).InWindow b) :
    (csk.InWindow b ∧ b ≠ csk.currBlock ∧ (nextBlock csk blk).block b = csk.block b) ∨
      (b = csk.currBlock + numBlocks ∧ (nextBlock csk blk).block b = initCodedBlock blk) := by
  obtain ⟨h₁, h₂⟩ := hb
  simp only [nextBlock] at h₁ h₂
  by_cases hlast : b = csk.currBlock + numBlocks
  · exact .inr ⟨hlast, hlast ▸ nextBlock_block_last⟩
  · have hin : csk.InWindow b := ⟨by omega, by omega⟩
    have hne : b ≠ csk.currBlock := by omega
    exact .inl ⟨hin, hne, nextBlock_block_of_ne hin hne⟩

theorem ClientShape.nextBlock (h : ClientShape csk) (blk : CodedBlock) :
    ClientShape (nextBlock csk blk) where
  shape k := by
    by_cases hk : k = slot csk.currBlock
    · rw [hk]
      simpa [Ctcp.nextBlock, Client.setBlock] using blockShape_init blk
    · simpa [Ctcp.nextBlock, Client.setBlock, hk] using h.shape k
  curr_pos := Nat.le_add_left _ _
  unpushed b hb hne := by
    rcases nextBlock_window hb with ⟨hin, hne', heq⟩ | ⟨-, heq⟩
    · rw [heq]
      exact h.unpushed b hin hne'
    · rw [heq]
      rfl

theorem ClientSound.nextBlock {p : ℕ → ℕ → Payload} (h : ClientSound p csk) (blk : CodedBlock) :
    ClientSound p (nextBlock csk blk) := by
  intro b hb
  rcases nextBlock_window hb with ⟨hin, -, heq⟩ | ⟨-, heq⟩
  · rw [heq]
    exact h b hin
  · rw [heq]
    exact blockSound_init _ _

theorem rowsPushed_nextBlock (h : ClientShape csk) (blk : CodedBlock) :
    (nextBlock csk blk).rowsPushed = blockSize * (csk.currBlock - 1) + blockSize := by
  have hpos := h.curr_pos
  have hzero : ((nextBlock csk blk).block (csk.currBlock + 1)).dofsPushed = 0 := by
    have hin : csk.InWindow (csk.currBlock + 1) :=
      ⟨Nat.le_succ _, Nat.add_lt_add_left (by decide) _⟩
    rw [nextBlock_block_of_ne hin (Nat.succ_ne_self _)]
    exact h.unpushed _ hin (Nat.succ_ne_self _)
  change blockSize * (csk.currBlock + 1 - 1) +
    ((nextBlock csk blk).block (csk.currBlock + 1)).dofsPushed = _
  rw [hzero, Nat.add_zero, Nat.add_sub_cancel, ← Nat.mul_succ, Nat.succ_eq_add_one,
    Nat.sub_add_cancel hpos]

/-- One decoded block in front of a delivery. -/
theorem DeliverSpec.cons (h : ClientShape csk)
    (hfull : (csk.block csk.currBlock).dofs = blockSize) {blk : CodedBlock}
    {t t' : List (FifoCall × ℕ)}
    (hout : Refused allow ∨ ∀ p, BlockSound p (csk.block csk.currBlock) →
      (∀ r < blockSize, (p r).Framed) →
      pushedBytes t = rowBytes p (csk.block csk.currBlock).dofsPushed
        (blockSize - (csk.block csk.currBlock).dofsPushed))
    (hle : csk'.currBlock ≤ csk.currBlock + numBlocks)
    (hrest : DeliverSpec allow (nextBlock csk blk) t' csk') :
    DeliverSpec allow csk (t ++ t') csk' where
  shape := hrest.shape
  le := (Nat.le_succ _).trans hrest.le
  le_add := hle
  full b hb hb' := by
    by_cases he : b = csk.currBlock
    · rw [he, hfull]
    · have hfull' := hrest.full b (Nat.lt_of_le_of_ne hb (Ne.symm he)) hb'
      rwa [nextBlock_block_of_ne ⟨hb, hb'.trans_le hle⟩ he] at hfull'
  rest := hrest.rest
  window b hb := by
    rcases hrest.window b hb with ⟨hin, hkept⟩ | ⟨hge, blk', hkept⟩
    · rcases nextBlock_window hin with ⟨hin', -, heq⟩ | ⟨heq', heq⟩
      · exact .inl ⟨hin', heq ▸ hkept⟩
      · exact .inr ⟨heq'.ge, blk, heq ▸ hkept⟩
    · exact .inr ⟨(Nat.add_le_add_right (Nat.le_succ _) _).trans hge, blk', hkept⟩
  out := by
    rcases hout with href | hout
    · exact .inl href
    refine hrest.out.imp id fun hrest' p hp hframed => ?_
    have hpushed := (h.block csk.currBlock).pushed_le
    rw [hrest' p (hp.nextBlock blk) hframed, rowsPushed_nextBlock h, pushedBytes_append,
      hout _ (hp _ csk.inWindow_currBlock) fun r _ => hframed _ r, ← List.append_assoc,
      Client.rowsPushed, ← sourceBytes_add p h.curr_pos (by omega), Nat.add_assoc,
      Nat.add_sub_cancel' hpushed]

theorem decodeBlocks_spec (h : ClientShape csk) {fuel : ℕ} (hfuel : fuel ≤ numBlocks)
    (hfresh : ∀ b, csk.InWindow b → csk.currBlock + fuel ≤ b → (csk.block b).dofs < blockSize) :
    (decodeBlocks rm fuel csk).Ensures allow fun t res =>
      ∃ csk', res = some csk' ∧ csk'.currBlock ≤ csk.currBlock + fuel ∧
        DeliverSpec allow csk t csk' := by
  have hstop : ∀ csk, ClientShape csk → (csk.block csk.currBlock).dofs < blockSize →
      DeliverSpec allow csk [] csk := by
    intro csk h hopen
    exact ⟨h, le_rfl, Nat.le_add_right _ _, fun b hb hb' => absurd hb' (Nat.not_lt.mpr hb), hopen,
      fun b hb => .inl ⟨hb, .refl _⟩, .inr fun p _ _ => (List.append_nil _).symm⟩
  induction fuel generalizing csk with
  | zero => exact ⟨csk, rfl, le_rfl, hstop csk h (hfresh _ csk.inWindow_currBlock le_rfl)⟩
  | succ fuel ih =>
      have hblk := h.block csk.currBlock
      by_cases hfull : (csk.block csk.currBlock).dofs = (csk.block csk.currBlock).len
      · rw [hblk.len_eq] at hfull
        have hindex := hblk.dofs_eq_index_of_full hfull
        obtain ⟨blk, heq, hun⟩ := unwrap_spec hblk hindex
        have hdec : ∀ r < blockSize, blk.Decoded r :=
          fun r hr => hun.decoded r (Nat.zero_le _) (by omega)
        simp only [decodeBlocks, hblk.len_eq, if_pos hfull, heq]
        refine Ensures.bind (writeAndFreeBlock_spec hun.shape hdec) ?_
        rintro t _ ⟨rfl, hout⟩
        change (decodeBlocks rm fuel (nextBlock csk blk)).Ensures _ _
        refine (ih (h.nextBlock blk) (Nat.le_of_succ_le hfuel) fun b hb hge => ?_).mono ?_
        · rcases nextBlock_window hb with ⟨hin, -, heq⟩ | ⟨-, heq⟩
          · rw [heq]
            refine hfresh b hin ?_
            change csk.currBlock + 1 + fuel ≤ b at hge
            omega
          · rw [heq]
            exact (show 0 < blockSize by decide)
        · rintro t' _ ⟨csk', rfl, hle, hspec⟩
          change csk'.currBlock ≤ csk.currBlock + 1 + fuel at hle
          refine ⟨csk', rfl, by omega, hspec.cons h hfull (hout.imp id ?_) (by omega)⟩
          intro hout p hp hframed
          rw [hout p (hun.sound p hp) hframed, hun.pushed_eq]
      · have hlt : (csk.block csk.currBlock).dofs < blockSize :=
          lt_of_le_of_ne hblk.dofs_le (by rwa [hblk.len_eq] at hfull)
        rw [decodeBlocks, if_neg hfull]
        exact ⟨csk, rfl, Nat.le_add_right _ _, hstop csk h hlt⟩

/-- Delivery out of a block that is not full yet. -/
theorem PartialSpec.deliverSpec (h : ClientShape csk)
    (hopen : (csk.block csk.currBlock).dofs < blockSize) {blk : CodedBlock}
    {t : List (FifoCall × ℕ)} (hspec : PartialSpec allow (csk.block csk.currBlock) t blk) :
    DeliverSpec allow csk t (csk.setBlock csk.currBlock blk) where
  shape := h.setBlock hspec.shape fun b hb hs hne =>
    (csk.inWindow_currBlock.slot_ne hb hne hs).elim
  le := le_rfl
  le_add := Nat.le_add_right _ _
  full b hb hb' := absurd hb' (Nat.not_lt.mpr hb)
  rest := by
    rw [Client.setBlock_currBlock, Client.block_setBlock_self, hspec.kept.dofs_eq]
    exact hopen
  window b hb := by
    refine .inl ⟨hb, ?_⟩
    by_cases he : b = csk.currBlock
    · rw [he, Client.block_setBlock_self]
      exact hspec.kept
    · rw [Client.block_setBlock_of_slot_ne (csk.inWindow_currBlock.slot_ne hb he)]
      exact .refl _
  out := by
    refine hspec.out.imp id fun hout p hp hframed => ?_
    have hle := hspec.pushed_le
    have hle' := hspec.shape.pushed_le
    have hrows : (csk.setBlock csk.currBlock blk).rowsPushed =
        blockSize * (csk.currBlock - 1) + blk.dofsPushed := by
      rw [Client.rowsPushed, Client.setBlock_currBlock, Client.block_setBlock_self]
    rw [hrows, Client.rowsPushed, hout _ (hp _ csk.inWindow_currBlock) fun r _ => hframed _ r,
      ← sourceBytes_add p h.curr_pos (by omega), Nat.add_assoc, Nat.add_sub_cancel' hle]

/-- Delivery never faults, whatever the replies are. -/
theorem deliver_spec (h : ClientShape csk) :
    (deliver rm csk).Ensures allow fun t res =>
      ∃ csk', res = some csk' ∧ DeliverSpec allow csk t csk' := by
  have hblk := h.block csk.currBlock
  rw [deliver, hblk.len_eq]
  by_cases hopen : (csk.block csk.currBlock).dofs < blockSize
  · rw [if_pos hopen]
    refine Ensures.bind (partialWrite_spec hblk hopen) ?_
    rintro t _ ⟨blk, rfl, hspec⟩
    have hdone : decodeBlocks rm numBlocks (csk.setBlock csk.currBlock blk) =
        .done (some (csk.setBlock csk.currBlock blk)) := by
      rw [show numBlocks = 99 + 1 from rfl, decodeBlocks, Client.setBlock_currBlock,
        Client.block_setBlock_self, if_neg]
      rw [hspec.shape.len_eq, hspec.kept.dofs_eq]
      exact hopen.ne
    simp only [hdone]
    exact ⟨_, rfl, by simpa using hspec.deliverSpec h hopen⟩
  · rw [if_neg hopen]
    refine (decodeBlocks_spec h le_rfl fun b hb hge => absurd hb.2 (Nat.not_lt.mpr hge)).mono ?_
    rintro t _ ⟨csk', rfl, -, hspec⟩
    exact ⟨csk', rfl, hspec⟩

/-! ## Absorbing a packet -/

/-- A block after `unmarshallData` has seen a packet for its slot. -/
def recordIndex (blk : CodedBlock) (msg : DataPckt) : CodedBlock :=
  { blk with
    maxPacketIndex := max (msg.startPacket.toNat + msg.numPackets.toNat) blk.maxPacketIndex }

/-- The rows a packet mentions lie inside a block. -/
def InBlock (msg : DataPckt) : Prop :=
  msg.startPacket.toNat + msg.numPackets.toNat ≤ blockSize

/-- The packet is neither old nor too far ahead, and its block is not full. -/
def Client.Absorbs (csk : Client) (msg : DataPckt) : Prop :=
  csk.InWindow msg.blockno ∧ (csk.block msg.blockno).dofs < blockSize

variable {blk : CodedBlock} {msg : DataPckt}

theorem BlockShape.recordIndex (h : BlockShape blk) (hmsg : InBlock msg) :
    BlockShape (recordIndex blk msg) :=
  { h with
    support := fun r hr hocc k hk hne =>
      (h.support r hr hocc k hk hne).trans_le (le_max_right _ _)
    index_le := max_le hmsg h.index_le }

theorem BlockSound.recordIndex {p : ℕ → Payload} (h : BlockSound p blk) (hmsg : InBlock msg) :
    BlockSound p (recordIndex blk msg) :=
  ⟨h.toBlockShape.recordIndex hmsg, h.content_eq⟩

theorem recorded_recordIndex : Recorded (recordIndex blk msg) msg := le_max_left _ _

theorem metRows_recordIndex (fuel start : ℕ) (coeff : List UInt8) :
    metRows (recordIndex blk msg) fuel start coeff = metRows blk fuel start coeff := by
  induction fuel generalizing start coeff with
  | zero => rfl
  | succ fuel ih =>
      simp only [metRows, ih]
      rfl

theorem fits_recordIndex : Fits rm (recordIndex blk msg) msg ↔ Fits rm blk msg := by
  rw [Fits, metRows_recordIndex]
  rfl

/-- What one packet does to the blocks of the client. -/
structure AbsorbSpec (rm : Residue) (msg : DataPckt) (csk csk' : Client) : Prop where
  shape : ClientShape csk'
  curr_eq : csk'.currBlock = csk.currBlock
  absorbed : csk.Absorbs msg →
    insertPacket rm (recordIndex (csk.block msg.blockno) msg) msg =
      some (csk'.block msg.blockno)
  other : ∀ b, csk.InWindow b → ¬(b = msg.blockno ∧ csk.Absorbs msg) →
    csk'.block b = csk.block b ∨
      csk.currBlock ≤ msg.blockno ∧ slot b = slot msg.blockno ∧
        csk'.block b = recordIndex (csk.block b) msg

theorem unmarshallData_spec (h : ClientShape csk)
    (hmsg : csk.currBlock ≤ msg.blockno → InBlock msg) :
    ClientShape (unmarshallData csk msg) ∧ (unmarshallData csk msg).currBlock = csk.currBlock ∧
      (csk.currBlock ≤ msg.blockno →
        (unmarshallData csk msg).block msg.blockno = recordIndex (csk.block msg.blockno) msg) ∧
      ∀ b, (unmarshallData csk msg).block b = csk.block b ∨
        csk.currBlock ≤ msg.blockno ∧ slot b = slot msg.blockno ∧
          (unmarshallData csk msg).block b = recordIndex (csk.block b) msg := by
  by_cases hold : csk.currBlock ≤ msg.blockno
  · have heq : unmarshallData csk msg =
        csk.setBlock msg.blockno (recordIndex (csk.block msg.blockno) msg) := if_pos hold
    rw [heq]
    refine ⟨h.setBlock ((h.block _).recordIndex (hmsg hold)) fun b hb hs hne => ?_, rfl,
      fun _ => Client.block_setBlock_self, fun b => ?_⟩
    · have hblk : csk.block b = csk.block msg.blockno := by rw [Client.block, hs]; rfl
      exact hblk ▸ h.unpushed b hb hne
    · by_cases hs : slot b = slot msg.blockno
      · rw [Client.block_setBlock_of_slot_eq hs, Client.block, ← hs]
        exact .inr ⟨hold, rfl, rfl⟩
      · exact .inl (Client.block_setBlock_of_slot_ne hs)
  · have heq : unmarshallData csk msg = csk := if_neg hold
    rw [heq]
    exact ⟨h, rfl, fun hle => (hold hle).elim, fun b => .inl rfl⟩

/-- A packet never faults while it is absorbed; the header of an old one is not looked at. -/
theorem absorbPacket_spec (rm : Residue) (h : ClientShape csk)
    (hmsg : csk.currBlock ≤ msg.blockno → InBlock msg) :
    ∃ csk', absorbPacket rm (unmarshallData csk msg) msg = some csk' ∧
      AbsorbSpec rm msg csk csk' := by
  obtain ⟨hshape, hcurr, hown, hall⟩ := unmarshallData_spec h hmsg
  by_cases habs : csk.Absorbs msg
  · obtain ⟨hin, hopen⟩ := habs
    have hblk := hown hin.1
    have hrec := (h.block msg.blockno).recordIndex (hmsg hin.1)
    obtain ⟨blk, heq, hspec⟩ := insertPacket_spec hrec recorded_recordIndex rm
    refine ⟨(unmarshallData csk msg).setBlock msg.blockno blk, ?_, ?_, hcurr, fun _ => ?_, ?_⟩
    · rw [absorbPacket, hcurr, if_neg (Nat.not_lt.mpr hin.1), if_neg (Nat.not_le.mpr hin.2), hblk,
        if_pos (by rw [hrec.len_eq]; exact hopen), heq, Option.map_some]
    · refine hshape.setBlock hspec.shape fun b hb hs hne => ?_
      rw [hspec.pushed_eq, ← hblk, Client.block, ← hs]
      exact hshape.unpushed b hb hne
    · rw [heq, Client.block_setBlock_self]
    · intro b hb hnot
      have hne : b ≠ msg.blockno := fun he => hnot ⟨he, hin, hopen⟩
      rw [Client.block_setBlock_of_slot_ne (hin.slot_ne hb hne)]
      exact hall b
  · refine ⟨unmarshallData csk msg, ?_, hshape, hcurr, fun h => (habs h).elim, fun b _ _ => hall b⟩
    rw [absorbPacket, hcurr]
    by_cases hold : msg.blockno < csk.currBlock
    · rw [if_pos hold]
    · rw [if_neg hold]
      by_cases hfar : csk.currBlock + numBlocks ≤ msg.blockno
      · rw [if_pos hfar]
      · have hin : csk.InWindow msg.blockno := ⟨Nat.not_lt.mp hold, Nat.not_le.mp hfar⟩
        have hfull : ¬(csk.block msg.blockno).dofs < blockSize := fun ho => habs ⟨hin, ho⟩
        rw [if_neg hfar, hown hin.1, if_neg]
        rwa [((h.block _).recordIndex (hmsg hin.1)).len_eq]

/-! ## The whole handler -/

/-- One packet from arrival to acknowledgement: it is absorbed, the
acknowledgement is built, then rows are delivered. No packet whose rows lie
inside a block makes the client fault. -/
theorem handleData_spec (h : ClientShape csk)
    (hmsg : csk.currBlock ≤ msg.blockno → InBlock msg) :
    (handleData rm csk msg).Ensures allow fun t res =>
      ∃ mid csk', AbsorbSpec rm msg csk mid ∧ DeliverSpec allow mid t csk' ∧
        res = some (csk', buildAck mid msg.seqno) := by
  obtain ⟨mid, heq, habs⟩ := absorbPacket_spec rm h hmsg
  simp only [handleData, bldack, heq]
  refine Ensures.bind (deliver_spec habs.shape) ?_
  rintro t _ ⟨csk', rfl, hdel⟩
  exact ⟨mid, csk', habs, by simpa using hdel, rfl⟩

end Ctcp
