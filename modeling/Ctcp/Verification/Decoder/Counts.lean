import Ctcp.Verification.Decoder.Handler

/-! # The counters of a block, in any state of the client

Nothing is assumed of the blocks here; the results are about the runs that do not fault. -/

namespace Ctcp

open Function Program

variable {allow : FifoCall → ℕ → Prop} {rm : Residue} {blk blk' blk₁ : CodedBlock}

/-- The later block has the counters of the earlier one. -/
structure SameCounts (blk blk' : CodedBlock) : Prop where
  dofs_eq : blk'.dofs = blk.dofs
  len_eq : blk'.len = blk.len
  index_eq : blk'.maxPacketIndex = blk.maxPacketIndex

theorem SameCounts.refl (blk : CodedBlock) : SameCounts blk blk := ⟨rfl, rfl, rfl⟩

theorem SameCounts.trans (h : SameCounts blk blk₁) (h' : SameCounts blk₁ blk') :
    SameCounts blk blk' :=
  ⟨h'.dofs_eq.trans h.dofs_eq, h'.len_eq.trans h.len_eq, h'.index_eq.trans h.index_eq⟩

/-! ## Back substitution -/

theorem unwrapOffset_counts {row offset : ℕ} (h : unwrapOffset blk row offset = some blk') :
    SameCounts blk blk' := by
  unfold unwrapOffset at h
  split at h
  · cases h
    exact .refl _
  · split at h
    · cases h
    · split at h
      · cases h
        exact ⟨rfl, rfl, rfl⟩
      · cases h

theorem unwrapOffsets_counts {row n offset : ℕ}
    (h : unwrapOffsets row n offset blk = some blk') : SameCounts blk blk' := by
  induction n generalizing offset blk with
  | zero =>
      cases h
      exact .refl _
  | succ n ih =>
      obtain ⟨blk₁, h₁, h₂⟩ := Option.bind_eq_some_iff.mp h
      exact (unwrapOffset_counts h₁).trans (ih h₂)

theorem unwrapRow_counts {row : ℕ} (h : unwrapRow blk row = some blk') : SameCounts blk blk' := by
  unfold unwrapRow at h
  split at h
  · cases h
  · obtain ⟨blk₁, h₁, rfl⟩ := Option.map_eq_some_iff.mp h
    have hcounts := unwrapOffsets_counts h₁
    exact ⟨hcounts.dofs_eq, hcounts.len_eq, hcounts.index_eq⟩

theorem unwrapRows_counts {low n : ℕ} (h : unwrapRows low n blk = some blk') :
    SameCounts blk blk' := by
  induction n generalizing blk with
  | zero =>
      cases h
      exact .refl _
  | succ n ih =>
      obtain ⟨blk₁, h₁, h₂⟩ := Option.bind_eq_some_iff.mp h
      exact (unwrapRow_counts h₁).trans (ih h₂)

/-! ## Delivery -/

theorem pushDecoded_counts (fuel start : ℕ) :
    (pushDecoded rm blk fuel start).Ensures allow fun _ res =>
      ∀ blk' ∈ res, SameCounts blk blk' := by
  have hstop : ∀ s, ∀ blk' ∈ some { blk with dofsPushed := s }, SameCounts blk blk' := by
    intro s blk' h
    cases h
    exact ⟨rfl, rfl, rfl⟩
  induction fuel generalizing start with
  | zero => exact nofun
  | succ fuel ih =>
      rw [pushDecoded]
      split
      · exact nofun
      · split
        · cases blk.content start with
          | none => exact nofun
          | some content =>
              intro space _
              beta_reduce
              split
              · refine ensures_bind.mpr (ensures_iff.mpr fun t ok _ => ?_)
                cases ok with
                | true => exact ih (start + 1)
                | false => exact hstop blk.dofsPushed
              · exact hstop start
        · exact hstop start

theorem partialWrite_counts :
    (partialWrite rm blk).Ensures allow fun _ res => ∀ blk' ∈ res, SameCounts blk blk' := by
  unfold partialWrite
  split
  · exact nofun
  · next blk₁ h =>
      have hcounts : SameCounts blk blk₁ := by
        split at h
        · exact unwrapRows_counts h
        · cases h
          exact .refl _
      exact (pushDecoded_counts _ _).mono fun t res hres blk' h => hcounts.trans (hres blk' h)

variable {csk csk' : Client}

theorem decodeBlocks_of_open (fuel : ℕ)
    (hopen : (csk.block csk.currBlock).dofs ≠ (csk.block csk.currBlock).len) :
    decodeBlocks rm fuel csk = .done (some csk) := by
  cases fuel with
  | zero => rfl
  | succ fuel => rw [decodeBlocks, if_neg hopen]

/-- Delivery out of a block that is not full is `partial_write` alone. -/
theorem deliver_of_open {post : List (FifoCall × ℕ) → Option Client → Prop}
    (hopen : (csk.block csk.currBlock).dofs < (csk.block csk.currBlock).len)
    (h : (partialWrite rm (csk.block csk.currBlock)).Ensures allow fun t res =>
      post t (res.map (csk.setBlock csk.currBlock))) : (deliver rm csk).Ensures allow post := by
  rw [deliver, if_pos hopen]
  refine Ensures.bind (h.and partialWrite_counts) fun t res hres => ?_
  cases res with
  | none => simpa [Ensures] using hres.1
  | some blk =>
      have hcounts := hres.2 blk rfl
      have hopen' : ((csk.setBlock csk.currBlock blk).block csk.currBlock).dofs ≠
          ((csk.setBlock csk.currBlock blk).block csk.currBlock).len := by
        rw [Client.block_setBlock_self, hcounts.dofs_eq, hcounts.len_eq]
        exact hopen.ne
      simp only [@decodeBlocks_of_open rm (csk.setBlock csk.currBlock blk) _ hopen']
      simpa [Ensures] using hres.1

/-- A block that replaces the current one and has its counters. -/
theorem SameCounts.setBlock (h : SameCounts (csk.block csk.currBlock) blk) (b : ℕ) :
    SameCounts (csk.block b) ((csk.setBlock csk.currBlock blk).block b) := by
  by_cases hs : slot b = slot csk.currBlock
  · rw [Client.block_setBlock_of_slot_eq hs, Client.block, hs]
    exact h
  · rw [Client.block_setBlock_of_slot_ne hs]
    exact .refl _

/-- A current block that is not full stays current, and no counter changes. -/
theorem deliver_counts (hopen : (csk.block csk.currBlock).dofs ≠ (csk.block csk.currBlock).len) :
    (deliver rm csk).Ensures allow fun _ res => ∀ csk' ∈ res, csk'.currBlock = csk.currBlock ∧
      ∀ b, SameCounts (csk.block b) (csk'.block b) := by
  by_cases hlt : (csk.block csk.currBlock).dofs < (csk.block csk.currBlock).len
  · refine deliver_of_open hlt (partialWrite_counts.mono ?_)
    intro t res hres csk' h
    obtain ⟨blk, hblk, rfl⟩ := Option.map_eq_some_iff.mp h
    exact ⟨rfl, (hres blk hblk).setBlock⟩
  · rw [deliver, if_neg hlt, decodeBlocks_of_open _ hopen]
    intro csk' h
    cases h
    exact ⟨rfl, fun b => .refl _⟩

/-! ## The decode loop -/

/-- A block that the decode loop would decode. -/
def Client.Full (csk : Client) (b : ℕ) : Prop := (csk.block b).dofs = (csk.block b).len

/-- What delivery does to the counters: the leading full blocks leave the ring, fresh
ones come in, and the others keep what they have. -/
structure DeliverCounts (csk csk' : Client) : Prop where
  le : csk.currBlock ≤ csk'.currBlock
  full : ∀ b, csk.currBlock ≤ b → b < csk'.currBlock → csk.Full b
  kept : ∀ b, csk'.currBlock ≤ b → b < csk.currBlock + numBlocks →
    SameCounts (csk.block b) (csk'.block b)
  fresh : ∀ b, csk'.InWindow b → csk.currBlock + numBlocks ≤ b →
    (csk'.block b).dofs = 0 ∧ (csk'.block b).len = blockSize

theorem DeliverCounts.refl (csk : Client) : DeliverCounts csk csk where
  le := le_rfl
  full _ hb hb' := absurd hb' (Nat.not_lt.mpr hb)
  kept _ _ _ := .refl _
  fresh _ hb hge := absurd hb.2 (Nat.not_lt.mpr hge)

/-- One decoded block in front of others. -/
theorem DeliverCounts.cons (hfull : csk.Full csk.currBlock)
    (h : DeliverCounts (nextBlock csk blk) csk')
    (hle : csk'.currBlock ≤ csk.currBlock + numBlocks) : DeliverCounts csk csk' where
  le := (Nat.le_succ _).trans h.le
  full b hb hb' := by
    by_cases he : b = csk.currBlock
    · rw [he]
      exact hfull
    · have hnext := h.full b (Nat.lt_of_le_of_ne hb (Ne.symm he)) hb'
      rwa [Client.Full, nextBlock_block_of_ne ⟨hb, hb'.trans_le hle⟩ he] at hnext
  kept b hb hlt := by
    have hgt : csk.currBlock < b := (Nat.lt_of_succ_le h.le).trans_le hb
    rw [← @nextBlock_block_of_ne csk blk b ⟨hgt.le, hlt⟩ hgt.ne']
    exact h.kept b hb (hlt.trans (Nat.add_lt_add_right (Nat.lt_succ_self _) _))
  fresh b hb hge := by
    rcases Nat.lt_or_eq_of_le hge with hgt | rfl
    · have hge' : csk.currBlock + 1 + numBlocks ≤ b := by omega
      exact h.fresh b hb hge'
    · have hkept := h.kept _ hb.1 (Nat.add_lt_add_right (Nat.lt_succ_self _) _)
      rw [nextBlock_block_last] at hkept
      exact ⟨hkept.dofs_eq, hkept.len_eq⟩

/-- The decode loop after at most `fuel` rounds. -/
structure DecodeCounts (fuel : ℕ) (csk csk' : Client) : Prop extends DeliverCounts csk csk' where
  le_add : csk'.currBlock ≤ csk.currBlock + fuel
  rest : csk'.currBlock < csk.currBlock + fuel → ¬csk'.Full csk'.currBlock

theorem decodeBlocks_counts {fuel : ℕ} (hfuel : fuel ≤ numBlocks) :
    (decodeBlocks rm fuel csk).Ensures allow fun _ res =>
      ∀ csk' ∈ res, DecodeCounts fuel csk csk' := by
  induction fuel generalizing csk with
  | zero =>
      intro csk' h
      cases h
      exact ⟨.refl _, le_rfl, fun hlt => absurd hlt (lt_irrefl _)⟩
  | succ fuel ih =>
      by_cases hfull : (csk.block csk.currBlock).dofs = (csk.block csk.currBlock).len
      · rw [decodeBlocks, if_pos hfull]
        cases unwrap (csk.block csk.currBlock) with
        | none =>
            intro csk' h
            cases h
        | some blk =>
            refine ensures_bind.mpr (ensures_iff.mpr fun t written _ => ?_)
            cases written with
            | none =>
                intro csk' h
                cases h
            | some _ =>
                refine (@ih (nextBlock csk blk) (Nat.le_of_succ_le hfuel)).mono ?_
                intro t' res hres csk' h
                have hcounts := hres csk' h
                have hle : csk'.currBlock ≤ csk.currBlock + 1 + fuel := hcounts.le_add
                refine ⟨hcounts.toDeliverCounts.cons hfull (by omega), by omega, fun hlt => ?_⟩
                refine hcounts.rest ?_
                change csk'.currBlock < csk.currBlock + 1 + fuel
                omega
      · rw [decodeBlocks_of_open _ hfull]
        intro csk' h
        cases h
        exact ⟨.refl _, Nat.le_add_right _ _, fun _ => hfull⟩

/-- Delivery ends in front of a block that is not full. -/
structure DeliverEnds (csk csk' : Client) : Prop extends DeliverCounts csk csk' where
  le_add : csk'.currBlock ≤ csk.currBlock + numBlocks
  rest : ¬csk'.Full csk'.currBlock

theorem DecodeCounts.ends (h : DecodeCounts numBlocks csk csk') : DeliverEnds csk csk' where
  toDeliverCounts := h.toDeliverCounts
  le_add := h.le_add
  rest := by
    rcases Nat.lt_or_eq_of_le h.le_add with hlt | he
    · exact h.rest hlt
    · -- the whole ring was full, and the slot of the current block is fresh
      obtain ⟨hdofs, hlen⟩ := h.fresh _ csk'.inWindow_currBlock he.ge
      rw [Client.Full, hdofs, hlen]
      decide

theorem deliver_ends :
    (deliver rm csk).Ensures allow fun _ res => ∀ csk' ∈ res, DeliverEnds csk csk' := by
  by_cases hfull : (csk.block csk.currBlock).dofs = (csk.block csk.currBlock).len
  · rw [deliver, if_neg (by rw [hfull]; exact lt_irrefl _)]
    exact (decodeBlocks_counts le_rfl).mono fun t res hres csk' h => (hres csk' h).ends
  · refine (deliver_counts hfull).mono fun t res hres csk' h => ?_
    obtain ⟨hcurr, hcounts⟩ := hres csk' h
    have hadd : csk.currBlock < csk.currBlock + numBlocks := Nat.lt_add_of_pos_right (by decide)
    constructor
    case le_add => omega
    case rest =>
      rw [Client.Full, hcurr, (hcounts _).dofs_eq, (hcounts _).len_eq]
      exact hfull
    case toDeliverCounts =>
      refine ⟨hcurr.ge, fun b hb hb' => ?_, fun b _ _ => hcounts b, fun b hb hge => ?_⟩
      · omega
      · have hlt := hb.2
        omega

end Ctcp
