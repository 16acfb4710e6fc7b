import Ctcp.Verification.Agreement.Source

/-! # The server's count against what the client has -/

namespace Ctcp

open Function Program

variable {s s' : Network}

/-! ## The property and its condition -/

/-- The rows of the server's current block that the client has, or all of them if it
has decoded that block. -/
def Network.present (s : Network) : ℕ :=
  if s.sk.currBlock < s.client.currBlock then (s.sk.block s.sk.currBlock).length
  else s.client.dofsOf s.sk.currBlock

/-- The client has decoded row `r` of the server's current block, or does when it unwraps
the block as it is now. -/
def Network.Recovers (s : Network) (r : ℕ) : Prop :=
  s.sk.currBlock < s.client.currBlock ∧
      s.decoded s.sk.currBlock r = some (s.sk.sourceRows s.sk.currBlock r) ∨
    ∃ blk, unwrap (s.client.block s.sk.currBlock) = some blk ∧ blk.Decoded r ∧
      blk.content r = some (s.sk.sourceRows s.sk.currBlock r)

/-- The server's count covers what the client lacks; when it is zero, the client can
recover every row that the server holds of the block. -/
structure Demanded (s : Network) : Prop where
  le_req : ((s.sk.block s.sk.currBlock).length : ℤ) - s.present ≤ s.sk.dofReqLatest
  recovers : s.sk.dofReqLatest = 0 → ∀ r < (s.sk.block s.sk.currBlock).length, s.Recovers r

/-- An acknowledgement for a block freed before is harmless if it counts more rows
than the current block has, if it does not lower the server's count, or if the client
has at least as many rows of the current block. -/
def LateAckHarmless (s : Network) : NetEvent → Prop
  | .ack a => a.blockno < s.sk.currBlock →
      (s.sk.block s.sk.currBlock).length < a.dofRec.toNat ∨
      s.sk.dofReqLatest + a.dofRec.toNat ≤ (s.sk.block s.sk.currBlock).length ∨
      a.dofRec.toNat ≤ s.present
  | _ => True

/-- Packets are truthful, keep their coefficients, and late acknowledgements do no harm. -/
def KeepsDemand (s : Network) (e : NetEvent) : Prop :=
  SendsTruly s e ∧ MeetsFitting s e ∧ LateAckHarmless s e

/-! ## The invariant -/

/-- The same bound in terms of the rows ever filled. -/
def CoversMissing (s : Network) : Prop :=
  ((s.filled s.sk.currBlock).length : ℤ) - s.client.dofsOf s.sk.currBlock ≤ s.sk.dofReqLatest

theorem NetInv.present_eq (h : NetInv s) : s.present = s.client.dofsOf s.sk.currBlock := by
  have hlen := h.store.length_curr
  by_cases hdec : s.sk.currBlock < s.client.currBlock
  · have hfull : (s.filled s.sk.currBlock).length = blockSize := by
      have hdofs := h.dofs_le _ h.store.curr_pos
      rw [Client.dofsOf, if_pos hdec] at hdofs
      exact le_antisymm (h.store.length_le _) hdofs
    rw [Network.present, if_pos hdec, Client.dofsOf, if_pos hdec, hlen, hfull]
  · rw [Network.present, if_neg hdec]

theorem CoversMissing.ack (hc : CoversMissing s) (h : NetInv s) {a : AckPckt} (ha : a ∈ s.acks)
    (hlate : LateAckHarmless s (.ack a)) :
    CoversMissing { s with sk := handleAckBlocks s.sk a } := by
  have hdofs := h.ack_dofs a ha
  have hfilled := fun hadv => h.ack_filled ha hadv
  unfold CoversMissing at hc ⊢
  simp only [handleAckBlocks_currBlock, h.store.handleAckBlocks_dofReqLatest h.req hfilled]
  rw [nextReq]
  by_cases hadv : s.sk.currBlock < a.blockno
  · rw [if_pos hadv, max_eq_right hadv.le]
    omega
  · rw [if_neg hadv, max_eq_left (Nat.not_lt.mp hadv)]
    by_cases hle : a.dofRec.toNat ≤ (s.filled s.sk.currBlock).length
    · rw [if_pos hle]
      -- the block of the acknowledgement decides whether its count says anything
      by_cases hcurr : a.blockno = s.sk.currBlock
      · rw [hcurr] at hdofs
        omega
      · have hharmless := hlate (by omega)
        rw [h.store.length_curr, h.present_eq] at hharmless
        omega
    · rwa [if_neg hle]

theorem CoversMissing.step {e : NetEvent} (hc : CoversMissing s) (h : NetInv s)
    (hstep : NetStep s e s') (hlate : LateAckHarmless s e) : CoversMissing s' := by
  cases hstep with
  | fill hne hlen =>
      have hfill := h.store.fill hne hlen
      have hreq := hfill.req_eq
      unfold CoversMissing at hc ⊢
      simp only [hfill.curr_eq]
      omega
  | startWorker =>
      have hlen := h.store.length_curr
      change ((s.filled s.sk.currBlock).length : ℤ) - s.client.dofsOf s.sk.currBlock ≤
        (s.sk.block s.sk.currBlock).length
      omega
  | transmit => exact hc
  | arrive hidle hmsg hmid =>
      have hmore := (h.absorbed hmsg hmid).dofsOf_le h.shape (h.inBlock hmsg) s.sk.currBlock
      unfold CoversMissing at hc ⊢
      simp only
      omega
  | write hphase hopen hrun =>
      have hblk := h.shape.block s.client.currBlock
      rw [hblk.len_eq] at hopen
      obtain ⟨blk, heq, hspec⟩ := ensures_iff.mp (partialWrite_spec hblk hopen) _ _ hrun
      obtain rfl := Option.some.inj heq
      have hdofs := (hspec.deliverSpec h.shape hopen).dofsOf_eq
      unfold CoversMissing at hc ⊢
      simp only [hdofs]
      exact hc
  | full hphase hfull => exact hc
  | decode hphase hfull hunwrap hrun =>
      rw [(h.shape.block _).len_eq] at hfull
      unfold CoversMissing at hc ⊢
      simp only [dofsOf_nextBlock hfull]
      exact hc
  | leave hphase hopen => exact hc
  | ack ha => exact hc.ack h ha hlate

theorem demand_inv (h : ((network noRows).guard KeepsDemand).Reachable s) :
    NetSound s ∧ CoversMissing s := by
  apply h.invariant_of (J := NetInv)
  · exact fun _ hs => network_inv (hs.guard_mono fun _ _ => And.left)
  · rintro s ⟨scaling, paths, n, raw, rfl⟩
    refine ⟨netSound_create _ raw, ?_⟩
    change (0 : ℤ) - 0 ≤ blockSize
    decide
  · rintro s e s' hinv ⟨hsound, hc⟩ ⟨⟨hsends, hmeets, hlate⟩, hstep⟩
    exact ⟨hsound.step hinv hsends hmeets hstep, hc.step hinv hstep hlate⟩

/-- A block with as many rows as the server holds is unwrapped into these rows. -/
theorem NetSound.recovers (hs : NetSound s) (h : NetInv s)
    (hle : (s.sk.block s.sk.currBlock).length ≤ s.client.dofsOf s.sk.currBlock) {r : ℕ}
    (hr : r < (s.sk.block s.sk.currBlock).length) : s.Recovers r := by
  have hlen := h.store.length_curr
  have hext := extends_filledRows s.filled
  have hsource : s.sk.sourceRows s.sk.currBlock r = filledRows s.filled s.sk.currBlock r := by
    have hheld := h.store.held _ le_rfl (Nat.lt_add_of_pos_right (by decide))
    rw [Server.sourceRows, hheld, filledRows]
  have hsize : r < blockSize := by
    have hmax := h.store.length_le s.sk.currBlock
    omega
  rw [Network.Recovers, hsource]
  by_cases hdec : s.sk.currBlock < s.client.currBlock
  · exact .inl ⟨hdec, hs.decoded _ hext _ h.store.curr_pos hdec r hsize⟩
  · right
    have hwin : s.client.InWindow s.sk.currBlock := by
      refine ⟨Nat.not_lt.mp hdec, Nat.not_le.mp fun hge => ?_⟩
      rw [Client.dofsOf, if_neg hdec, if_neg (Nat.not_lt.mpr hge)] at hle
      omega
    rw [hwin.dofsOf_eq] at hle
    have hblk := h.shape.block s.sk.currBlock
    have hindex := h.index_le _ hwin
    have hdofs := hblk.dofs_le_index
    obtain ⟨blk, hunwrap, hun⟩ := unwrap_spec hblk (by omega)
    have hrow := hun.decoded r (Nat.zero_le r) (by omega)
    have hsound := hun.sound _ (hs.sound _ hext _ hwin)
    exact ⟨blk, hunwrap, hrow, hsound.content_of_decoded hrow hsize⟩

/-- As long as packets and late acknowledgements do no harm, the server never
under-estimates what the current block needs. -/
theorem demanded_of_reachable {memory : BlockMemory} (hmem : memory.Clear)
    (h : ((network memory).guard KeepsDemand).Reachable s) : Demanded s := by
  rw [hmem.eq_noRows] at h
  have hinv := network_inv (h.guard_mono fun _ _ => And.left)
  obtain ⟨hsound, hcovers⟩ := demand_inv h
  have hlen := hinv.store.length_curr
  have hpresent := hinv.present_eq
  have hle : ((s.sk.block s.sk.currBlock).length : ℤ) - s.present ≤ s.sk.dofReqLatest := by
    rw [hlen, hpresent]
    exact hcovers
  exact ⟨hle, fun hzero r hr => hsound.recovers hinv (by omega) hr⟩

/-- Block 1 is filled, delivered and freed, an acknowledgement from before comes late, and
the one row of block 2 arrives. -/
def lateAfterFree : List ScriptStep :=
  List.replicate (blockSize + 2) (.fill 7) ++ (List.range blockSize).map (.deliver 1) ++
    [.ack ⟨1, 2, 0⟩, .ack ⟨1, 1, 31⟩, .deliver 2 0, .ack ⟨1, 2, 1⟩]

theorem Scripted.keepsDemand {e : NetEvent} (h : Scripted false s e) : KeepsDemand s e := by
  refine ⟨h.sendsTruly, ?_, ?_⟩
  · cases e with
    | arrive rm msg =>
        exact fun _ hnum => absurd (hnum.trans h) (by decide)
    | _ => trivial
  · cases e with
    | ack a =>
        intro hlt
        have hprompt := h.resolve_left Bool.false_ne_true
        exact .inl (hprompt.resolve_left (Nat.not_le.mpr hlt))
    | _ => trivial

theorem demanded_lateAfterFree : ∃ s : Network, s.sk.currBlock = 2 ∧
    (s.sk.block 2).length = 1 ∧ s.sk.dofReqLatest = 0 ∧ Demanded s := by
  have hview : (lateAfterFree.foldlM (play false) opening).map
      (fun p => (p.sk.currBlock, (p.sk.block 2).length, p.sk.dofReqLatest)) = some (2, 1, 0) := by
    decide +kernel
  obtain ⟨p, hplay, hview⟩ := Option.map_eq_some_iff.mp hview
  obtain ⟨s, hs, hsk, -⟩ :=
    reachable_script (fun _ _ => And.left) (fun _ _ => Scripted.keepsDemand) hplay
  simp only [Prod.mk.injEq, ← hsk] at hview
  obtain ⟨hcurr, hlen, hreq⟩ := hview
  exact ⟨s, hcurr, hlen, hreq, demanded_of_reachable (fun _ => rfl) hs⟩

/-! ## An acknowledgement that is late -/

namespace LateAck

/-- Block 1 is filled and delivered, one row of block 2 is filled; then the
acknowledgement that frees block 1 overtakes the first one of all. -/
def script : List ScriptStep :=
  List.replicate blockSize (.fill 7) ++ (List.range blockSize).map (.deliver 1) ++
    [.fill 7, .fill 7, .ack ⟨1, 2, 0⟩, .ack ⟨1, 1, 1⟩]

theorem script_result : (script.foldlM (play true) opening).map
    (fun p => (p.sk.currBlock, (p.sk.block 2).length, p.client.currBlock,
      p.client.dofsOf 2, p.sk.dofReqLatest)) = some (2, 1, 2, 0, 0) := by
  decide +kernel

end LateAck

/-- A late acknowledgement sets the count to zero while the client has nothing of the
current block. -/
theorem not_demanded_of_lateAck :
    ¬∀ s, ((network noRows).guard SendsTruly).Reachable s → Demanded s := by
  intro hall
  obtain ⟨p, hplay, hview⟩ := Option.map_eq_some_iff.mp LateAck.script_result
  obtain ⟨s, hs, hsk, hclient, -⟩ :=
    reachable_script (fun _ _ => id) (fun _ _ => Scripted.sendsTruly) hplay
  have hle := (hall s hs).le_req
  simp only [Prod.mk.injEq] at hview
  obtain ⟨hcurr, hlen, hcurr', hdofs, hreq⟩ := hview
  rw [Network.present, hsk, hclient, hcurr, hcurr', if_neg (lt_irrefl 2), hlen, hdofs, hreq] at hle
  omega

end Ctcp
