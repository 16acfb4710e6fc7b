import Ctcp.Verification.Agreement.Network

/-! # The rows behind the packets

What the client stores and decodes are the rows that the server was filled with. -/

namespace Ctcp

open Function Program

/-! ## Source rows that are still being filled -/

/-- The rows `p` begin with those that have been filled so far. -/
def Extends (p : ℕ → ℕ → Payload) (filled : Filled) : Prop :=
  ∀ b r, r < (filled b).length → p b r = (filled b).getD r fun _ => 0

/-- The rows filled so far, and rows without data behind them. -/
def filledRows (filled : Filled) (b r : ℕ) : Payload := (filled b).getD r fun _ => 0

theorem extends_filledRows (filled : Filled) : Extends (filledRows filled) filled :=
  fun _ _ _ => rfl

variable {p : ℕ → ℕ → Payload} {filled : Filled}

theorem Extends.of_addRows {b : ℕ} {added : List Payload} (h : Extends p (addRows filled b added)) :
    Extends p filled := by
  intro b' r hr
  rw [h b' r (hr.trans_le _)]
  · by_cases hb : b' = b
    · subst hb
      rw [addRows, update_self, List.getD_append _ _ _ _ hr]
    · rw [addRows, update_of_ne hb]
  · by_cases hb : b' = b
    · subst hb
      rw [addRows, update_self, List.length_append]
      exact Nat.le_add_right _ _
    · rw [addRows, update_of_ne hb]

/-- A packet over filled rows is truthful for every way to fill the rest. -/
theorem Truthful.of_eqOn {q q' : ℕ → Payload} {msg : DataPckt} (h : Truthful q msg)
    (heq : ∀ r < msg.startPacket.toNat + msg.numPackets.toNat, q' r = q r) : Truthful q' msg := by
  cases h with
  | normal hflag hstart hnum hpayload =>
      refine .normal hflag hstart hnum ?_
      rw [heq _ (by rw [hnum]; exact Nat.lt_succ_self _)]
      exact hpayload
  | coded hflag hstart hpos hnum hpayload =>
      refine .coded hflag hstart hpos hnum fun i => ?_
      rw [hpayload i]
      refine Finset.sum_congr rfl fun k hk => ?_
      rw [heq k (by rw [hstart]; exact (Finset.mem_range.mp hk).trans_le (Nat.le_add_left _ _))]

/-- A packet of the window is truthful for all rows that were ever filled. -/
theorem Sendable.truthful_of_extends {sk : Server} {msg : DataPckt} (h : Sendable sk msg)
    (hstore : StoreInv sk filled) (hp : Extends p filled) : Truthful (p msg.blockno) msg := by
  have hheld := hstore.held _ h.curr_le h.lt_add
  refine h.truthful.of_eqOn fun r hr => ?_
  have hlen := hr.trans_le h.rows_le
  rw [hheld] at hlen
  rw [hp _ _ hlen, Server.sourceRows, hheld]

/-! ## True equations on both sides of the network -/

/-- A packet over several rows meets no stored row that reaches further. -/
def MeetsFitting (s : Network) : NetEvent → Prop
  | .arrive rm msg => s.client.Absorbs msg → 2 ≤ msg.numPackets.toNat →
      Fits rm (s.client.block msg.blockno) msg
  | _ => True

/-- Packets in flight and stored rows are true of the source rows, however these go on,
and so are the rows of the blocks that the client has decoded. -/
structure NetSound (s : Network) : Prop where
  truthful : ∀ msg ∈ s.data, ∀ p, Extends p s.filled → Truthful (p msg.blockno) msg
  sound : ∀ p, Extends p s.filled → ClientSound p s.client
  decoded : ∀ p, Extends p s.filled → ∀ b, 1 ≤ b → b < s.client.currBlock → ∀ r < blockSize,
    s.decoded b r = some (p b r)

variable {s s' : Network}

theorem netSound_create (sk : Server) (raw : ℕ → CodedBlock) :
    NetSound ⟨sk, fun _ => [], createClictcpSock raw, .idle, fun _ _ => none, ∅, ∅⟩ where
  truthful _ hmsg := hmsg.elim
  sound p _ := clientSound_create p raw
  decoded _ _ _ hb hlt := absurd hlt (Nat.not_lt.mpr hb)

theorem NetSound.arrive (hs : NetSound s) (h : NetInv s) {rm : Residue} {msg : DataPckt}
    {mid : Client} (hkeep : MeetsFitting s (.arrive rm msg)) (hmsg : msg ∈ s.data)
    (hmid : absorbPacket rm (unmarshallData s.client msg) msg = some mid) (phase : HandlerPhase)
    (acks : Set AckPckt) : NetSound { s with client := mid, phase := phase, acks := acks } := by
  have habs := h.absorbed hmsg hmid
  refine { hs with sound := fun p hp => ?_, decoded := fun p hp b hb hlt => ?_ }
  · exact habs.sound (hs.sound p hp) (fun _ => h.inBlock hmsg)
      (fun _ => (hs.truthful msg hmsg p hp).payload_eq rm) hkeep
  · exact hs.decoded p hp b hb (habs.curr_eq ▸ hlt)

/-- A full block is unwrapped into its source rows. -/
theorem NetSound.decode (hs : NetSound s) (h : NetInv s)
    (hfull : (s.client.block s.client.currBlock).dofs = (s.client.block s.client.currBlock).len)
    {blk : CodedBlock} (hunwrap : unwrap (s.client.block s.client.currBlock) = some blk) :
    NetSound
      { s with
        client := nextBlock s.client blk
        decoded := update s.decoded s.client.currBlock blk.content } := by
  have hshape := h.shape.block s.client.currBlock
  rw [hshape.len_eq] at hfull
  have hindex := hshape.dofs_eq_index_of_full hfull
  obtain ⟨blk', heq, hun⟩ := unwrap_spec hshape hindex
  obtain rfl : blk = blk' := Option.some.inj (hunwrap.symm.trans heq)
  refine { hs with sound := fun p hp => (hs.sound p hp).nextBlock blk, decoded := ?_ }
  intro p hp b hb hlt r hr
  by_cases hcurr : b = s.client.currBlock
  · subst hcurr
    have hsound := hun.sound _ (hs.sound p hp _ s.client.inWindow_currBlock)
    have hdec := hun.decoded r (Nat.zero_le r) (by rwa [← hindex, hfull])
    simp only [update_self]
    exact hsound.content_of_decoded hdec hr
  · have hold : b < s.client.currBlock := by
      have hle : b < s.client.currBlock + 1 := hlt
      omega
    simp only [update_of_ne hcurr]
    exact hs.decoded p hp b hb hold r hr

theorem NetSound.step {e : NetEvent} (hs : NetSound s) (h : NetInv s) (hsends : SendsTruly s e)
    (hkeep : MeetsFitting s e) (hstep : NetStep s e s') : NetSound s' := by
  cases hstep with
  | fill hne hlen =>
      exact ⟨fun msg hmsg p hp => hs.truthful msg hmsg p hp.of_addRows,
        fun p hp => hs.sound p hp.of_addRows, fun p hp => hs.decoded p hp.of_addRows⟩
  | startWorker => exact { hs with }
  | @transmit msg =>
      refine { hs with truthful := ?_ }
      rintro m (rfl | hm) p hp
      · exact Sendable.truthful_of_extends hsends h.store hp
      · exact hs.truthful m hm p hp
  | arrive hidle hmsg hmid => exact hs.arrive h hkeep hmsg hmid _ _
  | write hphase hopen hrun =>
      have hblk := h.shape.block s.client.currBlock
      rw [hblk.len_eq] at hopen
      obtain ⟨blk, heq, hspec⟩ := ensures_iff.mp (partialWrite_spec hblk hopen) _ _ hrun
      obtain rfl := Option.some.inj heq
      have hdel := hspec.deliverSpec h.shape hopen
      exact { hs with sound := fun p hp => hdel.sound (hs.sound p hp) }
  | full hphase hfull => exact { hs with }
  | decode hphase hfull hunwrap hrun => exact hs.decode h hfull hunwrap
  | leave hphase hopen => exact { hs with }
  | ack ha => exact { hs with }

end Ctcp
