import Ctcp.Verification.Decoder.Ack
import Ctcp.Verification.Decoder.Runs
import Mathlib.Data.Prod.Lex

/-! # The sequence of acknowledgements -/

namespace Ctcp

open Function Program

variable {allow : FifoCall → ℕ → Prop} {rm : Residue} {msg : DataPckt} {csk mid csk' : Client}
  {blk blk' : CodedBlock} {t : List (FifoCall × ℕ)}

/-! ## Degrees of freedom over one packet, in any state -/

/-- A packet adds at most one degree of freedom. -/
structure OneMore (blk blk' : CodedBlock) : Prop where
  len_eq : blk'.len = blk.len
  le : blk.dofs ≤ blk'.dofs
  le_succ : blk'.dofs ≤ blk.dofs + 1

theorem eliminate_oneMore {fuel start : ℕ} {coeff : List UInt8} {pl : Payload}
    (h : eliminate blk fuel start coeff pl = some blk') : OneMore blk blk' := by
  have hsame : OneMore blk blk := ⟨rfl, le_rfl, Nat.le_succ _⟩
  induction fuel generalizing start coeff pl with
  | zero =>
      rw [eliminate] at h
      split at h
      · cases h
        exact hsame
      · cases h
  | succ fuel ih =>
      rw [eliminate] at h
      split at h
      · cases h
        exact hsame
      · split at h
        · cases h
        · split at h
          · split at h
            · cases h
            · exact ih h
          · cases h
            exact ⟨rfl, Nat.le_succ _, le_rfl⟩

theorem insertPacket_oneMore (h : insertPacket rm blk msg = some blk') : OneMore blk blk' := by
  unfold insertPacket at h
  split at h
  · cases h
  · exact eliminate_oneMore h

/-- Every block has at most as many degrees of freedom as rows. -/
def Client.Bounded (csk : Client) : Prop :=
  ∀ b, (csk.block b).len = blockSize ∧ (csk.block b).dofs ≤ blockSize

/-- The client after a packet has been absorbed, and before delivery. -/
structure Absorbed (csk mid : Client) : Prop where
  curr_eq : mid.currBlock = csk.currBlock
  dofs_le : ∀ b, (csk.block b).dofs ≤ (mid.block b).dofs
  bounded : csk.Bounded → mid.Bounded

theorem Absorbed.refl (csk : Client) : Absorbed csk csk := ⟨rfl, fun _ => le_rfl, id⟩

theorem Absorbed.trans (h : Absorbed csk mid) (h' : Absorbed mid csk') : Absorbed csk csk' :=
  ⟨h'.curr_eq.trans h.curr_eq, fun b => (h.dofs_le b).trans (h'.dofs_le b),
    fun hb => h'.bounded (h.bounded hb)⟩

theorem absorbed_setBlock {b : ℕ} (hlen : blk.len = (csk.block b).len)
    (hle : (csk.block b).dofs ≤ blk.dofs)
    (hbound : (csk.block b).dofs ≤ (csk.block b).len → blk.dofs ≤ blk.len) :
    Absorbed csk (csk.setBlock b blk) where
  curr_eq := rfl
  dofs_le b' := by
    by_cases hs : slot b' = slot b
    · rw [Client.block_setBlock_of_slot_eq hs, Client.block, hs]
      exact hle
    · rw [Client.block_setBlock_of_slot_ne hs]
  bounded hb b' := by
    by_cases hs : slot b' = slot b
    · obtain ⟨hl, hd⟩ := hb b
      rw [Client.block_setBlock_of_slot_eq hs, hlen, hl]
      refine ⟨rfl, ?_⟩
      rw [← hl, ← hlen]
      exact hbound (hl.symm ▸ hd)
    · rw [Client.block_setBlock_of_slot_ne hs]
      exact hb b'

theorem absorbPacket_absorbed (h : absorbPacket rm (unmarshallData csk msg) msg = some mid) :
    Absorbed csk mid := by
  have hrecord : Absorbed csk (unmarshallData csk msg) := by
    unfold unmarshallData
    split
    · exact absorbed_setBlock rfl le_rfl id
    · exact .refl csk
  unfold absorbPacket at h
  split at h
  · cases h
    exact hrecord
  · split at h
    · cases h
      exact hrecord
    · split at h
      · next hopen =>
          obtain ⟨blk, hblk, rfl⟩ := Option.map_eq_some_iff.mp h
          have hone := insertPacket_oneMore hblk
          refine hrecord.trans (absorbed_setBlock hone.len_eq hone.le fun _ => ?_)
          have hle := hone.le_succ
          rw [hone.len_eq]
          omega
      · cases h
        exact hrecord

theorem DeliverEnds.bounded (h : DeliverEnds mid csk') (hb : mid.Bounded) : csk'.Bounded := by
  intro b
  obtain ⟨b', hs, hle, hlt⟩ := exists_slot_eq csk'.currBlock b
  have hblock : csk'.block b = csk'.block b' := by rw [Client.block, ← hs, Client.block]
  rw [hblock]
  by_cases hold : b' < mid.currBlock + numBlocks
  · have hkept := h.kept b' hle hold
    rw [hkept.len_eq, hkept.dofs_eq]
    exact hb b'
  · obtain ⟨hdofs, hlen⟩ := h.fresh b' ⟨hle, hlt⟩ (Nat.not_lt.mp hold)
    rw [hdofs, hlen]
    exact ⟨rfl, Nat.zero_le _⟩

/-- Every call of the handler that does not fault, in two parts. -/
theorem handleData_ends {c : Client × AckPckt}
    (hrun : (handleData rm csk msg).Runs allow t (some c)) :
    ∃ mid, Absorbed csk mid ∧ DeliverEnds mid c.1 ∧ c.2 = buildAck mid msg.seqno := by
  have hall : (handleData rm csk msg).Ensures allow fun _ res => ∀ c ∈ res, ∃ mid,
      Absorbed csk mid ∧ DeliverEnds mid c.1 ∧ c.2 = buildAck mid msg.seqno := by
    rw [handleData, bldack]
    split
    · intro c hc
      cases hc
    · next mid hmid =>
        refine Ensures.bind deliver_ends fun t res hres c hc => ?_
        obtain ⟨csk', hcsk', rfl⟩ := Option.map_eq_some_iff.mp hc
        exact ⟨mid, absorbPacket_absorbed hmid, hres csk' hcsk', rfl⟩
  exact ensures_iff.mp hall _ _ hrun c rfl

/-! ## Runs -/

/-- The client and the acknowledgements it has sent. -/
structure Acker where
  client : Client
  acked : List AckPckt

/-- The client fed with any packets, whatever `usr_cache` answers; `none` is a memory fault. -/
def acker : System (Option Acker) Arrival where
  init s := ∃ raw, s = some ⟨createClictcpSock raw, []⟩
  step s e s' := ∃ r t res, s = some r ∧
    (handleData e.rm r.client e.msg).Runs (fun _ _ => True) t res ∧
    s' = res.map fun c => ⟨c.1, r.acked ++ [c.2]⟩

/-- The pair that an acknowledgement announces, in lexicographic order. -/
def AckPckt.key (a : AckPckt) : ℕ ×ₗ ℕ := toLex (a.blockno, a.dofRec.toNat)

/-- The pair that describes the client's state. -/
def Client.key (csk : Client) : ℕ ×ₗ ℕ := toLex (csk.currBlock, (csk.block csk.currBlock).dofs)

structure AckerInv (r : Acker) : Prop where
  bounded : r.client.Bounded
  sorted : r.acked.Pairwise fun a a' => a.key ≤ a'.key
  le : ∀ a ∈ r.acked, a.key ≤ r.client.key

theorem ackerInv_create (raw : ℕ → CodedBlock) : AckerInv ⟨createClictcpSock raw, []⟩ where
  bounded _ := ⟨rfl, Nat.zero_le _⟩
  sorted := .nil
  le _ h := (List.not_mem_nil h).elim

/-- The state of the client never goes back. -/
theorem key_le (h : Absorbed csk mid) (h' : DeliverEnds mid csk') : csk.key ≤ csk'.key := by
  refine Prod.Lex.toLex_le_toLex.mpr ?_
  change csk.currBlock < csk'.currBlock ∨ csk.currBlock = csk'.currBlock ∧ _
  have hle := h'.le
  rw [h.curr_eq] at hle
  rcases Nat.lt_or_eq_of_le hle with hlt | he
  · exact .inl hlt
  · refine .inr ⟨he, ?_⟩
    have hkept := h'.kept csk'.currBlock le_rfl (by
      rw [h.curr_eq, he]
      exact Nat.lt_add_of_pos_right (by decide))
    change (csk.block csk.currBlock).dofs ≤ (csk'.block csk'.currBlock).dofs
    rw [hkept.dofs_eq, he]
    exact h.dofs_le _

/-- With bounded blocks the byte of the acknowledgement holds the whole count. -/
theorem DeliverEnds.toNat_dofRec (h : DeliverEnds mid csk') (hb : mid.Bounded) (seqno : ℕ) :
    (buildAck mid seqno).dofRec.toNat = (csk'.block csk'.currBlock).dofs := by
  have hlt := (h.bounded hb csk'.currBlock).2.trans_lt (show blockSize < 256 by decide)
  rw [(buildAck_eq h seqno).2, UInt8.toNat_ofNat', Nat.mod_eq_of_lt hlt]

theorem AckerInv.step {r : Acker} (h : AckerInv r) {e : Arrival} {c : Client × AckPckt}
    (hrun : (handleData e.rm r.client e.msg).Runs allow t (some c)) :
    AckerInv ⟨c.1, r.acked ++ [c.2]⟩ := by
  obtain ⟨mid, habs, hends, hack⟩ := handleData_ends hrun
  have hbounded := habs.bounded h.bounded
  have hle : ∀ a ∈ r.acked, a.key ≤ c.1.key := fun a ha => (h.le a ha).trans (key_le habs hends)
  have hkey : c.2.key = c.1.key := by
    rw [AckPckt.key, hack, hends.toNat_dofRec hbounded, (buildAck_eq hends e.msg.seqno).1,
      Client.key]
  refine ⟨hends.bounded hbounded, ?_, fun a ha => ?_⟩
  · refine List.pairwise_append.mpr ⟨h.sorted, List.pairwise_singleton _ _, fun a ha a' ha' => ?_⟩
    rw [List.mem_singleton.mp ha', hkey]
    exact hle a ha
  · rcases List.mem_append.mp ha with ha | ha
    · exact hle a ha
    · rw [List.mem_singleton.mp ha]
      exact hkey.le

theorem acker_inv {s : Option Acker} (h : acker.Reachable s) : ∀ r ∈ s, AckerInv r := by
  refine h.invariant (I := fun s => ∀ r ∈ s, AckerInv r) ?_ ?_
  · rintro s ⟨raw, rfl⟩ r hr
    cases hr
    exact ackerInv_create raw
  · rintro s e s' hs ⟨r, t, res, rfl, hrun, rfl⟩ r' hr'
    obtain ⟨c, rfl, rfl⟩ := Option.map_eq_some_iff.mp hr'
    exact (hs r rfl).step hrun

/-- The acknowledgement of a packet announces the state after delivery, in every state of
the client, and over a run of packets what is announced never goes back. -/
theorem acks_announce :
    (∀ rm csk msg t csk' a,
      (handleData rm csk msg).Runs (fun _ _ => True) t (some (csk', a)) →
        a.blockno = csk'.currBlock ∧
          a.dofRec = UInt8.ofNat (csk'.block csk'.currBlock).dofs ∧
          (csk.Bounded → a.dofRec.toNat = (csk'.block csk'.currBlock).dofs)) ∧
      ∀ s, acker.Reachable s → ∀ r ∈ s, r.acked.Pairwise fun a a' => a.key ≤ a'.key := by
  refine ⟨fun rm csk msg t csk' a hrun => ?_, fun s h r hr => (acker_inv h r hr).sorted⟩
  obtain ⟨mid, habs, hends, hack⟩ := handleData_ends hrun
  have heq : a = buildAck mid msg.seqno := hack
  obtain ⟨hblock, hdofs⟩ := buildAck_eq hends msg.seqno
  rw [heq]
  exact ⟨hblock, hdofs, fun hb => hends.toNat_dofRec (habs.bounded hb) msg.seqno⟩

/-- The first packet of block 1, when the application reads all bytes at once. -/
def ShortAfterLong.firstAck : List (FifoCall × ℕ) × Option (Client × AckPckt) :=
  (handleData blank start.client (zeroRow 1).msg).runWith drainReply

theorem ShortAfterLong.isSome_firstAck : firstAck.2.isSome := by decide +kernel

theorem acks_announce_zeroRow : ∃ c ∈ ShortAfterLong.firstAck.2,
    c.2.blockno = c.1.currBlock ∧ c.2.dofRec.toNat = (c.1.block c.1.currBlock).dofs := by
  obtain ⟨⟨csk, a⟩, hc⟩ := Option.isSome_iff_exists.mp ShortAfterLong.isSome_firstAck
  have hrun : (handleData ShortAfterLong.blank ShortAfterLong.start.client
      (ShortAfterLong.zeroRow 1).msg).Runs (fun _ _ => True) ShortAfterLong.firstAck.1
      ShortAfterLong.firstAck.2 := runs_runWith drainReply fun _ => trivial
  rw [hc] at hrun
  obtain ⟨hblock, -, hdofs⟩ := acks_announce.1 _ _ _ _ _ _ hrun
  exact ⟨_, hc, hblock, hdofs fun _ => ⟨rfl, Nat.zero_le _⟩⟩

end Ctcp
