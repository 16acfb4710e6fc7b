import Ctcp.Verification.Decoder.Counts
import Ctcp.Verification.Decoder.Runs

/-! # Data packets of blocks outside the window -/

namespace Ctcp

open Function Program

/-- What `bldack` does after a packet has been absorbed: it builds the acknowledgement
and delivers rows. -/
def ackAndDeliver (rm : Residue) (csk : Client) (seqno : ℕ) :
    FifoProgram (Option (Client × AckPckt)) :=
  (deliver rm csk).map fun csk' => csk'.map fun c => (c, buildAck csk seqno)

/-- `unmarshallData` leaves the block in the slot of the packet alone: the packet is old,
or all rows that it mentions have been mentioned before. -/
def LeavesIndex (csk : Client) (msg : DataPckt) : Prop :=
  msg.blockno < csk.currBlock ∨ Recorded (csk.block msg.blockno) msg

variable {rm : Residue} {csk : Client} {msg : DataPckt}

theorem unmarshallData_eq_self (h : LeavesIndex csk msg) : unmarshallData csk msg = csk := by
  unfold unmarshallData
  split
  · next hle =>
      have hmax := max_eq_right (h.resolve_left (Nat.not_lt.mpr hle))
      rw [hmax, Client.setBlock]
      exact congrArg (Client.mk · csk.currBlock) (update_eq_self _ _)
  · rfl

/-- Only `unmarshallData` touches the blocks. -/
theorem handleData_outOfWindow (hout : ¬csk.InWindow msg.blockno) :
    handleData rm csk msg = ackAndDeliver rm (unmarshallData csk msg) msg.seqno := by
  have hcurr : (unmarshallData csk msg).currBlock = csk.currBlock := by
    unfold unmarshallData
    split <;> rfl
  have habs : absorbPacket rm (unmarshallData csk msg) msg = some (unmarshallData csk msg) := by
    rw [absorbPacket, hcurr]
    by_cases hold : msg.blockno < csk.currBlock
    · rw [if_pos hold]
    · have hfar : csk.currBlock + numBlocks ≤ msg.blockno := by
        by_contra hnot
        exact hout ⟨Nat.not_lt.mp hold, Nat.not_le.mp hnot⟩
      rw [if_neg hold, if_pos hfar]
  simp only [handleData, bldack, habs]
  rfl

/-- A run that does not fault ends with the `max_packet_index` it started with. -/
theorem index_of_runs {allow : FifoCall → ℕ → Prop} {seqno : ℕ}
    (hopen : (csk.block csk.currBlock).dofs ≠ (csk.block csk.currBlock).len)
    {t : List (FifoCall × ℕ)} {c : Client × AckPckt}
    (hrun : (ackAndDeliver rm csk seqno).Runs allow t (some c)) (b : ℕ) :
    (c.1.block b).maxPacketIndex = (csk.block b).maxPacketIndex := by
  have hall : (ackAndDeliver rm csk seqno).Ensures allow fun _ res => ∀ c ∈ res, ∀ b,
      (c.1.block b).maxPacketIndex = (csk.block b).maxPacketIndex := by
    refine Ensures.bind (deliver_counts hopen) fun t res hres => ?_
    intro c hc b
    obtain ⟨csk', hcsk', rfl⟩ := Option.map_eq_some_iff.mp hc
    exact ((hres csk' hcsk').2 b).index_eq
  exact ensures_iff.mp hall _ _ hrun c rfl b

/-- The packet makes a difference exactly when it raises `max_packet_index`. For the
converse the state is one between two packets, in which `bldack` can go on at all. -/
theorem outOfWindow_harmless (rm : Residue) (csk : Client) (msg : DataPckt)
    (hout : ¬csk.InWindow msg.blockno) :
    (LeavesIndex csk msg → handleData rm csk msg = ackAndDeliver rm csk msg.seqno) ∧
      ((csk.block csk.currBlock).dofs ≠ (csk.block csk.currBlock).len →
        (∃ t c, (ackAndDeliver rm csk msg.seqno).Runs (fun _ _ => True) t (some c)) →
        handleData rm csk msg = ackAndDeliver rm csk msg.seqno → LeavesIndex csk msg) := by
  rw [handleData_outOfWindow hout]
  refine ⟨fun h => by rw [unmarshallData_eq_self h], fun hopen hruns heq => ?_⟩
  obtain ⟨t, c, hrun⟩ := hruns
  by_cases hold : msg.blockno < csk.currBlock
  · exact .inl hold
  · have hrecord : unmarshallData csk msg =
        csk.setBlock msg.blockno (recordIndex (csk.block msg.blockno) msg) :=
      if_pos (Nat.not_lt.mp hold)
    have hbefore := index_of_runs hopen hrun msg.blockno
    rw [← heq, hrecord] at hrun
    have hafter := index_of_runs ?_ hrun msg.blockno
    · rw [hbefore, Client.block_setBlock_self] at hafter
      refine .inr ?_
      rw [Recorded, hafter]
      exact le_max_left _ _
    · rw [Client.setBlock_currBlock]
      by_cases hs : slot csk.currBlock = slot msg.blockno
      · rw [Client.block_setBlock_of_slot_eq hs]
        rwa [Client.block, hs] at hopen
      · rwa [Client.block_setBlock_of_slot_ne hs]

namespace FarAhead

open ShortAfterLong

/-- The `max_packet_index` of block 1 at the end of a run. -/
def indexOf (p : FifoProgram (Option (Client × AckPckt))) : Option ℕ :=
  (p.runWith drainReply).2.map fun c => (c.1.block 1).maxPacketIndex

theorem index_handled : indexOf (handleData blank start.client (zeroRow 101).msg) = some 1 := by
  decide +kernel

theorem index_unhandled : indexOf (ackAndDeliver blank start.client 1) = some 0 := by
  decide +kernel

/-- The client when a packet over three rows of block 1 has been handled. -/
def afterThree : Option Client :=
  ((handleData blank start.client (coded 1 0 3 73).msg).runWith drainReply).2.map Prod.fst

end FarAhead

open ShortAfterLong in
/-- A packet of block 0 is old, and one of block 101 mentions a row of its slot that the client
has heard of. -/
theorem outOfWindow_harmless_recorded : ∃ csk ∈ FarAhead.afterThree,
    handleData blank csk (zeroRow 0).msg = ackAndDeliver blank csk 1 ∧
      handleData blank csk (zeroRow 101).msg = ackAndDeliver blank csk 1 := by
  have hstate : FarAhead.afterThree.map (fun c => (c.currBlock, (c.block 101).maxPacketIndex)) =
      some (1, 3) := by
    decide +kernel
  obtain ⟨csk, hcsk, hfields⟩ := Option.map_eq_some_iff.mp hstate
  obtain ⟨hcurr, hindex⟩ := Prod.mk.inj hfields
  refine ⟨csk, hcsk, ?_, ?_⟩
  · refine (outOfWindow_harmless blank csk (zeroRow 0).msg fun hin => ?_).1 (.inl ?_)
    · exact absurd (hcurr ▸ hin.1) (by decide)
    · exact hcurr ▸ (by decide : (zeroRow 0).msg.blockno < 1)
  · refine (outOfWindow_harmless blank csk (zeroRow 101).msg fun hin => ?_).1 (.inr ?_)
    · exact absurd (hcurr ▸ hin.2) (by decide)
    · have hrows :
          (zeroRow 101).msg.startPacket.toNat + (zeroRow 101).msg.numPackets.toNat ≤ 3 := by
        decide
      exact hrows.trans hindex.ge

/-- Block 101 does not exist yet, but a packet of it raises `max_packet_index` of block 1. -/
theorem not_harmless_of_farAhead : ¬∀ (rm : Residue) (csk : Client) (msg : DataPckt),
    ¬csk.InWindow msg.blockno → handleData rm csk msg = ackAndDeliver rm csk msg.seqno := by
  intro hall
  have heq := hall ShortAfterLong.blank ShortAfterLong.start.client
    (ShortAfterLong.zeroRow 101).msg (by decide)
  have hindex := FarAhead.index_handled
  rw [heq] at hindex
  exact absurd (hindex.symm.trans FarAhead.index_unhandled) (by decide)

end Ctcp
