import Ctcp.Verification.Agreement.Network

/-! # Agreement on which blocks are done -/

namespace Ctcp

variable {s : Network}

/-- The number of rows that the server holds of block `b`. -/
def Server.lenOf (sk : Server) (b : ℕ) : ℕ :=
  if b < sk.currBlock + numBlocks then (sk.block b).length else 0

theorem StoreInv.lenOf_eq {sk : Server} {filled : Filled} (h : StoreInv sk filled) {b : ℕ}
    (hb : sk.currBlock ≤ b) : sk.lenOf b = (filled b).length := by
  by_cases hlt : b < sk.currBlock + numBlocks
  · rw [Server.lenOf, if_pos hlt, h.held b hb hlt]
  · rw [Server.lenOf, if_neg hlt, h.beyond b (Nat.not_lt.mp hlt), List.length_nil]

/-- The client decodes only blocks that were filled completely. -/
theorem NetInv.full_of_decoded (h : NetInv s) {b : ℕ} (hb : 1 ≤ b)
    (hdec : b < s.client.currBlock) : (s.filled b).length = blockSize := by
  have hdofs := h.dofs_le b hb
  rw [Client.dofsOf, if_pos hdec] at hdofs
  exact le_antisymm (h.store.length_le b) hdofs

theorem NetInv.client_le (h : NetInv s) : s.client.currBlock ≤ s.sk.maxblockno + 1 := by
  by_contra hlt
  have hpos := h.store.curr_pos.trans h.store.curr_le
  have hfull := h.full_of_decoded (b := s.client.currBlock - 1) (by omega) (by omega)
  rw [h.store.ahead _ (by omega)] at hfull
  simp [blockSize] at hfull

/-- The server frees a block only when the client has full rank of it, and is ahead of the
client only while the handler of the client is busy. The client never has more of a block
than the server, and the count of what is missing is never negative before it is corrected. -/
structure BlocksAgree (s : Network) : Prop where
  curr_le : s.phase = .idle → s.sk.currBlock ≤ s.client.currBlock
  client_le : s.client.currBlock ≤ s.sk.maxblockno + 1
  dofs_le : ∀ b, s.sk.currBlock ≤ b → s.client.dofsOf b ≤ s.sk.lenOf b
  freed : ∀ b, 1 ≤ b → b < s.sk.currBlock →
    s.client.dofsOf b = blockSize ∧ (s.filled b).length = blockSize ∧
      (s.phase = .idle → b < s.client.currBlock)
  req_nonneg : ∀ a ∈ s.acks, 0 ≤ ackDofReq (freeBlocks (a.blockno - s.sk.currBlock) s.sk)
    (s.sk.currBlock < a.blockno) a

theorem NetInv.blocksAgree (h : NetInv s) : BlocksAgree s where
  curr_le := h.curr_le
  client_le := h.client_le
  dofs_le b hb := by
    rw [h.store.lenOf_eq hb]
    exact h.dofs_le b (h.store.curr_pos.trans hb)
  freed b hb hfreed := by
    have hfull := h.freed b hfreed
    refine ⟨hfull, le_antisymm (h.store.length_le b) (hfull ▸ h.dofs_le b hb), fun hidle => ?_⟩
    exact hfreed.trans_le (h.curr_le hidle)
  req_nonneg a ha := by
    rw [h.store.ackDofReq_eq h.req fun hadv => h.ack_filled ha hadv]
    exact nextReq_nonneg h.req fun hadv => h.ack_filled ha hadv

theorem network_agreement {memory : BlockMemory} (hmem : memory.Clear) {s : Network}
    (h : ((network memory).guard SendsTruly).Reachable s) : BlocksAgree s :=
  (network_inv (hmem.eq_noRows ▸ h)).blocksAgree

/-- Block 1 is filled, delivered, acknowledged and freed, then a row of block 2 is sent. -/
def twoBlocks : List ScriptStep :=
  List.replicate (blockSize + 2) (.fill 7) ++ (List.range blockSize).map (.deliver 1) ++
    [.ack ⟨1, 2, 0⟩, .deliver 2 0, .ack ⟨1, 2, 1⟩]

theorem network_agreement_twoBlocks : ∃ s : Network, s.sk.currBlock = 2 ∧
    s.client.dofsOf 2 = 1 ∧ BlocksAgree s := by
  have hview : (twoBlocks.foldlM (play true) opening).map
      (fun p => (p.sk.currBlock, p.client.dofsOf 2)) = some (2, 1) := by decide +kernel
  obtain ⟨p, hplay, hview⟩ := Option.map_eq_some_iff.mp hview
  obtain ⟨s, hs, hshows⟩ := reachable_script (fun _ _ => id) (fun _ _ => Scripted.sendsTruly) hplay
  obtain ⟨hcurr, hone⟩ := Prod.mk.injEq .. ▸ hview
  exact ⟨s, hshows.sk_eq ▸ hcurr, hshows.client_eq ▸ hone, network_agreement (fun _ => rfl) hs⟩

/-! ## An acknowledgement before the block is decoded -/

/-- The server is never ahead of the client, and frees a block only when the client has
decoded it. -/
structure FreedDecoded (s : Network) : Prop where
  curr_le : s.sk.currBlock ≤ s.client.currBlock
  client_le : s.client.currBlock ≤ s.sk.maxblockno + 1
  dofs_le : ∀ b, s.sk.currBlock ≤ b → s.client.dofsOf b ≤ s.sk.lenOf b
  freed : ∀ b, 1 ≤ b → b < s.sk.currBlock → b < s.client.currBlock
  req_nonneg : ∀ a ∈ s.acks, 0 ≤ ackDofReq (freeBlocks (a.blockno - s.sk.currBlock) s.sk)
    (s.sk.currBlock < a.blockno) a

namespace EarlyAck

/-- Block 1 is filled, and all its rows but the last one are delivered. -/
def script : List ScriptStep :=
  List.replicate blockSize (.fill 7) ++ (List.range (blockSize - 1)).map (.deliver 1)

/-- The client has absorbed the last row, and acknowledges block 1 before it decodes it. -/
def absorbed (p : Parties) : Option Client :=
  absorbPacket ShortAfterLong.blank (unmarshallData p.client (normalPacket p.sk 1 31))
    (normalPacket p.sk 1 31)

theorem absorbed_result : ((script.foldlM (play true) opening).bind fun p =>
    (absorbed p).map fun mid => (p.sk.currBlock, p.sk.maxblockno, (p.sk.block 1).length,
      mid.currBlock, (buildAck mid 0).blockno)) = some (1, 1, blockSize, 1, 2) := by
  decide +kernel

end EarlyAck

/-- The acknowledgement reaches the server while the client has still to decode the block. -/
theorem not_freedDecoded_of_earlyAck :
    ¬∀ s, ((network noRows).guard SendsTruly).Reachable s → FreedDecoded s := by
  intro hall
  obtain ⟨p, hplay, hview⟩ := Option.bind_eq_some_iff.mp EarlyAck.absorbed_result
  obtain ⟨mid, hmid, hview⟩ := Option.map_eq_some_iff.mp hview
  simp only [Prod.mk.injEq] at hview
  obtain ⟨hcurr, hmax, hlen, hmidcurr, hack⟩ := hview
  obtain ⟨s, hs, hsk, hclient, hidle, -⟩ :=
    reachable_script (fun _ _ => id) (fun _ _ => Scripted.sendsTruly) hplay
  rw [EarlyAck.absorbed, ← hsk, ← hclient] at hmid
  rw [← hsk] at hcurr hmax hlen
  have hsend : Sendable s.sk (normalPacket s.sk 1 31) := by
    refine sendable_normalPacket ⟨hcurr.le, hmax.ge, ?_, by decide, hlen.symm ▸ by decide⟩
    rw [hcurr]
    decide
  have hsent := hs.step (e := NetEvent.transmit _) ⟨hsend, .transmit⟩
  have harrive := hsent.step (e := NetEvent.arrive ShortAfterLong.blank _)
    ⟨trivial, .arrive hidle (Set.mem_insert _ _) hmid⟩
  have hfreed := harrive.step (e := NetEvent.ack _) ⟨trivial, .ack (Set.mem_insert _ _)⟩
  have hle := (hall _ hfreed).curr_le
  simp only [handleAckBlocks_currBlock, hcurr, hmidcurr] at hle
  change max 1 (buildAck mid 0).blockno ≤ 1 at hle
  rw [hack] at hle
  exact absurd hle (by decide)

end Ctcp
