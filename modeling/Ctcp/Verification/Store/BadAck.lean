import Ctcp.Model.Transmit
import Ctcp.Verification.Store.Demand

/-! # What a bad acknowledgement does to the transfer -/

namespace Ctcp

open Function

variable {sk : Server} {ack : AckPckt} {pin : ℕ} {slr : ℚ} {cwnd : ℕ}

/-! ## The statement -/

/-- No path has more acknowledged than it has sent. -/
def PathsOrdered (sk : Server) : Prop :=
  ∀ j, j < sk.numActive → (sk.activePaths j).sndUna ≤ (sk.activePaths j).sndNxt

/-- An acknowledgement of packets that its path has not sent, or of a block that the
server never had data for. -/
def BadAck (sk : Server) (ack : AckPckt) (pin : ℕ) : Prop :=
  (sk.activePaths pin).sndNxt < ack.ackno ∨ sk.maxblockno + 1 < ack.blockno

/-- The acknowledgement is refused and the transfer is as it was. -/
structure AckRefused (sk : Server) (result : ℤ × Server) : Prop where
  returns : result.1 = -1
  currBlock_eq : result.2.currBlock = sk.currBlock
  maxblockno_eq : result.2.maxblockno = sk.maxblockno
  dofReqLatest_eq : result.2.dofReqLatest = sk.dofReqLatest
  blocks_eq : result.2.blocks = sk.blocks
  codedQ_eq : result.2.codedQ = sk.codedQ
  dofRemain_eq : result.2.dofRemain = sk.dofRemain
  packetsSent_eq : ∀ j, j < sk.numActive →
    (result.2.activePaths j).packetsSent = (sk.activePaths j).packetsSent
  ordered : PathsOrdered result.2

/-! ## The section before the test -/

@[simp] theorem freeBlocks_numActive (n : ℕ) (sk : Server) :
    (freeBlocks n sk).numActive = sk.numActive := by
  induction n generalizing sk with
  | zero => rfl
  | succ n ih => rw [freeBlocks, ih, freeCurrBlock]

/-- Freeing blocks does not touch what a path has sent and has had acknowledged. -/
theorem freeBlocks_counters (n : ℕ) (sk : Server) (j : ℕ) :
    ((freeBlocks n sk).activePaths j).sndNxt = (sk.activePaths j).sndNxt ∧
      ((freeBlocks n sk).activePaths j).sndUna = (sk.activePaths j).sndUna := by
  induction n generalizing sk with
  | zero => exact ⟨rfl, rfl⟩
  | succ n ih =>
      rw [freeBlocks, (ih _).1, (ih _).2]
      simp only [freeCurrBlock]
      split <;> exact ⟨rfl, rfl⟩

@[simp] theorem handleAckBlocks_numActive (sk : Server) (ack : AckPckt) :
    (handleAckBlocks sk ack).numActive = sk.numActive :=
  freeBlocks_numActive _ sk

@[simp] theorem handleAckBlocks_sndNxt (sk : Server) (ack : AckPckt) (j : ℕ) :
    ((handleAckBlocks sk ack).activePaths j).sndNxt = (sk.activePaths j).sndNxt :=
  (freeBlocks_counters _ sk j).1

@[simp] theorem handleAckBlocks_sndUna (sk : Server) (ack : AckPckt) (j : ℕ) :
    ((handleAckBlocks sk ack).activePaths j).sndUna = (sk.activePaths j).sndUna :=
  (freeBlocks_counters _ sk j).2

/-! ## The test -/

/-- The loop has made `curr_block` at least the acknowledged block, so only the packet
number is left to fail the test. -/
theorem handleAck_fst (sk : Server) (ack : AckPckt) (pin : ℕ) (slr : ℚ) (cwnd : ℕ) :
    (handleAck sk ack pin slr cwnd).1 =
      if (sk.activePaths pin).sndNxt < ack.ackno then -1 else 0 := by
  have hdead : ¬(handleAckBlocks sk ack).currBlock < ack.blockno := by
    rw [handleAckBlocks_currBlock]
    exact Nat.not_lt.mpr (le_max_right _ _)
  simp only [handleAck, hdead, or_false, handleAckBlocks_sndNxt]
  split <;> rfl

/-- Whatever it returns, the path of the acknowledgement ends as `ackPath` says. -/
theorem exists_handleAck_snd (sk : Server) (ack : AckPckt) (pin : ℕ) (slr : ℚ) (cwnd : ℕ) :
    ∃ slr' cwnd', (handleAck sk ack pin slr cwnd).2 =
      (handleAckBlocks sk ack).setPath pin
        (ackPath ((handleAckBlocks sk ack).activePaths pin) ack.ackno slr' cwnd') := by
  simp only [handleAck]
  generalize handleAckBlocks sk ack = freed
  have hmax : (if (freed.activePaths pin).sndUna < ack.ackno then ack.ackno
      else (freed.activePaths pin).sndUna) = max (freed.activePaths pin).sndUna ack.ackno := by
    split_ifs <;> omega
  have hmax' : (if ack.ackno ≤ (freed.activePaths pin).sndUna then
      (freed.activePaths pin).sndUna else ack.ackno) =
        max (freed.activePaths pin).sndUna ack.ackno := by
    split_ifs <;> omega
  split
  · exact ⟨(freed.activePaths pin).slr, (freed.activePaths pin).sndCwnd, by rw [hmax, ackPath]⟩
  · exact ⟨slr, cwnd, by rw [hmax', ackPath]⟩

theorem handleAck_sndUna (sk : Server) (ack : AckPckt) (pin : ℕ) (slr : ℚ) (cwnd : ℕ) :
    ((handleAck sk ack pin slr cwnd).2.activePaths pin).sndUna =
      max (sk.activePaths pin).sndUna ack.ackno := by
  obtain ⟨slr', cwnd', heq⟩ := exists_handleAck_snd sk ack pin slr cwnd
  simp [heq, Server.setPath, ackPath]

theorem handleAck_sndNxt (sk : Server) (ack : AckPckt) (pin : ℕ) (slr : ℚ) (cwnd : ℕ) :
    ((handleAck sk ack pin slr cwnd).2.activePaths pin).sndNxt = (sk.activePaths pin).sndNxt := by
  obtain ⟨slr', cwnd', heq⟩ := exists_handleAck_snd sk ack pin slr cwnd
  simp [heq, Server.setPath, ackPath]

theorem handleAck_numActive (sk : Server) (ack : AckPckt) (pin : ℕ) (slr : ℚ) (cwnd : ℕ) :
    (handleAck sk ack pin slr cwnd).2.numActive = sk.numActive := by
  obtain ⟨slr', cwnd', heq⟩ := exists_handleAck_snd sk ack pin slr cwnd
  simp [heq, Server.setPath]

/-! ## The result -/

/-- A bad acknowledgement opens the window beyond what was sent, or it is taken for a
good one and the blocks before its block number are gone. -/
theorem badAck_effect (hbad : BadAck sk ack pin) :
    (sk.activePaths pin).sndNxt < ((handleAck sk ack pin slr cwnd).2.activePaths pin).sndUna ∨
      (handleAck sk ack pin slr cwnd).1 = 0 ∧
        sk.maxblockno + 1 < (handleAck sk ack pin slr cwnd).2.currBlock := by
  by_cases hackno : (sk.activePaths pin).sndNxt < ack.ackno
  · left
    rw [handleAck_sndUna]
    exact hackno.trans_le (le_max_right _ _)
  · right
    have hahead : sk.maxblockno + 1 < ack.blockno := hbad.resolve_left hackno
    obtain ⟨slr', cwnd', heq⟩ := exists_handleAck_snd sk ack pin slr cwnd
    rw [handleAck_fst, if_neg hackno, heq]
    refine ⟨rfl, hahead.trans_le ?_⟩
    rw [Server.setPath, handleAckBlocks_currBlock]
    exact le_max_right _ _

/-- No bad acknowledgement is refused. -/
theorem not_refused_of_badAck (sk : Server) (ack : AckPckt) (pin : ℕ) (slr : ℚ) (cwnd : ℕ)
    (hpin : pin < sk.numActive) (hbad : BadAck sk ack pin) :
    ¬AckRefused sk (handleAck sk ack pin slr cwnd) := by
  intro hrefused
  cases @badAck_effect sk ack pin slr cwnd hbad with
  | inl hopened =>
      have hle := hrefused.ordered pin (by rwa [handleAck_numActive])
      rw [handleAck_sndNxt] at hle
      omega
  | inr htaken =>
      have hreturns := hrefused.returns
      rw [htaken.1] at hreturns
      exact absurd hreturns (by decide)

/-- Block 50 of a fresh server with one path. -/
theorem not_refused_ahead :
    ¬AckRefused (addPath (createSrvctcpSock noRows 1 (fun _ => initStream) 0))
      (handleAck (addPath (createSrvctcpSock noRows 1 (fun _ => initStream) 0)) ⟨1, 50, 0⟩ 0 0
        initsegs) :=
  not_refused_of_badAck _ _ _ _ _ (by decide) (Or.inr (by decide))

/-- An acknowledgement of packet 4000 when none has been sent is refused with the value -1,
but it leaves `snd_una` at 4000. -/
theorem badAck_not_refused :
    ¬∀ (sk : Server) (ack : AckPckt) (pin : ℕ) (slr : ℚ) (cwnd : ℕ), pin < sk.numActive →
      PathsOrdered sk → BadAck sk ack pin → AckRefused sk (handleAck sk ack pin slr cwnd) := by
  intro hall
  let sk : Server := addPath (createSrvctcpSock noRows 1 (fun _ => initStream) 0)
  have hordered : PathsOrdered sk := by
    intro j hj
    obtain rfl : j = 0 := Nat.lt_one_iff.mp hj
    exact le_rfl
  have hrefused := hall sk ⟨4000, 1, 0⟩ 0 0 initsegs (by decide) hordered (Or.inl (by decide))
  have hle : 4000 ≤ 1 := hrefused.ordered 0 (by decide)
  exact absurd hle (by decide)

end Ctcp
