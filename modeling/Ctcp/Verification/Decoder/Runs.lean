import Ctcp.Library.Execution
import Ctcp.Verification.Decoder.Handler

/-! # Runs of the decoder -/

namespace Ctcp

open Function Program Submodule

/-- The client and all bytes that `usr_cache` has accepted from it. -/
structure Receiver where
  client : Client
  pushed : List UInt8

/-- A data packet that reaches the client, with the stray memory it meets there. -/
structure Arrival where
  rm : Residue
  msg : DataPckt

/-- Replies of a `usr_cache` that the application drains: a push always makes progress. -/
def Drained : FifoCall → ℕ → Prop
  | .getspace, _ => True
  | .push bytes, n => (bytes ≠ [] → 0 < n) ∧ n ≤ bytes.length

theorem not_refused_drained : ¬Refused Drained := fun ⟨_, hne, h⟩ => (h.1 hne).false

/-- The decoder fed with truthful packets in any order; `none` is a memory fault. -/
def decoder (p : ℕ → ℕ → Payload) : System (Option Receiver) Arrival where
  init s := ∃ raw, s = some ⟨createClictcpSock raw, []⟩
  step s e s' := ∃ r t res, s = some r ∧ Truthful (p e.msg.blockno) e.msg ∧
    (handleData e.rm r.client e.msg).Runs Drained t res ∧
    s' = res.map fun c => ⟨c.1, r.pushed ++ pushedBytes t⟩

/-! ## Soundness -/

/-- A packet over several rows meets no stored row that reaches further. -/
def KeepsCoefficients (s : Option Receiver) (e : Arrival) : Prop :=
  ∀ r ∈ s, r.client.Absorbs e.msg → 2 ≤ e.msg.numPackets.toNat →
    Fits e.rm (r.client.block e.msg.blockno) e.msg

variable {p : ℕ → ℕ → Payload}

/-- The state of the client after any number of packets. -/
structure ReceiverSound (p : ℕ → ℕ → Payload) (r : Receiver) : Prop where
  shape : ClientShape r.client
  sound : ClientSound p r.client
  pushed : AllFramed p → r.pushed = sourceBytes p r.client.rowsPushed

theorem receiverSound_create (p : ℕ → ℕ → Payload) (raw : ℕ → CodedBlock) :
    ReceiverSound p ⟨createClictcpSock raw, []⟩ :=
  ⟨clientShape_create raw, clientSound_create p raw, fun _ => rfl⟩

theorem Truthful.inBlock {p : ℕ → Payload} {msg : DataPckt} (h : Truthful p msg) : InBlock msg :=
  h.le_blockSize

theorem AbsorbSpec.sound {rm : Residue} {msg : DataPckt} {csk csk' : Client}
    (h : AbsorbSpec rm msg csk csk') (hp : ClientSound p csk)
    (hmsg : csk.currBlock ≤ msg.blockno → InBlock msg)
    (hpayload : csk.Absorbs msg → msg.payload.toVec = combine (p msg.blockno) (msg.vector rm))
    (hfit : csk.Absorbs msg → 2 ≤ msg.numPackets.toNat → Fits rm (csk.block msg.blockno) msg) :
    ClientSound p csk' := by
  intro b hb
  have hin : csk.InWindow b := by simpa only [Client.InWindow, h.curr_eq] using hb
  by_cases habs : b = msg.blockno ∧ csk.Absorbs msg
  · obtain ⟨rfl, habs⟩ := habs
    have hfit' : msg.numPackets.toNat ≤ 1 ∨ Fits rm (recordIndex (csk.block msg.blockno) msg) msg :=
      (Nat.lt_or_ge 1 _).symm.imp id fun hnum => fits_recordIndex.mpr (hfit habs hnum)
    obtain ⟨blk, heq, hsound⟩ := insertPacket_sound ((hp _ hin).recordIndex (hmsg hin.1))
      recorded_recordIndex rm (hpayload habs) hfit'
    rwa [Option.some.inj ((h.absorbed habs).symm.trans heq)]
  · rcases h.other b hin habs with heq | ⟨hle, -, heq⟩
    · exact heq ▸ hp b hin
    · exact heq ▸ (hp b hin).recordIndex (hmsg hle)

/-- The rows handed over are the same before and after a packet is absorbed. -/
theorem AbsorbSpec.rowsPushed_eq {rm : Residue} {msg : DataPckt} {csk csk' : Client}
    (h : AbsorbSpec rm msg csk csk') (hshape : ClientShape csk) (hmsg : InBlock msg) :
    csk'.rowsPushed = csk.rowsPushed := by
  have hin := csk.inWindow_currBlock
  rw [Client.rowsPushed, Client.rowsPushed, h.curr_eq]
  congr 1
  by_cases habs : csk.currBlock = msg.blockno ∧ csk.Absorbs msg
  · obtain ⟨hb, habs⟩ := habs
    obtain ⟨blk, heq, hspec⟩ := insertPacket_spec
      ((hshape.block msg.blockno).recordIndex hmsg) recorded_recordIndex rm
    rw [hb, Option.some.inj ((h.absorbed habs).symm.trans heq), hspec.pushed_eq]
    rfl
  · rcases h.other _ hin habs with heq | ⟨-, -, heq⟩
    · rw [heq]
    · rw [heq]
      rfl

theorem ReceiverSound.step {r : Receiver} (h : ReceiverSound p r) {e : Arrival}
    (htruth : Truthful (p e.msg.blockno) e.msg) (hkeep : KeepsCoefficients (some r) e) :
    (handleData e.rm r.client e.msg).Ensures Drained fun t res =>
      ∃ c, res = some c ∧ ReceiverSound p ⟨c.1, r.pushed ++ pushedBytes t⟩ := by
  refine (handleData_spec h.shape fun _ => htruth.inBlock).mono ?_
  rintro t _ ⟨mid, csk', habs, hdel, rfl⟩
  have hsound := habs.sound h.sound (fun _ => htruth.inBlock) (fun _ => htruth.payload_eq e.rm)
    (hkeep r rfl)
  refine ⟨_, rfl, hdel.shape, hdel.sound hsound, fun hframed => ?_⟩
  have hout := (hdel.out.resolve_left not_refused_drained) p hsound hframed
  rw [hout, habs.rowsPushed_eq h.shape htruth.inBlock, h.pushed hframed]

theorem receiver_sound {s : Option Receiver}
    (h : ((decoder p).guard KeepsCoefficients).Reachable s) :
    ∃ r, s = some r ∧ ReceiverSound p r := by
  refine h.invariant (I := fun s => ∃ r, s = some r ∧ ReceiverSound p r) ?_ ?_
  · rintro s ⟨raw, rfl⟩
    exact ⟨_, rfl, receiverSound_create p raw⟩
  · rintro s e s' ⟨r, rfl, hr⟩ ⟨hkeep, r', t, res, hr', htruth, hrun, rfl⟩
    obtain rfl : r = r' := Option.some.inj hr'
    obtain ⟨c, rfl, hc⟩ := ensures_iff.mp (hr.step htruth hkeep) t res hrun
    exact ⟨_, rfl, hc⟩

/-- The equation stored in a row is true of the source rows. -/
def CodedBlock.RowTrue (p : ℕ → Payload) (blk : CodedBlock) (r : ℕ) : Prop :=
  blk.rows r 0 = 1 ∧ r + blk.rowLen r ≤ blockSize ∧
    ∃ content, blk.content r = some content ∧ ∀ i, (⟨content i⟩ : GF256) =
      ∑ k ∈ Finset.range (blk.rowLen r), (⟨blk.rows r k⟩ : GF256) * ⟨p (r + k) i⟩

theorem BlockSound.rowTrue {p : ℕ → Payload} {blk : CodedBlock} (h : BlockSound p blk) {r : ℕ}
    (hr : r < blockSize) (hocc : blk.Occupied r) : blk.RowTrue p r := by
  obtain ⟨content, hcontent⟩ := Option.isSome_iff_exists.mp (h.held r hr hocc)
  refine ⟨h.lead r hr hocc, h.rowLen_le r hr hocc, content, hcontent, fun i => ?_⟩
  have hvec := congrFun (h.content_eq r hr hocc content hcontent) i
  rw [h.combine_rowVec hr hocc, Finset.sum_apply] at hvec
  exact hvec

/-- No fault, only true equations, and the source rows in order for the application. -/
def DecodesTruly (p : ℕ → ℕ → Payload) (s : Option Receiver) : Prop :=
  ∃ r, s = some r ∧
    (∀ b, r.client.InWindow b → ∀ row < blockSize, (r.client.block b).Occupied row →
      (r.client.block b).RowTrue (p b) row) ∧
    (AllFramed p → ∃ n, r.pushed <+: sourceBytes p n)

theorem decodesTruly_of_reachable (p : ℕ → ℕ → Payload) {s : Option Receiver}
    (h : ((decoder p).guard KeepsCoefficients).Reachable s) : DecodesTruly p s := by
  obtain ⟨r, rfl, hr⟩ := receiver_sound h
  refine ⟨r, rfl, fun b hb row hrow hocc => (hr.sound b hb).rowTrue hrow hocc, fun hframed => ?_⟩
  exact ⟨r.client.rowsPushed, (hr.pushed hframed).symm ▸ List.prefix_rfl⟩

/-! ## A short packet after a long one -/

/-- The replies of a buffer that always has room. -/
def drainReply : FifoCall → ℕ
  | .getspace => 2 ^ 16
  | .push bytes => bytes.length

/-- One packet handled against a buffer that always has room. -/
def receive (r : Receiver) (e : Arrival) : Option Receiver :=
  let run := (handleData e.rm r.client e.msg).runWith drainReply
  run.2.map fun c => ⟨c.1, r.pushed ++ pushedBytes run.1⟩

theorem drained_drainReply (c : FifoCall) : Drained c (drainReply c) := by
  cases c with
  | getspace => trivial
  | push bytes => exact ⟨List.length_pos_of_ne_nil, le_rfl⟩

theorem decoder_step_receive {r r' : Receiver} {e : Arrival}
    (htruth : Truthful (p e.msg.blockno) e.msg) (h : receive r e = some r') :
    (decoder p).step (some r) e (some r') :=
  ⟨r, _, _, rfl, htruth, runs_runWith drainReply drained_drainReply, h.symm⟩

namespace ShortAfterLong

/-- Source rows that are zero, except for row 2. -/
def rows (_ r : ℕ) : Payload := fun _ => if r = 2 then 1 else 0

def blank : Residue := ⟨fun _ => 0, fun _ _ => 0⟩

def memory : CodedBlock := ⟨0, 0, fun _ _ => 0, fun _ => 0, fun _ => none, 0, 0⟩

/-- A coded packet of block 1 over the first `n` rows. -/
def coded (seqno : ℕ) (packetCoeff n value : UInt8) : Arrival where
  rm := blank
  msg := ⟨.coded, seqno, 1, 0, n, packetCoeff, fun _ => value⟩

/-- Row 0 of a block, uncoded and all zero. -/
def zeroRow (blockno : ℕ) : Arrival where
  rm := blank
  msg := ⟨.normal, 1, blockno, 0, 1, 1, fun _ => 0⟩

def start : Receiver := ⟨createClictcpSock fun _ => memory, []⟩

/-- A packet over three rows, then one over two. -/
def run : Option Receiver := (receive start (coded 1 0 3 73)).bind (receive · (coded 2 1 2 0))

theorem truthful_first : Truthful (rows 1) (coded 1 0 3 73).msg := by
  refine .coded rfl rfl (by decide) (by decide) fun i => ?_
  have hcoeffs : packetCoeffs 0 1 3 = [32, 164, 73] := by decide +kernel
  change (⟨73⟩ : GF256) = ∑ k ∈ Finset.range 3,
    (⟨(packetCoeffs 0 1 3).getD k 0⟩ : GF256) * ⟨rows 1 k i⟩
  rw [hcoeffs]
  simp [Finset.sum_range_succ, rows, GF256.mk_zero, GF256.mk_one]

theorem truthful_second : Truthful (rows 1) (coded 2 1 2 0).msg := by
  refine .coded rfl rfl (by decide) (by decide) fun i => ?_
  change (⟨0⟩ : GF256) = ∑ k ∈ Finset.range 2,
    (⟨(packetCoeffs 1 1 2).getD k 0⟩ : GF256) * ⟨rows 1 k i⟩
  simp [Finset.sum_range_succ, rows, GF256.mk_zero]

/-- The second row claims to be source row 1, which is zero. -/
theorem run_row : (run.map fun r =>
    (r.client.currBlock, decide ((r.client.block 1).Occupied 1), (r.client.block 1).rowLen 1,
      (r.client.block 1).rows 1 1, ((r.client.block 1).content 1).map (· ⟨0, by decide⟩))) =
      some (1, true, 2, 0, some 119) := by
  decide +kernel

theorem reachable_run {r : Receiver} (h : run = some r) : (decoder rows).Reachable (some r) := by
  obtain ⟨r₁, h₁, h₂⟩ := Option.bind_eq_some_iff.mp h
  exact .step (.step (.init ⟨_, rfl⟩) (decoder_step_receive truthful_first h₁))
    (decoder_step_receive truthful_second h₂)

/-- Two packets over three rows. -/
def longRun : Option Receiver := (receive start (coded 1 0 3 73)).bind (receive · (coded 2 2 3 136))

theorem truthful_long : Truthful (rows 1) (coded 2 2 3 136).msg := by
  refine .coded rfl rfl (by decide) (by decide) fun i => ?_
  have hcoeffs : packetCoeffs 2 1 3 = [210, 134, 136] := by decide +kernel
  change (⟨136⟩ : GF256) = ∑ k ∈ Finset.range 3,
    (⟨(packetCoeffs 2 1 3).getD k 0⟩ : GF256) * ⟨rows 1 k i⟩
  rw [hcoeffs]
  simp [Finset.sum_range_succ, rows, GF256.mk_zero, GF256.mk_one]

theorem fits_first : Fits blank (start.client.block 1) (coded 1 0 3 73).msg := by decide +kernel

theorem fits_long : ((receive start (coded 1 0 3 73)).map fun r =>
    decide (Fits blank (r.client.block 1) (coded 2 2 3 136).msg)) = some true := by
  decide +kernel

theorem isSome_longRun : longRun.isSome = true := by decide +kernel

theorem reachable_longRun : ((decoder rows).guard KeepsCoefficients).Reachable longRun := by
  obtain ⟨r₂, hrun⟩ := Option.isSome_iff_exists.mp isSome_longRun
  obtain ⟨r₁, h₁, h₂⟩ := Option.bind_eq_some_iff.mp hrun
  have hfits := fits_long
  rw [h₁, Option.map_some, Option.some.injEq, decide_eq_true_eq] at hfits
  rw [hrun]
  refine .step (.step (.init ⟨_, rfl⟩) ⟨?_, decoder_step_receive truthful_first h₁⟩)
    ⟨?_, decoder_step_receive truthful_long h₂⟩
  · intro r hr _ _
    obtain rfl : start = r := Option.some.inj hr
    exact fits_first
  · intro r hr _ _
    obtain rfl : r₁ = r := Option.some.inj hr
    exact hfits

end ShortAfterLong

theorem decodesTruly_longRun : DecodesTruly ShortAfterLong.rows ShortAfterLong.longRun :=
  decodesTruly_of_reachable _ ShortAfterLong.reachable_longRun

/-- A coded packet over two rows, after one over three, leaves a false equation. -/
theorem not_decodesTruly_of_shortAfterLong :
    ¬∀ p s, (decoder p).Reachable s → DecodesTruly p s := by
  intro hall
  have hrow := ShortAfterLong.run_row
  cases hrun : ShortAfterLong.run with
  | none => simp [hrun] at hrow
  | some r =>
      obtain ⟨r', hr', htrue, -⟩ := hall _ _ (ShortAfterLong.reachable_run hrun)
      obtain rfl : r = r' := Option.some.inj hr'
      simp only [hrun, Option.map_some, Option.some.injEq, Prod.mk.injEq, decide_eq_true_eq] at hrow
      obtain ⟨hcurr, hocc, hlen, hzero, hbyte⟩ := hrow
      obtain ⟨-, -, content, hcontent, heq⟩ :=
        htrue 1 ⟨hcurr.le, by rw [hcurr]; decide⟩ 1 (by decide) hocc
      have hval := heq ⟨0, by decide⟩
      rw [hcontent, Option.map_some, Option.some.injEq] at hbyte
      rw [hbyte, hlen, Finset.sum_range_succ, Finset.sum_range_one, hzero, GF256.mk_zero, zero_mul,
        add_zero] at hval
      simp only [ShortAfterLong.rows, Nat.add_zero, if_neg (show ¬1 = 2 by decide), GF256.mk_zero,
        mul_zero] at hval
      exact absurd (congrArg GF256.byte hval) (by decide)

end Ctcp
