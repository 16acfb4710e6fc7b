import Ctcp.Verification.Decoder.Runs
import Mathlib.LinearAlgebra.FiniteDimensional.Lemmas

/-! # Degrees of freedom and the rank of what was received -/

namespace Ctcp

open Function Program Submodule

/-- The client, with the coefficient vectors of the packets of each block that
arrived while the block was in the ring. -/
structure Collector where
  client : Client
  received : ℕ → Set (Fin blockSize → GF256)

/-- The record after one more packet. -/
def Collector.record (r : Collector) (e : Arrival) : ℕ → Set (Fin blockSize → GF256) := fun b =>
  if b = e.msg.blockno ∧ r.client.InWindow b then insert (e.msg.vector e.rm) (r.received b)
  else r.received b

/-- The client fed with truthful packets in any order, whatever `usr_cache` answers. -/
def collector (p : ℕ → ℕ → Payload) : System (Option Collector) Arrival where
  init s := ∃ raw, s = some ⟨createClictcpSock raw, fun _ => ∅⟩
  step s e s' := ∃ r t res, s = some r ∧ Truthful (p e.msg.blockno) e.msg ∧
    (handleData e.rm r.client e.msg).Runs (fun _ _ => True) t res ∧
    s' = res.map fun c => ⟨c.1, r.record e⟩

/-- The packet fits the rows it meets, or is over a single row that the packets
received so far determine anyway. -/
def LosesNothing (s : Option Collector) (e : Arrival) : Prop :=
  ∀ r ∈ s, r.client.Absorbs e.msg →
    Fits e.rm (r.client.block e.msg.blockno) e.msg ∨
      (e.msg.numPackets.toNat ≤ 1 ∧
        e.msg.vector e.rm ∈ span GF256 (r.received e.msg.blockno))

/-- Every block spans what was received for it. -/
structure CollectorSound (r : Collector) : Prop where
  shape : ClientShape r.client
  span_eq : ∀ b, r.client.InWindow b → (r.client.block b).span = span GF256 (r.received b)
  ahead : ∀ b, r.client.currBlock + numBlocks ≤ b → r.received b = ∅

theorem span_init (blk : CodedBlock) : (initCodedBlock blk).span = ⊥ := by
  have h := blockShape_init blk
  have hzero : Module.finrank GF256 (initCodedBlock blk).span = 0 := h.finrank_span
  exact finrank_eq_zero.mp hzero

theorem BlockShape.span_eq_top {blk : CodedBlock} (h : BlockShape blk)
    (hfull : blk.dofs = blockSize) : blk.span = ⊤ := by
  refine eq_top_of_finrank_eq ?_
  rw [h.finrank_span, hfull, Module.finrank_pi, Fintype.card_fin]

theorem collectorSound_create (raw : ℕ → CodedBlock) :
    CollectorSound ⟨createClictcpSock raw, fun _ => ∅⟩ where
  shape := clientShape_create raw
  span_eq b _ := by rw [span_empty]; exact span_init _
  ahead _ _ := rfl

/-- A packet that loses nothing adds its vector to the span of its block. -/
theorem AbsorbSpec.span_eq {rm : Residue} {msg : DataPckt} {csk mid : Client}
    (h : AbsorbSpec rm msg csk mid) (hshape : ClientShape csk) (hmsg : InBlock msg)
    (hkeep : csk.Absorbs msg → Fits rm (csk.block msg.blockno) msg ∨
      (msg.numPackets.toNat ≤ 1 ∧ msg.vector rm ∈ (csk.block msg.blockno).span))
    {b : ℕ} (hb : csk.InWindow b) :
    (mid.block b).span =
      if b = msg.blockno then (csk.block b).span ⊔ span GF256 {msg.vector rm}
      else (csk.block b).span := by
  have hrecord : ∀ blk : CodedBlock, (recordIndex blk msg).span = blk.span := fun _ => rfl
  by_cases habs : b = msg.blockno ∧ csk.Absorbs msg
  · obtain ⟨rfl, habs⟩ := habs
    have hblk := (hshape.block msg.blockno).recordIndex hmsg
    have hins := h.absorbed habs
    rw [if_pos rfl]
    rcases hkeep habs with hfit | ⟨hone, hmem⟩
    · exact insertPacket_span hblk recorded_recordIndex rm (fits_recordIndex.mpr hfit) hins
    · have hsame := insertPacket_of_mem hblk recorded_recordIndex rm hone hmem
      rw [← Option.some.inj (hsame.symm.trans hins), hrecord, sup_span_of_mem hmem]
  · have hmid : (mid.block b).span = (csk.block b).span := by
      rcases h.other b hb habs with heq | ⟨-, -, heq⟩ <;> rw [heq]
      exact hrecord _
    rw [hmid]
    split
    · rename_i he
      -- the block is full already, so that no vector can add to it
      have hfull : (csk.block b).dofs = blockSize := by
        subst he
        exact le_antisymm (hshape.block _).dofs_le
          (Nat.not_lt.mp fun hlt => habs ⟨rfl, hb, hlt⟩)
      rw [(hshape.block b).span_eq_top hfull, top_sup_eq]
    · rfl

theorem CollectorSound.step {r : Collector} (h : CollectorSound r) {e : Arrival}
    (hmsg : InBlock e.msg) (hkeep : LosesNothing (some r) e) :
    (handleData e.rm r.client e.msg).Ensures (fun _ _ => True) fun _ res =>
      ∃ c, res = some c ∧ CollectorSound ⟨c.1, r.record e⟩ := by
  refine (handleData_spec h.shape fun _ => hmsg).mono ?_
  rintro t _ ⟨mid, csk', habs, hdel, rfl⟩
  have hcurr := habs.curr_eq
  have hle := hdel.le
  refine ⟨_, rfl, hdel.shape, fun b hb => ?_, fun b hb => ?_⟩
  · change (csk'.block b).span = span GF256 (r.record e b)
    rw [Collector.record]
    rcases hdel.window b hb with ⟨hin, hkept⟩ | ⟨hge, blk, hkept⟩
    · have hin' : r.client.InWindow b := by simpa only [Client.InWindow, hcurr] using hin
      rw [hkept.span_eq, habs.span_eq h.shape hmsg (fun hab => ?_) hin', h.span_eq b hin']
      · by_cases he : b = e.msg.blockno
        · rw [if_pos he, if_pos ⟨he, hin'⟩, span_insert, sup_comm]
        · rw [if_neg he, if_neg fun hc => he hc.1]
      · rw [h.span_eq _ hab.1]
        exact hkeep r rfl hab
    · rw [hcurr] at hge
      rw [hkept.span_eq, span_init, if_neg fun hc => absurd hc.2.2 (Nat.not_lt.mpr hge),
        h.ahead b hge, span_empty]
  · change csk'.currBlock + numBlocks ≤ b at hb
    change r.record e b = ∅
    have hge : r.client.currBlock + numBlocks ≤ b := by omega
    rw [Collector.record, if_neg fun hc => absurd hc.2.2 (Nat.not_lt.mpr hge), h.ahead b hge]

theorem collector_sound {p : ℕ → ℕ → Payload} {s : Option Collector}
    (h : ((collector p).guard LosesNothing).Reachable s) : ∃ r, s = some r ∧ CollectorSound r := by
  refine h.invariant (I := fun s => ∃ r, s = some r ∧ CollectorSound r) ?_ ?_
  · rintro s ⟨raw, rfl⟩
    exact ⟨_, rfl, collectorSound_create raw⟩
  · rintro s e s' ⟨r, rfl, hr⟩ ⟨hkeep, r', t, res, hr', htruth, hrun, rfl⟩
    obtain rfl : r = r' := Option.some.inj hr'
    obtain ⟨c, rfl, hc⟩ := ensures_iff.mp (hr.step htruth.inBlock hkeep) t res hrun
    exact ⟨_, rfl, hc⟩

/-- No packet faults, and each block not yet decoded counts the rank of what it received. -/
def CountsRank (s : Option Collector) : Prop :=
  ∃ r, s = some r ∧ ∀ b, r.client.InWindow b →
    (r.client.block b).dofs = Module.finrank GF256 (span GF256 (r.received b))

/-- The degrees of freedom are the rank of the received packets; so they depend
on the set of these packets only, not on their order. -/
theorem countsRank_of_reachable (p : ℕ → ℕ → Payload) {s s' : Option Collector}
    (h : ((collector p).guard LosesNothing).Reachable s)
    (h' : ((collector p).guard LosesNothing).Reachable s') :
    CountsRank s ∧ ∀ r ∈ s, ∀ r' ∈ s', ∀ b, r.client.InWindow b → r'.client.InWindow b →
      r.received b = r'.received b → (r.client.block b).dofs = (r'.client.block b).dofs := by
  have hcount : ∀ r, CollectorSound r → ∀ b, r.client.InWindow b →
      (r.client.block b).dofs = Module.finrank GF256 (span GF256 (r.received b)) := by
    intro r hr b hb
    rw [← hr.span_eq b hb, (hr.shape.block b).finrank_span]
  obtain ⟨r₁, rfl, hr₁⟩ := collector_sound h
  obtain ⟨r₂, rfl, hr₂⟩ := collector_sound h'
  refine ⟨⟨r₁, rfl, hcount r₁ hr₁⟩, ?_⟩
  rintro r hr r' hr' b hb hb' heq
  obtain rfl : r₁ = r := Option.some.inj hr
  obtain rfl : r₂ = r' := Option.some.inj hr'
  rw [hcount r₁ hr₁ b hb, hcount r₂ hr₂ b hb', heq]

/-! ## An uncoded packet after a coded one -/

/-- One packet collected, against a buffer that always has room. -/
def collect (r : Collector) (e : Arrival) : Option Collector :=
  ((handleData e.rm r.client e.msg).runWith drainReply).2.map fun c => ⟨c.1, r.record e⟩

theorem collector_step_collect {p : ℕ → ℕ → Payload} {r r' : Collector} {e : Arrival}
    (htruth : Truthful (p e.msg.blockno) e.msg) (h : collect r e = some r') :
    (collector p).step (some r) e (some r') :=
  ⟨r, _, _, rfl, htruth, runs_runWith drainReply fun _ => trivial, h.symm⟩

namespace NormalAfterCoded

open ShortAfterLong (rows blank memory coded)

/-- The uncoded packet of row 0 of block 1. -/
def normal : Arrival where
  rm := blank
  msg := ⟨.normal, 2, 1, 0, 1, 0, rows 1 0⟩

def start : Collector := ⟨createClictcpSock fun _ => memory, fun _ => ∅⟩

/-- A packet over rows 0 and 1, then row 0 by itself. -/
def run : Option Collector := (collect start (coded 1 0 2 0)).bind (collect · normal)

theorem truthful_coded : Truthful (rows 1) (coded 1 0 2 0).msg := by
  refine .coded rfl rfl (by decide) (by decide) fun i => ?_
  change (⟨0⟩ : GF256) = ∑ k ∈ Finset.range 2,
    (⟨(packetCoeffs 0 1 2).getD k 0⟩ : GF256) * ⟨rows 1 k i⟩
  simp [Finset.sum_range_succ, rows, GF256.mk_zero]

theorem truthful_normal : Truthful (rows 1) normal.msg := .normal rfl (by decide) rfl rfl

/-- Only the coded packet is stored. -/
theorem run_dofs : (run.map fun r => (r.client.currBlock, (r.client.block 1).dofs)) =
    some (1, 1) := by
  decide +kernel

theorem currBlock_first : ((collect start (coded 1 0 2 0)).map fun r => r.client.currBlock) =
    some 1 := by
  decide +kernel

theorem reachable_run {r : Collector} (h : run = some r) :
    (collector rows).Reachable (some r) ∧
      r.received 1 = {normal.msg.vector blank, (coded 1 0 2 0).msg.vector blank} := by
  obtain ⟨r₁, h₁, h₂⟩ := Option.bind_eq_some_iff.mp h
  have hcurr := currBlock_first
  rw [h₁, Option.map_some, Option.some.injEq] at hcurr
  have hin : r₁.client.InWindow 1 := ⟨hcurr.le, by rw [hcurr]; decide⟩
  have hrec₁ : r₁.received = start.record (coded 1 0 2 0) := by
    obtain ⟨c, -, rfl⟩ := Option.map_eq_some_iff.mp h₁
    rfl
  have hrec₂ : r.received = r₁.record normal := by
    obtain ⟨c, -, rfl⟩ := Option.map_eq_some_iff.mp h₂
    rfl
  refine ⟨.step (.step (.init ⟨_, rfl⟩) (collector_step_collect truthful_coded h₁))
    (collector_step_collect truthful_normal h₂), ?_⟩
  rw [hrec₂, Collector.record, if_pos ⟨rfl, hin⟩, hrec₁, Collector.record,
    if_pos ⟨rfl, le_rfl, by decide⟩]
  simp [normal, coded, start]

/-- The two packets are independent, since only the coded one mentions row 1. -/
theorem linearIndependent_vectors :
    LinearIndependent GF256 ![normal.msg.vector blank, (coded 1 0 2 0).msg.vector blank] := by
  have hnormal₀ : normal.msg.vector blank ⟨0, by decide⟩ ≠ 0 := by decide +kernel
  have hnormal₁ : normal.msg.vector blank ⟨1, by decide⟩ = 0 := by decide +kernel
  have hcoded₁ : (coded 1 0 2 0).msg.vector blank ⟨1, by decide⟩ ≠ 0 := by decide +kernel
  rw [LinearIndependent.pair_iff]
  intro a c h
  have h₁ := congrFun h ⟨1, by decide⟩
  simp only [Pi.add_apply, Pi.smul_apply, smul_eq_mul, Pi.zero_apply, hnormal₁, mul_zero,
    zero_add] at h₁
  have hc : c = 0 := (mul_eq_zero.mp h₁).resolve_right hcoded₁
  have h₀ := congrFun h ⟨0, by decide⟩
  simp only [Pi.add_apply, Pi.smul_apply, smul_eq_mul, Pi.zero_apply, hc, zero_mul,
    add_zero] at h₀
  exact ⟨(mul_eq_zero.mp h₀).resolve_right hnormal₀, hc⟩

/-- Two packets that both fit: row 0 first, then the coded one. -/
def fittingRun : Option Collector := (collect start normal).bind (collect · (coded 1 0 2 0))

theorem fits_normal : Fits blank (start.client.block 1) normal.msg := by decide +kernel

theorem fits_coded : ((collect start normal).map fun r =>
    decide (Fits blank (r.client.block 1) (coded 1 0 2 0).msg)) = some true := by
  decide +kernel

theorem isSome_fittingRun : fittingRun.isSome = true := by decide +kernel

theorem reachable_fittingRun : ((collector rows).guard LosesNothing).Reachable fittingRun := by
  obtain ⟨r₂, hrun⟩ := Option.isSome_iff_exists.mp isSome_fittingRun
  obtain ⟨r₁, h₁, h₂⟩ := Option.bind_eq_some_iff.mp hrun
  have hfits := fits_coded
  rw [h₁, Option.map_some, Option.some.injEq, decide_eq_true_eq] at hfits
  rw [hrun]
  refine .step (.step (.init ⟨_, rfl⟩) ⟨?_, collector_step_collect truthful_normal h₁⟩)
    ⟨?_, collector_step_collect truthful_coded h₂⟩
  · intro r hr _
    obtain rfl : start = r := Option.some.inj hr
    exact .inl fits_normal
  · intro r hr _
    obtain rfl : r₁ = r := Option.some.inj hr
    exact .inl hfits

end NormalAfterCoded

theorem countsRank_fittingRun : CountsRank NormalAfterCoded.fittingRun :=
  (countsRank_of_reachable _ NormalAfterCoded.reachable_fittingRun
    NormalAfterCoded.reachable_fittingRun).1

/-- An uncoded packet that arrives after a coded one is lost, though it is innovative. -/
theorem not_countsRank_of_normalAfterCoded : ¬∀ p s, (collector p).Reachable s → CountsRank s := by
  intro hall
  have hdofs := NormalAfterCoded.run_dofs
  cases hrun : NormalAfterCoded.run with
  | none => simp [hrun] at hdofs
  | some r =>
      obtain ⟨hreach, hreceived⟩ := NormalAfterCoded.reachable_run hrun
      obtain ⟨r', hr', hcount⟩ := hall _ _ hreach
      obtain rfl : r = r' := Option.some.inj hr'
      simp only [hrun, Option.map_some, Option.some.injEq, Prod.mk.injEq] at hdofs
      have hrank := hcount 1 ⟨hdofs.1.le, by rw [hdofs.1]; decide⟩
      have htwo := finrank_span_eq_card NormalAfterCoded.linearIndependent_vectors
      rw [Matrix.range_cons, Matrix.range_cons, Matrix.range_empty, Set.union_empty,
        Set.singleton_union, ← hreceived, ← hrank, hdofs.2] at htwo
      exact absurd htwo (by decide)

end Ctcp
