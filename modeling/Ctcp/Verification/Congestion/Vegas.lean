import Ctcp.Library.Smoothing
import Ctcp.Verification.Congestion.Window
import Mathlib.Algebra.Order.Field.Rat
import Mathlib.Tactic.NormNum

/-! # The queue estimate of Vegas

`diff` is a difference of unsigned numbers. It is an estimate of the queue as long as
`target_cwnd` does not exceed the window. -/

namespace Ctcp

open CongPath

/-! ## Runs with what was computed -/

/-- An estimate of the queue that `advance_cwnd` has made, with all RTT samples until then,
the last one first. -/
structure TargetCalc where
  estimate : QueueEstimate
  samples : List ℚ
  deriving DecidableEq

/-- A path with its RTT samples and the estimates that were made, the last ones first. -/
structure VegasLog where
  t : PathLog
  samples : List ℚ
  calcs : List TargetCalc

def VegasLog.next (cc : CongControl) (v : VegasLog) : PathEvent → VegasLog
  | .ack fl ackno blockno currBlock rtt =>
    { t := v.t.next cc (.ack fl ackno blockno currBlock rtt)
      samples := rtt :: v.samples
      calcs :=
        (v.t.path.handleAck cc fl ackno blockno currBlock rtt).estimates.map
          (fun e => ⟨e, rtt :: v.samples⟩) ++ v.calcs }
  | e => { v with t := v.t.next cc e }

/-- Arithmetic is exact, and RTT samples are positive. -/
def ExactEvent : PathEvent → Prop
  | .ack fl _ _ _ rtt => fl = .exact ∧ 0 < rtt
  | .timeout fl _ => fl = .exact
  | .segs _ => True

/-- Any calls after a handshake with RTT `h`. -/
def vegasSystem (cc : CongControl) (h : ℚ) : System VegasLog PathEvent where
  init v := v = ⟨established h, [], []⟩
  step v e v' := ExactEvent e ∧ v' = v.next cc e

theorem System.Reachable.vegasNext {cc : CongControl} {h : ℚ} {v : VegasLog}
    (hreach : (vegasSystem cc h).Reachable v) (e : PathEvent) (he : ExactEvent e) :
    (vegasSystem cc h).Reachable (v.next cc e) := .step hreach ⟨he, rfl⟩

/-- The estimate has not wrapped: it is the true difference, and slow start is left only
when at least two packets are queued by it. -/
structure TargetCalc.Ok (c : TargetCalc) : Prop where
  target_le : c.estimate.target ≤ c.estimate.sndCwnd
  diff_eq : (c.estimate.diff.toNat : ℤ) = c.estimate.sndCwnd.toNat - c.estimate.target.toNat
  exits : c.estimate.exits = true → c.estimate.target.toNat + 2 ≤ c.estimate.sndCwnd.toNat

/-- The least of the samples, as far as `basertt` can tell. -/
def leastRtt (samples : List ℚ) : ℚ := samples.foldr min unknownRtt

/-- The average that started with the handshake RTT `h` is not below the least sample by
more than one packet of the window is worth. -/
def TargetCalc.Covered (h : ℚ) (c : TargetCalc) : Prop :=
  c.estimate.sndCwnd.toNat * leastRtt c.samples <
    (c.estimate.sndCwnd.toNat + 1) * smooth g h c.samples

/-! ## The estimates -/

/-- An estimate that the code makes of path `p`; slow start is left on it when `diff`,
as the code has it, is more than one. -/
structure EstimateOf (fl : Floats) (p : CongPath) (e : QueueEstimate) : Prop where
  sndCwnd_eq : e.sndCwnd = p.sndCwnd
  target_eq : e.target = fl.target p.sndCwnd p.basertt (p.rttOf e.rtt)
  diff_eq : e.diff = e.sndCwnd - e.target
  exits : e.exits = true → 1 < e.diff

section Estimates

variable {cc : CongControl} {fl : Floats} {p : CongPath} {e : QueueEstimate}

theorem estimateOf_estimate (fl : Floats) (p : CongPath) (rtt : RttChoice) :
    EstimateOf fl p (p.estimate fl rtt) := ⟨rfl, rfl, rfl, fun h => Bool.noConfusion h⟩

theorem EstimateOf.aimdMove (h : EstimateOf fl p e) (q : CongPath) :
    EstimateOf fl p (q.aimdMove e).2 := by
  rw [CongPath.aimdMove]
  split_ifs with hexit
  · exact ⟨h.sndCwnd_eq, h.target_eq, h.diff_eq, fun _ => hexit.1⟩
  all_goals exact h

theorem EstimateOf.vegasMove (h : EstimateOf fl p e) (q : CongPath) :
    EstimateOf fl p (q.vegasMove e).2 := by
  rw [CongPath.vegasMove]
  split_ifs with hexit
  · exact ⟨h.sndCwnd_eq, h.target_eq, h.diff_eq, fun _ => hexit.1⟩
  all_goals exact h

theorem updateCwnd_estimates : ∀ e ∈ (p.updateCwnd cc fl).2, EstimateOf fl p e := by
  have hfirst := estimateOf_estimate fl p .srtt
  cases cc with
  | aimd => exact List.forall_mem_singleton.mpr (hfirst.aimdMove p)
  | vegas =>
      simp only [updateCwnd, vegasUpdate]
      split
      · exact List.forall_mem_singleton.mpr hfirst
      · exact List.forall_mem_cons.mpr ⟨(estimateOf_estimate fl p _).vegasMove p,
          List.forall_mem_singleton.mpr hfirst⟩
  | unknown => exact List.forall_mem_singleton.mpr hfirst

theorem advanceCwnd_estimates : ∀ e ∈ (p.advanceCwnd cc fl).2, EstimateOf fl p e := by
  rw [advanceCwnd]
  split_ifs
  · intro e he
    obtain ⟨hcwnd, htarget, hdiff, hexits⟩ := updateCwnd_estimates e he
    exact ⟨hcwnd, htarget, hdiff, hexits⟩
  all_goals exact fun _ he => (List.not_mem_nil he).elim

/-- The estimate has not wrapped when the target does not exceed the window. -/
theorem EstimateOf.ok_iff (he : EstimateOf fl p e) (samples : List ℚ) :
    (⟨e, samples⟩ : TargetCalc).Ok ↔ e.target ≤ e.sndCwnd := by
  refine ⟨TargetCalc.Ok.target_le, fun hle => ?_⟩
  have hnat := UInt32.le_iff_toNat_le.mp hle
  have hdiff : e.diff.toNat = e.sndCwnd.toNat - e.target.toNat := by
    rw [he.diff_eq, UInt32.toNat_sub_of_le _ _ hle]
  refine ⟨hle, ?_, fun hexits => ?_⟩
  · change (e.diff.toNat : ℤ) = e.sndCwnd.toNat - e.target.toNat
    omega
  · have hone : 1 < e.diff.toNat := UInt32.lt_iff_toNat_lt.mp (he.exits hexits)
    change e.target.toNat + 2 ≤ e.sndCwnd.toNat
    omega

end Estimates

/-! ## Exact targets -/

theorem truncate_eq_floor {x : ℚ} (hx : 0 ≤ x) : truncate x = ⌊x⌋ := by
  rw [truncate, Rat.floor_def', Int.tdiv_eq_ediv_of_nonneg (Rat.num_nonneg.mpr hx)]

/-- The target exceeds the window when its exact value does by one or more. -/
theorem target_le_iff {cwnd : UInt32} {basertt rtt : ℚ} (hcwnd : cwnd ≤ maxWindow)
    (hbase : 0 ≤ basertt) (hrtt : 0 < rtt) (hratio : basertt ≤ 6 * rtt) :
    Floats.exact.target cwnd basertt rtt ≤ cwnd ↔
      cwnd.toNat * basertt < (cwnd.toNat + 1) * rtt := by
  have hmax : (cwnd.toNat : ℚ) ≤ 1000 := by exact_mod_cast UInt32.le_iff_toNat_le.mp hcwnd
  have hnonneg : 0 ≤ cwnd.toNat * basertt / rtt := by positivity
  have hsmall : cwnd.toNat * basertt / rtt ≤ 6000 := by
    rw [div_le_iff₀ hrtt]
    nlinarith
  have hfloor : ⌊cwnd.toNat * basertt / rtt⌋ ≤ 6000 := by
    exact_mod_cast (Int.floor_le _).trans hsmall
  have hfloor₀ : 0 ≤ ⌊cwnd.toNat * basertt / rtt⌋ := Int.floor_nonneg.mpr hnonneg
  have htarget : (Floats.exact.target cwnd basertt rtt).toNat =
      ⌊cwnd.toNat * basertt / rtt⌋.toNat := by
    change (UInt32.ofNat (truncate (cwnd.toNat * basertt / rtt)).toNat).toNat = _
    rw [truncate_eq_floor hnonneg, UInt32.toNat_ofNat']
    exact Nat.mod_eq_of_lt (by omega)
  have hlt : ⌊cwnd.toNat * basertt / rtt⌋ < (cwnd.toNat : ℤ) + 1 ↔
      cwnd.toNat * basertt / rtt < cwnd.toNat + 1 := by
    rw [Int.floor_lt]
    push_cast
    exact Iff.rfl
  rw [UInt32.le_iff_toNat_le, htarget, ← div_lt_iff₀ hrtt, ← hlt]
  omega

/-! ## The samples -/

theorem g_eq : g = 1 / 6 := by norm_num [g, blockSize]

theorem leastRtt_cons (r : ℚ) (rs : List ℚ) : leastRtt (r :: rs) = min r (leastRtt rs) := rfl

theorem leastRtt_le (rs : List ℚ) : leastRtt rs ≤ unknownRtt := by
  induction rs with
  | nil => exact le_rfl
  | cons r rs ih => exact (min_le_right _ _).trans ih

theorem leastRtt_le_of_mem {r : ℚ} {rs : List ℚ} (hr : r ∈ rs) : leastRtt rs ≤ r := by
  induction rs with
  | nil => exact (List.not_mem_nil hr).elim
  | cons s rs ih =>
      rw [leastRtt_cons]
      rcases List.mem_cons.mp hr with rfl | hr
      · exact min_le_left _ _
      · exact (min_le_right _ _).trans (ih hr)

theorem leastRtt_pos {rs : List ℚ} (hrs : ∀ r ∈ rs, 0 < r) : 0 < leastRtt rs := by
  induction rs with
  | nil => norm_num [leastRtt, unknownRtt]
  | cons r rs ih =>
      obtain ⟨hr, hrest⟩ := List.forall_mem_cons.mp hrs
      exact lt_min hr (ih hrest)

/-! ## Runs -/

variable {cc : CongControl} {h : ℚ} {v v' : VegasLog}

/-- The RTT fields of a path, in terms of its samples. -/
structure PathRtts (h : ℚ) (p : CongPath) (samples : List ℚ) : Prop where
  srtt_eq : p.srtt = smooth g h samples
  basertt_eq : p.basertt = leastRtt samples
  base_le_min : p.basertt ≤ p.minrtt
  cwnd : p.CwndOk

theorem PathRtts.congr {p q : CongPath} {samples : List ℚ} (hp : PathRtts h p samples)
    (hsame : SameFlight p q) (hcwnd : q.CwndOk) : PathRtts h q samples where
  srtt_eq := hsame.srtt.trans hp.srtt_eq
  basertt_eq := hsame.basertt.trans hp.basertt_eq
  base_le_min := by
    rw [hsame.basertt]
    rcases hsame.minrtt with heq | heq
    · rw [heq]
      exact hp.base_le_min
    · rw [heq, hp.basertt_eq]
      exact leastRtt_le samples
  cwnd := hcwnd

theorem ite_lt_eq_min (a b : ℚ) : (if a < b then a else b) = min a b := by
  rcases lt_or_ge a b with hlt | hge
  · rw [if_pos hlt, min_eq_left hlt.le]
  · rw [if_neg (not_lt.mpr hge), min_eq_right hge]

/-- A sample enters the average and the least RTTs. -/
theorem PathRtts.sample {p : CongPath} {samples : List ℚ} (hp : PathRtts h p samples) (rtt : ℚ) :
    PathRtts h (p.sampleRtt rtt) (rtt :: samples) where
  srtt_eq := by
    rw [smooth_cons, ← hp.srtt_eq]
    rfl
  basertt_eq := by
    rw [leastRtt_cons, ← hp.basertt_eq]
    exact ite_lt_eq_min _ _
  base_le_min := by
    have hbase : (p.sampleRtt rtt).basertt = min rtt p.basertt := ite_lt_eq_min _ _
    have hmin : (p.sampleRtt rtt).minrtt = min rtt p.minrtt := ite_lt_eq_min _ _
    rw [hbase, hmin]
    exact min_le_min_left rtt hp.base_le_min
  cwnd := hp.cwnd

theorem acknowledge_sndCwnd (p : CongPath) (ackno : UInt32) :
    (p.acknowledge ackno).sndCwnd = p.sndCwnd := by
  by_cases hlate : ackno ≤ p.sndUna
  · simp only [acknowledge, if_pos hlate]
  · simp only [acknowledge, if_neg hlate]

theorem PathRtts.acknowledge {p : CongPath} {samples : List ℚ} (hp : PathRtts h p samples)
    (ackno : UInt32) : PathRtts h (p.acknowledge ackno) samples := by
  have hsame := acknowledge_same p ackno
  have hcwnd : (p.acknowledge ackno).CwndOk := by
    rw [CwndOk, acknowledge_sndCwnd]
    exact hp.cwnd
  obtain ⟨hsrtt, hbase, hmin, -⟩ := hp.congr hsame hcwnd
  exact ⟨hsrtt, hbase, hmin, hcwnd⟩

/-- The window is compared with what the least RTT and the average make of it. -/
theorem PathRtts.ok_iff {p : CongPath} {rtt : ℚ} {samples : List ℚ}
    (hp : PathRtts h p (rtt :: samples)) (hh : 0 < h) (hpos : ∀ r ∈ rtt :: samples, 0 < r)
    {e : QueueEstimate} (he : EstimateOf .exact p e) :
    (⟨e, rtt :: samples⟩ : TargetCalc).Ok ↔
      (e.rtt = .srtt → TargetCalc.Covered h ⟨e, rtt :: samples⟩) := by
  have hbase := leastRtt_pos hpos
  have hrtt : leastRtt (rtt :: samples) ≤ rtt := leastRtt_le_of_mem List.mem_cons_self
  obtain ⟨hfirst, hrest⟩ := List.forall_mem_cons.mp hpos
  have hold : 0 < smooth g h samples :=
    smooth_pos (by rw [g_eq]; norm_num) (by rw [g_eq]; norm_num) hh hrest
  have hlast : g * rtt ≤ smooth g h (rtt :: samples) :=
    mul_le_smooth_cons (by rw [g_eq]; norm_num) hold.le
  rw [g_eq] at hlast
  rw [he.ok_iff, he.sndCwnd_eq, he.target_eq, TargetCalc.Covered, hp.basertt_eq, he.sndCwnd_eq]
  cases hchoice : e.rtt with
  | srtt =>
      rw [rttOf, hp.srtt_eq, forall_prop_of_true rfl]
      refine target_le_iff hp.cwnd.2 hbase.le ?_ ?_
      · rw [g_eq] at *
        linarith
      · rw [g_eq] at *
        linarith
  | minrtt =>
      have hle := hp.base_le_min
      have hcwnd : (0 : ℚ) ≤ p.sndCwnd.toNat := Nat.cast_nonneg _
      rw [hp.basertt_eq] at hle
      refine iff_of_true ?_ fun hsrtt => RttChoice.noConfusion hsrtt
      rw [rttOf, target_le_iff hp.cwnd.2 hbase.le (by linarith) (by linarith)]
      nlinarith

/-- What holds of a run after a handshake with RTT `h`. -/
structure VegasInv (h : ℚ) (v : VegasLog) : Prop where
  rtts : PathRtts h v.t.path v.samples
  pos : ∀ r ∈ v.samples, 0 < r
  ok_iff : ∀ c ∈ v.calcs, c.Ok ↔ (c.estimate.rtt = .srtt → c.Covered h)

/-- A sample, and the estimates that the acknowledgement makes. -/
theorem VegasInv.ack (hinv : VegasInv h v) (hh : 0 < h) {ackno blockno currBlock : UInt32}
    {rtt : ℚ} (hrtt : 0 < rtt) :
    VegasInv h (v.next cc (.ack .exact ackno blockno currBlock rtt)) := by
  have hsample := hinv.rtts.sample rtt
  have hpos : ∀ r ∈ rtt :: v.samples, 0 < r := List.forall_mem_cons.mpr ⟨hrtt, hinv.pos⟩
  have hacked := hsample.acknowledge ackno
  have hhandled : PathRtts h (v.t.path.handleAck cc .exact ackno blockno currBlock rtt).path
        (rtt :: v.samples) ∧
      ∀ e ∈ (v.t.path.handleAck cc .exact ackno blockno currBlock rtt).estimates,
        (⟨e, rtt :: v.samples⟩ : TargetCalc).Ok ↔
          (e.rtt = .srtt → TargetCalc.Covered h ⟨e, rtt :: v.samples⟩) := by
    by_cases hbad : (v.t.path.sampleRtt rtt).BadAck ackno blockno currBlock
    · rw [CongPath.handleAck, if_pos hbad]
      refine ⟨?_, fun e he => (List.not_mem_nil he).elim⟩
      dsimp only
      split
      · obtain ⟨hsrtt, hbase, hmin, hcwnd⟩ := hsample
        exact ⟨hsrtt, hbase, hmin, hcwnd⟩
      · exact hsample
    · rw [CongPath.handleAck, if_neg hbad]
      exact ⟨hacked.congr (advanceCwnd_same _ _ _) (advanceCwnd_ok _ _ _),
        fun e he => hacked.ok_iff hh hpos (advanceCwnd_estimates e he)⟩
  refine ⟨hhandled.1, hpos, List.forall_mem_append.mpr ⟨?_, hinv.ok_iff⟩⟩
  exact List.forall_mem_map.mpr hhandled.2

theorem sendSegs_same (t : PathLog) (visits : List BlockVisit) :
    (t.sendSegs visits).path.srtt = t.path.srtt ∧
      (t.sendSegs visits).path.basertt = t.path.basertt ∧
        (t.sendSegs visits).path.minrtt = t.path.minrtt ∧
          (t.sendSegs visits).path.sndCwnd = t.path.sndCwnd :=
  sendSegs_keeps (P := fun t' => t'.path.srtt = t.path.srtt ∧ t'.path.basertt = t.path.basertt ∧
    t'.path.minrtt = t.path.minrtt ∧ t'.path.sndCwnd = t.path.sndCwnd)
    (fun _ _ hsame => hsame) ⟨rfl, rfl, rfl, rfl⟩ visits

theorem VegasInv.next (hinv : VegasInv h v) (hh : 0 < h) {e : PathEvent} (he : ExactEvent e) :
    VegasInv h (v.next cc e) := by
  cases e with
  | segs visits =>
      obtain ⟨hsrtt, hbase, hmin, hcwnd⟩ := sendSegs_same v.t visits
      refine ⟨⟨hsrtt.trans hinv.rtts.srtt_eq, hbase.trans hinv.rtts.basertt_eq, ?_, ?_⟩,
        hinv.pos, hinv.ok_iff⟩
      · exact (hbase.trans_le hinv.rtts.base_le_min).trans_eq hmin.symm
      · change (v.t.sendSegs visits).path.CwndOk
        rw [CwndOk, hcwnd]
        exact hinv.rtts.cwnd
  | ack fl ackno blockno currBlock rtt =>
      obtain ⟨rfl, hrtt⟩ := he
      exact hinv.ack hh hrtt
  | timeout fl maxidle =>
      have hok : (v.t.path.timeout fl maxidle).2.CwndOk := timeout_ok hinv.rtts.cwnd maxidle
      have hpath : PathRtts h (v.t.path.timeout fl maxidle).2 v.samples := by
        obtain ⟨hsrtt, hbase, hmin, -⟩ := hinv.rtts
        refine ⟨?_, ?_, ?_, hok⟩
        all_goals
          rw [CongPath.timeout]
          dsimp only
          split_ifs <;> assumption
      exact ⟨hpath, hinv.pos, hinv.ok_iff⟩

theorem vegasInv_of_reachable (hh : 0 < h) (hreach : (vegasSystem cc h).Reachable v) :
    VegasInv h v := by
  refine hreach.invariant ?_ ?_
  · rintro _ rfl
    refine ⟨⟨rfl, rfl, le_rfl, initsegs_ok⟩, ?_, ?_⟩ <;>
      exact fun _ hmem => (List.not_mem_nil hmem).elim
  · rintro v e _ hinv ⟨he, rfl⟩
    exact hinv.next hh he

/-- In a run, the estimates are sound exactly where the average covers the least sample. -/
theorem calcs_ok_iff (hh : 0 < h) (hreach : (vegasSystem cc h).Reachable v) :
    (∀ c ∈ v.calcs, c.Ok) ↔ ∀ c ∈ v.calcs, c.estimate.rtt = .srtt → c.Covered h :=
  forall₂_congr (vegasInv_of_reachable hh hreach).ok_iff

/-- One packet, acknowledged after `rtt`. -/
def onePacketRun (h rtt : ℚ) : VegasLog :=
  ((⟨established h, [], []⟩ : VegasLog).next .aimd (.segs (oneOf 1))).next .aimd
    (.ack .exact 2 1 1 rtt)

theorem reachable_onePacketRun {h rtt : ℚ} (hrtt : 0 < rtt) :
    (vegasSystem .aimd h).Reachable (onePacketRun h rtt) := by
  have hinit : (vegasSystem .aimd h).Reachable ⟨established h, [], []⟩ := .init rfl
  exact (hinit.vegasNext (.segs (oneOf 1)) trivial).vegasNext (.ack .exact 2 1 1 rtt) ⟨rfl, hrtt⟩

/-- A handshake RTT of 200 ms and a first packet that takes 100 ms: slow start is left. -/
theorem calcs_ok_onePacket :
    (onePacketRun (1 / 5) (1 / 10)).calcs = [⟨⟨.srtt, 8, 4, 4, true⟩, [1 / 10]⟩] ∧
      ∀ c ∈ (onePacketRun (1 / 5) (1 / 10)).calcs, c.Ok := by
  have hcalcs : (onePacketRun (1 / 5) (1 / 10)).calcs =
      [⟨⟨.srtt, 8, 4, 4, true⟩, [1 / 10]⟩] := by
    decide +kernel
  refine ⟨hcalcs, (calcs_ok_iff (by norm_num) (reachable_onePacketRun (by norm_num))).mpr ?_⟩
  rw [hcalcs]
  refine List.forall_mem_singleton.mpr fun _ => ?_
  have hcwnd : (8 : UInt32).toNat = 8 := rfl
  norm_num [TargetCalc.Covered, leastRtt, unknownRtt, smooth, g_eq, hcwnd]

/-- A handshake RTT of 100 ms and a first packet that takes 700 ms: the target is 28, `diff`
wraps, and slow start is left. -/
theorem not_calcs_ok :
    ¬∀ (cc : CongControl) (h : ℚ) (v : VegasLog), 0 < h → (vegasSystem cc h).Reachable v →
      ∀ c ∈ v.calcs, c.Ok := by
  intro hall
  have hcalcs : (onePacketRun (1 / 10) (7 / 10)).calcs =
      [⟨⟨.srtt, 8, 28, 8 - 28, true⟩, [7 / 10]⟩] := by
    decide +kernel
  have hok := hall .aimd (1 / 10) (onePacketRun (1 / 10) (7 / 10)) (by norm_num)
    (reachable_onePacketRun (by norm_num))
  rw [hcalcs, List.forall_mem_singleton] at hok
  exact absurd hok.target_le (by decide)

end Ctcp
