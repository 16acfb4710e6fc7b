import Ctcp.Library.Smoothing
import Ctcp.Model.LossRates
import Ctcp.Verification.Congestion.Window
import Mathlib.Algebra.Order.Field.Rat
import Mathlib.Tactic.NormNum

/-! # The loss estimators are probabilities

A loss estimator is an average of samples, 1 for a lost packet and 0 for one that was
acknowledged. -/

namespace Ctcp

open CongPath

/-! ## Runs -/

/-- A path with its loss estimators. -/
structure RateLog where
  t : PathLog
  rates : LossRates

def RateLog.next (cc : CongControl) (v : RateLog) (e : PathEvent) : RateLog where
  t := v.t.next cc e
  rates :=
    match e with
    | .segs _ => v.rates
    | .ack _ ackno blockno currBlock _ => v.rates.handleAck v.t.path ackno blockno currBlock
    | .timeout _ maxidle => v.rates.timeout v.t.path maxidle

/-- Any calls on a path after a handshake with RTT `h`. -/
def rateSystem (cc : CongControl) (h : ℚ) : System RateLog PathEvent where
  init v := v = ⟨established h, .initStream⟩
  step v e v' := v' = v.next cc e

/-- What an acknowledgement carries does not exceed `snd_nxt`. -/
def AcksInRange (v : RateLog) : PathEvent → Prop
  | .ack _ ackno _ _ _ => ackno ≤ v.t.path.sndNxt
  | _ => True

theorem System.Reachable.rateNext {cc : CongControl} {h : ℚ} {v : RateLog}
    (hreach : ((rateSystem cc h).guard AcksInRange).Reachable v) (e : PathEvent)
    (he : AcksInRange v e) : ((rateSystem cc h).guard AcksInRange).Reachable (v.next cc e) :=
  .step hreach ⟨he, rfl⟩

/-- The estimators are probabilities. -/
structure LossRates.Ok (r : LossRates) : Prop where
  slr_nonneg : 0 ≤ r.slr
  slr_le : r.slr ≤ 1
  slrLong_nonneg : 0 ≤ r.slrLong
  slrLong_le : r.slrLong ≤ 1
  slrLongstd_nonneg : 0 ≤ r.slrLongstd
  slrLongstd_le : r.slrLongstd ≤ 1

/-- A packet was acknowledged. -/
def successUpdate (m x : ℚ) : ℚ := (1 - m) * x

/-- A packet was lost. -/
def lossUpdate (m x : ℚ) : ℚ := (1 - m) * x + m

/-- Between `r` and `r'` one packet was acknowledged, and then `k` packets were lost. -/
structure LossRates.Skips (r : LossRates) (k : ℕ) (r' : LossRates) : Prop where
  slr_eq : r'.slr = (lossUpdate slrMem)^[k] (successUpdate slrMem r.slr)
  slrLong_eq : r'.slrLong = (lossUpdate slrLongmem)^[k] (successUpdate slrLongmem r.slrLong)

/-- The next acknowledgement, if it is a good one, counts what it skips. -/
def RateLog.CountsSkipped (cc : CongControl) (v : RateLog) : Prop :=
  ∀ fl ackno blockno currBlock rtt, v.t.path.sndUna < ackno → ackno ≤ v.t.path.sndNxt →
    v.rates.Skips (ackno.toNat - (v.t.path.sndUna.toNat + 1))
      (v.next cc (.ack fl ackno blockno currBlock rtt)).rates

/-! ## The closed form -/

/-- The samples of an acknowledgement that skips `k` sequence numbers, the last one first. -/
def ackSamples (k : ℕ) : List ℚ := List.replicate k 1 ++ [0]

theorem mem_ackSamples {k : ℕ} {r : ℚ} (hr : r ∈ ackSamples k) : 0 ≤ r ∧ r ≤ 1 := by
  rcases List.mem_append.mp hr with hloss | hsuccess
  · obtain rfl := List.eq_of_mem_replicate hloss
    exact ⟨zero_le_one, le_rfl⟩
  · obtain rfl := List.mem_singleton.mp hsuccess
    exact ⟨le_rfl, zero_le_one⟩

theorem closedForm_eq_smooth (m x : ℚ) (k : ℕ) :
    (1 - m) ^ (k : ℤ) * (1 - m) * x + (1 - (1 - m) ^ (k : ℤ)) = smooth m x (ackSamples k) := by
  rw [ackSamples, smooth_replicate, smooth_cons, smooth, zpow_natCast]
  ring

theorem iterate_lossUpdate (m x : ℚ) (k : ℕ) :
    (lossUpdate m)^[k] (successUpdate m x) = smooth m x (ackSamples k) := by
  have hstart : successUpdate m x = smooth m x [0] := by
    rw [smooth_cons, smooth, successUpdate, mul_zero, add_zero]
  have hloss : lossUpdate m = fun y => (1 - m) * y + m * 1 := by
    funext y
    rw [lossUpdate, mul_one]
  rw [hstart, hloss, iterate_smooth, ackSamples]

/-- The closed form is the composition of the single updates. -/
theorem skips_update (r : LossRates) (k : ℕ) : r.Skips k (r.update k) where
  slr_eq := (closedForm_eq_smooth _ _ _).trans (iterate_lossUpdate _ _ _).symm
  slrLong_eq := (closedForm_eq_smooth _ _ _).trans (iterate_lossUpdate _ _ _).symm

/-! ## Bounds -/

theorem slrMem_bounds : 0 ≤ slrMem ∧ slrMem ≤ 1 := by
  rw [slrMem]
  norm_num

/-- The necessary condition of the source, among others. -/
theorem slrLongmem_bounds : 0 ≤ slrLongmem ∧ slrLongmem < 1 / 2 := by
  rw [slrLongmem, blockSize]
  norm_num

theorem LossRates.Ok.initStream : LossRates.initStream.Ok := by
  constructor <;> norm_num [LossRates.initStream, slrLongInit]

/-- An average of a deviation that is at most 1. -/
theorem longstd_bounds {m x d : ℚ} (hm : 0 ≤ m) (hhalf : m < 1 / 2) (hx : 0 ≤ x) (hx' : x ≤ 1)
    (hd : 0 ≤ d) (hd' : d ≤ 1) :
    0 ≤ (1 - m) * x + m * (d - x) ∧ (1 - m) * x + m * (d - x) ≤ 1 := by
  have hsplit : (1 - m) * x + m * (d - x) = (1 - 2 * m) * x + m * d := by ring
  have hrest : 0 ≤ 1 - 2 * m := by linarith
  rw [hsplit]
  constructor
  · exact add_nonneg (mul_nonneg hrest hx) (mul_nonneg hm hd)
  · have hold : (1 - 2 * m) * x ≤ 1 - 2 * m := mul_le_of_le_one_right hrest hx'
    have hnew : m * d ≤ m := mul_le_of_le_one_right hm hd'
    linarith

theorem LossRates.Ok.update {r : LossRates} (h : r.Ok) (k : ℕ) : (r.update k).Ok := by
  obtain ⟨hshort, hshort'⟩ := slrMem_bounds
  obtain ⟨hlong, hhalf⟩ := slrLongmem_bounds
  have hlong' : slrLongmem ≤ 1 := by linarith
  have hslr : (r.update k).slr = smooth slrMem r.slr (ackSamples k) :=
    closedForm_eq_smooth _ _ _
  have hslrLong : (r.update k).slrLong = smooth slrLongmem r.slrLong (ackSamples k) :=
    closedForm_eq_smooth _ _ _
  have hslr₀ : 0 ≤ (r.update k).slr := by
    rw [hslr]
    exact le_smooth hshort hshort' h.slr_nonneg fun _ hr => (mem_ackSamples hr).1
  have hslr₁ : (r.update k).slr ≤ 1 := by
    rw [hslr]
    exact smooth_le hshort hshort' h.slr_le fun _ hr => (mem_ackSamples hr).2
  have hslrLong₀ : 0 ≤ (r.update k).slrLong := by
    rw [hslrLong]
    exact le_smooth hlong hlong' h.slrLong_nonneg fun _ hr => (mem_ackSamples hr).1
  have hslrLong₁ : (r.update k).slrLong ≤ 1 := by
    rw [hslrLong]
    exact smooth_le hlong hlong' h.slrLong_le fun _ hr => (mem_ackSamples hr).2
  have hdiff : |(r.update k).slr - (r.update k).slrLong| ≤ 1 :=
    abs_sub_le_iff.mpr ⟨by linarith, by linarith⟩
  obtain ⟨hstd₀, hstd₁⟩ := longstd_bounds hlong hhalf h.slrLongstd_nonneg h.slrLongstd_le
    (abs_nonneg ((r.update k).slr - (r.update k).slrLong)) hdiff
  exact ⟨hslr₀, hslr₁, hslrLong₀, hslrLong₁, hstd₀, hstd₁⟩

theorem LossRates.Ok.timeout {r : LossRates} (h : r.Ok) (p : CongPath) (maxidle : ℤ) :
    (r.timeout p maxidle).Ok := by
  rw [LossRates.timeout]
  split
  · exact h
  · exact { h with slr_nonneg := h.slrLong_nonneg, slr_le := h.slrLong_le }

/-! ## Losses -/

variable {cc : CongControl} {h : ℚ} {v : RateLog}

/-- With the window in its bounds, `losses` does not become negative. -/
theorem losses_eq {p : CongPath} {ackno : UInt32} (hflight : p.flight ≤ maxWindow)
    (hnew : p.sndUna < ackno) (hle : ackno ≤ p.sndNxt) :
    (p.losses ackno).toInt = (ackno.toNat - (p.sndUna.toNat + 1) : ℕ) := by
  have hsigned : (p.losses ackno).toInt = if 2 * (ackno - (p.sndUna + 1)).toNat < 2 ^ 32 then
      ((ackno - (p.sndUna + 1)).toNat : ℤ) else (ackno - (p.sndUna + 1)).toNat - 2 ^ 32 := rfl
  have hlt := UInt32.lt_iff_toNat_lt.mp hnew
  have hnat := UInt32.le_iff_toNat_le.mp hle
  have hmax := ackno.toNat_lt
  have hfew : p.flight.toNat ≤ 1000 := UInt32.le_iff_toNat_le.mp hflight
  rw [CongPath.flight, UInt32.toNat_sub_of_le _ _ (UInt32.le_iff_toNat_le.mpr (by omega))] at hfew
  have hsucc : (p.sndUna + 1).toNat = p.sndUna.toNat + 1 := by
    rw [UInt32.toNat_add]
    exact Nat.mod_eq_of_lt (by change p.sndUna.toNat + 1 < _; omega)
  have hdiff : (ackno - (p.sndUna + 1)).toNat = ackno.toNat - (p.sndUna.toNat + 1) := by
    rw [← hsucc]
    exact UInt32.toNat_sub_of_le _ _ (UInt32.le_iff_toNat_le.mpr (by omega))
  rw [hsigned, hdiff, if_pos (by omega)]

/-- An acknowledgement in range is not bad, and counts what it skips. -/
theorem handleAck_rates {p : CongPath} {ackno : UInt32} (hflight : p.flight ≤ maxWindow)
    (hle : ackno ≤ p.sndNxt) (blockno currBlock : UInt32) (r : LossRates) :
    r.handleAck p ackno blockno currBlock =
      if ackno ≤ p.sndUna then r else r.update (ackno.toNat - (p.sndUna.toNat + 1) : ℕ) := by
  rw [LossRates.handleAck, if_neg (not_badAck hle blockno currBlock)]
  split
  · rfl
  · next hnew => rw [losses_eq hflight (UInt32.not_le.mp hnew) hle]

/-! ## The invariant -/

/-- Sequence numbers may wrap here; their differences stay small. -/
structure RateInv (v : RateLog) : Prop where
  cwnd : v.t.path.CwndOk
  flight : v.t.path.flight ≤ maxWindow
  rates : v.rates.Ok

theorem RateInv.segs (hinv : RateInv v) (visits : List BlockVisit) :
    RateInv (v.next cc (.segs visits)) := by
  have hsends := sendsInWindow_sendSegs hinv.cwnd.2 hinv.flight visits
  refine ⟨?_, ?_, hinv.rates⟩
  · change 2 ≤ (v.t.sendSegs visits).path.sndCwnd ∧ (v.t.sendSegs visits).path.sndCwnd ≤ maxWindow
    rw [hsends.cwnd_eq]
    exact hinv.cwnd
  · refine UInt32.le_trans hsends.flight_le ?_
    rw [uint32_max_eq]
    split
    · exact hinv.flight
    · exact hinv.cwnd.2

/-- When `snd_una` moves towards `snd_nxt`, the flight shrinks. -/
theorem flight_le_of_moved {p q : CongPath} {ackno : UInt32} (hflight : p.flight ≤ maxWindow)
    (hle : ackno ≤ p.sndNxt) (hnxt : q.sndNxt = p.sndNxt)
    (huna : q.sndUna = if ackno ≤ p.sndUna then p.sndUna else ackno) : q.flight ≤ maxWindow := by
  split at huna
  case isTrue => rwa [CongPath.flight, hnxt, huna]
  case isFalse hnew =>
    have hlt := UInt32.lt_iff_toNat_lt.mp (UInt32.not_le.mp hnew)
    have hnat := UInt32.le_iff_toNat_le.mp hle
    have hfew := UInt32.le_iff_toNat_le.mp hflight
    rw [CongPath.flight, UInt32.toNat_sub_of_le _ _ (UInt32.le_iff_toNat_le.mpr (by omega))] at hfew
    rw [CongPath.flight, hnxt, huna, UInt32.le_iff_toNat_le, UInt32.toNat_sub_of_le _ _ hle]
    omega

theorem RateInv.ack (hinv : RateInv v) (fl : Floats) {ackno : UInt32}
    (hle : ackno ≤ v.t.path.sndNxt) (blockno currBlock : UInt32) (rtt : ℚ) :
    RateInv (v.next cc (.ack fl ackno blockno currBlock rtt)) := by
  obtain ⟨-, hnxt, huna⟩ := @handleAck_same cc _ _ hle fl blockno currBlock rtt
  refine ⟨handleAck_ok hinv.cwnd _ _ _ _, flight_le_of_moved hinv.flight hle hnxt huna, ?_⟩
  change (v.rates.handleAck v.t.path ackno blockno currBlock).Ok
  rw [handleAck_rates hinv.flight hle]
  split
  · exact hinv.rates
  · exact hinv.rates.update _

theorem timeout_sndUna (p : CongPath) (fl : Floats) (maxidle : ℤ) :
    (p.timeout fl maxidle).2.sndNxt = p.sndNxt ∧
      ((p.timeout fl maxidle).2.sndUna = p.sndUna ∨
        (p.timeout fl maxidle).2.sndUna = p.sndNxt) := by
  rw [CongPath.timeout]
  split
  · exact ⟨rfl, .inl rfl⟩
  · dsimp only
    split
    · exact ⟨rfl, .inr rfl⟩
    · exact ⟨rfl, .inl rfl⟩

theorem RateInv.timeout (hinv : RateInv v) (fl : Floats) (maxidle : ℤ) :
    RateInv (v.next cc (.timeout fl maxidle)) := by
  refine ⟨timeout_ok hinv.cwnd maxidle, ?_, hinv.rates.timeout _ _⟩
  change (v.t.path.timeout fl maxidle).2.flight ≤ maxWindow
  obtain ⟨hnxt, hsame | hall⟩ := timeout_sndUna v.t.path fl maxidle
  · rw [CongPath.flight, hnxt, hsame]
    exact hinv.flight
  · rw [CongPath.flight, hnxt, hall, UInt32.sub_self]
    decide

theorem rateInv_of_reachable (hreach : ((rateSystem cc h).guard AcksInRange).Reachable v) :
    RateInv v := by
  refine hreach.invariant ?_ ?_
  · rintro v rfl
    have hflight : (established h).path.flight = 0 := UInt32.sub_self _
    exact ⟨initsegs_ok, hflight ▸ UInt32.zero_le, .initStream⟩
  · rintro v e v' hinv ⟨hrange, rfl⟩
    cases e with
    | segs visits => exact hinv.segs visits
    | ack fl ackno blockno currBlock rtt => exact hinv.ack fl hrange blockno currBlock rtt
    | timeout fl maxidle => exact hinv.timeout fl maxidle

theorem RateInv.countsSkipped (hinv : RateInv v) : v.CountsSkipped cc := by
  intro fl ackno blockno currBlock rtt hnew hle
  change v.rates.Skips _ (v.rates.handleAck v.t.path ackno blockno currBlock)
  rw [handleAck_rates hinv.flight hle, if_neg (UInt32.not_le.mpr hnew)]
  exact skips_update _ _

/-- Loss estimators are probabilities, and the closed form counts single losses. -/
theorem lossRates_of_reachable (hreach : ((rateSystem cc h).guard AcksInRange).Reachable v) :
    v.rates.Ok ∧ v.CountsSkipped cc ∧ ∀ (r : LossRates) (k : ℕ), r.Skips k (r.update k) := by
  have hinv := rateInv_of_reachable hreach
  exact ⟨hinv.rates, hinv.countsSkipped, skips_update⟩

/-- Two packets are sent, and only the second one is acknowledged. -/
def skippedOne : RateLog :=
  (RateLog.next .aimd ⟨established (1 / 10), .initStream⟩
    (.segs [⟨1, fun _ => true, 2⟩])).next .aimd (.ack .exact 3 1 1 (1 / 10))

theorem lossRates_skippedOne : skippedOne.rates.slr = 1 / 128 ∧ skippedOne.rates.Ok ∧
    skippedOne.CountsSkipped .aimd ∧ ∀ (r : LossRates) (k : ℕ), r.Skips k (r.update k) := by
  have hinit : ((rateSystem .aimd (1 / 10)).guard AcksInRange).Reachable
      ⟨established (1 / 10), .initStream⟩ := .init rfl
  have hsegs := hinit.rateNext (.segs [⟨1, fun _ => true, 2⟩]) trivial
  have hack : ((rateSystem .aimd (1 / 10)).guard AcksInRange).Reachable skippedOne :=
    hsegs.rateNext (.ack .exact 3 1 1 (1 / 10))
      (by change (3 : UInt32) ≤ _; decide +kernel)
  exact ⟨by decide +kernel, lossRates_of_reachable hack⟩

end Ctcp
