import Ctcp.Verification.Congestion.Control

/-! # The send window of a path

The server thread calls `send_segs`, `handle_ack` and `timeout` on a path in any order.
Acknowledgements may be lost, late or repeated. -/

namespace Ctcp

open Function CongPath

/-! ## Runs -/

/-- The calls that change a path. -/
inductive PathEvent where
  | segs (visits : List BlockVisit)
  | ack (fl : Floats) (ackno blockno currBlock : UInt32) (rtt : ℚ)
  | timeout (fl : Floats) (maxidle : ℤ)

def PathLog.next (cc : CongControl) (t : PathLog) : PathEvent → PathLog
  | .segs visits => t.sendSegs visits
  | .ack fl ackno blockno currBlock rtt =>
    { t with path := (t.path.handleAck cc fl ackno blockno currBlock rtt).path }
  | .timeout fl maxidle => { t with path := (t.path.timeout fl maxidle).2 }

/-- A path when the handshake is over; its first RTT is `h`. -/
def established (h : ℚ) : PathLog := ⟨{ CongPath.initStream with srtt := h }, []⟩

def pathSystem (cc : CongControl) (h : ℚ) : System PathLog PathEvent where
  init t := t = established h
  step t e t' := t' = t.next cc e

/-- What an acknowledgement carries follows the number of a packet that was sent. -/
def AcksSent (t : PathLog) : PathEvent → Prop
  | .ack _ ackno _ _ _ => ∃ pkt ∈ t.packets, ackno = pkt.seqno + 1
  | _ => True

theorem System.Reachable.pathNext {cc : CongControl} {h : ℚ} {t : PathLog}
    (hreach : ((pathSystem cc h).guard AcksSent).Reachable t) (e : PathEvent)
    (hsent : AcksSent t e) : ((pathSystem cc h).guard AcksSent).Reachable (t.next cc e) :=
  .step hreach ⟨hsent, rfl⟩

/-- The number of packets in flight. -/
def CongPath.flight (p : CongPath) : UInt32 := p.sndNxt - p.sndUna

/-- The window is sound, and `OnFly` knows the block of every packet in flight. -/
structure SendWindow (t : PathLog) : Prop where
  one_le_una : 1 ≤ t.path.sndUna
  una_le_nxt : t.path.sndUna ≤ t.path.sndNxt
  two_le_cwnd : 2 ≤ t.path.sndCwnd
  cwnd_le : t.path.sndCwnd ≤ maxWindow
  flight_le : t.path.flight ≤ maxWindow
  sent : ∀ k, t.path.sndUna ≤ k → k < t.path.sndNxt → ∃ pkt ∈ t.packets, pkt.seqno = k
  onFly : ∀ k, t.path.sndUna ≤ k → k < t.path.sndNxt → ∀ pkt ∈ t.packets, pkt.seqno = k →
    t.path.onFly (k % maxWindow).toNat = pkt.blockno

/-- A call of `send_segs` does not send more than the window allows. -/
def SegsInWindow (t : PathLog) : Prop :=
  ∀ visits, (t.sendSegs visits).path.flight ≤ max t.path.sndCwnd t.path.flight

/-! ## Sending -/

variable {cc : CongControl} {h : ℚ} {t t' : PathLog}

theorem uint32_max_eq (a b : UInt32) : max a b = if a ≤ b then b else a := rfl

theorem flight_sendOne (b : UInt32) (t : PathLog) :
    (t.sendOne b).path.flight = t.path.flight + 1 := by
  simp only [CongPath.flight, PathLog.sendOne]
  grind

/-- Packets are sent while there is room in the window. -/
inductive SendsInWindow (t : PathLog) : PathLog → Prop where
  | refl : SendsInWindow t t
  | step {t' : PathLog} (h : SendsInWindow t t') (hroom : t'.path.flight < t'.path.sndCwnd)
      (b : UInt32) : SendsInWindow t (t'.sendOne b)

theorem SendsInWindow.trans {t₁ t₂ : PathLog} (h : SendsInWindow t t₁)
    (h' : SendsInWindow t₁ t₂) : SendsInWindow t t₂ := by
  induction h' with
  | refl => exact h
  | step _ hroom b ih => exact .step ih hroom b

theorem SendsInWindow.cwnd_eq (h : SendsInWindow t t') : t'.path.sndCwnd = t.path.sndCwnd := by
  induction h with
  | refl => rfl
  | step _ _ _ ih => exact ih

theorem SendsInWindow.flight_le (h : SendsInWindow t t') :
    t'.path.flight ≤ max t.path.sndCwnd t.path.flight := by
  rw [uint32_max_eq]
  induction h with
  | refl =>
      split
      · exact UInt32.le_refl _
      · next hlt => exact UInt32.le_of_lt (UInt32.not_le.mp hlt)
  | @step t' h hroom b _ =>
      rw [h.cwnd_eq] at hroom
      have hle : (t'.sendOne b).path.flight ≤ t.path.sndCwnd := by
        rw [flight_sendOne]
        grind
      split
      · exact UInt32.le_trans hle ‹_›
      · exact hle

/-- As many packets as there is room for. -/
theorem sendsInWindow_iterate (b : UInt32) (n : ℕ)
    (hroom : t.path.flight.toNat + n ≤ t.path.sndCwnd.toNat) :
    SendsInWindow t ((PathLog.sendOne b)^[n] t) ∧
      ((PathLog.sendOne b)^[n] t).path.flight.toNat = t.path.flight.toNat + n := by
  induction n with
  | zero => exact ⟨.refl, rfl⟩
  | succ n ih =>
      obtain ⟨hsends, hflight⟩ := ih (by omega)
      rw [iterate_succ_apply']
      have hlt : ((PathLog.sendOne b)^[n] t).path.flight.toNat <
          ((PathLog.sendOne b)^[n] t).path.sndCwnd.toNat := by
        rw [hflight, hsends.cwnd_eq]
        omega
      refine ⟨.step hsends (UInt32.lt_iff_toNat_lt.mpr hlt) b, ?_⟩
      have hmax := t.path.sndCwnd.toNat_lt
      rw [flight_sendOne, UInt32.toNat_add, hflight]
      change (t.path.flight.toNat + n + 1) % 2 ^ 32 = _
      omega

theorem countNeeded_le {win : ℤ} {short : ℕ → Bool} (fuel need : ℕ) (hle : (need : ℤ) ≤ win) :
    (countNeeded win short fuel need : ℤ) ≤ win := by
  induction fuel generalizing need with
  | zero => exact hle
  | succ fuel ih =>
      rw [countNeeded]
      split
      · next hgo =>
        exact ih (need + 1) (by
          have hlt := hgo.1
          omega)
      · exact hle

theorem sendsInWindow_segsLoop (visits : List BlockVisit) (win : ℤ)
    (hwin : t.path.flight.toNat + win ≤ t.path.sndCwnd.toNat) :
    SendsInWindow t (t.segsLoop win visits) := by
  induction visits generalizing t win with
  | nil => exact .refl
  | cons v vs ih =>
      rw [PathLog.segsLoop]
      split
      · next hpos =>
        have hneeded : (countNeeded win v.short win.toNat 0 : ℤ) ≤ win :=
          countNeeded_le _ _ hpos.le
        obtain ⟨hsends, hflight⟩ := @sendsInWindow_iterate t v.blockno
          (min (countNeeded win v.short win.toNat 0) v.credit) (by omega)
        refine hsends.trans (ih _ ?_)
        rw [hflight, hsends.cwnd_eq]
        push_cast
        omega
      · exact .refl

/-- The window in signed arithmetic. -/
theorem window_eq {p : CongPath} (hcwnd : p.sndCwnd ≤ maxWindow) (hflight : p.flight ≤ maxWindow) :
    p.window = p.sndCwnd.toNat - p.flight.toNat := by
  have hsigned : p.window = if 2 * (p.sndCwnd - p.flight).toNat < 2 ^ 32 then
      ((p.sndCwnd - p.flight).toNat : ℤ) else (p.sndCwnd - p.flight).toNat - 2 ^ 32 := rfl
  have hcwnd : p.sndCwnd.toNat ≤ 1000 := UInt32.le_iff_toNat_le.mp hcwnd
  have hflight : p.flight.toNat ≤ 1000 := UInt32.le_iff_toNat_le.mp hflight
  rw [hsigned, UInt32.toNat_sub]
  split <;> omega

theorem sendsInWindow_sendSegs (hcwnd : t.path.sndCwnd ≤ maxWindow)
    (hflight : t.path.flight ≤ maxWindow) (visits : List BlockVisit) :
    SendsInWindow t (t.sendSegs visits) := by
  rw [PathLog.sendSegs]
  split
  · exact .refl
  · refine sendsInWindow_segsLoop visits _ ?_
    rw [window_eq hcwnd hflight]
    omega

/-! ## The invariant -/

/-- While the sequence numbers do not wrap, they count the packets. -/
structure WindowInv (t : PathLog) : Prop where
  cwnd : t.path.CwndOk
  nxt : t.path.sndNxt.toNat = t.packets.length + 1
  one_le_una : 1 ≤ t.path.sndUna.toNat
  una_le_nxt : t.path.sndUna.toNat ≤ t.path.sndNxt.toNat
  flight_le : t.path.sndNxt.toNat ≤ t.path.sndUna.toNat + maxCwnd
  sent : ∀ k, 1 ≤ k → k < t.path.sndNxt.toNat → ∃ pkt ∈ t.packets, pkt.seqno.toNat = k
  seqno_lt : ∀ pkt ∈ t.packets, pkt.seqno.toNat < t.path.sndNxt.toNat
  onFly : ∀ pkt ∈ t.packets, t.path.sndUna.toNat ≤ pkt.seqno.toNat →
    t.path.onFly (pkt.seqno.toNat % maxCwnd) = pkt.blockno

theorem WindowInv.flight_eq (hinv : WindowInv t) :
    t.path.flight.toNat = t.path.sndNxt.toNat - t.path.sndUna.toNat :=
  UInt32.toNat_sub_of_le _ _ (UInt32.le_iff_toNat_le.mpr hinv.una_le_nxt)

theorem WindowInv.flight_le_maxWindow (hinv : WindowInv t) : t.path.flight ≤ maxWindow := by
  have hle := hinv.flight_le
  rw [UInt32.le_iff_toNat_le, hinv.flight_eq]
  change _ ≤ 1000
  simp only [maxCwnd] at hle
  omega

theorem WindowInv.sendWindow (hinv : WindowInv t) : SendWindow t where
  one_le_una := UInt32.le_iff_toNat_le.mpr hinv.one_le_una
  una_le_nxt := UInt32.le_iff_toNat_le.mpr hinv.una_le_nxt
  two_le_cwnd := hinv.cwnd.1
  cwnd_le := hinv.cwnd.2
  flight_le := hinv.flight_le_maxWindow
  sent k hk hlt := by
    have hone := hinv.one_le_una
    have hle := UInt32.le_iff_toNat_le.mp hk
    obtain ⟨pkt, hpkt, heq⟩ := hinv.sent k.toNat (by omega) (UInt32.lt_iff_toNat_lt.mp hlt)
    exact ⟨pkt, hpkt, UInt32.toNat_inj.mp heq⟩
  onFly k hk _ pkt hpkt heq := by
    subst heq
    rw [UInt32.toNat_mod]
    exact hinv.onFly pkt hpkt (UInt32.le_iff_toNat_le.mp hk)

theorem windowInv_established (h : ℚ) : WindowInv (established h) where
  cwnd := initsegs_ok
  nxt := rfl
  one_le_una := le_rfl
  una_le_nxt := le_rfl
  flight_le := Nat.le_add_right _ _
  sent _ hk hlt := absurd hlt (Nat.not_lt.mpr hk)
  seqno_lt _ hpkt := (List.not_mem_nil hpkt).elim
  onFly _ hpkt := (List.not_mem_nil hpkt).elim

/-- The entry that a packet overwrites is not in flight any more. -/
theorem WindowInv.sendOne (hinv : WindowInv t) (hroom : t.path.flight < t.path.sndCwnd)
    (b : UInt32) (hfew : t.packets.length + 1 < 2 ^ 32 - 1) : WindowInv (t.sendOne b) := by
  have hlt := UInt32.lt_iff_toNat_lt.mp hroom
  have hmax : t.path.sndCwnd.toNat ≤ 1000 := UInt32.le_iff_toNat_le.mp hinv.cwnd.2
  have huna := hinv.una_le_nxt
  have hnxt := hinv.nxt
  rw [hinv.flight_eq] at hlt
  have hnext : (t.sendOne b).path.sndNxt.toNat = t.path.sndNxt.toNat + 1 := by
    change (t.path.sndNxt + 1).toNat = _
    rw [UInt32.toNat_add]
    change (t.path.sndNxt.toNat + 1) % 2 ^ 32 = _
    omega
  have hsame : (t.sendOne b).path.sndUna = t.path.sndUna := rfl
  constructor
  case cwnd => exact hinv.cwnd
  case nxt => rw [hnext, hnxt]; rfl
  case one_le_una => exact hinv.one_le_una
  case una_le_nxt => rw [hnext, hsame]; omega
  case flight_le => rw [hnext, hsame]; simp only [maxCwnd]; omega
  case sent =>
    intro k hk hlast
    rw [hnext] at hlast
    by_cases hnew : k = t.path.sndNxt.toNat
    · exact ⟨_, List.mem_cons_self, hnew.symm⟩
    · obtain ⟨pkt, hpkt, heq⟩ := hinv.sent k hk (by omega)
      exact ⟨pkt, List.mem_cons_of_mem _ hpkt, heq⟩
  case seqno_lt =>
    rw [hnext]
    refine List.forall_mem_cons.mpr ⟨Nat.lt_succ_self _, fun pkt hpkt => ?_⟩
    exact (hinv.seqno_lt pkt hpkt).trans (Nat.lt_succ_self _)
  case onFly =>
    have hindex : (t.path.sndNxt % maxWindow).toNat = t.path.sndNxt.toNat % maxCwnd :=
      UInt32.toNat_mod _ _
    refine List.forall_mem_cons.mpr ⟨fun _ => ?_, fun pkt hpkt hk => ?_⟩
    · rw [← hindex]
      exact update_self _ _ _
    · have hbefore := hinv.seqno_lt pkt hpkt
      have hother : pkt.seqno.toNat % maxCwnd ≠ (t.path.sndNxt % maxWindow).toNat := by
        rw [hindex]
        rw [hsame] at hk
        simp only [maxCwnd]
        omega
      exact (update_of_ne hother _ _).trans (hinv.onFly pkt hpkt hk)

theorem WindowInv.sends (hinv : WindowInv t) (hsends : SendsInWindow t t')
    (hfew : t'.packets.length < 2 ^ 32 - 1) : WindowInv t' := by
  induction hsends with
  | refl => exact hinv
  | step _ hroom b ih =>
      have hlen : _ + 1 < 2 ^ 32 - 1 := hfew
      exact (ih (by omega)).sendOne hroom b hlen

/-- Acknowledgements and timeouts move `snd_una` forward. -/
theorem WindowInv.moveUna (hinv : WindowInv t) {p : CongPath} (hcwnd : p.CwndOk)
    (honFly : p.onFly = t.path.onFly) (hnxt : p.sndNxt = t.path.sndNxt)
    (hle : t.path.sndUna.toNat ≤ p.sndUna.toNat) (hlast : p.sndUna.toNat ≤ t.path.sndNxt.toNat) :
    WindowInv { t with path := p } := by
  constructor
  case cwnd => exact hcwnd
  case nxt => exact (congrArg UInt32.toNat hnxt).trans hinv.nxt
  case one_le_una => exact hinv.one_le_una.trans hle
  case una_le_nxt => rwa [hnxt]
  case flight_le =>
    rw [hnxt]
    exact hinv.flight_le.trans (Nat.add_le_add_right hle _)
  case sent =>
    rw [hnxt]
    exact hinv.sent
  case seqno_lt =>
    rw [hnxt]
    exact hinv.seqno_lt
  case onFly =>
    rw [honFly]
    exact fun pkt hpkt hk => hinv.onFly pkt hpkt (hle.trans hk)

/-- An acknowledgement of what was sent is not bad. -/
theorem not_badAck {p : CongPath} {ackno : UInt32} (hle : ackno ≤ p.sndNxt)
    (blockno currBlock : UInt32) : ¬p.BadAck ackno blockno currBlock := by
  rw [BadAck, not_or, UInt32.not_lt, UInt32.not_lt, uint32_max_eq]
  refine ⟨hle, ?_⟩
  split
  · exact UInt32.le_refl _
  · next hlt => exact UInt32.le_of_lt (UInt32.not_le.mp hlt)

/-- It moves `snd_una` at most. -/
theorem handleAck_same {p : CongPath} {ackno : UInt32} (hle : ackno ≤ p.sndNxt) (fl : Floats)
    (blockno currBlock : UInt32) (rtt : ℚ) :
    (p.handleAck cc fl ackno blockno currBlock rtt).path.onFly = p.onFly ∧
      (p.handleAck cc fl ackno blockno currBlock rtt).path.sndNxt = p.sndNxt ∧
        (p.handleAck cc fl ackno blockno currBlock rtt).path.sndUna =
          if ackno ≤ p.sndUna then p.sndUna else ackno := by
  have hgood := not_badAck (p := p.sampleRtt rtt) hle blockno currBlock
  have hadvance := advanceCwnd_same cc fl ((p.sampleRtt rtt).acknowledge ackno)
  have hsame := acknowledge_same (p.sampleRtt rtt) ackno
  rw [CongPath.handleAck, if_neg hgood]
  exact ⟨hadvance.onFly.trans hsame.onFly, hadvance.sndNxt.trans hsame.sndNxt,
    hadvance.sndUna.trans (acknowledge_sndUna _ _)⟩

theorem WindowInv.ack (hinv : WindowInv t) (fl : Floats) {ackno : UInt32}
    (hsent : ∃ pkt ∈ t.packets, ackno = pkt.seqno + 1) (blockno currBlock : UInt32) (rtt : ℚ) :
    WindowInv { t with path := (t.path.handleAck cc fl ackno blockno currBlock rtt).path } := by
  obtain ⟨pkt, hpkt, rfl⟩ := hsent
  have hlt := hinv.seqno_lt pkt hpkt
  have hle : pkt.seqno + 1 ≤ t.path.sndNxt := by
    have hmax := t.path.sndNxt.toNat_lt
    rw [UInt32.le_iff_toNat_le, UInt32.toNat_add]
    change (pkt.seqno.toNat + 1) % 2 ^ 32 ≤ _
    omega
  obtain ⟨honFly, hnxt, huna⟩ := @handleAck_same cc _ _ hle fl blockno currBlock rtt
  refine hinv.moveUna (handleAck_ok hinv.cwnd _ _ _ _) honFly hnxt ?_ ?_
  · rw [huna]
    split
    · exact le_rfl
    · next hnew => exact (UInt32.lt_iff_toNat_lt.mp (UInt32.not_le.mp hnew)).le
  · rw [huna]
    split
    · exact hinv.una_le_nxt
    · exact UInt32.le_iff_toNat_le.mp hle

theorem WindowInv.timeout (hinv : WindowInv t) (fl : Floats) (maxidle : ℤ) :
    WindowInv { t with path := (t.path.timeout fl maxidle).2 } := by
  have hok : (t.path.timeout fl maxidle).2.CwndOk := timeout_ok hinv.cwnd maxidle
  refine hinv.moveUna hok ?_ ?_ ?_ ?_
  all_goals
    rw [CongPath.timeout]
    dsimp only
    split_ifs
  all_goals first | rfl | exact le_rfl | exact hinv.una_le_nxt

/-! ## The number of packets -/

/-- What each packet keeps, a call of `send_segs` keeps. -/
theorem sendSegs_keeps {P : PathLog → Prop} (hone : ∀ b t, P t → P (t.sendOne b)) (hP : P t)
    (visits : List BlockVisit) : P (t.sendSegs visits) := by
  have hiterate : ∀ b n t, P t → P ((PathLog.sendOne b)^[n] t) := by
    intro b n
    induction n with
    | zero => exact fun _ hP => hP
    | succ n ih => exact fun t hP => ih _ (hone b t hP)
  have hloop : ∀ win t, P t → P (t.segsLoop win visits) := by
    induction visits with
    | nil => exact fun _ _ hP => hP
    | cons v vs ih =>
        intro win t hP
        rw [PathLog.segsLoop]
        split
        · exact ih _ _ (hiterate _ _ t hP)
        · exact hP
  rw [PathLog.sendSegs]
  split
  · exact hP
  · exact hloop _ _ hP

theorem length_le_next (cc : CongControl) (t : PathLog) (e : PathEvent) :
    t.packets.length ≤ (t.next cc e).packets.length := by
  cases e with
  | segs visits =>
      refine sendSegs_keeps (P := fun t' => t.packets.length ≤ t'.packets.length) ?_ le_rfl visits
      exact fun _ _ hle => hle.trans (Nat.le_succ _)
  | ack | timeout => exact le_rfl

theorem windowInv_of_reachable (hreach : ((pathSystem cc h).guard AcksSent).Reachable t)
    (hfew : t.packets.length < 2 ^ 32 - 1) : WindowInv t := by
  induction hreach with
  | init hinit =>
      obtain rfl := hinit
      exact windowInv_established h
  | @step t t' e _ hstep ih =>
      obtain ⟨hsent, rfl⟩ := hstep
      have hinv := ih ((length_le_next cc t e).trans_lt hfew)
      cases e with
      | segs visits =>
          exact hinv.sends
            (sendsInWindow_sendSegs hinv.cwnd.2 hinv.flight_le_maxWindow visits) hfew
      | ack fl ackno blockno currBlock rtt => exact hinv.ack fl hsent blockno currBlock rtt
      | timeout fl maxidle => exact hinv.timeout fl maxidle

/-- While fewer than `2^32 - 1` packets are sent, the window is sound. -/
theorem sendWindow_of_reachable (hreach : ((pathSystem cc h).guard AcksSent).Reachable t)
    (hfew : t.packets.length < 2 ^ 32 - 1) : SendWindow t ∧ SegsInWindow t := by
  have hinv := windowInv_of_reachable hreach hfew
  exact ⟨hinv.sendWindow, fun visits =>
    (sendsInWindow_sendSegs hinv.cwnd.2 hinv.flight_le_maxWindow visits).flight_le⟩

/-- Two packets are sent, and the first one is acknowledged. -/
theorem sendWindow_two : ∃ t : PathLog, t.packets.length = 2 ∧ t.path.sndUna = 2 ∧
    SendWindow t ∧ SegsInWindow t := by
  have hinit : ((pathSystem .aimd (1 / 10)).guard AcksSent).Reachable (established (1 / 10)) :=
    .init rfl
  have hsegs := hinit.pathNext (.segs [⟨1, fun _ => true, 2⟩]) trivial
  have hack := hsegs.pathNext (.ack .exact 2 1 1 (1 / 10))
    ⟨⟨1, 1⟩, List.mem_cons_of_mem _ List.mem_cons_self, rfl⟩
  exact ⟨_, rfl, by decide +kernel, sendWindow_of_reachable hack (by decide)⟩

/-! ## The wrap of the sequence numbers -/

theorem le_countNeeded {win : ℤ} {short : ℕ → Bool} (fuel need : ℕ) :
    need ≤ countNeeded win short fuel need := by
  induction fuel generalizing need with
  | zero => exact le_rfl
  | succ fuel ih =>
      rw [countNeeded]
      split
      · exact (Nat.le_succ need).trans (ih (need + 1))
      · exact le_rfl

/-- One packet of block `b`. -/
def oneOf (b : UInt32) : List BlockVisit := [⟨b, fun _ => true, 1⟩]

theorem sendSegs_oneOf (hwin : 1 ≤ t.path.window) (b : UInt32) :
    t.sendSegs (oneOf b) = t.sendOne b := by
  obtain ⟨n, hn⟩ := Int.eq_ofNat_of_zero_le (zero_le_one.trans hwin)
  obtain ⟨m, rfl⟩ : ∃ m, n = m + 1 := ⟨n - 1, by omega⟩
  have hneeded : 1 ≤ countNeeded ((m + 1 : ℕ) : ℤ) (fun _ => true) (m + 1) 0 := by
    rw [countNeeded, if_pos ⟨by omega, rfl⟩]
    exact le_countNeeded _ _
  rw [PathLog.sendSegs, if_neg (not_lt.mpr hwin), oneOf, PathLog.segsLoop,
    if_pos (zero_lt_one.trans_le hwin), hn, Int.toNat_natCast, min_eq_right hneeded]
  rfl

/-- With nothing in flight the window is open. -/
theorem one_le_window (hinv : WindowInv t) (hacked : t.path.sndUna = t.path.sndNxt) :
    1 ≤ t.path.window := by
  have htwo : 2 ≤ t.path.sndCwnd.toNat := UInt32.le_iff_toNat_le.mp hinv.cwnd.1
  have hflight := hinv.flight_eq
  rw [window_eq hinv.cwnd.2 hinv.flight_le_maxWindow, hflight, hacked]
  omega

/-- Packets can be sent one by one, each acknowledged before the next. -/
theorem exists_acked (n : ℕ) (hn : n + 1 < 2 ^ 32) :
    ∃ t, ((pathSystem cc h).guard AcksSent).Reachable t ∧ t.packets.length = n ∧
      t.path.sndUna = t.path.sndNxt := by
  induction n with
  | zero => exact ⟨_, .init rfl, rfl, rfl⟩
  | succ n ih =>
      obtain ⟨t, hreach, hlen, hacked⟩ := ih (by omega)
      have hinv := windowInv_of_reachable hreach (by omega)
      have hsend := hreach.pathNext (.segs (oneOf 1)) trivial
      rw [PathLog.next, sendSegs_oneOf (one_le_window hinv hacked)] at hsend
      have hlt : t.path.sndUna < t.path.sndNxt + 1 := by
        have hnxt := hinv.nxt
        rw [hacked, UInt32.lt_iff_toNat_lt, UInt32.toNat_add, hnxt, hlen]
        change n + 1 < (n + 1 + 1) % 2 ^ 32
        omega
      have hack := hsend.pathNext (.ack .exact (t.path.sndNxt + 1) 1 1 1)
        ⟨_, List.mem_cons_self, rfl⟩
      obtain ⟨-, hnxt, huna⟩ :=
        handleAck_same (p := (t.sendOne 1).path) (UInt32.le_refl _) .exact 1 1 1
      refine ⟨_, hack, congrArg (· + 1) hlen, huna.trans ?_⟩
      exact (if_neg (UInt32.not_le.mpr hlt)).trans hnxt.symm

/-- With `2^32 - 1` packets, `snd_nxt` is back at 0. -/
theorem not_sendWindow :
    ¬∀ (cc : CongControl) (h : ℚ) (t : PathLog),
      ((pathSystem cc h).guard AcksSent).Reachable t → t.packets.length < 2 ^ 32 →
        SendWindow t ∧ SegsInWindow t := by
  intro hall
  obtain ⟨t, hreach, hlen, hacked⟩ := @exists_acked .aimd (1 / 10) (2 ^ 32 - 2) (by decide)
  have hinv := windowInv_of_reachable hreach (by rw [hlen]; decide)
  have hsend := hreach.pathNext (.segs (oneOf 1)) trivial
  rw [PathLog.next, sendSegs_oneOf (one_le_window hinv hacked)] at hsend
  obtain ⟨hwindow, -⟩ := hall _ _ _ hsend (by
    change t.packets.length + 1 < _
    rw [hlen]
    decide)
  have hle : t.path.sndUna ≤ t.path.sndNxt + 1 := hwindow.una_le_nxt
  have hnxt := hinv.nxt
  rw [hlen] at hnxt
  rw [hacked, UInt32.le_iff_toNat_le, UInt32.toNat_add, hnxt] at hle
  exact absurd hle (by decide)

end Ctcp
