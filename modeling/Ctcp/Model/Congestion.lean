import Ctcp.Model.Params
import Mathlib.Data.Rat.Floor

/-! # The window of a path, from `srvctcp.c`

The fields keep their machine types, so what the source computes modulo `2^32` is so here.
Round-trip times are rational numbers; what floating-point arithmetic makes of them is left
open where it decides about the window. -/

namespace Ctcp

open Function

/-- `cong_control` -/
inductive CongControl where
  | aimd
  | vegas
  /-- Any other string. -/
  | unknown
  deriving DecidableEq

/-- What floating-point arithmetic makes of the expressions that are about windows. -/
structure Floats where
  /-- `snd_cwnd * basertt / rtt` -/
  target : UInt32 → ℚ → ℚ → UInt32
  /-- The comparisons of `srtt` and of `minrtt` with `basertt` in `loss_occurred`. -/
  late : ℚ → ℚ → ℚ → Bool
  /-- `0.5 + snd_cwnd * (1 - basertt / minrtt)` -/
  decrease : UInt32 → ℚ → ℚ → Int32
  /-- `0.75 * snd_cwnd` -/
  threeQuarters : UInt32 → UInt32
  /-- `snd_ssthresh < 0.75 * snd_cwnd` -/
  below : UInt32 → UInt32 → Bool
  /-- `snd_cwnd * multiplier` -/
  shrink : UInt32 → UInt32

/-- A number converted to an integer type. -/
def truncate (x : ℚ) : ℤ := x.num.tdiv x.den

/-- Exact arithmetic. -/
def Floats.exact : Floats where
  target cwnd basertt rtt := UInt32.ofNat (truncate (cwnd.toNat * basertt / rtt)).toNat
  late srtt minrtt basertt := 5 / 1000 < srtt - basertt ∨ 2 / 1000 < minrtt - basertt
  decrease cwnd basertt minrtt :=
    Int32.ofInt (truncate (1 / 2 + cwnd.toNat * (1 - basertt / minrtt)))
  threeQuarters cwnd := UInt32.ofNat (3 * cwnd.toNat / 4)
  below ssthresh cwnd := 4 * ssthresh.toNat < 3 * cwnd.toNat
  shrink cwnd := UInt32.ofNat (17 * cwnd.toNat / 20)

/-- `MAX_CWND` -/
def maxWindow : UInt32 := UInt32.ofNat maxCwnd

/-- `valpha` -/
def valpha : UInt32 := 2

/-- `vbeta` -/
def vbeta : UInt32 := 4

/-- The RTT that no sample has been compared with yet, in seconds. -/
def unknownRtt : ℚ := 999999

/-- The RTT that `target_cwnd` is computed from. -/
inductive RttChoice where
  | srtt
  | minrtt
  deriving DecidableEq

/-- `target_cwnd` and `diff`, each time `advance_cwnd` computes them, and whether slow
start is left on them. -/
structure QueueEstimate where
  rtt : RttChoice
  sndCwnd : UInt32
  target : UInt32
  diff : UInt32
  exits : Bool
  deriving DecidableEq

/-- The fields of a `Substream_Path` that its window depends on. -/
structure CongPath where
  onFly : ℕ → UInt32
  sndNxt : UInt32
  sndUna : UInt32
  sndCwnd : UInt32
  sndSsthresh : UInt32
  idle : ℤ
  srtt : ℚ
  minrtt : ℚ
  basertt : ℚ
  cntrtt : UInt32
  decSndNxt : UInt32
  toggle : Int32
  begSndNxt : UInt32
  begSndUna : UInt32
  losscnt : Int32

namespace CongPath

/-- `initsegs` -/
def initsegs : UInt32 := 8

/-- `init_stream`; `snd_ssthresh` is `multiplier * MAX_CWND`. -/
def initStream : CongPath where
  onFly _ := 0
  sndNxt := 1
  sndUna := 1
  sndCwnd := initsegs
  sndSsthresh := 850
  idle := 0
  srtt := 0
  minrtt := unknownRtt
  basertt := unknownRtt
  cntrtt := 0
  decSndNxt := 0
  toggle := 1
  begSndNxt := 0
  begSndUna := 0
  losscnt := 0

/-! ## Congestion control -/

def lossOccurred (fl : Floats) (p : CongPath) : Bool :=
  0 < p.losscnt && fl.late p.srtt p.minrtt p.basertt

/-- What is left of the window in a backoff that undid the last increase. -/
def reducedCwnd (fl : Floats) (p : CongPath) : UInt32 :=
  if 2 < p.cntrtt then
    let decrease := fl.decrease p.sndCwnd p.basertt p.minrtt
    let half := (p.sndCwnd / 2).toInt32
    p.sndCwnd - (if half < decrease then half else decrease).toUInt32
  else p.sndCwnd / 2

/-- `decrease_cwnd` -/
def decreaseCwnd (fl : Floats) (p : CongPath) : CongPath :=
  if p.sndUna ≤ p.decSndNxt then p
  else
    let undone :=
      { p with
        decSndNxt := p.sndUna + p.sndCwnd
        sndCwnd := p.sndCwnd - p.toggle.toUInt32 }
    let cwnd := if undone.reducedCwnd fl < 2 then 2 else undone.reducedCwnd fl
    { undone with sndCwnd := cwnd, sndSsthresh := fl.threeQuarters cwnd }

/-- `constrain_cwnd` -/
def constrainCwnd (p : CongPath) : CongPath :=
  let p := if maxWindow < p.sndCwnd then { p with sndCwnd := maxWindow } else p
  if p.sndCwnd < 2 then { p with sndCwnd := 2 } else p

def rttOf (p : CongPath) : RttChoice → ℚ
  | .srtt => p.srtt
  | .minrtt => p.minrtt

/-- `target_cwnd` and `diff`, computed from one of the RTTs. -/
def estimate (fl : Floats) (p : CongPath) (rtt : RttChoice) : QueueEstimate :=
  let target := fl.target p.sndCwnd p.basertt (p.rttOf rtt)
  { rtt := rtt
    sndCwnd := p.sndCwnd
    target := target
    diff := p.sndCwnd - target
    exits := false }

/-- Slow start is left. -/
def exitSlowStart (p : CongPath) (target : UInt32) : CongPath :=
  let p := if target + 1 < p.sndCwnd then { p with sndCwnd := target + 1 } else p
  if p.sndCwnd - 1 < p.sndSsthresh then { p with sndSsthresh := p.sndCwnd - 1 } else p

/-- `snd_ssthresh` is raised to three quarters of the window. -/
def raiseSsthresh (fl : Floats) (p : CongPath) : CongPath :=
  if fl.below p.sndSsthresh p.sndCwnd then
    { p with sndSsthresh := fl.threeQuarters p.sndCwnd }
  else p

/-- The AIMD update of a round, as far as it does not look at losses. -/
def aimdMove (e : QueueEstimate) (p : CongPath) : CongPath × QueueEstimate :=
  if 1 < e.diff ∧ p.sndCwnd ≤ p.sndSsthresh then
    (p.exitSlowStart e.target, { e with exits := true })
  else if p.decSndNxt < p.sndUna then ({ p with sndCwnd := p.sndCwnd + p.toggle.toUInt32 }, e)
  else (p, e)

/-- The window is cut when a packet was lost. -/
def backOff (fl : Floats) (p : CongPath) : CongPath :=
  if p.lossOccurred fl then p.decreaseCwnd fl else p

/-- The update of a round with AIMD. -/
def aimdUpdate (fl : Floats) (e : QueueEstimate) (p : CongPath) : CongPath × List QueueEstimate :=
  let moved := p.aimdMove e
  (((moved.1.backOff fl).constrainCwnd).raiseSsthresh fl, [moved.2])

/-- The RTT that the Vegas update estimates the queue with. -/
def vegasRtt (p : CongPath) : RttChoice := if p.sndCwnd ≤ p.sndSsthresh then .srtt else .minrtt

/-- The Vegas update of a round with RTT samples enough. -/
def vegasMove (e : QueueEstimate) (p : CongPath) : CongPath × QueueEstimate :=
  if 1 < e.diff ∧ p.sndCwnd ≤ p.sndSsthresh then
    (p.exitSlowStart e.target, { e with exits := true })
  else if p.sndCwnd ≤ p.sndSsthresh then ({ p with sndCwnd := p.sndCwnd + 1 }, e)
  else if vbeta < e.diff then
    let p := { p with sndCwnd := p.sndCwnd - 1 }
    (if p.sndCwnd - 1 < p.sndSsthresh then { p with sndSsthresh := p.sndCwnd - 1 } else p, e)
  else if e.diff < valpha then ({ p with sndCwnd := p.sndCwnd + 1 }, e)
  else (p, e)

/-- The update of a round with Vegas; `e` is overwritten when there are samples enough. -/
def vegasUpdate (fl : Floats) (e : QueueEstimate) (p : CongPath) : CongPath × List QueueEstimate :=
  if p.cntrtt ≤ 2 then ({ p with sndCwnd := p.sndCwnd + 1 }, [e])
  else
    let moved := p.vegasMove (p.estimate fl p.vegasRtt)
    (moved.1.constrainCwnd.raiseSsthresh fl, [moved.2, e])

/-- The update of a round, with the estimates that it makes, the last one first. -/
def updateCwnd (cc : CongControl) (fl : Floats) (p : CongPath) : CongPath × List QueueEstimate :=
  let e := p.estimate fl .srtt
  match cc with
  | .aimd => p.aimdUpdate fl e
  | .vegas => p.vegasUpdate fl e
  | .unknown => (p, [e])

/-- A round is over. -/
def RoundDone (p : CongPath) : Prop := p.begSndNxt ≤ p.sndUna

instance (p : CongPath) : Decidable p.RoundDone := inferInstanceAs (Decidable (_ ≤ _))

/-- `advance_cwnd`, with the estimates that it makes. -/
def advanceCwnd (cc : CongControl) (fl : Floats) (p : CongPath) : CongPath × List QueueEstimate :=
  if p.RoundDone then
    let begun := { p with begSndNxt := p.sndUna + p.sndCwnd, begSndUna := p.sndUna }
    let updated := begun.updateCwnd cc fl
    ({ updated.1 with
        cntrtt := 0
        toggle := 1
        minrtt := unknownRtt
        losscnt := 0 }.constrainCwnd,
      updated.2)
  else if p.sndCwnd ≤ p.sndSsthresh ∧ cc ≠ .unknown then
    ({ p with sndCwnd := p.sndCwnd + 1 }.constrainCwnd, [])
  else (p.constrainCwnd, [])

/-! ## Acknowledgements and timeouts -/

/-- `g`, the weight of a new sample; the division in the macro is one of integers. -/
def g : ℚ := 1 / (blockSize / 5 : ℕ)

/-- The RTT calculations of `handle_ack`. -/
def sampleRtt (p : CongPath) (rtt : ℚ) : CongPath :=
  { p with
    basertt := if rtt < p.basertt then rtt else p.basertt
    minrtt := if rtt < p.minrtt then rtt else p.minrtt
    srtt := (1 - g) * p.srtt + g * rtt
    cntrtt := p.cntrtt + 1 }

/-- A late or a good acknowledgement, up to the call of `advance_cwnd`. -/
def acknowledge (p : CongPath) (ackno : UInt32) : CongPath :=
  let p := { p with idle := 0 }
  if ackno ≤ p.sndUna then p
  else
    { p with
      losscnt := p.losscnt + (ackno - (p.sndUna + 1)).toInt32
      sndUna := ackno }

/-- A bad acknowledgement. `currBlock` is what `curr_block` was before; the loop over the
blocks ends with the larger one of both block numbers. -/
def BadAck (p : CongPath) (ackno blockno currBlock : UInt32) : Prop :=
  p.sndNxt < ackno ∨ max currBlock blockno < blockno

instance (p : CongPath) (ackno blockno currBlock : UInt32) :
    Decidable (p.BadAck ackno blockno currBlock) := inferInstanceAs (Decidable (_ ∨ _))

/-- What is returned, the path, and the estimates that were made. -/
structure HandledAck where
  code : ℤ
  path : CongPath
  estimates : List QueueEstimate

/-- `handle_ack` -/
def handleAck (cc : CongControl) (fl : Floats) (p : CongPath) (ackno blockno currBlock : UInt32)
    (rtt : ℚ) : HandledAck :=
  let p := p.sampleRtt rtt
  if p.BadAck ackno blockno currBlock then
    ⟨-1, if p.sndUna < ackno then { p with sndUna := ackno } else p, []⟩
  else
    let advanced := (p.acknowledge ackno).advanceCwnd cc fl
    ⟨0, advanced.1, advanced.2⟩

/-- `timeout` returns false when the path is dead. -/
def timeout (fl : Floats) (maxidle : ℤ) (p : CongPath) : Bool × CongPath :=
  if maxidle < p.idle then (false, p)
  else
    let p := { p with idle := p.idle + 1 }
    if p.sndNxt ≠ p.sndUna then
      let ssthresh := fl.shrink p.sndCwnd
      (true,
        { p with
          sndSsthresh := if ssthresh < initsegs then initsegs else ssthresh
          sndCwnd := initsegs
          sndUna := p.sndNxt })
    else (true, p)

/-- `win` of `send_segs`. -/
def window (p : CongPath) : ℤ := (p.sndCwnd - (p.sndNxt - p.sndUna)).toInt32.toInt

end CongPath

/-! ## Sending -/

/-- The header of a packet as it is sent. -/
structure SentPacket where
  seqno : UInt32
  blockno : UInt32

/-- A path with the packets that were sent on it, the last one first. -/
structure PathLog where
  path : CongPath
  packets : List SentPacket

/-- A block that `send_segs` visits: what `dof_needed*(1-p) + mean_OnFly < dof_request_tmp`
is for each `dof_needed`, and for how many packets there is credit. -/
structure BlockVisit where
  blockno : UInt32
  short : ℕ → Bool
  credit : ℕ

/-- The loop that counts `dof_needed` up; `win` rounds are enough. -/
def countNeeded (win : ℤ) (short : ℕ → Bool) : ℕ → ℕ → ℕ
  | 0, need => need
  | fuel + 1, need =>
    if (need : ℤ) < win ∧ short need then countNeeded win short fuel (need + 1) else need

namespace PathLog

/-- `send_one`, with the increment of `snd_nxt` that follows it. -/
def sendOne (blockno : UInt32) (t : PathLog) : PathLog where
  path :=
    { t.path with
      onFly := update t.path.onFly (t.path.sndNxt % maxWindow).toNat blockno
      sndNxt := t.path.sndNxt + 1 }
  packets := ⟨t.path.sndNxt, blockno⟩ :: t.packets

/-- The loop of `send_segs` over the blocks that it visits. -/
def segsLoop (win : ℤ) (t : PathLog) : List BlockVisit → PathLog
  | [] => t
  | v :: vs =>
    if 0 < win then
      let currWin := min (countNeeded win v.short win.toNat 0) v.credit
      segsLoop (win - currWin) ((sendOne v.blockno)^[currWin] t) vs
    else t

/-- `send_segs` -/
def sendSegs (t : PathLog) (visits : List BlockVisit) : PathLog :=
  if t.path.window < 1 then t else segsLoop t.path.window t visits

end PathLog

end Ctcp
