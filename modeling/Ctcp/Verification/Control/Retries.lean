import Ctcp.Model.Control
import Mathlib.Data.Nat.Count

/-! # When the loops around control packets end

A round of a loop counts as a try, or it does not. The packets that are read decide which;
how many substreams are left only matters for what `poll_flag` can read. -/

namespace Ctcp

/-! ## What a round reads -/

/-- The packet that `poll_flag` reads from so many substreams. -/
def Polled.packet (substreams : ℕ) : Polled → Option Flag
  | .ready pollin (.packet flag) =>
    if (firstReady pollin substreams).isSome then some flag else none
  | _ => none

/-- How many substreams `poll_flag` leaves. -/
def Polled.left (substreams : ℕ) : Polled → ℕ
  | .ready pollin .failed =>
    if (firstReady pollin substreams).isSome then substreams - 1 else substreams
  | _ => substreams

/-- The number of substreams before round `k`. -/
def substreamsAt (substreams : ℕ) (rounds : ℕ → CliRound) : ℕ → ℕ
  | 0 => substreams
  | k + 1 => (rounds k).polled.left (substreamsAt substreams rounds k)

/-- The packet that round `k` reads. -/
def packetAt (substreams : ℕ) (rounds : ℕ → CliRound) (k : ℕ) : Option Flag :=
  (rounds k).polled.packet (substreamsAt substreams rounds k)

section PollFlag

variable (csk : CliPaths) (flag : Flag) (polled : Polled)

theorem pollFlag_substreams :
    (pollFlag csk flag polled).2.2.substreams = polled.left csk.substreams := by
  cases polled with
  | failed => rfl
  | timedOut => rfl
  | ready pollin received =>
      simp only [pollFlag]
      cases hfirst : firstReady pollin csk.substreams with
      | none => cases received <;> simp [Polled.left, hfirst]
      | some sub =>
          cases received with
          | failed => simp [Polled.left, hfirst]
          | empty => rfl
          | packet got => dsimp only; split <;> rfl

/-- The three values of `poll_flag`. -/
theorem pollFlag_index :
    ((pollFlag csk flag polled).1 = -1 ↔ polled.packet csk.substreams = none) ∧
      ((pollFlag csk flag polled).1 < 0 ↔ polled.packet csk.substreams ≠ some flag) := by
  cases polled with
  | failed => simp [pollFlag, Polled.packet]
  | timedOut => simp [pollFlag, Polled.packet]
  | ready pollin received =>
      simp only [pollFlag]
      cases hfirst : firstReady pollin csk.substreams with
      | none => cases received <;> simp [Polled.packet, hfirst]
      | some sub =>
          cases received with
          | failed => simp [Polled.packet]
          | empty => simp [Polled.packet]
          | packet got =>
              simp only [Polled.packet, hfirst, Option.isSome_some, if_true]
              split
              next heq => simp [heq]
              next hne => simp [hne]

end PollFlag

/-! ## The client's loops -/

theorem pollLoop_goesOn {resend : CliLoop → CliRound → CliLoop} {flag : Flag} {s : CliLoop} :
    (pollLoop resend flag).goesOn s = false ↔ ¬s.index < 0 ∨ pollMaxTries ≤ s.tries := by
  simp only [pollLoop]
  rw [Bool.and_eq_false_iff, decide_eq_false_iff_not, decide_eq_false_iff_not,
    not_lt (a := s.tries)]

section PollLoop

variable {resend : CliLoop → CliRound → CliLoop} {flag : Flag} {s : CliLoop}
  {rounds : ℕ → CliRound}
  (hkeep : ∀ s r, (resend s r).csk.substreams = s.csk.substreams)

include hkeep

theorem pollLoop_substreams (k : ℕ) :
    ((pollLoop resend flag).after s rounds k).csk.substreams =
      substreamsAt s.csk.substreams rounds k := by
  induction k with
  | zero => rfl
  | succ k ih =>
      simp only [Loop.after, pollLoop, substreamsAt] at ih ⊢
      rw [pollFlag_substreams, hkeep, ih]

theorem pollLoop_index (k : ℕ) :
    (((pollLoop resend flag).after s rounds (k + 1)).index = -1 ↔
        packetAt s.csk.substreams rounds k = none) ∧
      (((pollLoop resend flag).after s rounds (k + 1)).index < 0 ↔
        packetAt s.csk.substreams rounds k ≠ some flag) := by
  have hsubstreams : ((pollLoop resend flag).after s rounds k).csk.substreams = _ :=
    pollLoop_substreams hkeep k
  rw [packetAt, ← hsubstreams, ← hkeep _ (rounds k)]
  exact pollFlag_index _ _ _

/-- A round ends the loop with the packet it waits for, or with too many tries. -/
theorem pollLoop_ends_iff (k : ℕ) :
    (pollLoop resend flag).goesOn ((pollLoop resend flag).after s rounds (k + 1)) = false ↔
      packetAt s.csk.substreams rounds k = some flag ∨
        pollMaxTries ≤ ((pollLoop resend flag).after s rounds (k + 1)).tries := by
  rw [pollLoop_goesOn, (pollLoop_index hkeep k).2, not_not]

/-- A loop whose count is set anew in each round is left with the packet it waits for. -/
theorem pollLoop_reset_iff
    (hreset : ∀ k, ((pollLoop resend flag).after s rounds (k + 1)).tries = 1) (n : ℕ) :
    ((pollLoop resend flag).run n s rounds).isSome ↔
      ∃ k < n, packetAt s.csk.substreams rounds k = some flag := by
  rw [Loop.run_isSome_iff]
  refine exists_congr fun k => and_congr_right fun _ => ?_
  rw [pollLoop_ends_iff hkeep, hreset]
  exact or_iff_left (by decide)

/-- A loop that counts a try whenever it sends. -/
theorem pollLoop_count_iff
    (hcount : ∀ s r, (resend s r).tries = s.tries + if s.index = -1 then 1 else 0)
    (htries : s.tries = 0) (hindex : s.index = -1) (n : ℕ) :
    ((pollLoop resend flag).run n s rounds).isSome ↔
      ∃ k < n, packetAt s.csk.substreams rounds k = some flag ∨
        pollMaxTries ≤ 1 + Nat.count (packetAt s.csk.substreams rounds · = none) k := by
  have htriesAt (k : ℕ) : ((pollLoop resend flag).after s rounds (k + 1)).tries =
      1 + Nat.count (packetAt s.csk.substreams rounds · = none) k := by
    induction k with
    | zero =>
        have hsend := hcount s (rounds 0)
        rw [htries, hindex, if_pos rfl] at hsend
        exact hsend
    | succ k ih =>
        have hsend := hcount ((pollLoop resend flag).after s rounds (k + 1)) (rounds (k + 1))
        simp only [ih, (pollLoop_index hkeep k).1] at hsend
        rw [Nat.count_succ, ← Nat.add_assoc, ← hsend]
        rfl
  rw [Loop.run_isSome_iff]
  refine exists_congr fun k => and_congr_right fun _ => ?_
  rw [pollLoop_ends_iff hkeep, htriesAt]

end PollLoop

/-- The count of `connect_ctcp` never grows. -/
theorem synLoop_tries (csk : CliPaths) (rounds : ℕ → CliRound) (k : ℕ) :
    (synLoop.after (startSyn csk) rounds (k + 1)).tries = 1 := by
  have hsend (s : CliLoop) (r : CliRound) (h : s.index = -1 ∨ s.tries = 1) :
      (resendSyn s r).tries = 1 := by
    rw [resendSyn]
    split
    · rfl
    next hne => exact h.resolve_left hne
  induction k with
  | zero => exact hsend _ _ (.inl rfl)
  | succ k ih => exact hsend _ _ (.inr ih)

theorem synLoop_isSome_iff (csk : CliPaths) (rounds : ℕ → CliRound) (n : ℕ) :
    (synLoop.run n (startSyn csk) rounds).isSome ↔
      ∃ k < n, packetAt csk.substreams rounds k = some .synAck := by
  refine pollLoop_reset_iff (fun s r => ?_) (synLoop_tries csk rounds) n
  rw [resendSyn]
  split <;> rfl

theorem finLoop_isSome_iff (csk : CliPaths) (curr : ℕ) (rounds : ℕ → CliRound) (n : ℕ) :
    (finLoop.run n (startFin csk curr) rounds).isSome ↔
      ∃ k < n, packetAt csk.substreams rounds k = some .finAck ∨
        pollMaxTries ≤ 1 + Nat.count (packetAt csk.substreams rounds · = none) k := by
  refine pollLoop_count_iff (fun s r => ?_) (fun s r => ?_) rfl rfl n
  · rw [resendFinAck]
    split <;> rfl
  · rw [resendFinAck]
    split <;> rfl

theorem closeLoop_isSome_iff (csk : CliPaths) (rounds : ℕ → CliRound) (n : ℕ) :
    (closeLoop.run n (startClose csk) rounds).isSome ↔
      ∃ k < n, packetAt csk.substreams rounds k = some .finAck ∨
        pollMaxTries ≤ 1 + Nat.count (packetAt csk.substreams rounds · = none) k := by
  refine pollLoop_count_iff (fun s r => ?_) (fun s r => ?_) rfl rfl n
  · rw [resendClose]
    split_ifs <;> rfl
  · rw [resendClose]
    split_ifs <;> rfl

/-- `connect_ctcp` does not return NULL after its loop. -/
theorem connectCtcp_ne_null (n : ℕ) (csk : CliPaths) (rounds : ℕ → CliRound) (acked : Bool)
    (now : ℚ) : connectCtcp n csk rounds acked now ≠ some none := by
  intro hnull
  obtain ⟨s, hrun, hreturn⟩ := Option.map_eq_some_iff.mp hnull
  obtain ⟨k, -, rfl, -⟩ := Loop.run_eq_some hrun
  have htries := synLoop_tries csk rounds k
  rw [connectReturn, if_neg (by rw [htries]; decide)] at hreturn
  cases hreturn

/-! ## The server's loops -/

/-- A read that the FIN_ACK loop counts. -/
def TimedRead.countsFinAck : TimedRead → Bool
  | .timedOut | .ready .failed | .ready .empty | .ready (.packet .fin) => true
  | _ => false

/-- A read that `close_srvctcp` counts. -/
def TimedRead.countsClose : TimedRead → Bool
  | .failed | .timedOut | .ready .failed | .ready .empty => true
  | _ => false

theorem finAckBody_status (s : FinAckLoop) (r : SrvRound) :
    (finAckBody s r).sk.status = .closed ↔
      s.sk.status = .closed ∨ r.read = .ready (.packet .finAck) ∨ r.closed = true := by
  obtain ⟨sent, read, closed⟩ := r
  cases closed with
  | true => simp [finAckBody]
  | false =>
      simp only [finAckBody, Bool.false_eq_true, if_false, or_false]
      split <;> split <;> simp_all

theorem finAckBody_tries (s : FinAckLoop) (r : SrvRound) :
    (finAckBody s r).tries = s.tries + if r.read.countsFinAck then 1 else 0 := by
  obtain ⟨sent, read, closed⟩ := r
  simp only [finAckBody]
  split <;> split <;> simp_all [TimedRead.countsFinAck]

theorem finAckLoop_isSome_iff (sk : SrvPaths) (pathIndex : ℕ) (rounds : ℕ → SrvRound) (n : ℕ) :
    (finAckLoop.run n (startFinAck sk pathIndex) rounds).isSome ↔
      ∃ k < n, ((rounds k).read = .ready (.packet .finAck) ∨ (rounds k).closed = true) ∨
        controlMaxRetries ≤ Nat.count (fun i => (rounds i).read.countsFinAck = true) (k + 1) := by
  refine Loop.run_isSome_iff_of_retry (l := finAckLoop) (s := startFinAck sk pathIndex)
    (fun _ => True) (fun s => s.sk.status = .closed) FinAckLoop.tries
    (fun r => r.read = .ready (.packet .finAck) ∨ r.closed = true) (·.read.countsFinAck)
    trivial (fun _ _ h => h) (fun s => ?_) (fun s r _ => finAckBody_status s r)
    (fun s r _ => finAckBody_tries s r) ?_ rfl n
  · simp [finAckLoop, Bool.and_eq_false_imp, or_iff_not_imp_left]
  · simp [startFinAck]

/-- A FIN is never the end of `close_srvctcp`: every round sets the state of path 0 anew. -/
theorem closeSrvBody_success {s : CloseSrv} (hactive : 0 < s.sk.numActive) (r : SrvRound) :
    (closeSrvBody s r).success = true ↔
      s.success = true ∨ r.read = .ready (.packet .finAck) := by
  have hfin : (s.sk.setPaths (fun _ => true) .finSent).pathstate 0 = .finSent :=
    SrvPaths.setPaths_pathstate _ hactive
  simp only [closeSrvBody, hfin, if_true]
  split <;> simp_all

theorem closeSrvBody_tries {s : CloseSrv} (hactive : 0 < s.sk.numActive) (r : SrvRound) :
    (closeSrvBody s r).tries = s.tries + if r.read.countsClose then 1 else 0 := by
  have hfin : (s.sk.setPaths (fun _ => true) .finSent).pathstate 0 = .finSent :=
    SrvPaths.setPaths_pathstate _ hactive
  simp only [closeSrvBody, hfin, if_true]
  split <;> simp_all [TimedRead.countsClose]

theorem closeSrvBody_numActive (s : CloseSrv) (r : SrvRound) :
    (closeSrvBody s r).sk.numActive = s.sk.numActive := by
  simp only [closeSrvBody]
  split <;> try rfl
  split_ifs <;> rfl

theorem closeSrvLoop_isSome_iff {sk : SrvPaths} (hactive : 0 < sk.numActive)
    (rounds : ℕ → SrvRound) (n : ℕ) :
    (closeSrvLoop.run n (startCloseSrv sk) rounds).isSome ↔
      ∃ k < n, (rounds k).read = .ready (.packet .finAck) ∨
        controlMaxRetries ≤ Nat.count (fun i => (rounds i).read.countsClose = true) (k + 1) := by
  refine Loop.run_isSome_iff_of_retry (l := closeSrvLoop) (s := startCloseSrv sk)
    (fun s => 0 < s.sk.numActive) (fun s => s.success = true) CloseSrv.tries
    (·.read = .ready (.packet .finAck)) (·.read.countsClose) hactive
    (fun s r h => ?_) (fun s => ?_)
    (fun s r h => closeSrvBody_success h r) (fun s r h => closeSrvBody_tries h r)
    ?_ rfl n
  · exact h.trans_eq (closeSrvBody_numActive s r).symm
  · simp only [closeSrvLoop]
    rw [Bool.and_eq_false_iff, decide_eq_false_iff_not, not_lt, Bool.not_eq_false', or_comm]
  · simp [startCloseSrv]

/-! ## The functions around the loops -/

/-- Each function returns after `n` rounds at most exactly when it gets the packet it waits
for, or when enough of the rounds count as tries. In `connect_ctcp` no round counts. -/
theorem controlLoops_end_iff (n : ℕ) (csk : CliPaths) (curr : ℕ) (rounds : ℕ → CliRound)
    (acked : Bool) (now : ℚ) (acks : ℕ → Bool) (sk : SrvPaths) (pathIndex : ℕ)
    (reads : ℕ → SrvRound) :
    (((connectCtcp n csk rounds acked now).isSome ↔
        ∃ k < n, packetAt csk.substreams rounds k = some .synAck) ∧
      connectCtcp n csk rounds acked now ≠ some none) ∧
    ((handleFin n csk curr rounds).isSome ↔
      ∃ k < n, packetAt csk.substreams rounds k = some .finAck ∨
        pollMaxTries ≤ 1 + Nat.count (packetAt csk.substreams rounds · = none) k) ∧
    ((closeClictcp n csk rounds acks).isSome ↔ csk.status = .closed ∨
      ∃ k < n, packetAt csk.substreams rounds k = some .finAck ∨
        pollMaxTries ≤ 1 + Nat.count (packetAt csk.substreams rounds · = none) k) ∧
    ((workerFin n sk pathIndex reads).isSome ↔
      (sk.pathstate pathIndex = .closing ∨ sk.pathstate pathIndex = .finAckRecv) ∨
      ∃ k < n, ((reads k).read = .ready (.packet .finAck) ∨ (reads k).closed = true) ∨
        controlMaxRetries ≤ Nat.count (fun i => (reads i).read.countsFinAck = true) (k + 1)) ∧
    ((closeSrvctcp n sk reads).isSome ↔
      (sk.numActive = 0 ∨ sk.pathstate 0 = .closing) ∨
      ∃ k < n, (reads k).read = .ready (.packet .finAck) ∨
        controlMaxRetries ≤ Nat.count (fun i => (reads i).read.countsClose = true) (k + 1)) := by
  refine ⟨⟨?_, connectCtcp_ne_null n csk rounds acked now⟩, ?_, ?_, ?_, ?_⟩
  · rw [connectCtcp, Option.isSome_map, synLoop_isSome_iff]
  · rw [handleFin, Option.isSome_map, finLoop_isSome_iff]
  · rw [closeClictcp]
    split
    next hclosed => simp [hclosed]
    next hopen => rw [Option.isSome_map, closeLoop_isSome_iff, or_iff_right hopen]
  · rw [workerFin]
    split
    next hclosing => simp [hclosing]
    next hopen => rw [Option.isSome_map, finAckLoop_isSome_iff, or_iff_right hopen]
  · rw [closeSrvctcp]
    split
    next hclosing => simp [hclosing]
    next hopen =>
      have hactive : 0 < sk.numActive := Nat.pos_of_ne_zero fun hzero => hopen (.inl hzero)
      rw [Option.isSome_map, closeSrvLoop_isSome_iff hactive, or_iff_right hopen]

/-! ## Loops that never end -/

/-- A client with one path. -/
def onePathClient : CliPaths where
  substreams := 1
  sockfd _ := 3
  pathstate _ := .established
  lastrcvt _ := 0
  idleTime _ := 1 / 2
  idleCount _ := 0
  status := .active
  error := .none

/-- A server with one path. -/
def onePathServer : SrvPaths where
  activePaths := [0]
  nodup := List.nodup_singleton 0
  path _ := { cliAddr := 0, pathstate := .established, lastAckTime := 0, rto := 3, idle := 0 }
  maxidle := 10
  status := .active
  error := .none

theorem packetAt_always (flag : Flag) (k : ℕ) :
    packetAt 1 (fun _ => ⟨fun _ => true, 0, .ready (fun _ => true) (.packet flag)⟩) k =
      some flag := by
  have hone : substreamsAt 1
      (fun _ => ⟨fun _ => true, 0, .ready (fun _ => true) (.packet flag)⟩) k = 1 := by
    induction k with
    | zero => rfl
    | succ k ih => exact ih
  rw [packetAt, hone]
  rfl

/-- Without an answer `connect_ctcp` goes on for ever, and so do the others as long as other
packets come. -/
theorem not_controlLoops_end :
    (∀ n, connectCtcp n onePathClient (fun _ => ⟨fun _ => true, 0, .timedOut⟩) true 0 = none) ∧
    (∀ n, handleFin n onePathClient 0
      (fun _ => ⟨fun _ => true, 0, .ready (fun _ => true) (.packet .normal)⟩) = none) ∧
    (∀ n, closeClictcp n onePathClient
      (fun _ => ⟨fun _ => true, 0, .ready (fun _ => true) (.packet .normal)⟩)
      (fun _ => true) = none) ∧
    (∀ n, workerFin n onePathServer 0
      (fun _ => ⟨fun _ => true, .ready (.packet .normal), false⟩) = none) ∧
    (∀ n, closeSrvctcp n onePathServer
      (fun _ => ⟨fun _ => true, .ready (.packet .normal), false⟩) = none) := by
  have hnormal := packetAt_always .normal
  have hactive : 0 < onePathServer.numActive := Nat.one_pos
  refine ⟨fun n => ?_, fun n => ?_, fun n => ?_, fun n => ?_, fun n => ?_⟩
  · rw [connectCtcp, Option.map_eq_none_iff, ← Option.not_isSome_iff_eq_none, synLoop_isSome_iff]
    rintro ⟨k, -, hpacket⟩
    cases hpacket
  · rw [handleFin, Option.map_eq_none_iff, ← Option.not_isSome_iff_eq_none, finLoop_isSome_iff]
    simp [onePathClient, hnormal, pollMaxTries]
  · rw [closeClictcp, if_neg (by decide), Option.map_eq_none_iff,
      ← Option.not_isSome_iff_eq_none, closeLoop_isSome_iff]
    simp [onePathClient, hnormal, pollMaxTries]
  · rw [workerFin, if_neg (by decide), Option.map_eq_none_iff,
      ← Option.not_isSome_iff_eq_none, finAckLoop_isSome_iff]
    simp [TimedRead.countsFinAck, controlMaxRetries]
  · rw [closeSrvctcp, if_neg (by decide), Option.map_eq_none_iff,
      ← Option.not_isSome_iff_eq_none, closeSrvLoop_isSome_iff hactive]
    simp [TimedRead.countsClose, controlMaxRetries]

end Ctcp
