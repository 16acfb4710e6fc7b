import Ctcp.Verification.Control.Retries
import Ctcp.Verification.Receive.Invariant

/-! # The client's receive loop over whole runs -/

namespace Ctcp

open Function HandleConn

variable {s s' : HandleConn}

/-- When the timer of path `k` has run out, the path is not in the state FIN_ACK_RECV. Only
the last path is given up, and the loop over the ready sockets does not go on at its index,
unless it is the only path. -/
def HandleConn.TimerSafe (s : HandleConn) (now : ℚ) (k : ℕ) : Prop :=
  s.csk.idleTime k < now - s.csk.lastrcvt k → s.csk.pathstate k ≠ .finAckRecv ∧
    (s.GivesUp k now → k + 1 = s.csk.substreams ∧ (s.currSubstream ≠ k ∨ s.csk.substreams = 1))

/-- Where `poll` reports anything it reports an input, a socket fails at index 0 only when it
is the last one left, and the timers are safe. -/
def HandleGuard (s : HandleConn) : HandleEvent → Prop
  | .poll (.events revents) => ∀ k < s.csk.substreams, revents k ≠ .none → revents k = .input
  | .receive .failed => s.revents s.currSubstream.toNat = .input →
      s.currSubstream ≠ 0 ∨ s.csk.substreams = 1
  | .timer now => ∀ k < s.csk.substreams, s.phase = .timing k → s.TimerSafe now k
  | _ => True

instance (s : HandleConn) (k : ℕ) (now : ℚ) : Decidable (s.GivesUp k now) :=
  inferInstanceAs (Decidable (_ ∧ _))

instance (s : HandleConn) (now : ℚ) (k : ℕ) : Decidable (s.TimerSafe now k) :=
  inferInstanceAs (Decidable (_ → _))

instance (s : HandleConn) : DecidablePred (HandleGuard s)
  | .poll (.events revents) =>
    inferInstanceAs (Decidable (∀ k < s.csk.substreams, revents k ≠ .none → revents k = .input))
  | .poll (.failed _) => .isTrue trivial
  | .receive .failed => inferInstanceAs (Decidable (_ → _))
  | .receive .empty => .isTrue trivial
  | .receive (.packet ..) => .isTrue trivial
  | .timer now =>
    inferInstanceAs (Decidable (∀ k < s.csk.substreams, s.phase = .timing k → s.TimerSafe now k))
  | .close => .isTrue trivial

/-- If the packet is a FIN, its handshake ends within the rounds that are given: a FIN_ACK
comes, or enough rounds go by without a packet. -/
def RecvMsg.FinEnds (substreams : ℕ) : RecvMsg → Prop
  | .packet .fin _ _ n rounds => ∃ k < n, packetAt substreams rounds k = some .finAck ∨
      pollMaxTries ≤ 1 + Nat.count (packetAt substreams rounds · = none) k
  | _ => True

/-- The passes of the loop over the ready sockets, with what `recvmsg` returns in them. -/
def receiveAll (s : HandleConn) (rs : List RecvMsg) : Option HandleConn :=
  rs.foldlM (fun s r => handleStep s (.receive r)) s

/-- The index and all indices that are used are those of substreams, the arrays show one path
at each index, a loop over the timers examines each path once, and the loop over the ready
sockets ends. -/
structure ReceiveOk (s : HandleConn) : Prop where
  inRange : s.inRange = true
  index : s.phase ≠ .done → s.csk.substreams = 0 ∨ s.IndexOk
  aligned : s.phase ≠ .done → ∀ k < s.csk.substreams,
    s.readFd k = s.csk.sockfd k ∧ s.paths (s.csk.sockfd k) = s.csk.record k
  distinct : s.phase ≠ .done → s.csk.sockets.Nodup
  examined : (∀ k, s.phase ≠ .timing k) → s.examined = s.started
  once : s.started.Nodup
  /-- `recvmsg` is called once at most for what `poll` has reported, and so never waits. -/
  reads : s.reads.Nodup
  /-- Whatever it returns, as many passes as there are substreams are enough. -/
  ends : s.phase = .receiving → ∀ rs : List RecvMsg, rs.length = s.csk.substreams →
    (∀ r ∈ rs, r.FinEnds s.csk.substreams) →
      ∃ m ≤ rs.length, ∃ s', receiveAll s (rs.take m) = some s' ∧ s'.phase ≠ .receiving

theorem HandleConn.Inv.arrays (h : s.Inv) (hphase : s.phase ≠ .done) : s.Arrays := by
  have hinv := h.phase
  cases hp : s.phase with
  | polling => exact (hp ▸ hinv : s.PhaseInv .polling).1
  | receiving => exact (hp ▸ hinv : s.PhaseInv .receiving).1
  | timing k => exact (hp ▸ hinv : s.PhaseInv (.timing k)).1
  | done => exact absurd hp hphase

/-! ## The end of the loop over the ready sockets -/

theorem roundEnd_phase (s : HandleConn) : s.roundEnd.phase ≠ .receiving := by
  simp only [roundEnd]
  split_ifs <;> exact fun h => HandlePhase.noConfusion h

theorem afterPackets_phase (s : HandleConn) : s.afterPackets.phase ≠ .receiving := by
  rw [afterPackets]
  split
  · exact roundEnd_phase s
  · exact fun h => HandlePhase.noConfusion h

theorem nextSocket_receiving (h : (nextSocket s).phase = .receiving) :
    (nextSocket s).passes = s.passes ∧ (nextSocket s).csk.substreams = s.csk.substreams := by
  simp only [nextSocket] at h ⊢
  split at h
  next hready =>
    rw [if_pos hready]
    exact ⟨rfl, rfl⟩
  · exact absurd h (afterPackets_phase _)

/-- A pass comes to its end. If it is not the last one, no substream was given up. -/
theorem receiveBody_spec (s : HandleConn) {r : RecvMsg} (hfin : r.FinEnds s.csk.substreams) :
    ∃ s', receiveBody s r = some s' ∧ (s'.phase = .receiving →
      s.phase = .receiving →
        (s'.passes = s.passes ∧ s'.csk.substreams = s.csk.substreams) ∧
          (r = .failed → s.revents s.currSubstream.toNat ≠ .input)) := by
  simp only [receiveBody]
  by_cases hinput : s.revents s.currSubstream.toNat = .input
  · simp only [if_pos hinput]
    cases r with
    | failed => exact ⟨_, rfl, fun hphase => absurd hphase (afterPackets_phase _)⟩
    | empty => exact ⟨_, rfl, fun hphase => absurd hphase (afterPackets_phase _)⟩
    | packet flag now sent n rounds =>
        by_cases hflag : flag = .fin
        · subst hflag
          have hends : (handleFin n (s.csk.received s.currSubstream.toNat now)
              s.currSubstream.toNat rounds).isSome := by
            rw [handleFin, Option.isSome_map, finLoop_isSome_iff]
            exact hfin
          obtain ⟨csk, hcsk⟩ := Option.isSome_iff_exists.mp hends
          simp only [if_true, hcsk, Option.map_some]
          exact ⟨_, rfl, fun hphase => HandlePhase.noConfusion hphase⟩
        · simp only [if_neg hflag]
          refine ⟨_, rfl, fun hphase _ => ⟨?_, fun hr => RecvMsg.noConfusion hr⟩⟩
          obtain ⟨csk, paths, hframe, hsubstreams⟩ :=
            handlePacket_frame s s.currSubstream.toNat flag now sent
          rw [hframe] at hphase ⊢
          obtain ⟨hpasses, hn⟩ := nextSocket_receiving hphase
          exact ⟨hpasses, hn.trans hsubstreams⟩
  · simp only [if_neg hinput]
    exact ⟨_, rfl, fun hphase _ => ⟨nextSocket_receiving hphase, fun _ => hinput⟩⟩

/-! ## Runs -/

theorem inv_startHandle {csk : CliPaths} (hpos : 0 < csk.substreams)
    (hnodup : csk.sockets.Nodup) : (startHandle csk).Inv := by
  refine ⟨rfl, List.nodup_nil, List.nodup_nil, ⟨fun k _ => rfl, fun k hk => ?_, hnodup⟩,
    ⟨le_rfl, Int.ofNat_lt.mpr hpos⟩, rfl⟩
  have hlen : k < csk.sockets.length := by
    rw [CliPaths.sockets, List.length_map, List.length_range]
    exact hk
  have hget : csk.sockets[k] = csk.sockfd k := by simp [CliPaths.sockets]
  change csk.record (csk.sockets.idxOf (csk.sockfd k)) = csk.record k
  rw [← hget, hnodup.idxOf_getElem]

theorem inv_handleStep (h : s.Inv) {e : HandleEvent} (hguard : HandleGuard s e)
    (hstep : handleStep s e = some s') : s'.Inv := by
  cases e with
  | poll result =>
      simp only [handleStep] at hstep
      split at hstep
      next hphase =>
        cases hstep
        exact inv_pollStep h hphase fun revents hresult => by
          subst hresult
          exact hguard
      · cases hstep
  | receive r =>
      simp only [handleStep] at hstep
      split at hstep
      next hphase =>
        exact inv_receiveStep h hphase hstep fun hr => by
          subst hr
          exact hguard
      · cases hstep
  | timer now =>
      simp only [handleStep] at hstep
      split at hstep
      next k hphase =>
        cases hstep
        refine inv_timerStep h hphase now (fun i hk hi hgives => ?_) fun i hk hi hlate => ?_
        · subst hk
          exact (hguard i hi hphase hgives.1).2 hgives
        · subst hk
          exact (hguard i hi hphase hlate).1
      · cases hstep
  | close =>
      cases hstep
      refine ⟨h.inRange, h.started, h.reads, ?_⟩
      have hinv := h.phase
      cases hphase : s.phase with
      | polling =>
          obtain ⟨harrays, hrest⟩ : s.PhaseInv .polling := hphase ▸ hinv
          exact ⟨harrays.congr rfl rfl rfl rfl rfl, hrest⟩
      | receiving =>
          obtain ⟨harrays, hrest⟩ : s.PhaseInv .receiving := hphase ▸ hinv
          exact ⟨harrays.congr rfl rfl rfl rfl rfl, hrest⟩
      | timing k =>
          obtain ⟨harrays, hrest⟩ : s.PhaseInv (.timing k) := hphase ▸ hinv
          exact ⟨harrays.congr rfl rfl rfl rfl rfl, hrest⟩
      | done => exact (hphase ▸ hinv : s.PhaseInv .done)

/-- As the loop goes around once, it is over when no substream is ahead. -/
theorem HandleConn.Inv.ends (h : s.Inv) (hphase : s.phase = .receiving) {rs : List RecvMsg}
    (hlen : s.csk.substreams ≤ s.passes + rs.length)
    (hfin : ∀ r ∈ rs, r.FinEnds s.csk.substreams) :
    ∃ m ≤ rs.length, ∃ s', receiveAll s (rs.take m) = some s' ∧ s'.phase ≠ .receiving := by
  induction rs generalizing s with
  | nil =>
      obtain ⟨-, -, -, hready, haround⟩ : s.PhaseInv .receiving := hphase ▸ h.phase
      have hlt := haround.passes_lt hready
      exact absurd hlt (Nat.not_lt.mpr hlen)
  | cons r rs ih =>
      obtain ⟨hr, hrs⟩ := List.forall_mem_cons.mp hfin
      obtain ⟨s₁, hstep, hgoes⟩ := receiveBody_spec
        { s.use s.currSubstream with
          passes := s.passes + 1
          reads := if s.revents s.currSubstream.toNat = .input then
            s.reads ++ [s.currSubstream.toNat] else s.reads } hr
      have hhandle : handleStep s (.receive r) = some s₁ := by
        simp only [handleStep, if_pos hphase]
        exact hstep
      by_cases hphase₁ : s₁.phase = .receiving
      · obtain ⟨⟨hpasses, hn⟩, hfailed⟩ := hgoes hphase₁ hphase
        change s₁.passes = s.passes + 1 at hpasses
        change s₁.csk.substreams = s.csk.substreams at hn
        have hinv : s₁.Inv := inv_receiveStep h hphase hstep
          fun hr hinput => absurd hinput (hfailed hr)
        rw [List.length_cons] at hlen
        obtain ⟨m, hm, s', hrun, hend⟩ := ih hinv hphase₁ (by omega) (hn ▸ hrs)
        refine ⟨m + 1, by simpa using hm, s', ?_, hend⟩
        rw [receiveAll, List.take_succ_cons, List.foldlM_cons, hhandle]
        exact hrun
      · refine ⟨1, by simp, s₁, ?_, hphase₁⟩
        rw [receiveAll, List.take_succ_cons, List.foldlM_cons, hhandle]
        rfl

theorem HandleConn.Inv.receiveOk (h : s.Inv) : ReceiveOk s := by
  have hinv := h.phase
  refine ⟨h.inRange, fun hp => ?_, fun hp k hk => ?_, fun hp => (h.arrays hp).nodup,
    fun hp => ?_, h.started, h.reads, fun hp rs hlen hfin => h.ends hp (by omega) hfin⟩
  · cases hphase : s.phase with
    | polling => exact .inr (hphase ▸ hinv : s.PhaseInv .polling).2.1
    | receiving => exact .inr (hphase ▸ hinv : s.PhaseInv .receiving).2.1
    | timing k => exact (hphase ▸ hinv : s.PhaseInv (.timing k)).2.1
    | done => exact absurd hphase hp
  · exact ⟨(h.arrays hp).readFd k hk, (h.arrays hp).paths k hk⟩
  · cases hphase : s.phase with
    | polling => exact (hphase ▸ hinv : s.PhaseInv .polling).2.2
    | receiving => exact (hphase ▸ hinv : s.PhaseInv .receiving).2.2.1
    | timing k => exact absurd hphase (hp k)
    | done => exact (hphase ▸ hinv : s.PhaseInv .done)

/-- In every run whose steps meet the condition the loop is right in every state. -/
theorem receiveOk_of_reachable (h : (handleSystem.guard HandleGuard).Reachable s) :
    ReceiveOk s := by
  refine HandleConn.Inv.receiveOk (h.invariant (fun s hinit => ?_) fun s e s' hinv hstep => ?_)
  · obtain ⟨csk, hpos, hnodup, rfl⟩ := hinit
    exact inv_startHandle hpos hnodup
  · exact inv_handleStep hinv hstep.1 hstep.2

/-! ## Runs on two paths -/

theorem reachable_of_events {es : List HandleEvent} (h : handleSystem.Reachable s)
    (hrun : es.foldlM handleStep s = some s') : handleSystem.Reachable s' := by
  obtain ⟨_, hs', rfl⟩ := h.replay (R := Eq)
    (fun s _ e s₁ hs hs₀ hstep => ⟨s₁, hs.step (e := e) (by cases hs₀; exact hstep), rfl⟩)
    rfl hrun
  exact hs'

/-- A step that meets the condition. -/
def guardedStep (s : HandleConn) (e : HandleEvent) : Option HandleConn :=
  if HandleGuard s e then handleStep s e else none

theorem reachable_of_guarded {es : List HandleEvent}
    (h : (handleSystem.guard HandleGuard).Reachable s)
    (hrun : es.foldlM guardedStep s = some s') :
    (handleSystem.guard HandleGuard).Reachable s' := by
  obtain ⟨_, hs', rfl⟩ := h.replay (R := Eq) (fun s _ e s₁ hs hs₀ hstep => by
      cases hs₀
      rw [guardedStep, Option.ite_none_right_eq_some] at hstep
      exact ⟨s₁, hs.step (e := e) hstep, rfl⟩) rfl hrun
  exact hs'

/-- A client in the handshake, whose timers have run out so many times. -/
def clientWith (substreams idleCount : ℕ) : CliPaths where
  substreams := substreams
  sockfd k := k + 3
  pathstate _ := .synSent
  lastrcvt _ := 0
  idleTime _ := initIdleTime
  idleCount _ := idleCount
  status := .active
  error := .none

theorem init_clientWith {substreams : ℕ} (hpos : 0 < substreams) (idleCount : ℕ) :
    handleSystem.init (startHandle (clientWith substreams idleCount)) :=
  ⟨_, hpos, List.nodup_range.map fun _ _ heq => Nat.add_right_cancel heq, rfl⟩

/-- Nothing comes in a round. -/
def lost : CliRound := ⟨fun _ => true, 0, .timedOut⟩

/-- A packet on each path, and the timers. Then the second socket fails and its path goes;
another packet comes on the first. -/
def twoPathRun : List HandleEvent :=
  [.poll (.events fun _ => .input),
    .receive (.packet .synAck 0 true 0 fun _ => lost),
    .receive (.packet .normal 0 true 0 fun _ => lost),
    .timer (1 / 4), .timer (1 / 4), .timer (1 / 4),
    .poll (.events fun k => if k = 1 then .input else .none),
    .receive .empty, .receive .failed, .timer (1 / 4), .timer (1 / 4),
    .poll (.events fun _ => .input),
    .receive (.packet .coded 1 true 0 fun _ => lost)]

theorem receiveOk_twoPathRun : ∃ s, s.csk.substreams = 1 ∧ s.csk.pathstate 0 = .established ∧
    s.reads = [0] ∧ s.phase = .timing 0 ∧ ReceiveOk s := by
  have hrun : (twoPathRun.foldlM guardedStep (startHandle (clientWith 2 0))).map (fun s =>
      (s.csk.substreams, s.csk.pathstate 0, s.reads, s.phase)) =
        some (1, .established, [0], .timing 0) := by decide +kernel
  obtain ⟨s, hs, hstate⟩ := Option.map_eq_some_iff.mp hrun
  simp only [Prod.mk.injEq] at hstate
  obtain ⟨hn, hpath, hreads, hphase⟩ := hstate
  exact ⟨s, hn, hpath, hreads, hphase, receiveOk_of_reachable
    (reachable_of_guarded (.init (init_clientWith (by decide) 0)) hs)⟩

/-- The failure of the first of two sockets leads to index -1. An event that is no input is
seen again and again; beside an input, it lets `recvmsg` be called again for that input. A
path that its timer gives up hides the one behind it, and one that was in the state
FIN_ACK_RECV from the beginning leads to index -1. -/
theorem not_receiveOk :
    (∃ s, handleSystem.Reachable s ∧ s.inRange = false) ∧
    (∀ n, ∃ s, handleSystem.Reachable s ∧ s.phase = .receiving ∧ s.csk.substreams = 1 ∧
      s.passes = n) ∧
    (∃ s, handleSystem.Reachable s ∧ s.reads = [0, 0]) ∧
    (∃ s, handleSystem.Reachable s ∧ s.phase = .polling ∧ s.started = [3, 4] ∧
      s.examined = [3]) ∧
    ∃ csk : CliPaths, csk.substreams = 1 ∧ csk.sockets.Nodup ∧
      ([.poll (.events fun _ => .none), .timer 1].foldlM handleStep (startHandle csk)).map
        HandleConn.inRange = some false := by
  refine ⟨?_, fun n => ?_, ?_, ?_, ?_⟩
  · have hrun : ([.poll (.events fun k => if k = 0 then .input else .none), .receive .failed,
        .timer 0, .timer 0, .poll (.events fun _ => .input),
        .receive .empty].foldlM handleStep (startHandle (clientWith 2 0))).map
          HandleConn.inRange = some false := by decide +kernel
    obtain ⟨s, hs, hrange⟩ := Option.map_eq_some_iff.mp hrun
    exact ⟨s, reachable_of_events (.init (init_clientWith (by decide) 0)) hs, hrange⟩
  · have hspin : ∃ s, handleSystem.Reachable s ∧ s.phase = .receiving ∧ s.csk.substreams = 1 ∧
        s.passes = n ∧ s.ready = 1 ∧ s.currSubstream = 0 ∧ s.revents 0 = .other := by
      induction n with
      | zero =>
          refine ⟨_, (System.Reachable.init (init_clientWith Nat.one_pos 0)).step
            (e := .poll (.events fun _ => .other)) rfl, ?_⟩
          decide +kernel
      | succ n ih =>
          obtain ⟨s, hs, hphase, hsubstreams, hpasses, hready, hcurr, hrevents⟩ := ih
          have hnext : handleSystem.step s (.receive .empty)
              (nextSocket { s.use s.currSubstream with passes := s.passes + 1 }) := by
            simp [handleSystem, handleStep, hphase, receiveStep, receiveBody, use, hcurr, hrevents]
          exact ⟨_, hs.step hnext, by
            simp [nextSocket, use, hcurr, hsubstreams, hready, hphase, hpasses, hrevents]⟩
    obtain ⟨s, hs, hphase, hsubstreams, hpasses, -⟩ := hspin
    exact ⟨s, hs, hphase, hsubstreams, hpasses⟩
  · have hrun : ([.poll (.events fun k => if k = 0 then .input else .other),
        .receive (.packet .normal 0 true 0 fun _ => lost), .receive .empty,
        .receive .empty].foldlM handleStep (startHandle (clientWith 2 0))).map
          HandleConn.reads = some [0, 0] := by decide +kernel
    obtain ⟨s, hs, hreads⟩ := Option.map_eq_some_iff.mp hrun
    exact ⟨s, reachable_of_events (.init (init_clientWith (by decide) 0)) hs, hreads⟩
  · have hrun : ([.poll (.events fun _ => .none), .timer 1, .timer 1].foldlM handleStep
        (startHandle (clientWith 2 6))).map (fun s => (s.phase, s.started, s.examined)) =
          some (.polling, [3, 4], [3]) := by decide +kernel
    obtain ⟨s, hs, hstate⟩ := Option.map_eq_some_iff.mp hrun
    obtain ⟨hphase, hlists⟩ := Prod.mk.inj hstate
    obtain ⟨hstarted, hexamined⟩ := Prod.mk.inj hlists
    exact ⟨s, reachable_of_events (.init (init_clientWith (by decide) 6)) hs, hphase, hstarted,
      hexamined⟩
  · refine ⟨{ clientWith 1 0 with pathstate := fun _ => .finAckRecv }, rfl, ?_, by decide +kernel⟩
    exact List.nodup_range.map fun _ _ heq => Nat.add_right_cancel heq

end Ctcp
