import Ctcp.Verification.Tunnel.System

/-! # The tunnel delivers in both directions -/

namespace Ctcp

/-! ## `handle_ctcp_traffic` -/

/-- The next bytes are read only when all others are written. -/
structure CtcpTrafficInv (t : CtcpTraffic) : Prop where
  bptr_le : t.bptr ≤ t.buf.length
  empty : t.phase = .reading → t.pending = []

theorem CtcpTraffic.pending_next (t : CtcpTraffic) : t.next.pending = t.pending := rfl

theorem ctcpTrafficInv_next {t : CtcpTraffic} (h : t.bptr ≤ t.buf.length) :
    CtcpTrafficInv t.next := by
  refine ⟨h, fun hphase => ?_⟩
  rw [CtcpTraffic.next] at hphase
  split at hphase
  · cases hphase
  next hlt => exact List.drop_eq_nil_of_le (Nat.not_lt.mp hlt)

theorem CtcpTrafficInv.write {t : CtcpTraffic} {n : ℕ} (hn : n ≤ t.pending.length)
    (h : CtcpTrafficInv t) :
    CtcpTrafficInv (t.write (some n)) ∧
      t.pending = t.pending.take n ++ (t.write (some n)).pending := by
  have hle := h.bptr_le
  rw [CtcpTraffic.pending, List.length_drop] at hn
  refine ⟨ctcpTrafficInv_next (show t.bptr + n ≤ t.buf.length by omega), ?_⟩
  rw [CtcpTraffic.write, CtcpTraffic.pending_next]
  simp only [CtcpTraffic.pending, ← List.drop_drop, List.take_append_drop]

theorem CtcpTrafficInv.exited {t : CtcpTraffic} (h : CtcpTrafficInv t) :
    CtcpTrafficInv { t with phase := .exited } := ⟨h.bptr_le, fun hphase => by cases hphase⟩

theorem CtcpTrafficInv.poll {t : CtcpTraffic} (h : CtcpTrafficInv t) (p : Option Bool) :
    CtcpTrafficInv (t.poll p) ∧ (t.poll p).pending = t.pending := by
  cases p with
  | none => exact ⟨h.exited, rfl⟩
  | some pollhup =>
      cases pollhup with
      | true => exact ⟨h.exited, rfl⟩
      | false => exact ⟨⟨h.bptr_le, fun hphase => by cases hphase⟩, rfl⟩

/-! ## The invariant -/

/-- Each byte is at one place on its way, in the order in which it was sent. -/
structure TunnelInv (bufSize : ℕ) (s : Tunnel) : Prop where
  ctcp : ((transfer noRows).guard KeepsRows).Reachable s.transfer
  localTraffic : TrafficInv false bufSize s.localTraffic
  uplink : s.fromClient.out = s.uplink.written ++ s.localTraffic.held .client
  back : s.localTraffic.held .target = []
  remoteTraffic : TrafficInv true bufSize s.remoteTraffic
  toTarget : s.uplink.out = s.toTarget.written ++ s.remoteTraffic.held .client
  accepted : s.fromTarget.out = s.transfer.sender.accepted ++ s.remoteTraffic.held .target
  call : ∀ k, s.transfer.sender.call = some k → k.buf = s.remoteTraffic.held .target ∧
    (s.remoteTraffic.phase = .sending ∨ ∃ res, s.remoteTraffic.phase = .returned res)
  ctcpTraffic : CtcpTrafficInv s.ctcpTraffic
  toClient : s.transfer.session.read = s.toClient.written ++ s.ctcpTraffic.pending

variable {bufSize : ℕ} {s s' : Tunnel}

/-- No call is in progress when the loop is elsewhere. -/
theorem TunnelInv.no_call (h : TunnelInv bufSize s) {phase : TrafficPhase}
    (hphase : s.remoteTraffic.phase = phase)
    (helse : phase = .polling ∨ phase = .reading ∨ phase = .writing) {P : SendCall → Prop} :
    ∀ k, s.transfer.sender.call = some k → P k := by
  intro k hk
  rcases (h.call k hk).2 with hsend | ⟨res, hreturned⟩
  · rcases helse with rfl | rfl | rfl <;> simp [hsend] at hphase
  · rcases helse with rfl | rfl | rfl <;> simp [hreturned] at hphase

theorem Traffic.held_of_bown {t : Traffic} {side : Side} (h : t.bown = some side) :
    t.held side = t.pending := if_pos h

theorem TunnelInv.localStep (h : TunnelInv bufSize s) (hstep : LocalStep bufSize s s') :
    TunnelInv bufSize s' := by
  cases hstep with
  | clientWrites bytes => exact { h with uplink := by simpa using h.uplink }
  | clientReads n => exact { h with }
  | poll p hphase =>
      obtain ⟨ht, hheld⟩ := h.localTraffic.poll p
      exact
        { h with
          localTraffic := ht
          uplink := h.uplink.trans (by rw [pollLocal, hheld])
          back := (hheld .target).trans h.back }
  | @read n hphase hown hn =>
      have hlen : (s.fromClient.pending.take n).length ≤ bufSize :=
        (List.length_take_le _ _).trans hn
      obtain ⟨ht, hheld⟩ := h.localTraffic.read hphase hown hlen
      refine { h with localTraffic := ht, uplink := ?_, back := (hheld .target).trans ?_ }
      · rw [hheld .client, if_pos rfl, Pipe.out_read, h.uplink, List.append_assoc]
      · simpa using h.back
  | readEnd hphase => exact { h with localTraffic := h.localTraffic.returned _ }
  | readFails hphase => exact { h with localTraffic := h.localTraffic.returned _ }
  | @write n hphase hown hn =>
      obtain ⟨ht, hheld⟩ := h.localTraffic.write hown hn
      have hclient := hheld .client
      have htarget := hheld .target
      rw [if_pos rfl] at hclient
      rw [if_neg (by decide), List.nil_append] at htarget
      refine { h with localTraffic := ht, uplink := ?_, back := htarget.symm.trans h.back,
                      toTarget := by simpa using h.toTarget }
      rw [Pipe.written_write, List.append_assoc, ← hclient]
      exact h.uplink
  | @writeBack n hphase hown hn =>
      -- the loop holds nothing that it has read from the target
      have hnil := h.back
      rw [Traffic.held_of_bown hown, Traffic.pending, List.drop_eq_nil_iff] at hnil
      exact absurd (h.localTraffic.left (.inl hphase)) (Nat.not_lt.mpr hnil)
  | writeFails hphase => exact { h with localTraffic := h.localTraffic.returned _ }

theorem TunnelInv.remoteStep (h : TunnelInv bufSize s) (hstep : RemoteStep bufSize s s') :
    TunnelInv bufSize s' := by
  cases hstep with
  | targetWrites bytes => exact { h with accepted := by simpa using h.accepted }
  | targetReads n => exact { h with }
  | poll p hphase =>
      obtain ⟨ht, hheld⟩ := h.remoteTraffic.poll p
      exact
        { h with
          remoteTraffic := ht
          toTarget := h.toTarget.trans (by rw [pollRemote, hheld])
          accepted := h.accepted.trans (by rw [pollRemote, hheld])
          call := h.no_call hphase (.inl rfl) }
  | @readClient n hphase hown hn =>
      have hlen : (s.uplink.pending.take n).length ≤ bufSize := (List.length_take_le _ _).trans hn
      obtain ⟨ht, hheld⟩ := h.remoteTraffic.read hphase hown hlen
      have htarget := hheld .target
      rw [if_neg (by decide), List.append_nil] at htarget
      refine { h with
        remoteTraffic := ht
        toTarget := ?_
        accepted := h.accepted.trans (by rw [htarget])
        call := h.no_call hphase (.inr (.inl rfl)) }
      rw [hheld .client, if_pos rfl, Pipe.out_read, h.toTarget, List.append_assoc]
  | @readTarget n hphase hown hn =>
      have hlen : (s.fromTarget.pending.take n).length ≤ bufSize :=
        (List.length_take_le _ _).trans hn
      obtain ⟨ht, hheld⟩ := h.remoteTraffic.read hphase hown hlen
      have hclient := hheld .client
      rw [if_neg (by decide), List.append_nil] at hclient
      refine { h with
        remoteTraffic := ht
        toTarget := h.toTarget.trans (by rw [hclient])
        accepted := ?_
        call := h.no_call hphase (.inr (.inl rfl)) }
      rw [hheld .target, if_pos rfl, Pipe.out_read, h.accepted, List.append_assoc]
  | readFails hphase =>
      exact
        { h with
          remoteTraffic := h.remoteTraffic.returned _
          call := h.no_call hphase (.inr (.inl rfl)) }
  | @write n hphase hown hn =>
      obtain ⟨ht, hheld⟩ := h.remoteTraffic.write hown hn
      have hclient := hheld .client
      have htarget := hheld .target
      rw [if_pos rfl] at hclient
      rw [if_neg (by decide), List.nil_append] at htarget
      refine { h with
        remoteTraffic := ht
        toTarget := ?_
        accepted := h.accepted.trans (by rw [htarget])
        call := h.no_call hphase (.inr (.inr rfl)) }
      rw [Pipe.written_write, List.append_assoc, ← hclient]
      exact h.toTarget
  | writeFails hphase =>
      exact
        { h with
          remoteTraffic := h.remoteTraffic.returned _
          call := h.no_call hphase (.inr (.inr rfl)) }
  | sendFails hphase =>
      -- a call in progress stays where it is
      exact
        { h with
          remoteTraffic := h.remoteTraffic.returned _
          call := fun k hk => ⟨(h.call k hk).1, .inr ⟨_, rfl⟩⟩ }

/-! ## The connection -/

theorem TransferEvent.Background.read_eq {c c' : Transfer} {e : TransferEvent}
    (he : e.Background) (hstep : TransferStep c e c') : c'.session.read = c.session.read ∧
      c'.sender.call = c.sender.call ∧ c'.sender.accepted = c.sender.accepted := by
  cases hstep with
  | send hsend hack =>
      cases hsend with
      | startWorker => exact ⟨rfl, rfl, rfl⟩
      | ack => exact ⟨rfl, rfl, rfl⟩
      | call _ _ _ => exact he.elim
      | round _ _ _ => exact he.elim
      | returns _ _ _ => exact he.elim
      | wake _ _ => exact he.elim
      | timeOut _ _ => exact he.elim
  | packet => exact ⟨rfl, rfl, rfl⟩
  | arrive _ _ _ _ => exact ⟨rfl, rfl, rfl⟩
  | handle hrun =>
      refine ⟨?_, rfl, rfl⟩
      unfold handlerStep at hrun
      split at hrun
      · cases hrun
      · cases hrun
      · rw [← Option.some.inj hrun]
      · rw [← Option.some.inj hrun]
      · obtain ⟨_, -, rfl⟩ := Option.map_eq_some_iff.mp hrun
        rfl
  | close _ _ => exact ⟨rfl, rfl, rfl⟩
  | release _ => exact ⟨rfl, rfl, rfl⟩
  | enter _ _ => exact he.elim
  | pop _ _ => exact he.elim

/-- A call that goes on keeps its buffer. -/
theorem SenderStep.goesOn {c c' : Sender} {e : SenderEvent} {k k' : SendCall}
    (hstep : SenderStep c e c') (he : e = .round ∨ e = .wake) (hcall : c.call = some k)
    (hcall' : c'.call = some k') : k'.buf = k.buf ∧ c'.accepted = c.accepted := by
  cases hstep with
  | round hc _ _ =>
      obtain rfl := Option.some.inj (hc.symm.trans hcall)
      obtain rfl := Option.some.inj hcall'
      exact ⟨rfl, rfl⟩
  | wake hc _ =>
      obtain rfl := Option.some.inj (hc.symm.trans hcall)
      obtain rfl := Option.some.inj hcall'
      exact ⟨rfl, rfl⟩
  | returns _ _ _ => cases hcall'
  | timeOut _ _ => cases hcall'
  | call _ _ _ => simp at he
  | startWorker => simp at he
  | ack => simp at he

/-- A call that returns has added what it has taken. -/
theorem SenderStep.returned {c c' : Sender} {e : SenderEvent} {k : SendCall}
    (hstep : SenderStep c e c') (he : e = .round ∨ e = .timeOut) (hcall : c.call = some k)
    (hcall' : c'.call = none) : c'.accepted = c.accepted ++ k.taken := by
  cases hstep with
  | returns hc _ _ =>
      obtain rfl := Option.some.inj (hc.symm.trans hcall)
      rfl
  | timeOut hc _ =>
      obtain rfl := Option.some.inj (hc.symm.trans hcall)
      rfl
  | round _ _ _ => cases hcall'
  | call _ _ _ => simp at he
  | wake _ _ => simp at he
  | startWorker => simp at he
  | ack => simp at he

/-- `read_ctcp` that fails has read nothing. -/
theorem read_of_failed {c c' : Session} {count : ℕ} (hpop : readCtcpPop c count = some c')
    (hfailed : c'.reader = .failed) : c'.read = c.read := by
  obtain ⟨popped, -, rfl⟩ := Option.map_eq_some_iff.mp hpop
  split
  next => rfl
  next hne =>
    rw [if_neg hne] at hfailed
    cases hfailed

theorem TunnelInv.ctcpStep {e : TransferEvent} (h : TunnelInv bufSize s)
    (hkeep : KeepsRows s.transfer e) (hstep : CtcpStep bufSize s e s') : TunnelInv bufSize s' := by
  cases hstep with
  | background hback hrun =>
      obtain ⟨hread, hcall, haccepted⟩ := hback.read_eq hrun
      exact
        { h with
          ctcp := h.ctcp.step ⟨hkeep, hrun⟩
          accepted := h.accepted.trans (by rw [haccepted])
          call := fun k hk => h.call k (hcall.symm.trans hk)
          toClient := hread.trans h.toClient }
  | call hphase hrun =>
      have hreach := h.ctcp.step ⟨hkeep, hrun⟩
      cases hrun with
      | send hsend hack =>
          cases hsend with
          | call hidle hne hlen =>
              refine { h with ctcp := hreach, call := fun k hk => ?_ }
              obtain rfl := Option.some.inj hk
              have hown := (h.remoteTraffic.ctcp_target hphase).2
              exact ⟨(Traffic.held_of_bown hown).symm, .inl hphase⟩
  | @goesOn e c k k' hphase hcall hrun hcall' he =>
      have hreach := h.ctcp.step ⟨hkeep, hrun⟩
      cases hrun with
      | send hsend hack =>
          obtain ⟨hbuf, haccepted⟩ := hsend.goesOn he hcall hcall'
          refine { h with
            ctcp := hreach
            accepted := h.accepted.trans (by rw [← haccepted])
            call := fun k₁ hk₁ => ?_ }
          obtain rfl := Option.some.inj (hcall'.symm.trans hk₁)
          exact ⟨hbuf.trans (h.call k hcall).1, .inl hphase⟩
  | @returns e c k hphase hcall hrun hcall' he =>
      have hreach := h.ctcp.step ⟨hkeep, hrun⟩
      have hown := (h.remoteTraffic.ctcp_target hphase).2
      have hbuf := (h.call k hcall).1
      rw [Traffic.held_of_bown hown] at hbuf
      have htaken : s.remoteTraffic.pending.take k.taken.length = k.taken := by
        rw [← hbuf, SendCall.taken, List.length_take, ← List.take_eq_take_min]
      have hn : k.taken.length ≤ s.remoteTraffic.pending.length := by
        rw [← hbuf, SendCall.taken, List.length_take]
        exact min_le_right _ _
      obtain ⟨ht, hheld⟩ := h.remoteTraffic.sendCtcp hphase hown hn
      have hclient := hheld .client
      have htarget := hheld .target
      rw [if_neg (by decide), List.nil_append] at hclient
      rw [if_pos rfl, htaken] at htarget
      cases hrun with
      | send hsend hack =>
          refine { h with
            ctcp := hreach
            remoteTraffic := ht
            toTarget := h.toTarget.trans (by rw [hclient])
            accepted := ?_
            call := fun k₁ hk₁ => ?_ }
          · rw [hsend.returned he hcall hcall', List.append_assoc, ← htarget]
            exact h.accepted
          · rw [hcall'] at hk₁
            cases hk₁
  | @enter c hphase hrun =>
      have hreach := h.ctcp.step ⟨hkeep, hrun⟩
      have hnil := h.ctcpTraffic.empty hphase
      have hread : c.session.read = s.transfer.session.read ∧ c.sender = s.transfer.sender := by
        cases hrun with
        | enter _ _ =>
            refine ⟨?_, rfl⟩
            dsimp only [readCtcp]
            split <;> rfl
      refine { h with
        ctcp := hreach
        accepted := h.accepted.trans (by rw [hread.2])
        call := fun k hk => h.call k (by rw [← hread.2]; exact hk)
        ctcpTraffic := ?_
        toClient := ?_ }
      · dsimp only
        split
        · exact ⟨le_rfl, fun hp => by cases hp⟩
        · exact h.ctcpTraffic
      · dsimp only
        rw [hread.1, h.toClient, hnil]
        split
        · rfl
        · rw [hnil]
  | @pop c bytes hphase hrun hbytes =>
      have hreach := h.ctcp.step ⟨hkeep, hrun⟩
      have hnil := h.ctcpTraffic.empty hphase
      cases hrun with
      | @pop c' count hpopping hpop =>
          refine { h with ctcp := hreach, ctcpTraffic := ?_, toClient := ?_ }
          · dsimp only
            split
            · exact ⟨le_rfl, fun hp => by cases hp⟩
            · exact ctcpTrafficInv_next (Nat.zero_le _)
          · dsimp only at hbytes ⊢
            rw [hbytes, h.toClient, hnil, List.append_nil]
            split
            next hfailed =>
              -- nothing was read
              have hsame := read_of_failed hpop hfailed
              rw [hbytes, List.append_right_eq_self] at hsame
              rw [hsame]
              rfl
            next => rfl

theorem TunnelInv.step {e : TunnelEvent} (h : TunnelInv bufSize s) (hkeep : KeepsTunnelRows s e)
    (hstep : TunnelStep bufSize s e s') : TunnelInv bufSize s' := by
  cases hstep with
  | proxyLocal hstep => exact h.localStep hstep
  | proxyRemote hstep => exact h.remoteStep hstep
  | ctcp hstep => exact h.ctcpStep hkeep hstep
  | ctcpTraffic hstep =>
      cases hstep with
      | poll p hphase =>
          obtain ⟨ht, hpending⟩ := h.ctcpTraffic.poll p
          exact { h with ctcpTraffic := ht, toClient := h.toClient.trans (by rw [hpending]) }
      | write hphase hn =>
          obtain ⟨ht, hpending⟩ := h.ctcpTraffic.write hn
          refine { h with ctcpTraffic := ht, toClient := ?_ }
          rw [Pipe.written_write, List.append_assoc, ← hpending]
          exact h.toClient
      | writeFails hphase => exact { h with ctcpTraffic := h.ctcpTraffic.exited }

end Ctcp
