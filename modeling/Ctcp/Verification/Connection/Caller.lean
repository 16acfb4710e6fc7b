import Ctcp.Verification.Connection.Client
import Ctcp.Verification.Control.Retries

/-! # The threads of the client -/

namespace Ctcp

open Function

/-! ## The invariant -/

namespace CallerPhase

/-- The client has closed the connection, or it is answering a FIN. -/
def Over : CallerPhase → Prop
  | finning _ _ => True
  | p => p.csk.status = .closed

theorem over_of_closed {p : CallerPhase} (h : p.csk.status = .closed) : p.Over := by
  cases p with
  | finning => trivial
  | connecting | handling | ended | closing | closed => exact h

end CallerPhase

/-- What a phase of the client rests on. -/
def CallerPhaseInv (c : Caller) (heard : List Mail) : Prop :=
  match c.phase with
  | .connecting l _ => l.csk.Quiet
  | .handling s => s.csk.Quiet
  | .finning _ _ => FinHeard heard
  | .ended _ => True
  | .closing l _ => l.csk.status = .closed ∧ c.found ≠ none ∧
      (l.index = -2 ∧ l.flag = .fin → FinHeard heard)
  | .closed csk => c.found = some .active →
      csk.error = .closeErr ∨ ∃ x, (x, .finAck) ∈ heard

/-- What the client keeps. -/
structure CallerInv (c : Caller) (heard sent : List Mail) : Prop where
  reached : c.phase.csk.Reached heard
  phase : CallerPhaseInv c heard
  closed : c.phase.csk.status = .closed →
    c.found ≠ none ∨ c.phase.csk.substreams = 0 ∨ FinHeard heard
  normal : ∀ x, (x, .normal) ∈ sent → ∃ f, (x, f) ∈ heard
  finAck : ∀ x, (x, .finAck) ∈ sent → FinHeard heard ∧ c.phase.Over

section

variable {c c' : Caller} {heard heard' sent out : List Mail} {allowed : CliPath → Prop}

theorem CallerInv.next (h : CallerInv c heard sent) (hreached : c'.phase.csk.Reached heard')
    (hclosed : c'.phase.csk.status = .closed →
      c'.found ≠ none ∨ c'.phase.csk.substreams = 0 ∨ FinHeard heard')
    (hover : c.phase.Over → c'.phase.Over) (hsub : heard ⊆ heard')
    (hphase : CallerPhaseInv c' heard') :
    CallerInv c' heard' sent where
  reached := hreached
  phase := hphase
  closed := hclosed
  normal x hx := by
    obtain ⟨f, hf⟩ := h.normal x hx
    exact ⟨f, hsub hf⟩
  finAck x hx := ⟨(h.finAck x hx).1.mono hsub, hover (h.finAck x hx).2⟩

/-- A step that closes the connection only for want of substreams. -/
theorem CallerInv.move (h : CallerInv c heard sent) (hallowed : ∀ p, allowed p → ¬p.Open)
    (hm : c.phase.csk.Moved allowed c'.phase.csk) (hfound : c'.found = c.found)
    (hover : c.phase.Over → c'.phase.Over) (hsub : heard ⊆ heard')
    (hphase : CallerPhaseInv c' heard') :
    CallerInv c' heard' sent := by
  refine h.next (h.reached.moved hm hallowed hsub) (fun hc => ?_) hover hsub hphase
  rw [hfound]
  rcases hm.closed_of hc with hc | hnone
  · rcases h.closed hc with hfound | hnone | hf
    · exact .inl hfound
    · exact .inr (.inl (Nat.le_zero.mp (hnone ▸ hm.le)))
    · exact .inr (.inr (hf.mono hsub))
  · exact .inr (.inl hnone)

theorem CallerInv.send (h : CallerInv c heard sent)
    (hnormal : ∀ x, (x, .normal) ∈ out → ∃ f, (x, f) ∈ heard)
    (hfinAck : ∀ x, (x, .finAck) ∈ out → FinHeard heard ∧ c.phase.Over) :
    CallerInv c heard (sent ++ out) :=
  { h with
    normal := fun x hx => (List.mem_append.mp hx).elim (h.normal x) (hnormal x)
    finAck := fun x hx => (List.mem_append.mp hx).elim (h.finAck x) (hfinAck x) }

theorem CliPaths.mem_mailAll {csk : CliPaths} {m : Mail} {flag : Flag}
    (h : m ∈ csk.mailAll flag) : m.2 = flag := by
  obtain ⟨x, -, rfl⟩ := List.mem_map.mp h
  rfl

theorem CallerInv.sendAll (h : CallerInv c heard sent) {csk : CliPaths} {flag : Flag}
    (hflag : flag ≠ .normal) (hfinAck : flag = .finAck → FinHeard heard ∧ c.phase.Over) :
    CallerInv c heard (sent ++ csk.mailAll flag) :=
  h.send (fun _ hx => absurd (CliPaths.mem_mailAll hx).symm hflag)
    fun _ hx => hfinAck (CliPaths.mem_mailAll hx).symm

theorem not_open_of_plain (p : CliPath) (h : p.Plain) : ¬p.Open := h.not_open

/-! ## The loops around `poll_flag` -/

theorem resendSyn_moved (l : CliLoop) (r : CliRound) :
    l.csk.Moved CliPath.Plain (resendSyn l r).csk := by
  rw [resendSyn]
  split
  · have hm : l.csk.Moved CliPath.Plain (l.csk.setPaths r.sent .synSent) :=
      CliPaths.moved_setPaths r.sent (.inl rfl)
    exact { hm with }
  · exact .refl _

theorem resendFinAck_moved (l : CliLoop) (r : CliRound) :
    l.csk.Moved (¬CliPath.Open ·) (resendFinAck l r).csk := by
  have hnot : ¬CliPath.Open .finAckSent := by simp [CliPath.Open]
  rw [resendFinAck]
  split
  · exact CliPaths.moved_setPaths _ hnot
  · exact .refl _

theorem resendClose_moved (l : CliLoop) (r : CliRound) :
    l.csk.Moved CliPath.Plain (resendClose l r).csk := by
  rw [resendClose]
  split
  · exact CliPaths.moved_setPaths _ (.inr (.inl rfl))
  · split
    · exact CliPaths.moved_setPaths _ (.inr (.inr rfl))
    · exact .refl _

theorem resendClose_index (l : CliLoop) (r : CliRound) :
    (resendClose l r).index = l.index ∧ (resendClose l r).flag = l.flag := by
  rw [resendClose]
  split
  · exact ⟨rfl, rfl⟩
  · split <;> exact ⟨rfl, rfl⟩

theorem pollWait_moved (flag : Flag) (l : CliLoop) (polled : Polled) :
    l.csk.Moved CliPath.Plain (pollWait flag l polled).csk :=
  pollFlag_moved (.inr (.inr rfl))


/-- A loop around `poll_flag` that is left before its tries are used up has read its flag. -/
theorem pollWait_found (resend : CliLoop → CliRound → CliLoop) {flag : Flag} {l : CliLoop}
    {polled : Polled} (hend : (pollLoop resend flag).goesOn (pollWait flag l polled) = false)
    (htries : ¬pollMaxTries ≤ (pollWait flag l polled).tries) :
    ∃ sub : ℕ, (pollWait flag l polled).index = sub ∧
      polledMail l.csk polled = some (l.csk.sockfd sub, flag) ∧
        (pollWait flag l polled).csk = l.csk := by
  have hindex := (pollLoop_goesOn.mp hend).resolve_right htries
  exact pollFlag_found (not_lt.mp hindex)

variable {found : Option SockStatus} {l : CliLoop} {polled : Polled}

theorem connectReturn_spec {sub : ℕ} {ok : Bool} {now : ℚ} {csk : CliPaths}
    (hindex : l.index = sub) (hcsk : connectReturn l ok now = some csk)
    (hreached : l.csk.Reached heard) (hquiet : l.csk.Quiet) (hsub : heard ⊆ heard')
    (hread : ∃ f, (l.csk.sockfd sub, f) ∈ heard') :
    csk.Reached heard' ∧ csk.Quiet ∧ csk.status = l.csk.status ∧ csk.sockfd = l.csk.sockfd ∧
      csk.substreams = l.csk.substreams := by
  rw [connectReturn] at hcsk
  split at hcsk
  · cases hcsk
  · simp only [hindex, Int.toNat_natCast] at hcsk
    obtain rfl := Option.some.inj hcsk
    have hack : (l.csk.setPath sub .synAckRecv).Reached heard' :=
      hreached.setPath hsub (.inr hread)
    have hackQuiet : (l.csk.setPath sub .synAckRecv).Quiet := hquiet.setPath (.inr (.inl rfl))
    split
    · have hestablished := hack.setPath (p := .established) (List.Subset.refl _) (.inr hread)
      exact ⟨hestablished, hackQuiet.setPath (p := .established) (.inr (.inr rfl)), rfl, rfl, rfl⟩
    · exact ⟨hack, hackQuiet, rfl, rfl, rfl⟩

theorem CallerInv.connecting (h : CallerInv ⟨.connecting l true, found⟩ heard sent)
    {ok : ℕ → Bool} {now : ℚ} {r : CallerPhase × List Mail}
    (hstep : connectTest (pollWait .synAck l polled) ok now = some r) :
    CallerInv ⟨r.1, found⟩ (heard ++ (polledMail l.csk polled).toList) (sent ++ r.2) := by
  have hsub := List.subset_append_left heard (polledMail l.csk polled).toList
  have hquiet : l.csk.Quiet := h.phase
  rw [connectTest] at hstep
  split at hstep
  · cases hstep
    rw [List.append_nil]
    have hm := pollWait_moved .synAck l polled
    exact h.move not_open_of_plain hm rfl hm.closed hsub (hquiet.moved hm)
  next hend =>
    obtain ⟨csk, hcsk, heq⟩ := Option.map_eq_some_iff.mp hstep
    cases heq
    by_cases htries : pollMaxTries ≤ (pollWait .synAck l polled).tries
    · rw [connectReturn, if_pos htries] at hcsk
      cases hcsk
    · obtain ⟨sub, hindex, hread, hsame⟩ :=
        pollWait_found resendSyn (Bool.eq_false_of_not_eq_true hend) htries
      have hmem : ∃ f, (l.csk.sockfd sub, f) ∈ heard ++ (polledMail l.csk polled).toList :=
        ⟨.synAck, by simp [hread]⟩
      obtain ⟨hreached, hquiet', hstatus, hfd, hsubstreams⟩ := connectReturn_spec hindex hcsk
        (hsame ▸ h.reached) (hsame ▸ hquiet) hsub (hsame.symm ▸ hmem)
      have hstatus : csk.status = l.csk.status := hsame ▸ hstatus
      have hnext : CallerInv ⟨.handling (startHandle csk), found⟩
          (heard ++ (polledMail l.csk polled).toList) sent := by
        refine h.next hreached (fun hc => ?_) (fun hover => hstatus.trans hover) hsub hquiet'
        rcases h.closed (hstatus ▸ hc) with hf | hnone | hf
        · exact .inl hf
        · exact .inr (.inl (hsubstreams.trans ((congrArg _ hsame).trans hnone)))
        · exact .inr (.inr (hf.mono hsub))
      refine hnext.send (fun x hx => ?_) fun x hx => ?_
      · cases List.mem_singleton.mp hx
        rw [hfd, hindex, Int.toNat_natCast, hsame]
        exact hmem
      · cases List.mem_singleton.mp hx

theorem CallerInv.finning (h : CallerInv ⟨.finning l true, found⟩ heard sent) :
    CallerInv ⟨finTest (pollWait .finAck l polled), found⟩
      (heard ++ (polledMail l.csk polled).toList) sent := by
  have hsub := List.subset_append_left heard (polledMail l.csk polled).toList
  have hheard : FinHeard heard := h.phase
  have hm := pollWait_moved .finAck l polled
  have hreached := h.reached.moved hm not_open_of_plain hsub
  have hplain : CliPath.Plain .closing := .inr (.inr rfl)
  have hclosing := h.reached.moved (hm.trans (CliPaths.moved_setPaths (fun _ => true) hplain))
    not_open_of_plain hsub
  rw [finTest]
  split
  · exact h.move not_open_of_plain hm rfl (fun _ => trivial) hsub (hheard.mono hsub)
  · refine h.next ?_ (fun _ => .inr (.inr (hheard.mono hsub))) (fun _ => rfl) hsub trivial
    dsimp only
    split
    · exact hreached
    · exact hclosing

theorem CallerInv.closing (h : CallerInv ⟨.closing l true, found⟩ heard sent) {ok : ℕ → Bool} :
    CallerInv ⟨(closeTest (pollWait .finAck l polled) ok).1, found⟩
      (heard ++ (polledMail l.csk polled).toList)
      (sent ++ (closeTest (pollWait .finAck l polled) ok).2) := by
  have hsub := List.subset_append_left heard (polledMail l.csk polled).toList
  obtain ⟨hclosed, hfound, hfin⟩ : l.csk.status = .closed ∧ found ≠ none ∧
    (l.index = -2 ∧ l.flag = .fin → FinHeard heard) := h.phase
  have hm := pollWait_moved .finAck l polled
  have hclosed' := hm.closed hclosed
  rw [closeTest]
  split
  · dsimp only
    rw [List.append_nil]
    refine h.move not_open_of_plain hm rfl (fun _ => hclosed') hsub
      ⟨hclosed', hfound, fun hother => ?_⟩
    obtain ⟨x, hx⟩ := pollFlag_other hother.1
    refine ⟨x, .inl (List.mem_append_right _ ?_)⟩
    rw [hx, ← hother.2]
    exact List.mem_singleton_self _
  next hend =>
    by_cases htries : pollMaxTries ≤ (pollWait .finAck l polled).tries
    · have hreached := h.reached.moved hm not_open_of_plain hsub
      rw [if_pos htries, List.append_nil]
      exact h.next hreached (fun _ => .inl hfound) (fun _ => hclosed') hsub fun _ => .inl rfl
    · obtain ⟨sub, hindex, hread, hsame⟩ :=
        pollWait_found resendClose (Bool.eq_false_of_not_eq_true hend) htries
      have hmem : (l.csk.sockfd sub, Flag.finAck) ∈ heard ++ (polledMail l.csk polled).toList := by
        simp [hread]
      rw [if_neg htries]
      split
      · rw [List.append_nil]
        exact h.move not_open_of_plain hm rfl (fun _ => hclosed') hsub fun _ => .inr ⟨_, hmem⟩
      · have hopen : ¬CliPath.Open .finAckRecv := by simp [CliPath.Open]
        have hnot : ¬CliPath.Open .closing := by simp [CliPath.Open]
        have hpoll : l.csk.Moved (¬CliPath.Open ·) (pollWait .finAck l polled).csk :=
          pollFlag_moved hnot
        have hacked := hpoll.trans ((CliPaths.moved_setPath
          (pollWait .finAck l polled).index.toNat hopen).trans (CliPaths.moved_setPaths ok hnot))
        have hreturned : CallerInv ⟨.closed (((pollWait .finAck l polled).csk.setPath
            (pollWait .finAck l polled).index.toNat .finAckRecv).setPaths ok .closing), found⟩
            (heard ++ (polledMail l.csk polled).toList) sent :=
          h.next (h.reached.moved hacked (fun _ hp => hp) hsub) (fun _ => .inl hfound)
            (fun _ => hclosed') hsub fun _ => .inr ⟨_, hmem⟩
        exact hreturned.sendAll (by decide) fun _ => ⟨⟨_, .inr hmem⟩, hclosed'⟩

/-! ## One step -/

theorem handlingStep_some {s : HandleConn} {e : HandleEvent} {r : CallerPhase × List Mail}
    (h : handlingStep s e = some r) :
    e ≠ .close ∧ (∀ now ok n rounds, e ≠ .receive (.packet .fin now ok n rounds)) ∧
      ∃ s', handleStep s e = some s' ∧ s'.inRange = true ∧
        r = (handlingPhase s', handleMail s e) := by
  unfold handlingStep at h
  split at h
  · cases h
  · cases h
  next hclose hfin =>
    obtain ⟨s', hs', h⟩ := Option.bind_eq_some_iff.mp h
    obtain ⟨hin, h⟩ := of_ite_some h
    exact ⟨fun he => hclose he, fun now ok n rounds he => hfin now ok n rounds he, s', hs', hin,
      (Option.some.inj h).symm⟩

theorem CallerInv.handling {s : HandleConn} (h : CallerInv ⟨.handling s, found⟩ heard sent)
    {e : HandleEvent} {r : CallerPhase × List Mail} (hsub : heard ⊆ heard')
    (hread : ∀ flag now ok n rounds, e = .receive (.packet flag now ok n rounds) →
      s.revents s.currSubstream.toNat = .input →
        (s.csk.sockfd s.currSubstream.toNat, flag) ∈ heard')
    (hstep : handlingStep s e = some r) : CallerInv ⟨r.1, found⟩ heard' (sent ++ r.2) := by
  obtain ⟨hclose, hfin, s', hs', hin, rfl⟩ := handlingStep_some hstep
  have hok : s.StepOk s' heard' (handleMail s e) := by
    refine HandleConn.handleStep_ok h.reached h.phase hsub
      (fun flag now ok n rounds he hinput => ⟨?_, hread flag now ok n rounds he hinput⟩)
      hclose hs' hin
    rintro rfl
    exact hfin now ok n rounds he
  have hcsk : (handlingPhase s').csk = s'.csk := by
    rw [handlingPhase]
    split <;> rfl
  have hover (hc : s'.csk.status = .closed) : (handlingPhase s').Over :=
    CallerPhase.over_of_closed (hcsk ▸ hc)
  have hnext : CallerInv ⟨handlingPhase s', found⟩ heard' sent := by
    refine h.next (hcsk ▸ hok.reached) (fun hc => ?_) (fun hc => hover (hok.closed hc)) hsub ?_
    · dsimp only at hc ⊢
      rw [hcsk] at hc ⊢
      rcases hok.closed_of hc with hc | hnone | hf
      · rcases h.closed hc with hfound | hnone | hf
        · exact .inl hfound
        · exact .inr (.inl (Nat.le_zero.mp (hnone ▸ hok.le)))
        · exact .inr (.inr (hf.mono hsub))
      · exact .inr (.inl hnone)
      · exact .inr (.inr hf)
    · rw [handlingPhase]
      split
      · trivial
      · exact hok.quiet
  exact hnext.send hok.normal fun x hx => ⟨(hok.finAck x hx).1, hover (hok.finAck x hx).2⟩

theorem CallerInv.fin {s : HandleConn} (h : CallerInv ⟨.handling s, found⟩ heard sent) {now : ℚ}
    {p : CallerPhase} (hsub : heard ⊆ heard') (hheard : FinHeard heard')
    (hstep : finStep s now = some p) : CallerInv ⟨p, found⟩ heard' sent := by
  obtain ⟨-, hstep⟩ := of_ite_some hstep
  cases hstep
  have hnot : ¬CliPath.Open .finRecv := by simp [CliPath.Open]
  have hm : s.csk.Moved (¬CliPath.Open ·)
      ((s.csk.received s.currSubstream.toNat now).setPath s.currSubstream.toNat .finRecv) :=
    (CliPaths.moved_received _ _).trans (CliPaths.moved_setPath _ hnot)
  exact h.move (fun _ hp => hp) hm rfl (fun _ => trivial) hsub hheard

theorem CallerInv.resend {c : Caller} (h : CallerInv c heard sent) {ok : ℕ → Bool} {now : ℚ}
    (hstep : callerStep c (.resend ok now) = some (c', out)) :
    CallerInv c' heard (sent ++ out) := by
  obtain ⟨phase, found⟩ := c
  cases phase with
  | connecting l b =>
      cases b with
      | true => cases hstep
      | false =>
          cases hstep
          have hm := resendSyn_moved l ⟨ok, now, .failed⟩
          have hnext : CallerInv ⟨.connecting (resendSyn l ⟨ok, now, .failed⟩) true, found⟩
              heard sent :=
            h.move not_open_of_plain hm rfl hm.closed (List.Subset.refl _)
              (CliPaths.Quiet.moved h.phase hm)
          split
          · exact hnext.sendAll (by decide) fun hf => by cases hf
          · rwa [List.append_nil]
  | finning l b =>
      cases b with
      | true => cases hstep
      | false =>
          cases hstep
          have hm := resendFinAck_moved l ⟨ok, now, .failed⟩
          have hheard : FinHeard heard := h.phase
          have hnext : CallerInv ⟨.finning (resendFinAck l ⟨ok, now, .failed⟩) true, found⟩
              heard sent :=
            h.move (fun _ hp => hp) hm rfl (fun _ => trivial) (List.Subset.refl _) hheard
          split
          · exact hnext.sendAll (by decide) fun _ => ⟨hheard, trivial⟩
          · rwa [List.append_nil]
  | closing l b =>
      cases b with
      | true => cases hstep
      | false =>
          cases hstep
          obtain ⟨hclosed, hfound, hfin⟩ : l.csk.status = .closed ∧ found ≠ none ∧
            (l.index = -2 ∧ l.flag = .fin → FinHeard heard) := h.phase
          have hm := resendClose_moved l ⟨ok, now, .failed⟩
          obtain ⟨hindex, hflag⟩ := resendClose_index l ⟨ok, now, .failed⟩
          have hnext : CallerInv ⟨.closing (resendClose l ⟨ok, now, .failed⟩) true, found⟩
              heard sent :=
            h.move not_open_of_plain hm rfl (fun _ => hm.closed hclosed) (List.Subset.refl _)
              ⟨hm.closed hclosed, hfound, fun hc => hfin ⟨hindex ▸ hc.1, hflag ▸ hc.2⟩⟩
          rw [resendCloseMail]
          split
          · exact hnext.sendAll (by decide) fun hf => by cases hf
          · split
            next hc => exact hnext.sendAll (by decide) fun _ => ⟨hfin hc, hm.closed hclosed⟩
            · rwa [List.append_nil]
  | handling | ended | closed => cases hstep

/-- `close_clictcp` sets the status. -/
theorem CallerInv.close {p : CallerPhase} {status : SockStatus}
    (h : CallerInv ⟨p, none⟩ heard sent)
    (hp : (∃ s, p = .handling s) ∨ (∃ l b, p = .finning l b) ∨ ∃ csk, p = .ended csk) :
    CallerInv ⟨p.setClosed, some status⟩ heard sent := by
  have hfound : some status ≠ none := by simp
  rcases hp with ⟨s, rfl⟩ | ⟨l, b, rfl⟩ | ⟨csk, rfl⟩
  · exact h.next h.reached (fun _ => .inl hfound) (fun _ => rfl) (List.Subset.refl _) h.phase
  · exact h.next h.reached (fun _ => .inl hfound) (fun _ => trivial) (List.Subset.refl _) h.phase
  · exact h.next h.reached (fun _ => .inl hfound) (fun _ => rfl) (List.Subset.refl _) trivial

theorem CallerInv.step {c : Caller} (h : CallerInv c heard sent) {e : CallerEvent}
    (hstep : callerStep c e = some (c', out)) :
    CallerInv c' (heard ++ (callerReads c e).toList) (sent ++ out) := by
  have hsub := List.subset_append_left heard (callerReads c e).toList
  obtain ⟨phase, found⟩ := c
  cases e with
  | resend ok now =>
      simp only [callerReads, Option.toList_none, List.append_nil]
      exact h.resend hstep
  | poll polled ok now =>
      cases phase with
      | connecting l b =>
          cases b with
          | false => cases hstep
          | true =>
              obtain ⟨r, hr, heq⟩ := Option.map_eq_some_iff.mp hstep
              cases heq
              exact h.connecting hr
      | finning l b =>
          cases b with
          | false => cases hstep
          | true =>
              cases hstep
              rw [List.append_nil]
              exact h.finning
      | closing l b =>
          cases b with
          | false => cases hstep
          | true =>
              cases hstep
              exact h.closing
      | handling | ended | closed => cases hstep
  | handle e =>
      cases phase with
      | handling s =>
          obtain ⟨r, hr, heq⟩ := Option.map_eq_some_iff.mp hstep
          cases heq
          refine h.handling hsub (fun flag now ok n rounds he hinput => ?_) hr
          subst he
          simp [callerReads, hinput]
      | connecting | finning | ended | closing | closed => cases hstep
  | fin now =>
      cases phase with
      | handling s =>
          obtain ⟨p, hp, heq⟩ := Option.map_eq_some_iff.mp hstep
          cases heq
          rw [List.append_nil]
          exact h.fin hsub ⟨s.csk.sockfd s.currSubstream.toNat, .inl (by simp [callerReads])⟩ hp
      | connecting | finning | ended | closing | closed => cases hstep
  | close =>
      simp only [callerReads, Option.toList_none, List.append_nil]
      cases found with
      | some status => cases phase <;> cases hstep
      | none =>
          cases phase with
          | handling s =>
              cases hstep
              rw [List.append_nil]
              exact h.close (.inl ⟨s, rfl⟩)
          | finning l b =>
              cases hstep
              rw [List.append_nil]
              exact h.close (.inr (.inl ⟨l, b, rfl⟩))
          | ended csk =>
              cases hstep
              rw [List.append_nil]
              exact h.close (.inr (.inr ⟨csk, rfl⟩))
          | connecting | closing | closed => cases hstep
  | joined =>
      simp only [callerReads, Option.toList_none, List.append_nil]
      cases phase with
      | ended csk =>
          cases found with
          | none => cases hstep
          | some status =>
              have hfound : some status ≠ none := by simp
              cases status with
              | active =>
                  cases hstep
                  rw [List.append_nil]
                  exact h.next h.reached (fun _ => .inl hfound) (fun _ => rfl)
                    (List.Subset.refl _) ⟨rfl, hfound, fun hc => by cases hc.2⟩
              | closed =>
                  cases hstep
                  rw [List.append_nil]
                  exact h.next h.reached h.closed id (List.Subset.refl _) fun hc => by cases hc
      | connecting | handling | finning | closing | closed => cases found <;> cases hstep

theorem callerInv_start {csk : CliPaths} (hstatus : csk.status = .active)
    (hstate : ∀ k, (csk.pathstate k).Plain) :
    CallerInv ⟨.connecting (startSyn csk) false, none⟩ [] [] where
  reached k _ hopen := absurd hopen (hstate k).not_open
  phase k _ := .inr (hstate k)
  closed hc := by
    have hclosed : csk.status = .closed := hc
    rw [hstatus] at hclosed
    cases hclosed
  normal _ hx := absurd hx (by simp)
  finAck _ hx := absurd hx (by simp)

/-- The memory of the socket holds no state that an answer of the server leads to. -/
theorem callerInv_of_reachable {memory : ℕ → CliPath} (hmem : ∀ k, (memory k).Plain)
    {s : Posted Caller Mail Mail} (h : (clientParty memory).alone.Reachable s) :
    CallerInv s.state s.heard s.sent := by
  refine Party.invariant ?_ (fun _ _ _ e _ _ hI hstep => hI.step hstep) h
  rintro _ ⟨csk, -, -, hstatus, -, rfl, rfl⟩
  exact callerInv_start hstatus hmem

end

end Ctcp
