import Ctcp.Model.Caller
import Ctcp.Verification.Connection.Server

/-! # What the client keeps during a connection

A substream is acknowledged, or established, only after something has come from the server on
its socket, and no FIN_ACK is sent before a FIN or a FIN_ACK was read. -/

namespace Ctcp

open Function

/-! ## The table of substreams -/

/-- The server has answered on the substream. -/
def CliPath.Open (p : CliPath) : Prop := p = .synAckRecv ∨ p = .established

/-- A state of a path while `handle_connection` runs that needs no reason. -/
def CliPath.Plain (p : CliPath) : Prop := p = .synSent ∨ p = .finSent ∨ p = .closing

theorem CliPath.Plain.not_open {p : CliPath} (h : p.Plain) : ¬p.Open := by
  rintro (rfl | rfl) <;> rcases h with h | h | h <;> cases h

/-- Each substream is one of those before, and its state the one before or one that is
allowed; nothing but the loss of all substreams closes the connection. -/
structure CliPaths.Moved (allowed : CliPath → Prop) (csk csk' : CliPaths) : Prop where
  path : ∀ k' < csk'.substreams, ∃ k < csk.substreams, csk'.sockfd k' = csk.sockfd k ∧
    (csk'.pathstate k' = csk.pathstate k ∨ allowed (csk'.pathstate k'))
  le : csk'.substreams ≤ csk.substreams
  closed : csk.status = .closed → csk'.status = .closed
  closed_of : csk'.status = .closed → csk.status = .closed ∨ csk'.substreams = 0

namespace CliPaths

variable {allowed : CliPath → Prop} {csk csk' csk'' : CliPaths} {heard heard' : List Mail}

theorem Moved.refl (csk : CliPaths) : csk.Moved allowed csk :=
  ⟨fun k hk => ⟨k, hk, rfl, .inl rfl⟩, le_rfl, id, .inl⟩

theorem Moved.trans (h : csk.Moved allowed csk') (h' : csk'.Moved allowed csk'') :
    csk.Moved allowed csk'' where
  path k hk := by
    obtain ⟨k', hk', hfd', hstate'⟩ := h'.path k hk
    obtain ⟨k'', hk'', hfd, hstate⟩ := h.path k' hk'
    refine ⟨k'', hk'', hfd'.trans hfd, ?_⟩
    rcases hstate' with heq | hok
    · rw [heq]
      exact hstate
    · exact .inr hok
  le := h'.le.trans h.le
  closed := h'.closed ∘ h.closed
  closed_of hc := by
    rcases h'.closed_of hc with hc | hnone
    · refine (h.closed_of hc).imp_right fun hz => Nat.le_zero.mp ?_
      rw [← hz]
      exact h'.le
    · exact .inr hnone

theorem moved_setPaths (which : ℕ → Bool) {p : CliPath} (hp : allowed p) :
    csk.Moved allowed (csk.setPaths which p) where
  path k hk := by
    refine ⟨k, hk, rfl, ?_⟩
    simp only [setPaths]
    split
    · exact .inr hp
    · exact .inl rfl
  le := le_rfl
  closed := id
  closed_of := .inl

theorem moved_setPath (i : ℕ) {p : CliPath} (hp : allowed p) :
    csk.Moved allowed (csk.setPath i p) where
  path k hk := by
    refine ⟨k, hk, rfl, ?_⟩
    simp only [setPath, update_apply]
    split
    · exact .inr hp
    · exact .inl rfl
  le := le_rfl
  closed := id
  closed_of := .inl

theorem moved_removeSubstream (pin : ℕ) : csk.Moved allowed (removeSubstream csk pin) := by
  rw [removeSubstream]
  split
  · exact .refl csk
  · refine ⟨fun k hk => ?_, Nat.sub_le _ _, id, .inl⟩
    have hlt : k < csk.substreams - 1 := hk
    have hk' : k < csk.substreams := by omega
    refine ⟨if pin ≤ k then k + 1 else k, ?_, shiftDown_of_lt _ hk',
      .inl (shiftDown_of_lt _ hk')⟩
    split <;> omega

theorem moved_received (k : ℕ) (now : ℚ) : csk.Moved allowed (csk.received k now) :=
  ⟨fun k hk => ⟨k, hk, rfl, .inl rfl⟩, le_rfl, id, .inl⟩

/-- A substream is given up. -/
theorem moved_drop (k : ℕ) (hclosing : allowed .closing) :
    csk.Moved allowed (removeSubstream (csk.setPath k .closing) k) :=
  (moved_setPath k hclosing).trans (moved_removeSubstream k)

/-! ### What follows for the states -/

/-- Whatever is open has read something. -/
def Reached (csk : CliPaths) (heard : List Mail) : Prop :=
  ∀ k < csk.substreams, (csk.pathstate k).Open → ∃ f, (csk.sockfd k, f) ∈ heard

/-- No path is in the middle of the closing that `handle_connection` does in one go. -/
def Quiet (csk : CliPaths) : Prop :=
  ∀ k < csk.substreams, (csk.pathstate k).Open ∨ (csk.pathstate k).Plain

theorem Reached.moved (h : csk.Reached heard) (hm : csk.Moved allowed csk')
    (hallowed : ∀ p, allowed p → ¬p.Open) (hsub : heard ⊆ heard') : csk'.Reached heard' := by
  intro k' hk' hopen
  obtain ⟨k, hk, hfd, hstate⟩ := hm.path k' hk'
  have hstate := hstate.resolve_right fun hok => hallowed _ hok hopen
  obtain ⟨f, hf⟩ := h k hk (hstate ▸ hopen)
  exact ⟨f, hfd ▸ hsub hf⟩

theorem Quiet.moved (h : csk.Quiet) (hm : csk.Moved CliPath.Plain csk') : csk'.Quiet := by
  intro k' hk'
  obtain ⟨k, hk, -, hstate⟩ := hm.path k' hk'
  rcases hstate with heq | hok
  · rw [heq]
    exact h k hk
  · exact .inr hok

/-- A packet on substream `i` opens it. -/
theorem Reached.setPath (h : csk.Reached heard) {i : ℕ} {p : CliPath} (hsub : heard ⊆ heard')
    (hp : p = csk.pathstate i ∨ ∃ f, (csk.sockfd i, f) ∈ heard') :
    (csk.setPath i p).Reached heard' := by
  intro k hk hopen
  simp only [CliPaths.setPath, update_apply] at hopen
  split at hopen
  next heq =>
    subst heq
    rcases hp with rfl | hread
    · obtain ⟨f, hf⟩ := h k hk hopen
      exact ⟨f, hsub hf⟩
    · exact hread
  · obtain ⟨f, hf⟩ := h k hk hopen
    exact ⟨f, hsub hf⟩

theorem Quiet.setPath (h : csk.Quiet) {i : ℕ} {p : CliPath} (hp : p = csk.pathstate i ∨ p.Open) :
    (csk.setPath i p).Quiet := by
  intro k hk
  simp only [CliPaths.setPath, update_apply]
  split
  next heq =>
    subst heq
    rcases hp with rfl | hopen
    · exact h k hk
    · exact .inl hopen
  · exact h k hk

end CliPaths

/-! ## `poll_flag` -/

section Poll

variable {csk : CliPaths} {flag : Flag} {polled : Polled}

theorem pollFlag_moved {allowed : CliPath → Prop} (hclosing : allowed .closing) :
    csk.Moved allowed (pollFlag csk flag polled).2.2 := by
  cases polled with
  | failed => exact .refl csk
  | timedOut => exact .refl csk
  | ready pollin received =>
      simp only [pollFlag]
      cases firstReady pollin csk.substreams with
      | none => exact .refl csk
      | some sub =>
          cases received with
          | failed => exact CliPaths.moved_drop sub hclosing
          | empty => exact .refl csk
          | packet got =>
              dsimp only
              split <;> exact .refl csk

/-- `poll_flag` returns a substream when the flag has come on it. -/
theorem pollFlag_found (h : 0 ≤ (pollFlag csk flag polled).1) :
    ∃ sub : ℕ, (pollFlag csk flag polled).1 = sub ∧
      polledMail csk polled = some (csk.sockfd sub, flag) ∧
        (pollFlag csk flag polled).2.2 = csk := by
  cases polled with
  | failed => exact absurd h (by simp [pollFlag])
  | timedOut => exact absurd h (by simp [pollFlag])
  | ready pollin received =>
      simp only [pollFlag, polledMail] at h ⊢
      cases hfirst : firstReady pollin csk.substreams with
      | none => simp [hfirst] at h
      | some sub =>
          simp only [hfirst] at h
          cases received with
          | failed => simp at h
          | empty => simp at h
          | packet got =>
              dsimp only at h ⊢
              split at h
              next heq =>
                subst heq
                exact ⟨sub, by simp [hfirst]⟩
              · exact absurd h (by simp)

/-- -2 is for another flag. -/
theorem pollFlag_other (h : (pollFlag csk flag polled).1 = -2) :
    ∃ x, polledMail csk polled = some (x, (pollFlag csk flag polled).2.1) := by
  cases polled with
  | failed => exact absurd h (by simp [pollFlag])
  | timedOut => exact absurd h (by simp [pollFlag])
  | ready pollin received =>
      simp only [pollFlag, polledMail] at h ⊢
      cases hfirst : firstReady pollin csk.substreams with
      | none => simp [hfirst] at h
      | some sub =>
          simp only [hfirst] at h
          cases received with
          | failed => simp at h
          | empty => simp at h
          | packet got =>
              dsimp only at h ⊢
              split at h
              · simp at h
              next hne => exact ⟨csk.sockfd sub, by simp [hfirst, hne]⟩

end Poll

/-! ## `handle_connection` -/

namespace HandleConn

variable {s s' s'' : HandleConn} {heard heard' out : List Mail}

theorem roundEnd_moved (s : HandleConn) : s.csk.Moved CliPath.Plain s.roundEnd.csk := by
  simp only [roundEnd]
  split
  next hnone =>
    exact { CliPaths.Moved.refl s.csk with
      closed := fun _ => rfl
      closed_of := fun _ => .inr hnone }
  · exact .refl _

theorem afterPackets_moved (heq : s'.csk = s.csk) :
    s.csk.Moved CliPath.Plain s'.afterPackets.csk := by
  rw [← heq, afterPackets]
  split
  · exact roundEnd_moved s'
  · exact .refl _

theorem nextSocket_moved (heq : s'.csk = s.csk) :
    s.csk.Moved CliPath.Plain (nextSocket s').csk := by
  rw [← heq]
  simp only [nextSocket]
  split
  · exact .refl _
  · exact afterPackets_moved rfl

theorem pollStep_moved (s : HandleConn) (result : PollReturn) :
    s.csk.Moved CliPath.Plain (pollStep s result).csk := by
  cases result with
  | failed eintr =>
      simp only [pollStep]
      split
      · exact .refl _
      · exact afterPackets_moved rfl
  | events revents =>
      simp only [pollStep]
      split
      · exact afterPackets_moved rfl
      · exact .refl _

/-- What a step of the thread leaves of the states, and what it sends. -/
structure StepOk (s s' : HandleConn) (heard' out : List Mail) : Prop where
  reached : s'.csk.Reached heard'
  quiet : s'.csk.Quiet
  le : s'.csk.substreams ≤ s.csk.substreams
  closed : s.csk.status = .closed → s'.csk.status = .closed
  closed_of : s'.csk.status = .closed →
    s.csk.status = .closed ∨ s'.csk.substreams = 0 ∨ FinHeard heard'
  normal : ∀ x, (x, .normal) ∈ out → ∃ f, (x, f) ∈ heard'
  finAck : ∀ x, (x, .finAck) ∈ out → FinHeard heard' ∧ s'.csk.status = .closed

/-- A step that sends neither NORMAL nor FIN_ACK. -/
theorem stepOk_of_moved (hreached : s.csk.Reached heard) (hquiet : s.csk.Quiet)
    (hm : s.csk.Moved CliPath.Plain s'.csk) (hsub : heard ⊆ heard')
    (hout : ∀ m ∈ out, m.2 ≠ .normal ∧ m.2 ≠ .finAck) : StepOk s s' heard' out where
  reached := hreached.moved hm (fun _ hp => hp.not_open) hsub
  quiet := hquiet.moved hm
  le := hm.le
  closed := hm.closed
  closed_of hc := (hm.closed_of hc).imp_right .inl
  normal _ hx := absurd rfl (hout _ hx).1
  finAck _ hx := absurd rfl (hout _ hx).2

theorem StepOk.moved (h : StepOk s s' heard out) (hm : s'.csk.Moved CliPath.Plain s''.csk) :
    StepOk s s'' heard out where
  reached := h.reached.moved hm (fun _ hp => hp.not_open) (List.Subset.refl _)
  quiet := h.quiet.moved hm
  le := hm.le.trans h.le
  closed := hm.closed ∘ h.closed
  closed_of hc := by
    rcases hm.closed_of hc with hc | hnone
    · rcases h.closed_of hc with hc | hnone | hf
      · exact .inl hc
      · exact .inr (.inl (Nat.le_zero.mp (hnone ▸ hm.le)))
      · exact .inr (.inr hf)
    · exact .inr (.inl hnone)
  normal := h.normal
  finAck x hx := ⟨(h.finAck x hx).1, hm.closed (h.finAck x hx).2⟩

/-! ### Packets -/

theorem packetState_cases (p : CliPath) (flag : Flag) (sent : Bool) :
    packetState p flag sent = p ∨ packetState p flag sent = .established := by
  cases flag with
  | normal | coded =>
      simp only [packetState]
      split
      · exact .inr rfl
      · exact .inl rfl
  | synAck =>
      simp only [packetState]
      split
      · exact .inr rfl
      · exact .inl rfl
  | syn | fin | finAck => exact .inl rfl

theorem packetMail_mem {csk : CliPaths} {k : ℕ} {flag : Flag} {m : Mail}
    (h : m ∈ packetMail csk k flag) :
    m = (csk.sockfd k, .normal) ∨ m.2 = .finAck ∧ endsConnection (csk.pathstate k) flag := by
  cases flag with
  | finAck =>
      simp only [packetMail] at h
      split at h
      next hends =>
        obtain ⟨x, -, rfl⟩ := List.mem_map.mp h
        exact .inr ⟨rfl, hends⟩
      · cases h
  | synAck | normal | coded =>
      simp only [packetMail] at h
      split at h
      · exact .inl (List.mem_singleton.mp h)
      · cases h
  | syn | fin => cases h

/-- A packet that is no FIN. -/
theorem handlePacket_ok (hreached : s.csk.Reached heard) (hquiet : s.csk.Quiet) (k : ℕ)
    {flag : Flag} {now : ℚ} {sent : Bool} (hsub : heard ⊆ heard')
    (hread : (s.csk.sockfd k, flag) ∈ heard') :
    StepOk s (handlePacket s k flag now sent) heard' (packetMail s.csk k flag) := by
  have hnormal (x : ℕ) (hx : (x, Flag.normal) ∈ packetMail s.csk k flag) :
      ∃ f, (x, f) ∈ heard' := by
    rcases packetMail_mem hx with heq | ⟨hf, -⟩
    · cases heq
      exact ⟨flag, hread⟩
    · cases hf
  have hreceived : s.csk.Moved CliPath.Plain (s.csk.received k now) := CliPaths.moved_received k now
  by_cases hends : endsConnection (s.csk.pathstate k) flag
  · have hheard : FinHeard heard' := ⟨s.csk.sockfd k, .inr (hends.1 ▸ hread)⟩
    have hclosed : (handlePacket s k flag now sent).csk.status = .closed := by
      simp only [handlePacket, if_pos hends]
    have hstate (j : ℕ) (hj : j < (handlePacket s k flag now sent).csk.substreams) :
        (handlePacket s k flag now sent).csk.pathstate j = .closing := by
      simp only [handlePacket, if_pos hends, CliPaths.setPaths] at hj ⊢
      simp only [and_true, if_pos hj]
    refine ⟨fun j hj hopen => ?_, fun j hj => .inr ?_, ?_, fun _ => hclosed,
      fun _ => .inr (.inr hheard), hnormal, fun _ _ => ⟨hheard, hclosed⟩⟩
    · rw [hstate j hj] at hopen
      rcases hopen with hopen | hopen <;> cases hopen
    · rw [hstate j hj]
      exact .inr (.inr rfl)
    · simp only [handlePacket, if_pos hends]
      exact le_rfl
  · have hcsk : (handlePacket s k flag now sent).csk =
        (s.csk.received k now).setPath k (packetState (s.csk.pathstate k) flag sent) := by
      simp only [handlePacket, if_neg hends, updatePath]
    have hstate := packetState_cases (s.csk.pathstate k) flag sent
    refine ⟨?_, ?_, ?_, fun hc => ?_, fun hc => ?_, hnormal, fun x hx => ?_⟩
    · rw [hcsk]
      exact (hreached.moved hreceived (fun _ hp => hp.not_open) (List.Subset.refl _)).setPath hsub
        (hstate.imp_right fun _ => ⟨flag, hread⟩)
    · rw [hcsk]
      exact (hquiet.moved hreceived).setPath (hstate.imp_right .inr)
    · rw [hcsk]
      exact le_rfl
    · rw [hcsk]
      exact hc
    · rw [hcsk] at hc
      exact .inl hc
    · rcases packetMail_mem hx with heq | ⟨-, hends'⟩
      · cases heq
      · exact absurd hends' hends

theorem handleFailure_moved (s : HandleConn) (k : ℕ) :
    s.csk.Moved CliPath.Plain (handleFailure s k).csk :=
  CliPaths.moved_drop k (.inr (.inr rfl))

theorem receiveBody_ok (hreached : s.csk.Reached heard) (hquiet : s.csk.Quiet) {r : RecvMsg}
    (hsub : heard ⊆ heard')
    (hread : ∀ flag now sent n rounds, r = .packet flag now sent n rounds →
      s.revents s.currSubstream.toNat = .input → flag ≠ .fin ∧
        (s.csk.sockfd s.currSubstream.toNat, flag) ∈ heard')
    (hstep : receiveBody s r = some s') : StepOk s s' heard' (handleMail s (.receive r)) := by
  simp only [receiveBody] at hstep
  split at hstep
  next hinput =>
    cases r with
    | failed =>
        cases hstep
        exact stepOk_of_moved hreached hquiet
          ((handleFailure_moved s _).trans (afterPackets_moved rfl)) hsub (by simp [handleMail])
    | empty =>
        cases hstep
        exact stepOk_of_moved hreached hquiet (afterPackets_moved rfl) hsub (by simp [handleMail])
    | packet flag now sent n rounds =>
        obtain ⟨hne, hmem⟩ := hread flag now sent n rounds rfl hinput
        simp only [if_neg hne] at hstep
        cases hstep
        rw [handleMail, if_pos hinput]
        exact (handlePacket_ok hreached hquiet s.currSubstream.toNat hsub hmem).moved
          (nextSocket_moved rfl)
  next hinput =>
    cases hstep
    refine stepOk_of_moved hreached hquiet (nextSocket_moved rfl) hsub fun m hm => ?_
    cases r with
    | failed | empty => cases hm
    | packet flag now sent n rounds =>
        rw [handleMail, if_neg hinput] at hm
        cases hm

/-! ### Timers -/

theorem checkIdle_moved (k : ℕ) :
    s.csk.Moved CliPath.Plain (checkIdle s k).csk ∧ (checkIdle s k).inRange = s.inRange := by
  simp only [checkIdle]
  split
  · split
    · exact ⟨CliPaths.moved_setPath k (.inr (.inl rfl)), rfl⟩
    · exact ⟨CliPaths.moved_drop k (.inr (.inr rfl)), rfl⟩
  · exact ⟨.refl _, rfl⟩

theorem index_of_use {k : ℤ} (h : (s.use k).inRange = true) :
    s.inRange = true ∧ 0 ≤ k ∧ k < s.csk.substreams := by
  simpa [use] using h

theorem countIdle_moved (k : ℤ) (heq : s'.csk = s.csk) :
    s.csk.Moved CliPath.Plain (countIdle s' k).csk := by
  have hidled : s'.csk.Moved CliPath.Plain (s'.csk.idled k.toNat) :=
    { CliPaths.Moved.refl s'.csk with }
  rw [← heq]
  exact hidled.trans
    (checkIdle_moved (s := { s'.use k with csk := s'.csk.idled k.toNat }) k.toNat).1

theorem countIdle_inRange {k : ℤ} (h : (countIdle s k).inRange = true) : s.inRange = true := by
  rw [countIdle, (checkIdle_moved k.toNat).2] at h
  exact (index_of_use h).1

/-- An index that the loop over the timers reads is that of a substream. -/
theorem timerStep_index {k : ℤ} {now : ℚ} (hlt : k < s.csk.substreams)
    (hin : (timerStep s k now).inRange = true) : 0 ≤ k := by
  suffices h : (s.use k).inRange = true from (index_of_use h).2.1
  rw [timerStep, if_pos hlt] at hin
  dsimp only at hin
  split at hin
  · split at hin
    · exact hin
    · dsimp only at hin
      have hin' := countIdle_inRange hin
      exact hin'
    · have hin' := countIdle_inRange hin
      exact hin'
  · exact hin

theorem timerStep_moved (hquiet : s.csk.Quiet) {k : ℤ} {now : ℚ}
    (hin : (timerStep s k now).inRange = true) :
    s.csk.Moved CliPath.Plain (timerStep s k now).csk := by
  by_cases hlt : k < s.csk.substreams
  · have hpos := timerStep_index hlt hin
    rw [timerStep, if_pos hlt]
    dsimp only
    split
    · split
      · exact .refl _
      next hstate =>
        -- No path waits for the last FIN_ACK while the thread runs.
        have hstate : s.csk.pathstate k.toNat = .finAckRecv := hstate
        have hcases := hquiet k.toNat (by omega)
        rw [hstate] at hcases
        rcases hcases with (hc | hc) | hc | hc | hc <;> cases hc
      · exact countIdle_moved k rfl
    · exact .refl _
  · rw [timerStep, if_neg hlt]
    exact roundEnd_moved s

theorem timerFlag_cases {p : CliPath} {f : Flag} (h : timerFlag p = some f) :
    (f = .normal → p.Open) ∧ (f = .finAck → ¬p.Open ∧ ¬p.Plain) := by
  cases p <;> cases h <;> simp [CliPath.Open, CliPath.Plain]

theorem idleMail_mem {csk : CliPaths} {k : ℕ} {m : Mail} (h : m ∈ idleMail csk k) :
    m.2 = .fin := by
  rw [idleMail] at h
  split at h
  · rw [List.mem_singleton.mp h]
  · cases h

/-- What a timer makes the thread send: no FIN_ACK, and NORMAL only where the server has
answered. -/
theorem timerMail_spec (hreached : s.csk.Reached heard) (hquiet : s.csk.Quiet) {k : ℤ} {now : ℚ}
    (hin : (timerStep s k now).inRange = true) {m : Mail} (hm : m ∈ timerMail s k now) :
    m.2 ≠ .finAck ∧ (m.2 = .normal → ∃ f, (m.1, f) ∈ heard) := by
  simp only [timerMail] at hm
  split at hm
  next hdue =>
    have hpos := timerStep_index hdue.1 hin
    have hlt : k.toNat < s.csk.substreams := by
      have := hdue.1
      omega
    rcases List.mem_append.mp hm with hm | hm
    · obtain ⟨f, hf, rfl⟩ := List.mem_map.mp hm
      obtain ⟨hnormal, hfinAck⟩ := timerFlag_cases (Option.mem_toList.mp hf)
      refine ⟨fun hc => ?_, fun hc => hreached _ hlt (hnormal hc)⟩
      rcases hquiet _ hlt with hopen | hplain
      · exact (hfinAck hc).1 hopen
      · exact (hfinAck hc).2 hplain
    · have hfin : m.2 = .fin := by
        split at hm
        · cases hm
        · exact idleMail_mem hm
        · exact idleMail_mem hm
      rw [hfin]
      exact ⟨by decide, fun hc => by cases hc⟩
  · cases hm

/-- A step of the thread that is no FIN. -/
theorem handleStep_ok (hreached : s.csk.Reached heard) (hquiet : s.csk.Quiet) {e : HandleEvent}
    (hsub : heard ⊆ heard')
    (hread : ∀ flag now sent n rounds, e = .receive (.packet flag now sent n rounds) →
      s.revents s.currSubstream.toNat = .input → flag ≠ .fin ∧
        (s.csk.sockfd s.currSubstream.toNat, flag) ∈ heard')
    (hclose : e ≠ .close) (hstep : handleStep s e = some s') (hin : s'.inRange = true) :
    StepOk s s' heard' (handleMail s e) := by
  cases e with
  | poll result =>
      obtain ⟨-, hstep⟩ := of_ite_some hstep
      cases hstep
      exact stepOk_of_moved hreached hquiet (pollStep_moved s result) hsub (by simp [handleMail])
  | receive r =>
      obtain ⟨-, hstep⟩ := of_ite_some hstep
      have hbody := receiveBody_ok (s := { s.use s.currSubstream with
          passes := s.passes + 1
          reads := if s.revents s.currSubstream.toNat = .input then
            s.reads ++ [s.currSubstream.toNat] else s.reads })
        hreached hquiet hsub (fun flag now sent n rounds hr => hread flag now sent n rounds
          (congrArg _ hr)) hstep
      exact { hbody with }
  | timer now =>
      simp only [handleStep] at hstep
      split at hstep
      next k hphase =>
        cases hstep
        have hmoved := timerStep_moved hquiet hin
        have hmail (m : Mail) (hm : m ∈ handleMail s (.timer now)) :
            m.2 ≠ .finAck ∧ (m.2 = .normal → ∃ f, (m.1, f) ∈ heard) := by
          simp only [handleMail, hphase] at hm
          exact timerMail_spec hreached hquiet hin hm
        have hok : StepOk s (timerStep s k now) heard' [] :=
          stepOk_of_moved hreached hquiet hmoved hsub (by simp)
        exact { hok with
          normal := fun x hx => by
            obtain ⟨f, hf⟩ := (hmail _ hx).2 rfl
            exact ⟨f, hsub hf⟩
          finAck := fun x hx => absurd rfl (hmail _ hx).1 }
      · cases hstep
  | close => exact absurd rfl hclose

end HandleConn

end Ctcp
