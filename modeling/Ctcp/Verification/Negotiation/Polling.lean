import Ctcp.Verification.Negotiation.Client

/-! # What a call of `proxy_poll_connect` leaves -/

namespace Ctcp

open Program

variable {p p' : ProxyCon} {t : PollTalk} {stack : PollStack}

/-- The status is left as `f` says, and the call returns 0. -/
theorem polled_next {q : ProxyCon} (hsame : q.target = p.target)
    (hstage : LoginStage q t.heard t.said) : PollEnd stack p t (.ok (0, q)) :=
  ⟨hsame, fun _ => hstage, by simp⟩

theorem polled_done {q : ProxyCon} (hsame : q.target = p.target)
    (hdone : Finished stack q t.heard t.said) : PollEnd stack p t (.ok (1, q)) :=
  ⟨hsame, by simp, fun _ => hdone⟩

/-! ## SOCKS5 -/

theorem sendMet_keeps (hsame : p'.target = p.target) (hI : SaysPart p t)
    (htype : p'.proxy.type = .socks5) (hheard : t.heard = []) (hsaid : t.said = []) :
    (sendRequest p' (s5Methods p'.proxy) .s5WaitMet .error).Keeps PollAnswers (SaysPart p)
      (PollEnd stack p) t := by
  obtain ⟨hproxy, -⟩ := target_eq_iff.mp hsame
  apply sendRequest_keeps hsame hI
  · intro n
    refine .methods (hproxy ▸ htype) ?_
    rw [Talk.say_said, hsaid, ← hproxy]
    exact List.take_prefix _ _
  · exact ⟨htype, hheard, by rw [hsaid]; rfl⟩

theorem waitMet_keeps (hsame : p'.target = p.target) (hI : SaysPart p t)
    (htype : p'.proxy.type = .socks5) (hheard : t.heard = [])
    (hsaid : t.said = s5Methods p'.proxy) (hstatus : p'.status = .s5WaitMet) :
    (pollStatus stack p').Keeps PollAnswers (SaysPart p) (PollEnd stack p) t := by
  simp only [pollStatus, hstatus]
  apply readReply_keeps hsame hI
  intro bs hmin hmax hI'
  obtain ⟨ver, method, a, b, c, d, e, rfl⟩ :
      ∃ ver method a b c d e, bs = [ver, method, a, b, c, d, e] := by
    match bs, Nat.le_antisymm hmax hmin with
    | [ver, method, a, b, c, d, e], _ => exact ⟨ver, method, a, b, c, d, e, rfl⟩
  have hport : elems [ver, method, a, b, c, d, e] 2 5 = [a, b, c, d, e] := rfl
  simp only [List.getD_cons_zero, List.getD_cons_succ, hport]
  split
  case isTrue => exact polled_fail hsame _ _ _
  case isFalse hver =>
  obtain rfl := not_not.mp hver
  split
  case isTrue hmethod =>
    subst hmethod
    refine polled_next hsame ⟨htype, ?_⟩
    rw [Talk.hear_heard, Talk.hear_said, hheard, hsaid]
    exact .plain rfl rfl
  case isFalse =>
  split
  case isTrue hmethod =>
    subst hmethod
    refine polled_next hsame ⟨htype, [a, b, c, d, e], rfl, rfl, ?_, hsaid⟩
    rw [Talk.hear_heard, hheard]
    rfl
  case isFalse => exact polled_fail hsame _ _ _

theorem sendAuth_keeps (hsame : p'.target = p.target) (hI : SaysPart p t)
    (hstage : LoginStage p' t.heard t.said) (hstatus : p'.status = .s5SendAuth) :
    (pollStatus stack p').Keeps PollAnswers (SaysPart p) (PollEnd stack p) t := by
  obtain ⟨hproxy, -⟩ := target_eq_iff.mp hsame
  simp only [LoginStage, hstatus] at hstage
  obtain ⟨htype, port, hport, hctcp, hheard, hsaid⟩ := hstage
  simp only [pollStatus, hstatus]
  cases hbytes : s5Login p'.proxy with
  | error e => exact PollFault.auth (hproxy ▸ htype) hport hheard (hproxy ▸ hbytes)
  | ok bytes =>
      simp only [orFault]
      split
      case isTrue =>
        have hstart : 5 :: 2 :: port <+: t.heard := by rw [hheard]
        apply sendRequest_keeps hsame hI
        · intro n
          refine .auth (hproxy ▸ htype) hport hstart (hproxy ▸ hbytes) ?_
          rw [Talk.say_said, hsaid, ← hproxy]
          exact (List.prefix_append_right_inj _).mpr (List.take_prefix _ _)
        · exact ⟨htype, port, bytes, hport, hctcp, hheard, hbytes, by rw [hsaid]⟩
      case isFalse hnothing =>
        obtain rfl := not_not.mp hnothing
        exact polled_next hsame
          ⟨htype, port, [], hport, hctcp, hheard, hbytes, hsaid.trans (List.append_nil _).symm⟩

theorem waitAuth_keeps (hsame : p'.target = p.target) (hI : SaysPart p t)
    (hstage : LoginStage p' t.heard t.said) (hstatus : p'.status = .s5WaitAuth) :
    (pollStatus stack p').Keeps PollAnswers (SaysPart p) (PollEnd stack p) t := by
  simp only [LoginStage, hstatus] at hstage
  obtain ⟨htype, port, bytes, hport, hctcp, hheard, hbytes, hsaid⟩ := hstage
  simp only [pollStatus, hstatus]
  apply readReply_keeps hsame hI
  intro bs hmin hmax hI'
  obtain ⟨ver, status, rfl⟩ := List.length_eq_two.mp (Nat.le_antisymm hmax hmin)
  simp only [List.getD_cons_zero, List.getD_cons_succ]
  split
  case isTrue => exact polled_fail hsame _ _ _
  case isFalse hzero =>
    obtain rfl := not_not.mp hzero
    refine polled_next hsame ⟨htype, ?_⟩
    rw [Talk.hear_heard, Talk.hear_said, hheard, hsaid]
    exact .auth hport hctcp hbytes

theorem sendReq_keeps (hsame : p'.target = p.target) (hI : SaysPart p t)
    (htype : p'.proxy.type = .socks5) (hauth : Authorised p' t.heard t.said)
    (hstatus : p'.status = .s5SendReq) :
    (pollStatus stack p').Keeps PollAnswers (SaysPart p) (PollEnd stack p) t := by
  obtain ⟨hproxy, -⟩ := target_eq_iff.mp hsame
  have htype' : p.proxy.type = .socks5 := hproxy ▸ htype
  simp only [pollStatus, hstatus]
  cases hrequest : s5Request p' with
  | error e =>
      exact PollFault.request htype' hproxy hauth ((s5Request_congr hsame).symm.trans hrequest)
  | ok request =>
      apply sendRequest_keeps hsame hI
      · intro n
        refine .request htype' hproxy hauth List.prefix_rfl
          ((s5Request_congr hsame).symm.trans hrequest) ?_
        exact (List.prefix_append_right_inj _).mpr (List.take_prefix _ _)
      · exact ⟨htype, t.said, request, hauth.congr rfl rfl, hrequest, rfl⟩

/-- Setting the remote address changes nothing else. -/
theorem setRemote_eq {buf : List UInt8} {q : ProxyCon} (h : setRemote p' buf = .ok q) :
    q.target = p'.target ∧ q.ctcpPort = p'.ctcpPort ∧ q.status = p'.status := by
  simp only [setRemote, setRemoteIp] at h
  split at h
  · split at h
    · cases h
    · cases h
      exact ⟨rfl, rfl, rfl⟩
  split at h
  · split at h
    · cases h
      exact ⟨rfl, rfl, rfl⟩
    split at h
    · cases h
    · cases h
      exact ⟨rfl, rfl, rfl⟩
  · cases h
    exact ⟨rfl, rfl, rfl⟩

theorem checkS5_keeps (hsame : p'.target = p.target) {bs : List UInt8} (hlen : 2 ≤ bs.length)
    {k : PollProgram} (hk : Grants 0 bs → k.Keeps PollAnswers (SaysPart p) (PollEnd stack p) t) :
    (checkS5 p' (overlay stack.buf bs) k).Keeps PollAnswers (SaysPart p) (PollEnd stack p) t := by
  simp only [checkS5]
  split
  case isTrue => exact polled_fail hsame _ _ _
  case isFalse hzero => exact hk (grants_of_charVal hlen (not_not.mp hzero))

theorem waitReq_keeps (hsame : p'.target = p.target) (hI : SaysPart p t)
    (hstage : LoginStage p' t.heard t.said) (hstatus : p'.status = .s5WaitReq) :
    (pollStatus stack p').Keeps PollAnswers (SaysPart p) (PollEnd stack p) t := by
  obtain ⟨hproxy, -⟩ := target_eq_iff.mp hsame
  simp only [LoginStage, hstatus] at hstage
  obtain ⟨htype, said, request, hauth, hrequest, hsaid⟩ := hstage
  simp only [pollStatus, hstatus]
  apply readReply_keeps hsame hI
  rintro bs hmin - hI'
  apply checkS5_keeps hsame hmin
  intro hgrants
  cases hremote : setRemote p' (overlay stack.buf bs) with
  | error e =>
      refine PollFault.reply (hproxy ▸ htype) hproxy hauth hgrants ?_ hremote
      rw [Talk.hear_heard]
  | ok q =>
      obtain ⟨htarget, hctcp, -⟩ := setRemote_eq hremote
      have hsame' : q.target = p.target := htarget.trans hsame
      obtain ⟨hproxy', hcmd', -⟩ := target_eq_iff.mp htarget
      have hauth' (status : ProxyCs) (waitRead : Bool) :
          Authorised { q with status := status, waitRead := waitRead } t.heard said :=
        hauth.congr hproxy' hctcp
      have hrequest' : s5Request q = .ok request := (s5Request_congr htarget).trans hrequest
      simp only [orFault]
      split
      case isTrue hcmd =>
        refine polled_done hsame' ?_
        rw [Talk.hear_said, hsaid]
        exact .socks5 (hproxy' ▸ htype) hcmd (hauth' _ _) hrequest' hgrants
      case isFalse hcmd =>
        exact polled_next hsame' ⟨hproxy' ▸ htype, t.heard, bs, said, request, not_not.mp hcmd,
          hauth' _ _, hrequest', hgrants, rfl, hsaid⟩

theorem waitReq2_keeps (hsame : p'.target = p.target) (hI : SaysPart p t)
    (hstage : LoginStage p' t.heard t.said) (hstatus : p'.status = .s5WaitReq2) :
    (pollStatus stack p').Keeps PollAnswers (SaysPart p) (PollEnd stack p) t := by
  simp only [LoginStage, hstatus] at hstage
  obtain ⟨htype, heard, reply, said, request, hcmd, hauth, hrequest, hgrants, hheard, hsaid⟩ :=
    hstage
  simp only [pollStatus, hstatus]
  apply readReply_keeps hsame hI
  rintro bs hmin - hI'
  apply checkS5_keeps hsame hmin
  intro hgrants'
  refine polled_done hsame ?_
  rw [Talk.hear_heard, Talk.hear_said, hheard, hsaid]
  exact .socks5Bind htype hcmd (hauth.congr rfl rfl) hrequest hgrants hgrants'

/-! ## SOCKS4 -/

theorem checkS4_keeps (hsame : p'.target = p.target) {bs : List UInt8} (hlen : 2 ≤ bs.length)
    {k : PollProgram} (hk : Grants 90 bs → k.Keeps PollAnswers (SaysPart p) (PollEnd stack p) t) :
    (checkS4 p' (overlay stack.buf bs) k).Keeps PollAnswers (SaysPart p) (PollEnd stack p) t := by
  simp only [checkS4]
  split
  case isTrue => exact polled_fail hsame _ _ _
  case isFalse hok => exact hk (grants_of_charVal hlen (not_not.mp hok))

theorem s4SendReq_keeps (hsame : p'.target = p.target) (hI : SaysPart p t)
    (hstage : LoginStage p' t.heard t.said) (hstatus : p'.status = .s4SendReq) :
    (pollStatus stack p').Keeps PollAnswers (SaysPart p) (PollEnd stack p) t := by
  obtain ⟨hproxy, -, -, hname⟩ := target_eq_iff.mp hsame
  simp only [LoginStage, hstatus] at hstage
  obtain ⟨htype, hheard, hsaid⟩ := hstage
  simp only [pollStatus, hstatus]
  apply keeps_ask
  intro a ha
  refine ⟨hI.tell, ?_⟩
  cases a with
  | host ip =>
      cases ip with
      | none => exact polled_fail hsame _ _ _
      | some ip =>
          apply keeps_ask
          intro b hb
          refine ⟨hI.tell.tell, ?_⟩
          cases b with
          | uid uid =>
              apply sendRequest_keeps hsame hI.tell.tell
              · intro n
                have hprefix : t.said ++ (s4Request p' ip uid).take n <+: s4Request p ip uid := by
                  rw [hsaid, ← s4Request_congr hsame]
                  exact List.take_prefix _ _
                refine .socks4 (hproxy ▸ htype) ?_ hprefix
                rw [← hname]
                exact List.mem_append_left _ (List.mem_append_right _ (List.mem_singleton_self _))
              · refine ⟨htype, hheard, ip, uid, ?_⟩
                change t.said ++ _ = _
                rw [hsaid]
                rfl
          | _ => cases hb
  | _ => cases ha

theorem s4WaitReq_keeps (hsame : p'.target = p.target) (hI : SaysPart p t)
    (hstage : LoginStage p' t.heard t.said) (hstatus : p'.status = .s4WaitReq) :
    (pollStatus stack p').Keeps PollAnswers (SaysPart p) (PollEnd stack p) t := by
  obtain ⟨hproxy, -⟩ := target_eq_iff.mp hsame
  simp only [LoginStage, hstatus] at hstage
  obtain ⟨htype, hheard, ip, uid, hsaid⟩ := hstage
  simp only [pollStatus, hstatus]
  apply readReply_keeps hsame hI
  rintro bs hmin - hI'
  apply checkS4_keeps hsame hmin
  intro hgrants
  have hheard' : (t.hear bs).heard = bs := by rw [Talk.hear_heard, hheard, List.nil_append]
  rw [setRemoteIp]
  split
  case isTrue hlong =>
    exact PollFault.socks4 (hproxy ▸ htype) (hheard'.symm ▸ hgrants) (hheard'.symm ▸ hlong)
  case isFalse =>
    simp only [orFault]
    split
    case isTrue hcmd =>
      refine polled_done hsame ?_
      rw [hheard', Talk.hear_said, hsaid]
      exact .socks4 htype hcmd hgrants
    case isFalse hcmd =>
      refine polled_next hsame ⟨htype, hcmd, ?_, ip, uid, hsaid⟩
      rw [hheard']
      exact hgrants

theorem s4WaitReq2_keeps (hsame : p'.target = p.target) (hI : SaysPart p t)
    (hstage : LoginStage p' t.heard t.said) (hstatus : p'.status = .s4WaitReq2) :
    (pollStatus stack p').Keeps PollAnswers (SaysPart p) (PollEnd stack p) t := by
  simp only [LoginStage, hstatus] at hstage
  obtain ⟨htype, hcmd, hgrants, ip, uid, hsaid⟩ := hstage
  simp only [pollStatus, hstatus]
  apply readReply_keeps hsame hI
  rintro bs hmin - hI'
  apply checkS4_keeps hsame hmin
  intro hgrants'
  refine polled_done hsame ?_
  rw [Talk.hear_said, hsaid]
  exact .socks4Bind htype hcmd hgrants hgrants'

/-! ## HTTP CONNECT -/

theorem hcSendReq_keeps (hsame : p'.target = p.target) (hI : SaysPart p t)
    (hstage : LoginStage p' t.heard t.said) (hstatus : p'.status = .hcSendReq) :
    (pollStatus stack p').Keeps PollAnswers (SaysPart p) (PollEnd stack p) t := by
  obtain ⟨hproxy, -⟩ := target_eq_iff.mp hsame
  simp only [LoginStage, hstatus] at hstage
  obtain ⟨htype, hheard, hsaid⟩ := hstage
  simp only [pollStatus, hstatus]
  cases hrequest : hcRequest p' with
  | error e =>
      exact PollFault.httpRequest (hproxy ▸ htype) hsaid
        ((hcRequest_congr hsame).symm.trans hrequest)
  | ok request =>
      apply sendRequest_keeps hsame hI
      · intro n
        refine .http (hproxy ▸ htype) ((hcRequest_congr hsame).symm.trans hrequest) ?_
        rw [Talk.say_said, hsaid]
        exact List.take_prefix _ _
      · refine ⟨htype, hheard, ?_⟩
        rw [hsaid]
        exact hrequest

theorem hcWaitReq_keeps (hsame : p'.target = p.target) (hI : SaysPart p t)
    (hstage : LoginStage p' t.heard t.said) (hstatus : p'.status = .hcWaitReq) :
    (pollStatus stack p').Keeps PollAnswers (SaysPart p) (PollEnd stack p) t := by
  obtain ⟨hproxy, -⟩ := target_eq_iff.mp hsame
  simp only [LoginStage, hstatus] at hstage
  obtain ⟨htype, hheard, hrequest⟩ := hstage
  simp only [pollStatus, hstatus]
  apply readReply_keeps hsame hI
  rintro bs - hmax hI'
  have hheard' : (t.hear bs).heard = bs := by rw [Talk.hear_heard, hheard, List.nil_append]
  split
  case isTrue hfull =>
    refine PollFault.httpReply (hproxy ▸ htype) ((hcRequest_congr hsame).symm.trans hrequest) ?_
    rw [hheard']
    exact Nat.le_antisymm hmax hfull
  case isFalse =>
  split
  case isTrue => exact polled_fail hsame _ _ _
  case isFalse hok =>
    refine polled_done hsame ?_
    rw [hheard']
    exact .http htype hrequest (not_not.mp hok)

/-! ## All statuses -/

theorem pollStatus_keeps (hsame : p'.target = p.target) (hI : SaysPart p t)
    (hstage : LoginStage p' t.heard t.said) :
    (pollStatus stack p').Keeps PollAnswers (SaysPart p) (PollEnd stack p) t := by
  cases hstatus : p'.status with
  | connecting =>
      simp only [LoginStage, hstatus] at hstage
      obtain ⟨hheard, hsaid⟩ := hstage
      simp only [pollStatus, hstatus]
      apply keeps_ask
      intro a ha
      refine ⟨hI.tell, ?_⟩
      cases a with
      | ok b =>
          cases b with
          | false => exact polled_fail hsame _ _ _
          | true =>
              apply keeps_ask
              intro c hc
              refine ⟨hI.tell.tell, ?_⟩
              cases c with
              | ok b =>
                  cases b with
                  | false => exact polled_fail hsame _ _ _
                  | true =>
                      refine polled_next hsame ?_
                      cases htype : p'.proxy.type <;>
                        exact ⟨htype, hheard, hsaid⟩
              | _ => cases hc
      | _ => cases ha
  | s5SendMet =>
      simp only [LoginStage, hstatus] at hstage
      simp only [pollStatus, hstatus]
      exact sendMet_keeps hsame hI hstage.1 hstage.2.1 hstage.2.2
  | s5WaitMet =>
      simp only [LoginStage, hstatus] at hstage
      exact waitMet_keeps hsame hI hstage.1 hstage.2.1 hstage.2.2 hstatus
  | s5SendAuth => exact sendAuth_keeps hsame hI hstage hstatus
  | s5WaitAuth => exact waitAuth_keeps hsame hI hstage hstatus
  | s5SendReq =>
      simp only [LoginStage, hstatus] at hstage
      exact sendReq_keeps hsame hI hstage.1 hstage.2 hstatus
  | s5WaitReq => exact waitReq_keeps hsame hI hstage hstatus
  | s5WaitReq2 => exact waitReq2_keeps hsame hI hstage hstatus
  | s4SendReq => exact s4SendReq_keeps hsame hI hstage hstatus
  | s4WaitReq => exact s4WaitReq_keeps hsame hI hstage hstatus
  | s4WaitReq2 => exact s4WaitReq2_keeps hsame hI hstage hstatus
  | hcSendReq => exact hcSendReq_keeps hsame hI hstage hstatus
  | hcWaitReq => exact hcWaitReq_keeps hsame hI hstage hstatus
  | http =>
      simp only [pollStatus, hstatus]
      exact polled_fail hsame t .http .param
  | connected | error => simp only [LoginStage, hstatus] at hstage

theorem proxyPollConnect_keeps (hsame : p'.target = p.target) (hI : SaysPart p t)
    (hstage : LoginStage p' t.heard t.said) :
    (proxyPollConnect stack p').Keeps PollAnswers (SaysPart p) (PollEnd stack p) t := by
  apply keeps_ask
  intro a ha
  refine ⟨hI.tell, ?_⟩
  -- the flags that are cleared before `poll`
  set q : ProxyCon :=
    { p' with waitRead := false, waitWrite := p'.waitRead && p'.waitWrite }
  have hstage' : LoginStage q t.heard t.said := hstage.congr rfl rfl rfl
  have hsame' : q.target = p.target := hsame
  cases a with
  | polled res =>
      cases res with
      | timeout => exact polled_next hsame' hstage'
      | failed => exact ⟨hsame', by simp, by simp⟩
      | ready => exact pollStatus_keeps hsame' hI.tell hstage'
  | _ => cases ha

end Ctcp
