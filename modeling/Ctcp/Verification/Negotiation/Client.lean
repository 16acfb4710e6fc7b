import Ctcp.Model.UpProxy
import Mathlib.Data.List.Infix

/-! # `proxy_connect` says what the proxy has asked for

This holds for every proxy, however its bytes arrive. -/

namespace Ctcp

open Program

abbrev PollTalk := Talk UInt8 PollQuestion PollTold

/-! ## How far the negotiation is -/

/-- The proxy lets the client go on: with a method that asks for nothing, or after it has
accepted name and password. It has also told its port. -/
inductive Authorised (p : ProxyCon) : List UInt8 → List UInt8 → Prop where
  | plain {port : List UInt8} (hport : port.length = 5) (hctcp : p.ctcpPort = some port) :
      Authorised p (5 :: 0 :: port) (s5Methods p.proxy)
  | auth {port bytes : List UInt8} {ver : UInt8} (hport : port.length = 5)
      (hctcp : p.ctcpPort = some port) (hbytes : s5Login p.proxy = .ok bytes) :
      Authorised p (5 :: 2 :: port ++ [ver, 0]) (s5Methods p.proxy ++ bytes)

/-- A reply in which the second byte is `code`. -/
def Grants (code : UInt8) (reply : List UInt8) : Prop :=
  ∃ ver rest, reply = ver :: code :: rest

/-- What was heard and said when the negotiation ends well, with this on the stack of the last
round. -/
inductive Finished (stack : PollStack) (p : ProxyCon) : List UInt8 → List UInt8 → Prop where
  | socks5 {heard said request reply : List UInt8} (htype : p.proxy.type = .socks5)
      (hcmd : p.proxyCmd ≠ .bind) (hauth : Authorised p heard said)
      (hrequest : s5Request p = .ok request) (hreply : Grants 0 reply) :
      Finished stack p (heard ++ reply) (said ++ request)
  | socks5Bind {heard said request reply reply' : List UInt8} (htype : p.proxy.type = .socks5)
      (hcmd : p.proxyCmd = .bind) (hauth : Authorised p heard said)
      (hrequest : s5Request p = .ok request) (hreply : Grants 0 reply)
      (hreply' : Grants 0 reply') :
      Finished stack p (heard ++ reply ++ reply') (said ++ request)
  | socks4 {ip reply : List UInt8} {uid : ℕ} (htype : p.proxy.type = .socks4)
      (hcmd : p.proxyCmd = .connect) (hreply : Grants 90 reply) :
      Finished stack p reply (s4Request p ip uid)
  | socks4Bind {ip reply reply' : List UInt8} {uid : ℕ} (htype : p.proxy.type = .socks4)
      (hcmd : p.proxyCmd ≠ .connect) (hreply : Grants 90 reply) (hreply' : Grants 90 reply') :
      Finished stack p (reply ++ reply') (s4Request p ip uid)
  | http {request reply : List UInt8} (htype : p.proxy.type = .httpConnect)
      (hrequest : hcRequest p = .ok request)
      (hreply : (scanHttp reply stack.adam).tdiv 100 = 2) : Finished stack p reply request

/-- What was heard and said when a status is reached. With `PROXY_CS_CONNECTED` nothing is left to
do. -/
def LoginStage (p : ProxyCon) (heard said : List UInt8) : Prop :=
  match p.status with
  | .connecting => heard = [] ∧ said = []
  | .s5SendMet => p.proxy.type = .socks5 ∧ heard = [] ∧ said = []
  | .s5WaitMet => p.proxy.type = .socks5 ∧ heard = [] ∧ said = s5Methods p.proxy
  | .s5SendAuth =>
    p.proxy.type = .socks5 ∧ ∃ port : List UInt8, port.length = 5 ∧ p.ctcpPort = some port ∧
      heard = 5 :: 2 :: port ∧ said = s5Methods p.proxy
  | .s5WaitAuth =>
    p.proxy.type = .socks5 ∧ ∃ port bytes : List UInt8, port.length = 5 ∧
      p.ctcpPort = some port ∧ heard = 5 :: 2 :: port ∧ s5Login p.proxy = .ok bytes ∧
        said = s5Methods p.proxy ++ bytes
  | .s5SendReq => p.proxy.type = .socks5 ∧ Authorised p heard said
  | .s5WaitReq =>
    p.proxy.type = .socks5 ∧ ∃ said' request, Authorised p heard said' ∧
      s5Request p = .ok request ∧ said = said' ++ request
  | .s5WaitReq2 =>
    p.proxy.type = .socks5 ∧ ∃ heard' reply said' request, p.proxyCmd = .bind ∧
      Authorised p heard' said' ∧ s5Request p = .ok request ∧ Grants 0 reply ∧
        heard = heard' ++ reply ∧ said = said' ++ request
  | .s4SendReq => p.proxy.type = .socks4 ∧ heard = [] ∧ said = []
  | .s4WaitReq => p.proxy.type = .socks4 ∧ heard = [] ∧ ∃ ip uid, said = s4Request p ip uid
  | .s4WaitReq2 =>
    p.proxy.type = .socks4 ∧ p.proxyCmd ≠ .connect ∧ Grants 90 heard ∧
      ∃ ip uid, said = s4Request p ip uid
  | .hcSendReq => p.proxy.type = .httpConnect ∧ heard = [] ∧ said = []
  | .hcWaitReq => p.proxy.type = .httpConnect ∧ heard = [] ∧ hcRequest p = .ok said
  | .http => p.proxy.type = .http ∧ heard = [] ∧ said = []
  | .connected | .error => False

/-- What has been said, at any moment. -/
inductive SaysPart (p : ProxyCon) (t : PollTalk) : Prop where
  | methods (htype : p.proxy.type = .socks5) (h : t.said <+: s5Methods p.proxy)
  | auth {port bytes : List UInt8} (htype : p.proxy.type = .socks5)
      (hport : port.length = 5) (hheard : 5 :: 2 :: port <+: t.heard)
      (hbytes : s5Login p.proxy = .ok bytes) (h : t.said <+: s5Methods p.proxy ++ bytes)
  | request {p' : ProxyCon} {heard said request : List UInt8} (htype : p.proxy.type = .socks5)
      (hproxy : p'.proxy = p.proxy) (hauth : Authorised p' heard said) (hheard : heard <+: t.heard)
      (hrequest : s5Request p = .ok request) (h : t.said <+: said ++ request)
  | socks4 {ip : List UInt8} {uid : ℕ} (htype : p.proxy.type = .socks4)
      (hip : (.gethostbyname p.targetName, .host (some ip)) ∈ t.told)
      (h : t.said <+: s4Request p ip uid)
  | http {request : List UInt8} (htype : p.proxy.type = .httpConnect)
      (hrequest : hcRequest p = .ok request) (h : t.said <+: request)
  | silent (h : t.said = [])

/-- Where the program leaves what C defines: in the texts that it makes for the proxy, in the
address of a reply that grants the request, and behind a reply that fills `buf`. -/
inductive PollFault (stack : PollStack) (p : ProxyCon) (t : PollTalk) : Fault → Prop where
  | auth {port : List UInt8} {e : Fault} (htype : p.proxy.type = .socks5)
      (hport : port.length = 5) (hheard : t.heard = 5 :: 2 :: port)
      (h : s5Login p.proxy = .error e) : PollFault stack p t e
  | request {p' : ProxyCon} {e : Fault} (htype : p.proxy.type = .socks5)
      (hproxy : p'.proxy = p.proxy) (hauth : Authorised p' t.heard t.said)
      (h : s5Request p = .error e) : PollFault stack p t e
  | reply {p' : ProxyCon} {heard said reply : List UInt8} {e : Fault}
      (htype : p.proxy.type = .socks5) (hproxy : p'.proxy = p.proxy)
      (hauth : Authorised p' heard said) (hreply : Grants 0 reply)
      (hheard : t.heard = heard ++ reply)
      (h : setRemote p' (overlay stack.buf reply) = .error e) : PollFault stack p t e
  | socks4 (htype : p.proxy.type = .socks4) (hreply : Grants 90 t.heard)
      (h : 16 < (dottedChars (elems (overlay stack.buf t.heard) 4 4)).length + 1) :
      PollFault stack p t .overrun
  | httpRequest {e : Fault} (htype : p.proxy.type = .httpConnect) (hsaid : t.said = [])
      (h : hcRequest p = .error e) : PollFault stack p t e
  | httpReply (htype : p.proxy.type = .httpConnect) (hrequest : hcRequest p = .ok t.said)
      (h : t.heard.length = proxyNegBufLen) : PollFault stack p t .overrun

/-- What the negotiation does not change. -/
def ProxyCon.target (p : ProxyCon) : TProxy × ProxyCmd × ℕ × List UInt8 :=
  (p.proxy, p.proxyCmd, p.targetPort, p.targetName)

/-- How `proxy_poll_connect` returns. -/
def PollEnd (stack : PollStack) (p : ProxyCon) (t : PollTalk) :
    Except Fault (ℤ × ProxyCon) → Prop
  | .ok (res, p') =>
    p'.target = p.target ∧ (res = 0 → LoginStage p' t.heard t.said) ∧
      (0 < res → Finished stack p' t.heard t.said)
  | .error e => PollFault stack p t e

variable {p p' : ProxyCon} {t : PollTalk} {stack : PollStack}

theorem target_eq_iff : p'.target = p.target ↔ p'.proxy = p.proxy ∧ p'.proxyCmd = p.proxyCmd ∧
    p'.targetPort = p.targetPort ∧ p'.targetName = p.targetName := by
  simp [ProxyCon.target]

theorem s5Request_congr (h : p'.target = p.target) : s5Request p' = s5Request p := by
  obtain ⟨-, hcmd, hport, hname⟩ := target_eq_iff.mp h
  rw [s5Request, s5Request, hcmd, hport, hname]

theorem s4Request_congr (h : p'.target = p.target) (ip : List UInt8) (uid : ℕ) :
    s4Request p' ip uid = s4Request p ip uid := by
  obtain ⟨-, hcmd, hport, -⟩ := target_eq_iff.mp h
  rw [s4Request, s4Request, hcmd, hport]

theorem hcRequest_congr (h : p'.target = p.target) : hcRequest p' = hcRequest p := by
  obtain ⟨hproxy, -, hport, hname⟩ := target_eq_iff.mp h
  rw [hcRequest, hcRequest, hcTarget, hcTarget, hproxy, hport, hname]

section

variable {heard said : List UInt8}

theorem Authorised.congr (h : Authorised p heard said) (hproxy : p'.proxy = p.proxy)
    (hctcp : p'.ctcpPort = p.ctcpPort) : Authorised p' heard said := by
  cases h with
  | plain hport hp => exact hproxy ▸ .plain hport (hctcp.trans hp)
  | auth hport hp hbytes =>
      rw [← hproxy] at hbytes ⊢
      exact .auth hport (hctcp.trans hp) hbytes

/-- Flags and error numbers do not matter. -/
theorem LoginStage.congr (h : LoginStage p heard said) (htarget : p'.target = p.target)
    (hctcp : p'.ctcpPort = p.ctcpPort) (hstatus : p'.status = p.status) :
    LoginStage p' heard said := by
  obtain ⟨hproxy, hcmd, -⟩ := target_eq_iff.mp htarget
  rw [LoginStage, hstatus]
  rw [LoginStage] at h
  cases hp : p.status with
  | s5SendReq =>
      simp only [hp] at h ⊢
      exact ⟨hproxy ▸ h.1, h.2.congr hproxy hctcp⟩
  | s5WaitReq =>
      simp only [hp] at h ⊢
      obtain ⟨htype, said', request, hauth, hrequest, hsaid⟩ := h
      exact ⟨hproxy ▸ htype, said', request, hauth.congr hproxy hctcp,
        (s5Request_congr htarget).trans hrequest, hsaid⟩
  | s5WaitReq2 =>
      simp only [hp] at h ⊢
      obtain ⟨htype, heard', reply, said', request, hbind, hauth, hrequest, hgrants⟩ := h
      exact ⟨hproxy ▸ htype, heard', reply, said', request, hcmd ▸ hbind,
        hauth.congr hproxy hctcp, (s5Request_congr htarget).trans hrequest, hgrants⟩
  | connected | error => simp only [hp] at h
  | _ =>
      simp only [hp] at h ⊢
      simpa only [hproxy, hcmd, hctcp, s4Request_congr htarget, hcRequest_congr htarget] using h

end

namespace SaysPart

theorem hear (t : PollTalk) (bs : List UInt8) (h : SaysPart p t) : SaysPart p (t.hear bs) := by
  have hmore : t.heard <+: (t.hear bs).heard := List.prefix_append _ _
  cases h with
  | methods htype h => exact .methods htype h
  | auth htype hport hheard hbytes h =>
      exact .auth htype hport (hheard.trans hmore) hbytes h
  | request htype hproxy hauth hheard hrequest h =>
      exact .request htype hproxy hauth (hheard.trans hmore) hrequest h
  | socks4 htype hip h => exact .socks4 htype hip h
  | http htype hrequest h => exact .http htype hrequest h
  | silent h => exact .silent h

theorem tell (h : SaysPart p t) {q : PollQuestion} {a : PollTold} :
    SaysPart p (t.tell q a) := by
  cases h with
  | methods htype h => exact .methods htype h
  | auth htype hport hheard hbytes h => exact .auth htype hport hheard hbytes h
  | request htype hproxy hauth hheard hrequest h =>
      exact .request htype hproxy hauth hheard hrequest h
  | socks4 htype hip h => exact .socks4 htype (List.mem_append_left _ hip) h
  | http htype hrequest h => exact .http htype hrequest h
  | silent h => exact .silent h

theorem fails (t : PollTalk) (h : SaysPart p t) : SaysPart p t.fails := by
  cases h with
  | methods htype h => exact .methods htype h
  | auth htype hport hheard hbytes h => exact .auth htype hport hheard hbytes h
  | request htype hproxy hauth hheard hrequest h =>
      exact .request htype hproxy hauth hheard hrequest h
  | socks4 htype hip h => exact .socks4 htype hip h
  | http htype hrequest h => exact .http htype hrequest h
  | silent h => exact .silent h

end SaysPart

/-! ## Reads and writes -/

theorem polled_fail (hsame : p'.target = p.target) :
    ∀ (t : PollTalk) (status : ProxyCs) (e : ProxyErr),
      PollEnd stack p t (.ok (-1, { p' with status := status, proxyErrno := e })) :=
  fun _ _ _ => ⟨hsame, by simp, by simp⟩

theorem sendRequest_keeps (hsame : p'.target = p.target) (hI : SaysPart p t) {bytes : List UInt8}
    {next failed : ProxyCs} (hsay : ∀ n, SaysPart p (t.say (bytes.take n)))
    (hnext : LoginStage { p' with status := next, waitRead := true } t.heard (t.said ++ bytes)) :
    (sendRequest p' bytes next failed).Keeps PollAnswers (SaysPart p) (PollEnd stack p) t := by
  refine keeps_write (fun n _ _ hn => ⟨hsay n, ?_⟩)
    ⟨SaysPart.fails t hI, polled_fail hsame _ failed .errno⟩
  change Keeps _ _ _ _ (if _ then _ else _)
  split
  case isTrue => exact polled_fail hsame _ failed .errno
  case isFalse hall =>
    have htake : bytes.take n = bytes := List.take_of_length_le (Nat.not_lt.mp hall)
    rw [htake]
    exact ⟨hsame, fun _ => hnext, by simp⟩

theorem readReply_keeps (hsame : p'.target = p.target) (hI : SaysPart p t) {room needed : ℕ}
    {short : ProxyErr} {k : List UInt8 → PollProgram}
    (hk : ∀ bs : List UInt8, needed ≤ bs.length → bs.length ≤ room → SaysPart p (t.hear bs) →
      (k bs).Keeps PollAnswers (SaysPart p) (PollEnd stack p) (t.hear bs)) :
    (readReply p' room needed short k).Keeps PollAnswers (SaysPart p) (PollEnd stack p) t := by
  refine keeps_read (fun bs hbs => ⟨SaysPart.hear t bs hI, ?_⟩)
    ⟨hI, polled_fail hsame _ .error .errno⟩
  change Keeps _ _ _ _ (if _ then _ else _)
  split
  case isTrue => exact polled_fail hsame _ .error short
  case isFalse hlong => exact hk bs (Nat.not_lt.mp hlong) hbs (SaysPart.hear t bs hI)

/-- The elements of a reply that was read. -/
theorem getD_overlay {buf bs : List UInt8} {i : ℕ} (hi : i < bs.length) :
    (overlay buf bs).getD i 0 = bs.getD i 0 := by
  rw [overlay, List.getD_eq_getElem?_getD, List.getD_eq_getElem?_getD,
    List.getElem?_append_left hi]

theorem charVal_inj {b c : UInt8} (h : charVal b = charVal c) : b = c := by
  have hval (b : UInt8) : charVal b = b.toBitVec.toInt := rfl
  rw [hval, hval] at h
  exact UInt8.toBitVec_inj.mp (BitVec.toInt_inj.mp h)

/-- A reply that is let through. -/
theorem grants_of_charVal {buf bs : List UInt8} {code : UInt8} (hlen : 2 ≤ bs.length)
    (h : charVal ((overlay buf bs).getD 1 0) = charVal code) : Grants code bs := by
  rw [getD_overlay hlen] at h
  match bs, hlen with
  | ver :: c :: rest, _ => exact ⟨ver, rest, by rw [← charVal_inj h]; rfl⟩

end Ctcp
