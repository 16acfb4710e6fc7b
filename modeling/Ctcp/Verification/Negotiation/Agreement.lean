import Ctcp.Verification.Negotiation.Parties

/-! # The client and the server of a negotiation agree

The client is `proxy_connect` for SOCKS5 and CONNECT, as `connect_client` calls it; the
server is `handle_con` of `child_remote.c`. -/

namespace Ctcp

open Program

/-! ## `proxy_connect` -/

theorem saysPart_start {p : ProxyCon} : SaysPart p .start := .silent rfl

theorem proxyConnect_keeps {frames : ℕ → PollStack} {p : ProxyCon}
    (hstatus : p.status = .connecting) :
    (proxyConnect frames p).Keeps (SaysPart p) (fun t r => PollEnd (frames r.1) p t r.2) where
  init := saysPart_start
  start := by
    have hstage : LoginStage p [] [] := by
      rw [LoginStage, hstatus]
      exact ⟨rfl, rfl⟩
    exact (proxyPollConnect_keeps rfl saysPart_start hstage).bind saysPart_start fun _ _ _ h => h
  again t r q hI hpost hagain := by
    obtain ⟨n, _ | ⟨(_ | k) | k, p'⟩⟩ := r
    · cases hagain
    · cases hagain
      obtain ⟨htarget, hstage, -⟩ := hpost
      exact (proxyPollConnect_keeps htarget hI (hstage rfl)).bind hI fun _ _ _ h => h
    · cases hagain
    · cases hagain

theorem proxyConnectNb_eq {proxy : TProxy} {name : List UInt8} {port : ℕ} {cmd : ProxyCmd}
    {p : ProxyCon} (h : proxyConnectNb proxy name port cmd = some p) :
    p.status = .connecting ∧ p.target = (proxy, cmd, port, name) := by
  rw [proxyConnectNb] at h
  split at h
  · cases h
    exact ⟨rfl, rfl⟩
  · cases h

/-- For every proxy of every type: what the client says is a part of its request, for SOCKS5 after
the methods and, if the proxy has asked for them, name and password. A request to an HTTP
proxy has name and password in it. It returns a connection only when the proxy has granted
the request; a reply of an HTTP proxy without a number grants it if `adam` on the stack does.
Where it leaves what C defines is named. -/
theorem proxyConnect_of_reachable {proxy : TProxy} {name : List UInt8} {port : ℕ} {cmd : ProxyCmd}
    {p : ProxyCon} {frames : ℕ → PollStack} (hp : proxyConnectNb proxy name port cmd = some p)
    {s : Speaker UInt8 PollQuestion PollTold (ℕ × Except Fault (ℤ × ProxyCon))}
    (h : (proxyConnect frames p).alone.Reachable s) :
    SaysPart p s.talk ∧
      (∀ n res q, s.prog = .done (n, .ok (res, q)) → 0 < res →
        Finished (frames n) q s.talk.heard s.talk.said) ∧
        ∀ n e, s.prog = .done (n, .error e) → PollFault (frames n) p s.talk e := by
  have hsound := Role.Keeps.sound (proxyConnect_keeps (proxyConnectNb_eq hp).1) h
  refine ⟨hsound.talk, fun n res q hprog hpos => ?_, fun n e hprog => ?_⟩
  · exact (hsound.returned hprog).2.2 hpos
  · exact hsound.returned hprog

namespace OneLogin

def proxy : TProxy := ⟨.socks5, true, some [117], some [112]⟩

def con : ProxyCon :=
  ⟨proxy, .connecting, .connect, false, true, 0, none, 80, [120], none, .none⟩

def frames (_ : ℕ) : PollStack := ⟨List.replicate proxyNegBufLen 0, 0⟩

def role : Role UInt8 PollQuestion PollTold (ℕ × Except Fault (ℤ × ProxyCon)) :=
  proxyConnect frames con

instance (q : PollQuestion) (a : PollTold) : Decidable (role.allow q a) :=
  inferInstanceAs (Decidable (PollAnswers q a))

/-- A proxy asks for name and password, and connects. -/
def replies : List (Option (StreamReply UInt8 PollTold)) :=
  let ready := some (.answer (.polled .ready))
  [ready, some (.answer (.ok true)), some (.answer (.ok true)), none,
   ready, some (.wrote 4), none, ready, some (.got [5, 2, 56, 48, 48, 49, 0]), none,
   some (.answer (.polled .timeout)), none, ready, some (.wrote 5), none,
   ready, some (.got [1, 0]), none, ready, some (.wrote 8), none,
   ready, some (.got [5, 0, 0, 1, 10, 0, 0, 2, 0, 80])]

def view (s : Speaker UInt8 PollQuestion PollTold (ℕ × Except Fault (ℤ × ProxyCon))) :
    Option ℤ × List UInt8 :=
  (match s.prog with
    | .done (_, .ok (res, _)) => some res
    | _ => none,
   s.talk.said)

end OneLogin

theorem proxyConnect_oneLogin :
    ∃ (s : Speaker UInt8 PollQuestion PollTold (ℕ × Except Fault (ℤ × ProxyCon))) (n : ℕ)
      (q : ProxyCon), s.talk.said = [5, 2, 0, 2, 1, 1, 117, 1, 112, 5, 1, 0, 3, 1, 120, 0, 80] ∧
        Finished (OneLogin.frames n) q s.talk.heard s.talk.said := by
  have hplay : (OneLogin.replies.foldlM OneLogin.role.next OneLogin.role.begin).map OneLogin.view =
      some (some 1, [5, 2, 0, 2, 1, 1, 117, 1, 112, 5, 1, 0, 3, 1, 120, 0, 80]) := by
    decide +kernel
  obtain ⟨s, hs, hview⟩ := Option.map_eq_some_iff.mp hplay
  have hprog : ∃ n q, s.prog = .done (n, .ok (1, q)) := by
    have hfst := congrArg Prod.fst hview
    simp only [OneLogin.view] at hfst
    split at hfst
    next n res q hprog => exact ⟨n, q, by rw [hprog, Option.some.inj hfst]⟩
    next => cases hfst
  obtain ⟨n, q, hprog⟩ := hprog
  have hdone := proxyConnect_of_reachable
    (rfl : proxyConnectNb OneLogin.proxy [120] 80 .connect = some OneLogin.con)
    (Role.alone_play (.init rfl) hs)
  exact ⟨s, n, q, congrArg Prod.snd hview, hdone.2.1 n 1 q hprog (by decide)⟩

/-! ## What the client says -/

/-- What the client sends if it has a name that is not too long. -/
def ProxyCon.wire (p : ProxyCon) : SocksRequest where
  methods := (s5Methods p.proxy).drop 2
  ver := 5
  cmd := p.proxyCmd.code
  rsv := 0
  addr := .domain p.targetName
  port := htons p.targetPort

theorem helloBytes_methods (proxy : TProxy) :
    helloBytes ((s5Methods proxy).drop 2) = s5Methods proxy := by
  rw [s5Methods]
  split <;> rfl

theorem length_methods_lt (proxy : TProxy) : ((s5Methods proxy).drop 2).length < 128 := by
  rw [s5Methods]
  split <;> decide

variable {p : ProxyCon}

theorem ProxyCon.wire_valid (hname : p.targetName.length < 128) : p.wire.Valid :=
  ⟨length_methods_lt _, hname, rfl⟩

theorem ProxyCon.wire_bytes {request : List UInt8} (h : s5Request p = .ok request) :
    p.wire.bytes = s5Methods p.proxy ++ request := by
  rw [s5Request] at h
  split at h
  · cases h
  · cases h
    rw [SocksRequest.bytes, SocksRequest.head, wire, helloBytes_methods, List.append_assoc]
    rfl

theorem s5Methods_isPrefix : s5Methods p.proxy <+: p.wire.bytes := by
  rw [SocksRequest.bytes, SocksRequest.head, ProxyCon.wire, helloBytes_methods, List.append_assoc]
  exact List.prefix_append _ _

/-! ## What the server says -/

variable {child : SocksChild} {reply field : List UInt8} {told : List (Question × Told)}
  {t : SocksTalk}

/-- After the method, a script goes on with a refusal, success for `CONNECT`, or the first answer
to `BIND`. -/
theorem Script.cases_method {script : List UInt8} (h : Script child reply told script) :
    (∃ se, se ≠ 0 ∧ script = refusal se) ∨
      ∃ se rest, script = reply ++ socksVer :: se :: rest ∧
        (se = 0 → Connected child told ∨ ∃ ip port, Listening told ip port) := by
  cases h with
  | refused hse => exact .inl ⟨_, hse, rfl⟩
  | failed hpreface hse =>
      cases hpreface with
      | method => exact .inr ⟨_, _, rfl, fun h => absurd h hse⟩
      | bound h => exact .inr ⟨0, _, List.append_assoc .., fun _ => .inr ⟨_, _, h⟩⟩
  | served hserved haddr =>
      cases hserved with
      | connect h => exact .inr ⟨0, _, rfl, fun _ => .inl h⟩
      | bind h => exact .inr ⟨0, _, List.append_assoc .., fun _ => .inr ⟨_, _, h⟩⟩

/-- The client hears the method, with the port, or less than seven bytes. -/
theorem Spoken.method (h : Spoken child (socksVer :: socksMethod :: field) t)
    (hfield : field.length = 5) {ver m : UInt8} {port : List UInt8} (hport : port.length = 5)
    (hsaid : ver :: m :: port <+: t.said) : m = socksMethod ∧ port = field := by
  obtain ⟨script, hscript, hprefix⟩ := h
  have hpre := hsaid.trans hprefix
  rcases hscript.cases_method with ⟨se, -, rfl⟩ | ⟨se, rest, rfl, -⟩
  · have hlen := hpre.length_le
    simp [hport, refusal] at hlen
  · rw [List.cons_append, List.cons_append, List.cons_prefix_cons, List.cons_prefix_cons] at hpre
    obtain ⟨-, hm, tail, htail⟩ := hpre
    exact ⟨hm, (List.append_inj htail (hport.trans hfield.symm)).1⟩

/-- The client hears success only if it is connected, or a socket listens for it. -/
theorem Spoken.served (h : Spoken child (socksVer :: socksMethod :: field) t) {ver : UInt8}
    {rest : List UInt8}
    (hsaid : (socksVer :: socksMethod :: field) ++ ver :: 0 :: rest <+: t.said) :
    Connected child t.told ∨ ∃ ip port, Listening t.told ip port := by
  obtain ⟨script, hscript, hprefix⟩ := h
  have hpre := hsaid.trans hprefix
  rcases hscript.cases_method with ⟨se, hse, rfl⟩ | ⟨se, rest', rfl, hserved⟩
  · rw [refusal, List.cons_append, List.cons_append, List.cons_prefix_cons,
      List.cons_prefix_cons] at hpre
    exact absurd hpre.2.1.symm hse
  · rw [List.prefix_append_right_inj, List.cons_prefix_cons, List.cons_prefix_cons] at hpre
    exact hserved hpre.2.1.symm

/-! ## What the two have in common -/

/-- The questions that a request to connect to `name` leads to. -/
def AsksFor (name : List UInt8) (port : ℕ) (told : List (Question × Told)) : Question → Prop
  | .gethostbyname n => n = name
  | .connect ip bytes => bytes = htons port ∧ (.gethostbyname name, .host (some ip)) ∈ told
  | .proxyConnect n k => n = name ∧ k = port
  | .getsockname => True
  | _ => False

theorem ntohs_htons {port : ℕ} (h : port < 65536) : ntohs (htons port) = port := by
  have hhigh : (port / 256).toUInt8.toNat = port / 256 := by
    rw [Nat.toUInt8_eq, UInt8.toNat_ofNat', Nat.mod_eq_of_lt (by omega)]
  have hlow : port.toUInt8.toNat = port % 256 := by
    rw [Nat.toUInt8_eq, UInt8.toNat_ofNat']
  change (port / 256).toUInt8.toNat * 256 + port.toUInt8.toNat = port
  rw [hhigh, hlow]
  omega

theorem cString_eq {name : List UInt8} (h : 0 ∉ name) : cString name = name :=
  List.takeWhile_eq_self_iff.mpr fun c hc => by
    simp only [ne_eq, decide_not, Bool.not_eq_eq_eq_not, Bool.not_true, decide_eq_false_iff_not]
    exact fun h0 => h (h0 ▸ hc)

/-- The server asks for what the client has requested. -/
theorem Grounded.asksFor {heard : List UInt8} {told : List (Question × Told)} {q : Question}
    (h : Grounded child heard told q) (hctcp : child.callsCtcp = false)
    (hheard : heard <+: p.wire.bytes) (hcmd : p.proxyCmd = .connect)
    (hname : p.targetName.length < 128) (hzero : 0 ∉ p.targetName) (hport : p.targetPort < 65536) :
    AsksFor p.targetName p.targetPort told q := by
  obtain ⟨w, hw, hasks, hhead, hbytes⟩ := h
  have hwire : p.wire.Valid := ProxyCon.wire_valid hname
  -- the client sends one request only
  have haddr : w.cmd = scConnect ∧ w.addr = .domain p.targetName := by
    obtain ⟨rest, hrest⟩ := hhead.trans hheard
    obtain ⟨-, -, hc, -, ha, -⟩ := SocksRequest.head_inj hw hwire hrest
    exact ⟨by rw [hc, ProxyCon.wire, hcmd]; rfl, ha⟩
  have hsame (hq : ∀ name, q ≠ .gethostbyname name) : w.port = htons p.targetPort := by
    have heq := SocksRequest.unique hw hwire ((hbytes hq).trans hheard) List.prefix_rfl
    rw [heq]
    rfl
  have htext : w.addr.text = p.targetName := by
    rw [haddr.2]
    exact cString_eq hzero
  cases q with
  | gethostbyname n =>
      obtain ⟨-, raw, hraw, rfl⟩ := hasks
      rw [haddr.2] at hraw
      cases hraw
      exact cString_eq hzero
  | connect ip bytes =>
      obtain ⟨-, -, hbytes', hip⟩ := hasks
      refine ⟨hbytes'.trans (hsame (by simp)), ?_⟩
      rcases hip with hip | ⟨raw, hraw, hip⟩
      · rw [haddr.2] at hip
        cases hip
      · rw [haddr.2] at hraw
        cases hraw
        rwa [cString_eq hzero] at hip
  | proxyConnect n k =>
      obtain ⟨-, -, rfl, rfl⟩ := hasks
      exact ⟨htext, by rw [hsame (by simp), ntohs_htons hport]⟩
  | connectCtcp ctcpPort => exact absurd hasks.1 (by simp [hctcp])
  | openServSock bytes => exact absurd (hasks.1.symm.trans haddr.1) (by decide)
  | getHostIp => exact absurd (Eq.symm hasks |>.trans haddr.1) (by decide)
  | accept => exact absurd (Eq.symm hasks |>.trans haddr.1) (by decide)
  | getsockname => trivial

/-! ## The result -/

section

variable {proxy : TProxy} {name : List UInt8} {port ctcpPort : ℕ} {frames : ℕ → PollStack}
  {upProxy : Bool} {buf : List UInt8}

/-- The client and the server of a negotiation. -/
abbrev SocksLink := Duplex UInt8 PollQuestion PollTold (ℕ × Except Fault (ℤ × ProxyCon))
  Question Told (Except Stop Unit)

def socksLink (frames : ℕ → PollStack) (p : ProxyCon) (upProxy : Bool) (ctcpPort : ℕ)
    (buf : List UInt8) : System SocksLink Unit :=
  duplex (proxyConnect frames p) (childRole (childRemote upProxy ctcpPort) buf)

/-- What holds of both parties together. -/
structure LinkInv (p : ProxyCon) (upProxy : Bool) (ctcpPort : ℕ) (d : SocksLink) : Prop where
  said : d.left.talk.said <+: p.wire.bytes
  asks : ∀ qa ∈ d.right.talk.told, AsksFor p.targetName p.targetPort d.right.talk.told qa.1
  no_overrun : d.right.prog ≠ .done (.error .overrun)
  connected : ∀ n res q, d.left.prog = .done (n, .ok (res, q)) → 0 < res →
    q.ctcpPort = some (decimal ctcpPort ++ [0]) ∧
      Connected (childRemote upProxy ctcpPort) d.right.talk.told
  faults : ∀ n e, d.left.prog = .done (n, .error e) →
    Connected (childRemote upProxy ctcpPort) d.right.talk.told

theorem linkInv_of_reachable (hp : proxyConnectNb proxy name port .connect = some p)
    (htype : proxy.type = .socks5) (hname : name.length < 128) (hzero : 0 ∉ name)
    (hport : port < 65536) (hlow : startPort ≤ ctcpPort) (hhigh : ctcpPort ≤ maxPort)
    (hbuf : buf.length = negBufLen) {d : SocksLink}
    (h : (socksLink frames p upProxy ctcpPort buf).Reachable d) :
    LinkInv p upProxy ctcpPort d := by
  obtain ⟨hstatus, htarget⟩ := proxyConnectNb_eq hp
  simp only [ProxyCon.target, Prod.mk.injEq] at htarget
  obtain ⟨rfl, hcmd, rfl, rfl⟩ := htarget
  have hfield : (decimal ctcpPort ++ [0]).length = 5 := by
    simp only [startPort, maxPort] at hlow hhigh
    have hlen : (decimal ctcpPort).length = 4 := length_decimal (by omega) (by omega)
    simp [hlen]
  obtain ⟨hleft, hright, hhears, hhears'⟩ :=
    duplex_sound (proxyConnect_keeps hstatus) (childRole_keeps (.remote upProxy hlow hhigh) hbuf) h
  have hspoken := hright.talk.spoken
  obtain ⟨request, hrequest⟩ : ∃ request, s5Request p = .ok request :=
    ⟨_, if_neg (Nat.not_le.mpr hname)⟩
  -- the server does not ask for name and password
  have hplain {port' : List UInt8} (hport' : port'.length = 5)
      (hheard : 5 :: 2 :: port' <+: d.left.talk.heard) : False := by
    have hm := (hspoken.method hfield hport' (hheard.trans hhears)).1
    exact absurd hm (by decide)
  have hpart : d.left.talk.said <+: p.wire.bytes := by
    cases hleft.talk with
    | methods _ h => exact h.trans s5Methods_isPrefix
    | auth _ hport' hheard => exact (hplain hport' hheard).elim
    | @request p' heard said request' _ hproxy hauth hheard hrequest' h =>
        cases hauth with
        | plain =>
            rw [ProxyCon.wire_bytes hrequest', ← hproxy]
            exact h
        | auth hport' =>
            exact (hplain hport' ((List.prefix_append _ _).trans hheard)).elim
    | socks4 htype' => exact absurd (htype'.symm.trans htype) (by decide)
    | http htype' => exact absurd (htype'.symm.trans htype) (by decide)
    | silent h =>
        rw [h]
        exact List.nil_prefix
  have hheard : d.right.talk.heard <+: p.wire.bytes := hhears'.trans hpart
  have hasks : ∀ qa ∈ d.right.talk.told, AsksFor p.targetName p.targetPort d.right.talk.told qa.1 :=
    fun qa hqa => (hright.talk.grounded qa hqa).asksFor rfl hheard hcmd hname hzero hport
  -- a granted reply follows the method
  have hgranted {q : ProxyCon} {heard said reply : List UInt8} (hauth : Authorised q heard said)
      (hgrants : Grants 0 reply) (hall : d.left.talk.heard = heard ++ reply) :
      q.ctcpPort = some (decimal ctcpPort ++ [0]) ∧
        Connected (childRemote upProxy ctcpPort) d.right.talk.told := by
    obtain ⟨ver, rest, rfl⟩ := hgrants
    rw [hall] at hhears
    cases hauth with
    | plain hport' hctcp =>
        obtain ⟨-, rfl⟩ := hspoken.method hfield hport' ((List.prefix_append _ _).trans hhears)
        refine ⟨hctcp, (hspoken.served hhears).resolve_right ?_⟩
        rintro ⟨ip, port, hopened, -⟩
        exact hasks _ hopened
    | auth hport' =>
        refine (hplain hport' ?_).elim
        rw [hall, List.append_assoc]
        exact List.prefix_append _ _
  refine ⟨hpart, hasks, fun hprog => hright.returned hprog, fun n res q hprog hpos => ?_,
    fun n e hprog => ?_⟩
  · obtain ⟨hsame, -, hdone⟩ := hleft.returned hprog
    have hfinished := hdone hpos
    obtain ⟨hproxy, hcmd', -⟩ := target_eq_iff.mp hsame
    generalize hall : d.left.talk.heard = heard at hfinished
    generalize d.left.talk.said = said at hfinished
    cases hfinished with
    | socks5 _ _ hauth _ hreply => exact hgranted hauth hreply hall
    | socks5Bind _ hbind => exact absurd (hbind.symm.trans (hcmd'.trans hcmd)) (by decide)
    | socks4 htype' | socks4Bind htype' | http htype' =>
        rw [hproxy, htype] at htype'
        exact absurd htype' (by decide)
  · cases hleft.returned hprog with
    | auth _ hport' hheard' => exact (hplain hport' (by rw [hheard'])).elim
    | request _ _ _ herror => exact absurd (hrequest.symm.trans herror) (by simp)
    | reply _ _ hauth hreply hall => exact (hgranted hauth hreply hall).2
    | socks4 htype' | httpRequest htype' | httpReply htype' =>
        exact absurd (htype'.symm.trans htype) (by decide)

/-- The upstream proxy is a SOCKS5 proxy, the command is `CONNECT`, the name of the target is a C
string of less than 128 bytes, and the ctcp port of the remote proxy has four digits. Then,
for every order of steps and every way the bytes arrive: the remote proxy asks the system
only for the name and the port of its client, the client is told of success, and of the port
of the remote proxy, only when that has connected, and no buffer of the remote proxy is
overrun. -/
theorem negotiation_agrees (hp : proxyConnectNb proxy name port .connect = some p)
    (htype : proxy.type = .socks5) (hname : name.length < 128) (hzero : 0 ∉ name)
    (hport : port < 65536) (hlow : startPort ≤ ctcpPort) (hhigh : ctcpPort ≤ maxPort)
    (hbuf : buf.length = negBufLen) {d : SocksLink}
    (h : (socksLink frames p upProxy ctcpPort buf).Reachable d) :
    (∀ qa ∈ d.right.talk.told, AsksFor name port d.right.talk.told qa.1) ∧
      (∀ n res q, d.left.prog = .done (n, .ok (res, q)) → 0 < res →
        q.ctcpPort = some (decimal ctcpPort ++ [0]) ∧
          Connected (childRemote upProxy ctcpPort) d.right.talk.told) ∧
        d.right.prog ≠ .done (.error .overrun) := by
  have hinv := linkInv_of_reachable hp htype hname hzero hport hlow hhigh hbuf h
  have htarget := (proxyConnectNb_eq hp).2
  simp only [ProxyCon.target, Prod.mk.injEq] at htarget
  obtain ⟨-, -, rfl, rfl⟩ := htarget
  exact ⟨hinv.asks, hinv.connected, hinv.no_overrun⟩

end

/-! ### A name of one letter -/

namespace OneName

def proxy : TProxy := ⟨.socks5, false, none, none⟩

def con : ProxyCon :=
  ⟨proxy, .connecting, .connect, false, true, 0, none, 80, [120], none, .none⟩

def buf : List UInt8 := List.replicate negBufLen 0

def frames (_ : ℕ) : PollStack := ⟨buf, 0⟩

/-- The moves of the client and the server, up to the connection. -/
def moves : List (DuplexMove UInt8 PollTold Told) :=
  let ready := .left (some (.answer (.polled .ready)))
  let again := .left none
  [ready, .left (some (.answer (.ok true))), .left (some (.answer (.ok true))), again,
   ready, .left (some (.wrote 3)), again,
   .right (some (.got [5, 1])), .right (some (.got [0])), .right (some (.wrote 7)),
   ready, .left (some (.got [5, 0, 56, 48, 48, 49, 0])), again,
   ready, .left (some (.wrote 8)), again,
   .right (some (.got [5, 1, 0, 3])), .right (some (.got [1])), .right (some (.got [120])),
   .right (some (.answer (.host (some [10, 0, 0, 1])))), .right (some (.got [0, 80])),
   .right (some (.answer (.connect .connected))),
   .right (some (.answer (.addr [0, 80, 10, 0, 0, 2]))), .right (some (.wrote 10)),
   ready, .left (some (.got [5, 0, 0, 1, 10, 0, 0, 2, 0, 80]))]

def start : SocksLink :=
  ⟨(proxyConnect frames con).begin, (childRole (childRemote false startPort) buf).begin⟩

def next : SocksLink → DuplexMove UInt8 PollTold Told → Option SocksLink :=
  Duplex.next (proxyConnect frames con) (childRole (childRemote false startPort) buf)

/-- What the client returns, and what the server has asked. -/
def view (d : SocksLink) : Option ℤ × List Question :=
  (match d.left.prog with
    | .done (_, .ok (res, _)) => some res
    | _ => none,
   d.right.talk.told.map Prod.fst)

end OneName

theorem negotiation_agrees_oneName : ∃ (d : SocksLink) (n : ℕ) (q : ProxyCon),
    d.left.prog = .done (n, .ok (1, q)) ∧ q.ctcpPort = some [56, 48, 48, 49, 0] ∧
      (∀ qa ∈ d.right.talk.told, AsksFor [120] 80 d.right.talk.told qa.1) ∧
        Connected (childRemote false startPort) d.right.talk.told := by
  have hplay : (OneName.moves.foldlM OneName.next OneName.start).map OneName.view =
      some (some 1, [.gethostbyname [120], .connect [10, 0, 0, 1] [0, 80], .getsockname]) := by
    decide +kernel
  obtain ⟨d, hd, hview⟩ := Option.map_eq_some_iff.mp hplay
  have hreach : (socksLink OneName.frames OneName.con false startPort OneName.buf).Reachable d :=
    duplex_play (.init rfl) hd
  obtain ⟨hasks, hdone, -⟩ := negotiation_agrees
    (rfl : proxyConnectNb OneName.proxy [120] 80 .connect = some OneName.con) rfl (by decide)
    (by decide) (by decide) (by decide) (by decide) List.length_replicate hreach
  have hprog : ∃ n q, d.left.prog = .done (n, .ok (1, q)) := by
    have hfst := congrArg Prod.fst hview
    simp only [OneName.view] at hfst
    split at hfst
    next n res q hprog => exact ⟨n, q, by rw [hprog, Option.some.inj hfst]⟩
    next => cases hfst
  obtain ⟨n, q, hprog⟩ := hprog
  obtain ⟨hport, hserved⟩ := hdone n 1 q hprog (by decide)
  exact ⟨d, n, q, hprog, hport, hasks, hserved⟩

end Ctcp
