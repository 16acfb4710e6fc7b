import Ctcp.Verification.Negotiation.Agreement

/-! # The negotiation through both proxies

An application negotiates with `handle_con` of `child_local.c`, which answers it when
`proxy_connect` has returned from its negotiation with `handle_con` of `child_remote.c`. -/

namespace Ctcp

open Program

/-! ## The system -/

/-- The connection to the remote proxy, which `proxy_connect` uses until it returns. -/
inductive ProxyLink where
  | closed
  | dialing (p : ProxyCon) (d : SocksLink)
  | up (p : ProxyCon) (d : SocksLink)

/-- The local proxy, whose application may send anything, and its connection. -/
structure SocksTunnel where
  app : Speaker UInt8 Question Told (Except Stop Unit)
  link : ProxyLink

/-- What the negotiation depends on: the upstream proxy of the local proxy, what is in buffers at
first, and the remote proxy. -/
structure TunnelConfig where
  proxy : TProxy
  appBuf : List UInt8
  frames : ℕ → PollStack
  upProxy : Bool
  ctcpPort : ℕ
  buf : List UInt8

inductive SocksTunnelMove where
  /-- A call of the local proxy, other than `proxy_connect`. -/
  | app (r : StreamReply UInt8 Told)
  | dial
  /-- `proxy_connect_nb` has failed. -/
  | refused
  | link (m : DuplexMove UInt8 PollTold Told)
  /-- `proxy_connect` returns. -/
  | answer

namespace TunnelConfig

variable (cfg : TunnelConfig)

def localRole : Role UInt8 Question Told (Except Stop Unit) :=
  childRole (childLocal true) cfg.appBuf

def remoteRole : Role UInt8 Question Told (Except Stop Unit) :=
  childRole (childRemote cfg.upProxy cfg.ctcpPort) cfg.buf

instance (q : Question) (a : Told) : Decidable (cfg.localRole.allow q a) :=
  inferInstanceAs (Decidable (Answers q a))

instance (q : Question) (a : Told) : Decidable (cfg.remoteRole.allow q a) :=
  inferInstanceAs (Decidable (Answers q a))

def linkNext (p : ProxyCon) (d : SocksLink) (m : DuplexMove UInt8 PollTold Told) :
    Option SocksLink :=
  d.next (proxyConnect cfg.frames p) cfg.remoteRole m

def next (s : SocksTunnel) : SocksTunnelMove → Option SocksTunnel
  | .app r =>
    match s.app.prog with
    | .call (.ask (.proxyConnect _ _)) _ => none
    | _ => (cfg.localRole.next s.app (some r)).map fun a => { s with app := a }
  | .dial =>
    match s.app.prog, s.link with
    | .call (.ask (.proxyConnect name port)) _, .closed =>
      (proxyConnectNb cfg.proxy name port .connect).map fun p =>
        { s with link := .dialing p ⟨(proxyConnect cfg.frames p).begin, cfg.remoteRole.begin⟩ }
    | _, _ => none
  | .refused =>
    match s.app.prog, s.link with
    | .call (.ask (.proxyConnect name port)) k, .closed =>
      some
        { s with
          app := ⟨s.app.talk.tell (.proxyConnect name port) (.proxy none),
            k (.answer (.proxy none))⟩ }
    | _, _ => none
  | .link m =>
    match s.link with
    | .closed => none
    | .dialing p d => (cfg.linkNext p d m).map fun d => { s with link := .dialing p d }
    | .up p d => (cfg.linkNext p d m).map fun d => { s with link := .up p d }
  | .answer =>
    match s.app.prog, s.link with
    | .call (.ask (.proxyConnect name port)) k, .dialing p d =>
      match d.left.prog with
      | .done (_, .ok (res, q)) =>
        if res = 0 then none
        else
          let a := Told.proxy (if 0 < res then some q.ctcpPort else none)
          some ⟨⟨s.app.talk.tell (.proxyConnect name port) a, k (.answer a)⟩, .up p d⟩
      | _ => none
    | _, _ => none

def socksTunnel : System SocksTunnel SocksTunnelMove where
  init s := s = ⟨cfg.localRole.begin, .closed⟩
  step s m s' := cfg.next s m = some s'

/-- The upstream proxy is a SOCKS5 proxy, and the port is one of `proxy_remote`. -/
structure Ok : Prop where
  type : cfg.proxy.type = .socks5
  low : startPort ≤ cfg.ctcpPort
  high : cfg.ctcpPort ≤ maxPort
  appBuf : cfg.appBuf.length = negBufLen
  buf : cfg.buf.length = negBufLen

end TunnelConfig

/-! ## Names -/

theorem zero_notMem_decimal (n : ℕ) : 0 ∉ decimal n := by
  rw [decimal, List.mem_map]
  rintro ⟨c, hc, hzero⟩
  have hdigit := Nat.isDigit_of_mem_toDigits (by decide) (by decide) hc
  simp only [Char.isDigit, Bool.and_eq_true, decide_eq_true_eq, ge_iff_le, UInt32.le_iff_toNat_le]
    at hdigit
  have hnat := congrArg UInt8.toNat hzero
  rw [Nat.toUInt8_eq, UInt8.toNat_ofNat'] at hnat
  change c.val.toNat % 256 = 0 at hnat
  have hlow : 48 ≤ c.val.toNat := hdigit.1
  have hhigh : c.val.toNat ≤ 57 := hdigit.2
  omega

theorem length_decimal_le (b : UInt8) : (decimal b.toNat).length ≤ 3 := by
  rw [decimal, List.length_map]
  exact (Nat.length_toDigits_le_iff (by decide) (by decide)).mpr (by have := b.toNat_lt; omega)

/-- An upstream proxy is given a string of less than 128 characters. -/
theorem SocksAddr.Valid.text {a : SocksAddr} (h : a.Valid) :
    a.text.length < 128 ∧ 0 ∉ a.text := by
  cases a with
  | ip4 ip =>
      obtain ⟨b₁, b₂, b₃, b₄, rfl⟩ : ∃ a b c d, ip = [a, b, c, d] := by
        match ip, h with
        | [a, b, c, d], _ => exact ⟨a, b, c, d, rfl⟩
      have htext : (ip4 [b₁, b₂, b₃, b₄]).text = decimal b₁.toNat ++ 46 :: (decimal b₂.toNat ++
          46 :: (decimal b₃.toNat ++ 46 :: decimal b₄.toNat)) := by
        simp [SocksAddr.text, dotted, List.intercalate]
      have h₁ := length_decimal_le b₁
      have h₂ := length_decimal_le b₂
      have h₃ := length_decimal_le b₃
      have h₄ := length_decimal_le b₄
      rw [htext]
      constructor
      · simp
        omega
      · simp [zero_notMem_decimal]
  | domain raw =>
      constructor
      · exact Nat.lt_of_le_of_lt (List.takeWhile_prefix _).length_le h
      · intro hzero
        have hne := List.mem_takeWhile_imp hzero
        simp at hne

/-! ## The invariant -/

variable {cfg : TunnelConfig} {s s' : SocksTunnel}

/-- The connection is used for this name and port. -/
structure Linked (cfg : TunnelConfig) (p : ProxyCon) (d : SocksLink) (name : List UInt8)
    (port : ℕ) : Prop where
  con : proxyConnectNb cfg.proxy name port .connect = some p
  length_lt : name.length < 128
  no_zero : 0 ∉ name
  port_lt : port < 65536
  reachable : (socksLink cfg.frames p cfg.upProxy cfg.ctcpPort cfg.buf).Reachable d

/-- The remote proxy has connected to what the local proxy has asked for. -/
structure Answered (cfg : TunnelConfig) (link : ProxyLink) (name : List UInt8) (port : ℕ)
    (ctcpPort : Option (List UInt8)) : Prop where
  up : ∃ p d, link = .up p d ∧ Linked cfg p d name port ∧
    Connected (childRemote cfg.upProxy cfg.ctcpPort) d.right.talk.told
  port : ctcpPort = some (decimal cfg.ctcpPort ++ [0])

structure SocksTunnelInv (cfg : TunnelConfig) (s : SocksTunnel) : Prop where
  app : s.app.Sound cfg.localRole (NegotiateInv (childLocal true) [socksVer, socksMethod])
    (Concluded (childLocal true) [socksVer, socksMethod])
  dialing : ∀ p d, s.link = .dialing p d → ∃ name port k,
    s.app.prog = .call (.ask (.proxyConnect name port)) k ∧ Linked cfg p d name port
  up : ∀ p d, s.link = .up p d → ∃ name port, Linked cfg p d name port
  answered : ∀ name port ctcpPort,
    (.proxyConnect name port, .proxy (some ctcpPort)) ∈ s.app.talk.told →
      Answered cfg s.link name port ctcpPort

/-- A question for `proxy_connect` is one that the application's request leads to. -/
theorem SocksTunnelInv.good (h : SocksTunnelInv cfg s) {name : List UInt8} {port : ℕ}
    {k : StreamReply UInt8 Told → SocksProgram Unit}
    (hprog : s.app.prog = .call (.ask (.proxyConnect name port)) k) :
    name.length < 128 ∧ 0 ∉ name ∧ port < 65536 := by
  have hkeeps := h.app.prog
  rw [hprog] at hkeeps
  obtain ⟨hI, -⟩ := hkeeps (.answer (.proxy none)) _ (.told rfl)
  obtain ⟨w, hw, ⟨-, -, rfl, rfl⟩, -⟩ :=
    hI.grounded (.proxyConnect name port, .proxy none) mem_tell
  refine ⟨hw.addr.text.1, hw.addr.text.2, ?_⟩
  have hhigh := (w.port.getD 0 0).toNat_lt
  have hlow := (w.port.getD 1 0).toNat_lt
  rw [ntohs]
  omega

/-- A step of the connection between the proxies. -/
theorem Linked.next {p : ProxyCon} {d d' : SocksLink} {m : DuplexMove UInt8 PollTold Told}
    {name : List UInt8} {port : ℕ} (hl : Linked cfg p d name port)
    (hd : cfg.linkNext p d m = some d') : Linked cfg p d' name port :=
  { hl with reachable := hl.reachable.step (Duplex.next_spec hd) }

theorem told_subset_of_linkNext {p : ProxyCon} {d d' : SocksLink}
    {m : DuplexMove UInt8 PollTold Told} (hd : cfg.linkNext p d m = some d') :
    d.right.talk.told ⊆ d'.right.talk.told :=
  (Duplex.next_spec hd).told_subset

theorem SocksTunnelInv.link (h : SocksTunnelInv cfg s) {m : DuplexMove UInt8 PollTold Told}
    (hstep : cfg.next s (.link m) = some s') : SocksTunnelInv cfg s' := by
  simp only [TunnelConfig.next] at hstep
  split at hstep
  case h_1 => cases hstep
  case h_2 p d hdialing =>
    obtain ⟨d', hd', rfl⟩ := Option.map_eq_some_iff.mp hstep
    refine ⟨h.app, fun p' d'' hl => ?_, fun p' d'' hl => (by cases hl),
      fun name port ctcpPort hmem => ?_⟩
    · cases hl
      obtain ⟨name, port, k, hprog, hl⟩ := h.dialing p d hdialing
      exact ⟨name, port, k, hprog, hl.next hd'⟩
    · obtain ⟨p', d'', hup, -⟩ := (h.answered name port ctcpPort hmem).up
      rw [hdialing] at hup
      cases hup
  case h_3 p d hup =>
    obtain ⟨d', hd', rfl⟩ := Option.map_eq_some_iff.mp hstep
    refine ⟨h.app, fun p' d'' hl => (by cases hl), fun p' d'' hl => ?_,
      fun name port ctcpPort hmem => ?_⟩
    · cases hl
      obtain ⟨name, port, hl⟩ := h.up p d hup
      exact ⟨name, port, hl.next hd'⟩
    · obtain ⟨⟨p', d'', hup', hl, hserved⟩, hport⟩ := h.answered name port ctcpPort hmem
      rw [hup] at hup'
      cases hup'
      exact ⟨⟨p, d', rfl, hl.next hd', hserved.mono (told_subset_of_linkNext hd')⟩, hport⟩

theorem SocksTunnelInv.answer (hok : cfg.Ok) (h : SocksTunnelInv cfg s)
    (hstep : cfg.next s .answer = some s') : SocksTunnelInv cfg s' := by
  have hkeeps := childRole_keeps (.local true) hok.appBuf
  simp only [TunnelConfig.next] at hstep
  split at hstep
  case h_1 name port k p d hprog hdialing =>
    split at hstep
    case h_1 n res q hreturned =>
      split at hstep
      case isTrue => cases hstep
      case isFalse hres =>
        obtain ⟨name', port', k', hprog', hl⟩ := h.dialing p d hdialing
        rw [hprog] at hprog'
        cases hprog'
        cases hstep
        refine ⟨hkeeps.step h.app (.call hprog (.told rfl)), fun p' d' hl' => (by cases hl'),
          fun p' d' hl' => ?_, fun name' port' ctcpPort hmem => ?_⟩
        · cases hl'
          exact ⟨name, port, hl⟩
        · rcases List.mem_append.mp hmem with hmem | hmem
          · obtain ⟨p', d', hup, -⟩ := (h.answered name' port' ctcpPort hmem).up
            rw [hdialing] at hup
            cases hup
          · have heq := List.mem_singleton.mp hmem
            simp only [Prod.mk.injEq, Question.proxyConnect.injEq, Told.proxy.injEq] at heq
            obtain ⟨⟨rfl, rfl⟩, heq⟩ := heq
            split at heq
            case isFalse => cases heq
            case isTrue hpos =>
              cases heq
              have hinv := linkInv_of_reachable hl.con hok.type hl.length_lt hl.no_zero
                hl.port_lt hok.low hok.high hok.buf hl.reachable
              obtain ⟨hport, hserved⟩ := hinv.connected n res q hreturned hpos
              exact ⟨⟨p, d, rfl, hl, hserved⟩, hport⟩
    case h_2 => cases hstep
  case h_2 => cases hstep

theorem SocksTunnelInv.step (hok : cfg.Ok) (h : SocksTunnelInv cfg s) {m : SocksTunnelMove}
    (hstep : cfg.next s m = some s') : SocksTunnelInv cfg s' := by
  have hkeeps := childRole_keeps (.local true) hok.appBuf
  cases m with
  | app r =>
      simp only [TunnelConfig.next] at hstep
      split at hstep
      case h_1 => cases hstep
      case h_2 hother =>
        obtain ⟨a, ha, rfl⟩ := Option.map_eq_some_iff.mp hstep
        have hrole := Role.next_spec ha
        refine ⟨hkeeps.step h.app hrole, fun p d hl => ?_, h.up, fun name port ctcpPort hmem => ?_⟩
        · obtain ⟨name, port, k, hprog, -⟩ := h.dialing p d hl
          exact absurd hprog (hother name port k)
        · apply h.answered name port ctcpPort
          cases hrole with
          | call hprog htalk =>
              rcases htalk.mem_told hmem with hmem | rfl
              · exact hmem
              · exact absurd hprog (hother name port _)
          | again _ hagain => cases hagain
  | dial =>
      simp only [TunnelConfig.next] at hstep
      split at hstep
      case h_1 name port k hprog hclosed =>
        obtain ⟨p, hp, rfl⟩ := Option.map_eq_some_iff.mp hstep
        obtain ⟨hlen, hzero, hport⟩ := h.good hprog
        refine ⟨h.app, fun p' d hl => ?_, fun p' d hl => (by cases hl),
          fun name' port' ctcpPort hmem => ?_⟩
        · cases hl
          exact ⟨name, port, k, hprog, hp, hlen, hzero, hport, .init rfl⟩
        · obtain ⟨p', d, hup, -⟩ := (h.answered name' port' ctcpPort hmem).up
          rw [hclosed] at hup
          cases hup
      case h_2 => cases hstep
  | refused =>
      simp only [TunnelConfig.next] at hstep
      split at hstep
      case h_1 name port k hprog hclosed =>
        cases hstep
        refine ⟨hkeeps.step h.app (.call hprog (.told rfl)), fun p d hl => ?_, h.up,
          fun name' port' ctcpPort hmem => ?_⟩
        · rw [hclosed] at hl
          cases hl
        · rcases List.mem_append.mp hmem with hmem | hmem
          · exact h.answered name' port' ctcpPort hmem
          · cases List.mem_singleton.mp hmem
      case h_2 => cases hstep
  | link m => exact h.link hstep
  | answer => exact h.answer hok hstep

theorem socksTunnelInv_of_reachable (hok : cfg.Ok) (h : cfg.socksTunnel.Reachable s) :
    SocksTunnelInv cfg s := by
  apply h.invariant
  · rintro s rfl
    exact ⟨(childRole_keeps (.local true) hok.appBuf).begin, fun _ _ hl => (by cases hl),
      fun _ _ hl => (by cases hl), fun _ _ _ hmem => (by cases hmem)⟩
  · exact fun s m s' hs hstep => hs.step hok hstep

/-- The upstream proxy is a SOCKS5 proxy, and the ctcp port of the remote proxy has four digits.
When the application hears success for CONNECT, the remote proxy has connected to what the
application has asked for, and has asked the system for nothing else, and the local proxy has
a coded connection to the port of this remote proxy. -/
theorem socksTunnel_connects (hok : cfg.Ok) (h : cfg.socksTunnel.Reachable s) {ver : UInt8}
    {rest : List UInt8} (hsaid : socksVer :: socksMethod :: ver :: 0 :: rest <+: s.app.talk.said) :
    ∃ w : SocksRequest, w.Valid ∧ w.bytes <+: s.app.talk.heard ∧
      (w.cmd = scBind ∨ w.cmd = scConnect ∧
        (.connectCtcp (some (decimal cfg.ctcpPort ++ [0])), .ctcp true) ∈ s.app.talk.told ∧
          ∃ p d, s.link = .up p d ∧
            Connected (childRemote cfg.upProxy cfg.ctcpPort) d.right.talk.told ∧
              ∀ qa ∈ d.right.talk.told,
                AsksFor w.addr.text (ntohs w.port) d.right.talk.told qa.1) := by
  have hinv := socksTunnelInv_of_reachable hok h
  have hgrounded := hinv.app.talk.grounded
  rcases hinv.app.talk.spoken.served hsaid with (⟨ip, port, hmem⟩ |
    ⟨name, port, ctcpPort, hmem, hctcp⟩) | ⟨ip, port, hmem, -⟩
  · -- the local proxy does not connect by itself
    obtain ⟨w, -, ⟨hup, -⟩, -⟩ := hgrounded _ hmem
    exact absurd hup (by simp [childLocal])
  · obtain ⟨w, hw, ⟨-, hcmd, rfl, rfl⟩, -, hbytes⟩ := hgrounded _ hmem
    obtain ⟨⟨p, d, hup, hl, hserved⟩, rfl⟩ := hinv.answered _ _ _ hmem
    have hlink := linkInv_of_reachable hl.con hok.type hl.length_lt hl.no_zero hl.port_lt hok.low
      hok.high hok.buf hl.reachable
    have htarget := (proxyConnectNb_eq hl.con).2
    simp only [ProxyCon.target, Prod.mk.injEq] at htarget
    obtain ⟨-, -, hport, hname⟩ := htarget
    refine ⟨w, hw, hbytes (by simp), .inr ⟨hcmd, hctcp rfl, p, d, hup, hserved, ?_⟩⟩
    rw [← hport, ← hname]
    exact hlink.asks
  · obtain ⟨w, hw, ⟨hcmd, -⟩, -, hbytes⟩ := hgrounded _ hmem
    exact ⟨w, hw, hbytes (by simp), .inl hcmd⟩

namespace OneName

def config : TunnelConfig := ⟨proxy, buf, frames, false, startPort, buf⟩

/-- The application, then the connection, then the application again. -/
def tunnelMoves : List SocksTunnelMove :=
  [.app (.got [5, 1]), .app (.got [0]), .app (.wrote 2), .app (.got [5, 1, 0, 3]),
   .app (.got [1]), .app (.got [120]), .app (.got [0, 80]), .dial] ++
    moves.map .link ++
  [.answer, .app (.answer (.ctcp true)), .app (.answer (.addr [0, 80, 10, 0, 0, 3])),
   .app (.wrote 10)]

end OneName

theorem socksTunnel_connects_oneName : ∃ (s : SocksTunnel) (w : SocksRequest),
    s.app.talk.said = [5, 0, 5, 0, 0, 1, 10, 0, 0, 3, 0, 80] ∧ w.bytes <+: s.app.talk.heard ∧
      (w.cmd = scBind ∨ w.cmd = scConnect ∧
        (.connectCtcp (some (decimal startPort ++ [0])), .ctcp true) ∈ s.app.talk.told) := by
  have hplay : (OneName.tunnelMoves.foldlM OneName.config.next
      ⟨OneName.config.localRole.begin, .closed⟩).map (fun s => s.app.talk.said) =
      some [5, 0, 5, 0, 0, 1, 10, 0, 0, 3, 0, 80] := by
    decide +kernel
  obtain ⟨s, hs, hsaid⟩ := Option.map_eq_some_iff.mp hplay
  obtain ⟨s₁, hreach, rfl⟩ := System.Reachable.replay (S := OneName.config.socksTunnel)
    (R := fun s p => s = p)
    (fun s p m p' hs hp hm => by subst hp; exact ⟨p', hs.step hm, rfl⟩) (.init rfl) rfl hs
  have hok : OneName.config.Ok :=
    ⟨rfl, Nat.le_refl _, by decide, List.length_replicate, List.length_replicate⟩
  have hall : socksVer :: socksMethod :: 5 :: 0 :: [0, 1, 10, 0, 0, 3, 0, 80] <+:
      s₁.app.talk.said := by rw [hsaid]; exact List.prefix_rfl
  obtain ⟨w, -, hheard, hw⟩ := socksTunnel_connects hok hreach hall
  exact ⟨s₁, w, hsaid, hheard, hw.imp id fun h => ⟨h.1, h.2.1⟩⟩

end Ctcp
