import Ctcp.Verification.Negotiation.Server

/-! # What the parts of `negotiate` leave -/

namespace Ctcp

open Program

/-! ## Errors -/

/-- `sz_error` has a text for the code. -/
def Err.Named (e : Err) : Prop := 0 ≤ e.code ∧ e.code ≤ Err.code .errSkfatal

instance (e : Err) : Decidable e.Named := inferInstanceAs (Decidable (_ ∧ _))

/-- The last answer is still to be said, if the client can be reached at all. -/
def CanRefuse (reply : List UInt8) (t : SocksTalk) : Prop :=
  t.broken = true ∨ t.said = [] ∨ Preface reply t.told t.said

/-- How a part ends that does not succeed. -/
def Halted (reply : List UInt8) (t : SocksTalk) : Stop → Prop
  | .err e => e ≠ .errNone ∧ (e = .errAccept ∨ e.Named) ∧ CanRefuse reply t
  | .overrun => False

variable {child : SocksChild} {reply : List UInt8} {t : SocksTalk}

theorem halted_of_named {e : Err} (hne : e ≠ .errNone) (hnamed : e.Named)
    (hrefuse : CanRefuse reply t) : Halted reply t (.err e) :=
  ⟨hne, .inr hnamed, hrefuse⟩

/-- Only the method has been said. -/
theorem halted_of_said (hsaid : t.said = reply) {e : Err} (hne : e ≠ .errNone)
    (hnamed : e.Named) : Halted reply t (.err e) := by
  refine halted_of_named hne hnamed (.inr (.inr ?_))
  rw [hsaid]
  exact .method

/-! ## The method -/

/-- The method has been selected. -/
structure Greeted (reply methods : List UInt8) (t : SocksTalk) : Prop where
  heard : t.heard = helloBytes methods
  methods_lt : methods.length < 128
  said : t.said = reply
  broken : t.broken = false
  told : t.told = []

/-- The reply does not depend on what else is in the buffer. -/
def Replies (child : SocksChild) (reply : List UInt8) : Prop :=
  ∀ buf : List UInt8, buf.length = negBufLen → child.methodReply buf = reply

theorem length_writeAt {buf bytes : List UInt8} {i : ℕ} (h : i + bytes.length ≤ buf.length) :
    (writeAt buf i bytes).length = buf.length := by
  simp only [writeAt, List.length_append, List.length_take, List.length_drop]
  omega

theorem negotiateMethod_keeps (hreply : Replies child reply) {buf : List UInt8}
    (hbuf : buf.length = negBufLen) :
    (negotiateMethod child buf).Keeps Answers (NegotiateInv child reply)
      (fun t r => match r with
        | .ok () => ∃ methods, Greeted reply methods t
        | .error stop => Halted reply t stop) .start := by
  have hsilent {t : SocksTalk} (ht : t.said = []) {e : Err} (hne : e ≠ .errNone)
      (hnamed : e.Named) : Halted reply t (.err e) :=
    halted_of_named hne hnamed (.inr (.inl ht))
  apply keeps_readnb_andThen NegotiateInv.hear .start (by decide)
    (fun _ => hsilent rfl (by decide) (by decide))
  intro head hhead hI
  obtain ⟨ver, n, rfl⟩ := List.length_eq_two.mp hhead
  change Keeps Answers _ _ _ (if ver ≠ socksVer then _ else _)
  split
  case isTrue hver => exact hsilent rfl (by decide) (by decide)
  case isFalse hver =>
    obtain rfl := not_not.mp hver
    apply keeps_readnb_char_andThen NegotiateInv.hear hI (by decide)
      (fun _ => hsilent rfl (by decide) (by decide))
    · rintro methods - hsmall rfl hI
      split
      case isTrue => exact hsilent rfl (by decide) (by decide)
      case isFalse =>
        have hlen : (writeAt (writeAt buf 0 [socksVer, methods.length.toUInt8]) 2 methods).length =
            negBufLen := by
          have hfirst : (writeAt buf 0 [socksVer, methods.length.toUInt8]).length = buf.length :=
            length_writeAt (by simp [hbuf, negBufLen])
          rw [length_writeAt, hfirst, hbuf]
          rw [hfirst, hbuf, negBufLen]
          omega
        rw [hreply _ hlen]
        apply keeps_writenb NegotiateInv.fails hI
        · exact fun _ k => hI.say (Preface.method.spoken (List.take_prefix _ _))
        · exact fun _ => ⟨methods, rfl, hsmall, rfl, rfl, rfl⟩
        · exact fun k _ => halted_of_named (by decide) (by decide) (.inl rfl)

/-! ## The request -/

/-- The target that a request gives. -/
def SocksRequest.HasTarget (w : SocksRequest) (child : SocksChild)
    (told : List (Question × Told)) (target : Target) : Prop :=
  match w.addr with
  | .ip4 ip => target = ⟨ip, dotted ip⟩
  | .domain raw =>
    if child.upProxy then target = ⟨[0, 0, 0, 0], cString raw⟩
    else (.gethostbyname (cString raw), .host (some target.ip)) ∈ told

/-- The request has been heard. -/
structure Requested (child : SocksChild) (reply : List UInt8) (w : SocksRequest) (target : Target)
    (t : SocksTalk) : Prop where
  valid : w.Valid
  heard : t.heard = w.bytes
  target : w.HasTarget child t.told target
  said : t.said = reply
  broken : t.broken = false

theorem negotiateAddress_keeps (atyp : UInt8) {w : SocksRequest} {pre : List UInt8}
    (hI : NegotiateInv child reply t) (hpre : pre = helloBytes w.methods ++ [w.ver, w.cmd, w.rsv])
    (hmethods : w.methods.length < 128) (hport : w.port.length = 2)
    (hheard : t.heard = pre ++ [atyp]) (hsaid : t.said = reply) :
    (negotiateAddress child atyp).Keeps Answers (NegotiateInv child reply)
      (fun t' r => match r with
        | .ok target => ∃ addr : SocksAddr, addr.Valid ∧ t'.heard = pre ++ addr.bytes ∧
            { w with addr := addr }.HasTarget child t'.told target ∧ t'.said = reply ∧
              t'.broken = t.broken
        | .error stop => Halted reply t' stop) t := by
  rw [negotiateAddress]
  split
  case isTrue hatyp =>
    subst hatyp
    apply keeps_readnb_andThen NegotiateInv.hear hI (by decide)
      (fun _ => halted_of_said hsaid (by decide) (by decide))
    intro ip hip hI
    refine ⟨.ip4 ip, hip, ?_, rfl, hsaid, rfl⟩
    rw [Talk.hear_heard, hheard, List.append_assoc]
    rfl
  case isFalse =>
  split
  case isTrue hatyp =>
    subst hatyp
    apply keeps_readnb_andThen NegotiateInv.hear hI (by decide)
      (fun _ => halted_of_said hsaid (by decide) (by decide))
    intro len hlen hI
    obtain ⟨len, rfl⟩ := List.length_eq_one_iff.mp hlen
    change Keeps Answers _ _ _ (if charVal len > maxIpStrLen - 1 then _ else _)
    split
    case isTrue => exact halted_of_said hsaid (by decide) (by decide)
    case isFalse =>
      apply keeps_readnb_char_andThen NegotiateInv.hear hI (by decide)
        (fun _ => halted_of_said hsaid (by decide) (by decide))
      · rintro raw - hsmall rfl hI
        have hbytes : ((t.hear [raw.length.toUInt8]).hear raw).heard =
            pre ++ (SocksAddr.domain raw).bytes := by
          simp [hheard, SocksAddr.bytes]
        split
        case isTrue hup =>
          exact ⟨.domain raw, hsmall, hbytes, by simp [SocksRequest.HasTarget, hup], hsaid,
            rfl⟩
        case isFalse hup =>
          apply keeps_ask
          intro a ha
          refine ⟨hI.tell ⟨{ w with addr := .domain raw }, ⟨hmethods, hsmall, hport⟩,
            ⟨by simpa using hup, raw, rfl, rfl⟩, ?_, fun h => absurd rfl (h _)⟩, ?_⟩
          · rw [hbytes, SocksRequest.head, hpre, List.append_assoc]
            exact List.prefix_rfl
          · cases a with
            | host ip =>
                cases ip with
                | none =>
                    change Halted reply _ (.err .errResolv)
                    exact halted_of_said (by exact hsaid) (by decide) (by decide)
                | some ip =>
                    refine ⟨.domain raw, hsmall, hbytes, ?_, hsaid, rfl⟩
                    simp [SocksRequest.HasTarget, hup]
            | _ => cases ha
  case isFalse => exact halted_of_said hsaid (by decide) (by decide)

theorem negotiateRequest_keeps {methods : List UInt8} (hI : NegotiateInv child reply t)
    (ht : Greeted reply methods t) :
    (negotiateRequest child).Keeps Answers (NegotiateInv child reply)
      (fun t' r => match r with
        | .ok (cmd, target, port) => ∃ w : SocksRequest, Requested child reply w target t' ∧
            cmd = w.cmd ∧ port = w.port ∧ (cmd = scConnect ∨ cmd = scBind)
        | .error stop => Halted reply t' stop) t := by
  apply keeps_readnb_andThen NegotiateInv.hear hI (by decide)
    (fun _ => halted_of_said ht.said (by decide) (by decide))
  intro head hhead hI
  obtain ⟨ver, cmd, rsv, atyp, rfl⟩ : ∃ a b c d, head = [a, b, c, d] := by
    match head, hhead with
    | [a, b, c, d], _ => exact ⟨a, b, c, d, rfl⟩
  change Keeps Answers _ _ _ (if cmd ≠ scConnect ∧ cmd ≠ scBind then _ else _)
  split
  case isTrue => exact halted_of_said ht.said (by decide) (by decide)
  case isFalse hcmd =>
    have haddress := negotiateAddress_keeps atyp (t := t.hear [ver, cmd, rsv, atyp])
      (w := ⟨methods, ver, cmd, rsv, .ip4 [], [0, 0]⟩) hI rfl ht.methods_lt rfl
      (by simp [ht.heard]) ht.said
    refine Keeps.andThen hI haddress ?_ fun _ _ h => h
    rintro t' target hI' ⟨addr, haddr, hheard, htarget, hsaid, hbroken⟩
    apply keeps_readnb_andThen NegotiateInv.hear hI' (by decide)
      (fun _ => halted_of_said hsaid (by decide) (by decide))
    intro port hport hI
    refine ⟨⟨methods, ver, cmd, rsv, addr, port⟩, ⟨⟨ht.methods_lt, haddr, hport⟩, ?_, htarget,
      hsaid, hbroken.trans ht.broken⟩, rfl, rfl, ?_⟩
    · rw [Talk.hear_heard, hheard, SocksRequest.bytes, SocksRequest.head]
      simp
    · tauto

/-! ## The command -/

variable {w : SocksRequest} {target : Target}

/-- While the command is carried out, nothing is heard. -/
structure Serving (w : SocksRequest) (t : SocksTalk) : Prop where
  valid : w.Valid
  heard : t.heard = w.bytes

theorem Serving.grounded (h : Serving w t) {q : Question} (hq : w.Asks child t.told q) :
    Grounded child t.heard t.told q :=
  ⟨w, h.valid, hq, h.heard ▸ w.head_isPrefix, fun _ => h.heard ▸ List.prefix_rfl⟩

theorem mem_tell {q : Question} {a : Told} : (q, a) ∈ (t.tell q a).told :=
  List.mem_append_right _ (List.mem_singleton_self _)

/-- The command has been carried out, and its last answer is still to be said. -/
def Unanswered (child : SocksChild) (reply : List UInt8) (t : SocksTalk) : Prop :=
  ∃ preface, Served child reply t.told preface ∧ (t.broken = true ∨ t.said = preface)

/-- The end of a command. -/
def Commanded (child : SocksChild) (reply : List UInt8) (w : SocksRequest) {α : Type}
    (t : SocksTalk) : Except Stop α → Prop
  | .ok _ => Serving w t ∧ Unanswered child reply t
  | .error stop => Halted reply t stop

theorem Requested.targetIp (ht : Requested child reply w target t) (hup : child.upProxy = true) :
    target.targetIp = w.addr.text := by
  have htarget := ht.target
  rw [SocksRequest.HasTarget] at htarget
  cases haddr : w.addr with
  | ip4 ip =>
      rw [haddr] at htarget
      exact congrArg Target.targetIp htarget
  | domain raw =>
      simp only [haddr, hup, if_true] at htarget
      exact congrArg Target.targetIp htarget

/-- Without an upstream proxy the target is the address given or one found for the name. -/
theorem Requested.targetAddr (ht : Requested child reply w target t) (hup : child.upProxy ≠ true) :
    w.addr = .ip4 target.ip ∨ ∃ raw, w.addr = .domain raw ∧
      (.gethostbyname (cString raw), .host (some target.ip)) ∈ t.told := by
  have htarget := ht.target
  rw [SocksRequest.HasTarget] at htarget
  cases haddr : w.addr with
  | ip4 ip =>
      rw [haddr] at htarget
      rw [htarget]
      exact .inl rfl
  | domain raw =>
      simp only [haddr, hup] at htarget
      exact .inr ⟨raw, rfl, htarget⟩

theorem Requested.halted_tell (ht : Requested child reply w target t) {q : Question} {a : Told}
    {e : Err} (hne : e ≠ .errNone) (hnamed : e.Named) : Halted reply (t.tell q a) (.err e) :=
  halted_of_said (t := t.tell q a) ht.said hne hnamed

theorem connectClient_keeps (hI : NegotiateInv child reply t)
    (ht : Requested child reply w target t) (hcmd : w.cmd = scConnect) :
    (connectClient child target w.port).Keeps Answers (NegotiateInv child reply)
      (Commanded child reply w) t := by
  have hserving : Serving w t := ⟨ht.valid, ht.heard⟩
  rw [connectClient]
  split
  case isTrue hup =>
    rw [ht.targetIp hup]
    apply keeps_ask
    intro a ha
    have hI' := hI.tell (a := a) (hserving.grounded (q := .proxyConnect w.addr.text (ntohs w.port))
      ⟨hup, hcmd, rfl, rfl⟩)
    refine ⟨hI', ?_⟩
    cases a with
    | proxy pcon =>
        cases pcon with
        | none =>
            exact ht.halted_tell (by decide) (by decide)
        | some ctcpPort =>
            change Keeps Answers _ _ _ (if _ then _ else _)
            split
            case isTrue hctcp =>
              apply keeps_ask
              intro b hb
              have hserving' : Serving w (t.tell (.proxyConnect w.addr.text (ntohs w.port))
                  (.proxy (some ctcpPort))) := ⟨ht.valid, ht.heard⟩
              refine ⟨hI'.tell (hserving'.grounded ⟨hctcp, hcmd, mem_tell⟩), ?_⟩
              cases b with
              | ctcp connected =>
                  cases connected with
                  | true =>
                      exact ⟨⟨ht.valid, ht.heard⟩, reply,
                        .connect (.inr ⟨_, _, ctcpPort, List.mem_append_left _ mem_tell,
                          fun _ => mem_tell⟩), .inr ht.said⟩
                  | false =>
                      change Halted reply _ (.err .errNegfail)
                      exact halted_of_said (by exact ht.said) (by decide) (by decide)
              | _ => cases hb
            case isFalse hctcp =>
              exact ⟨⟨ht.valid, ht.heard⟩, reply,
                .connect (.inr ⟨_, _, ctcpPort, mem_tell, fun h => absurd h hctcp⟩),
                .inr ht.said⟩
    | _ => cases ha
  case isFalse hup =>
    apply keeps_ask
    intro a ha
    have hasks : w.Asks child t.told (.connect target.ip w.port) :=
      ⟨by simpa using hup, hcmd, rfl, ht.targetAddr hup⟩
    refine ⟨hI.tell (hserving.grounded hasks), ?_⟩
    cases a with
    | connect res =>
        cases res with
        | connected =>
            exact ⟨⟨ht.valid, ht.heard⟩, reply, .connect (.inl ⟨_, _, mem_tell⟩), .inr ht.said⟩
        | econnrefused =>
            exact ht.halted_tell (by decide) (by decide)
        | enetunreach =>
            exact ht.halted_tell (by decide) (by decide)
        | _ =>
            exact ht.halted_tell (by decide) (by decide)
    | _ => cases ha

/-- The first answer to BIND is said whole, unless the stream breaks. -/
theorem keeps_boundAnswer {ip port : List UInt8} (hI : NegotiateInv child reply t)
    (hsaid : t.said = reply) (hlisten : Listening t.told ip port) :
    (writenb (socksVer :: 0 :: 0 :: atypIp4 :: (ip ++ port))).Keeps Answers
      (NegotiateInv child reply)
      (fun t' _ => t'.heard = t.heard ∧ Listening t'.told ip port ∧
        (t'.broken = true ∨ t'.said = reply ++ success ip port)) t := by
  apply keeps_writenb NegotiateInv.fails hI
  · refine fun _ n => hI.say ?_
    refine Preface.spoken (t := t.say _) (.bound hlisten) ?_
    rw [Talk.say_said, hsaid]
    exact (List.prefix_append_right_inj _).mpr (List.take_prefix _ _)
  · refine fun _ => ⟨rfl, hlisten, .inr ?_⟩
    rw [Talk.say_said, hsaid]
    rfl
  · exact fun n _ => ⟨rfl, hlisten, .inl rfl⟩

theorem bindClient_keeps (hI : NegotiateInv child reply t)
    (ht : Requested child reply w target t) (hcmd : w.cmd = scBind) :
    (bindClient w.port).Keeps Answers (NegotiateInv child reply) (Commanded child reply w) t := by
  have hgrounded {t' : SocksTalk} (hheard : t'.heard = t.heard) {q : Question}
      (hq : w.Asks child t'.told q) : Grounded child t'.heard t'.told q :=
    Serving.grounded ⟨ht.valid, hheard.trans ht.heard⟩ hq
  apply keeps_ask
  intro a ha
  have hI₁ := hI.tell (a := a) (hgrounded (q := .openServSock w.port) rfl ⟨hcmd, rfl⟩)
  refine ⟨hI₁, ?_⟩
  cases a with
  | opened res =>
      have hres : res = .errNone ∨ res = .errCreatesk ∨ res = .errBind ∨ res = .errListen := by
        simpa [Answers, answers, or_assoc] using ha
      rcases hres with rfl | rfl | rfl | rfl
      · -- the socket listens
        apply keeps_ask
        intro b hb
        have hI₂ := hI₁.tell (a := b) (hgrounded (q := .getHostIp) (by rfl) hcmd)
        refine ⟨hI₂, ?_⟩
        cases b with
        | addr ip =>
            have hlisten : Listening ((t.tell (.openServSock w.port) (.opened .errNone)).tell
                .getHostIp (.addr ip)).told ip w.port :=
              ⟨List.mem_append_left _ mem_tell, mem_tell⟩
            have hanswer := keeps_boundAnswer hI₂ ht.said hlisten
            refine hanswer.bind hI₂ fun t' _ hI' ⟨hheard, hlisten', hleft⟩ => ?_
            apply keeps_ask
            intro c hc
            refine ⟨hI'.tell (hgrounded hheard hcmd), ?_⟩
            have hlisten'' : Listening (t'.tell .accept c).told ip w.port :=
              hlisten'.mono (List.subset_append_left _ _)
            cases c with
            | accepted ok =>
                cases ok with
                | true =>
                    exact ⟨⟨ht.valid, hheard.trans ht.heard⟩, _, .bind hlisten'' mem_tell, hleft⟩
                | false =>
                    refine ⟨by decide, .inl rfl, hleft.imp id fun hsaid' => .inr ?_⟩
                    rw [Talk.tell_said, hsaid']
                    exact .bound hlisten''
            | _ => cases hc
        | _ => cases hb
      all_goals exact halted_of_said (by exact ht.said) (by decide) (by decide)
  | _ => cases ha

/-- What `negotiate` leaves: the address for the last answer, or an error. -/
def Negotiated (child : SocksChild) (reply : List UInt8) (t : SocksTalk) :
    Except Stop (List UInt8) → Prop
  | .ok bytes => Unanswered child reply t ∧ (.getsockname, .addr bytes) ∈ t.told
  | .error stop => Halted reply t stop

theorem negotiateCommand_keeps (hI : NegotiateInv child reply t)
    (ht : Requested child reply w target t) (hcmd : w.cmd = scConnect ∨ w.cmd = scBind) :
    (negotiateCommand child w.cmd target w.port).Keeps Answers (NegotiateInv child reply)
      (Negotiated child reply) t := by
  have hcommand : Keeps Answers (NegotiateInv child reply) (Commanded child reply w) t
      (if w.cmd = scConnect then connectClient child target w.port else bindClient w.port) := by
    split
    case isTrue hconnect => exact connectClient_keeps hI ht hconnect
    case isFalse hconnect => exact bindClient_keeps hI ht (hcmd.resolve_left hconnect)
  refine Keeps.andThen hI hcommand ?_ fun _ _ h => h
  rintro t' - hI' ⟨hserving, preface, hserved, hleft⟩
  apply keeps_ask
  intro a ha
  refine ⟨hI'.tell (hserving.grounded trivial), ?_⟩
  cases a with
  | addr bytes =>
      exact ⟨⟨preface, hserved.mono (List.subset_append_left _ _), hleft⟩, mem_tell⟩
  | _ => cases ha

/-! ## `negotiate` and `handle_con` -/

theorem negotiate_keeps (hreply : Replies child reply) {buf : List UInt8}
    (hbuf : buf.length = negBufLen) :
    (negotiate child buf).Keeps Answers (NegotiateInv child reply) (Negotiated child reply)
      .start := by
  refine Keeps.andThen .start (negotiateMethod_keeps hreply hbuf) ?_ fun _ _ h => h
  rintro t - hI ⟨methods, hgreeted⟩
  refine Keeps.andThen hI (negotiateRequest_keeps hI hgreeted) ?_ fun _ _ h => h
  rintro t' ⟨cmd, target, port⟩ hI' ⟨w, hrequested, rfl, rfl, hcmd⟩
  exact negotiateCommand_keeps hI' hrequested hcmd

/-- How `handle_con` ends: the client has heard the last answer, unless it could not be reached. -/
def Concluded (child : SocksChild) (reply : List UInt8) (t : SocksTalk) : Except Stop Unit → Prop
  | .ok () => ∃ preface bytes, Served child reply t.told preface ∧
      (.getsockname, .addr bytes) ∈ t.told ∧
        t.said = preface ++ success (bytes.drop 2) (bytes.take 2)
  | .error (.err e) => e ≠ .errNone ∧ (e = .errAccept ∨ e.Named) ∧
      (t.broken = true ∨ t.said = refusal (errToSe e) ∨
        ∃ preface, Preface reply t.told preface ∧ t.said = preface ++ refusal (errToSe e))
  | .error .overrun => False

theorem errToSe_eq_zero {e : Err} : errToSe e = 0 ↔ e = .errNone := by
  cases e <;> simp [errToSe]

theorem handleCon_keeps (hreply : Replies child reply) {buf : List UInt8}
    (hbuf : buf.length = negBufLen) :
    (handleCon child buf).Keeps Answers (NegotiateInv child reply) (Concluded child reply)
      .start := by
  refine (negotiate_keeps hreply hbuf).bind .start fun t r hI hr => ?_
  cases r with
  | ok bytes =>
      obtain ⟨⟨preface, hserved, hleft⟩, haddr⟩ := hr
      have hsaid (hopen : t.broken = false) : t.said = preface :=
        hleft.resolve_left (by simp [hopen])
      apply keeps_writenb NegotiateInv.fails hI
      · intro hopen n
        refine hI.say (Script.spoken ?_ n)
        rw [hsaid hopen]
        exact .served hserved haddr
      · intro hopen
        refine ⟨preface, bytes, hserved, haddr, ?_⟩
        rw [Talk.say_said, hsaid hopen]
        rfl
      · exact fun _ _ => ⟨by decide, .inr (by decide), .inl rfl⟩
  | error stop =>
      cases stop with
      | err e =>
          obtain ⟨hne, hnamed, hrefuse⟩ := hr
          have hse : errToSe e ≠ 0 := fun h => hne (errToSe_eq_zero.mp h)
          have hwrite : (writenb (refusal (errToSe e))).Keeps Answers (NegotiateInv child reply)
              (fun t' _ => Concluded child reply t' (.error (.err e))) t := by
            apply keeps_writenb NegotiateInv.fails hI
            · intro hopen n
              refine hI.say (Script.spoken ?_ n)
              rcases hrefuse with h | h | h
              · rw [hopen] at h
                cases h
              · rw [h]
                exact .refused hse
              · exact .failed h hse
            · intro hopen
              refine ⟨hne, hnamed, .inr ?_⟩
              rw [Talk.say_said]
              rcases hrefuse with h | h | h
              · rw [hopen] at h
                cases h
              · exact .inl (by rw [h, List.nil_append])
              · exact .inr ⟨t.said, h, rfl⟩
            · exact fun _ _ => ⟨hne, hnamed, .inl rfl⟩
          exact hwrite.bind hI fun _ _ _ h => h
      | overrun => exact hr

end Ctcp
