import Ctcp.Verification.Negotiation.Calls
import Ctcp.Verification.Negotiation.Request

/-! # `handle_con` does what its client asks for

This holds for every client, however its bytes arrive. -/

namespace Ctcp

open Program

/-! ## What is kept -/

/-- What the program may ask of its surroundings when `w` is requested. -/
def SocksRequest.Asks (w : SocksRequest) (child : SocksChild) (told : List (Question × Told)) :
    Question → Prop
  | .gethostbyname name =>
    child.upProxy = false ∧ ∃ raw, w.addr = .domain raw ∧ name = cString raw
  | .connect ip port =>
    child.upProxy = false ∧ w.cmd = scConnect ∧ port = w.port ∧
      (w.addr = .ip4 ip ∨
        ∃ raw, w.addr = .domain raw ∧ (.gethostbyname (cString raw), .host (some ip)) ∈ told)
  | .proxyConnect name port =>
    child.upProxy = true ∧ w.cmd = scConnect ∧ name = w.addr.text ∧ port = ntohs w.port
  | .connectCtcp ctcpPort =>
    child.callsCtcp = true ∧ w.cmd = scConnect ∧
      (.proxyConnect w.addr.text (ntohs w.port), .proxy (some ctcpPort)) ∈ told
  | .openServSock port => w.cmd = scBind ∧ port = w.port
  | .getHostIp => w.cmd = scBind
  | .accept => w.cmd = scBind
  | .getsockname => True

/-- A request that has been heard asks for this. The name is resolved before the port is heard. -/
def Grounded (child : SocksChild) (heard : List UInt8) (told : List (Question × Told))
    (q : Question) : Prop :=
  ∃ w : SocksRequest, w.Valid ∧ w.Asks child told q ∧ w.head <+: heard ∧
    ((∀ name, q ≠ .gethostbyname name) → w.bytes <+: heard)

/-- `CONNECT` has been carried out. -/
def Connected (child : SocksChild) (told : List (Question × Told)) : Prop :=
  (∃ ip port, (.connect ip port, .connect .connected) ∈ told) ∨
    ∃ name port ctcpPort, (.proxyConnect name port, .proxy (some ctcpPort)) ∈ told ∧
      (child.callsCtcp = true → (.connectCtcp ctcpPort, .ctcp true) ∈ told)

/-- A socket has been opened for this port of the host; for port 0 the system has chosen one, which
is not looked up. -/
def Listening (told : List (Question × Told)) (ip port : List UInt8) : Prop :=
  (.openServSock port, .opened .errNone) ∈ told ∧ (.getHostIp, .addr ip) ∈ told

/-! ## What the client hears -/

def refusal (se : UInt8) : List UInt8 := [socksVer, se, 0, atypIp4]

/-- Success, with the address and the port of a socket. -/
def success (ip port : List UInt8) : List UInt8 := socksVer :: 0 :: 0 :: atypIp4 :: (ip ++ port)

/-- What precedes the last answer to a request: the method, and for `BIND` also what the socket
has been opened for. -/
inductive Preface (reply : List UInt8) (told : List (Question × Told)) : List UInt8 → Prop where
  | method : Preface reply told reply
  | bound {ip port : List UInt8} (h : Listening told ip port) :
      Preface reply told (reply ++ success ip port)

/-- The command has been carried out, and this precedes the last answer. -/
inductive Served (child : SocksChild) (reply : List UInt8) (told : List (Question × Told)) :
    List UInt8 → Prop where
  | connect (h : Connected child told) : Served child reply told reply
  | bind {ip port : List UInt8} (h : Listening told ip port)
      (haccept : (.accept, .accepted true) ∈ told) :
      Served child reply told (reply ++ success ip port)

/-- All that is said to a client. Success is told with the address of the socket in use. -/
inductive Script (child : SocksChild) (reply : List UInt8) (told : List (Question × Told)) :
    List UInt8 → Prop where
  | refused {se : UInt8} (hse : se ≠ 0) : Script child reply told (refusal se)
  | failed {preface : List UInt8} {se : UInt8} (h : Preface reply told preface) (hse : se ≠ 0) :
      Script child reply told (preface ++ refusal se)
  | served {preface bytes : List UInt8} (h : Served child reply told preface)
      (haddr : (.getsockname, .addr bytes) ∈ told) :
      Script child reply told (preface ++ success (bytes.drop 2) (bytes.take 2))

/-- What the client has heard so far. -/
def Spoken (child : SocksChild) (reply : List UInt8) (t : SocksTalk) : Prop :=
  ∃ script, Script child reply t.told script ∧ t.said <+: script

structure NegotiateInv (child : SocksChild) (reply : List UInt8) (t : SocksTalk) : Prop where
  grounded : ∀ qa ∈ t.told, Grounded child t.heard t.told qa.1
  spoken : Spoken child reply t

variable {child : SocksChild} {reply : List UInt8} {t : SocksTalk}
  {heard : List UInt8} {told told' : List (Question × Told)} {q : Question}

theorem SocksRequest.Asks.mono {w : SocksRequest} (h : w.Asks child told q)
    (htold : told ⊆ told') : w.Asks child told' q := by
  cases q with
  | connect ip port =>
      obtain ⟨hup, hcmd, hport, haddr⟩ := h
      refine ⟨hup, hcmd, hport, haddr.imp id ?_⟩
      rintro ⟨raw, hraw, hip⟩
      exact ⟨raw, hraw, htold hip⟩
  | connectCtcp ctcpPort => exact ⟨h.1, h.2.1, htold h.2.2⟩
  | _ => exact h

theorem Grounded.mono {heard' : List UInt8} (h : Grounded child heard told q)
    (hheard : heard <+: heard') (htold : told ⊆ told') : Grounded child heard' told' q := by
  obtain ⟨w, hw, hasks, hhead, hbytes⟩ := h
  exact ⟨w, hw, hasks.mono htold, hhead.trans hheard, fun hq => (hbytes hq).trans hheard⟩

theorem Connected.mono (h : Connected child told) (htold : told ⊆ told') :
    Connected child told' := by
  rcases h with ⟨ip, port, h⟩ | ⟨name, port, ctcpPort, h, hctcp⟩
  · exact .inl ⟨ip, port, htold h⟩
  · exact .inr ⟨name, port, ctcpPort, htold h, fun hc => htold (hctcp hc)⟩

theorem Listening.mono {ip port : List UInt8} (h : Listening told ip port)
    (htold : told ⊆ told') : Listening told' ip port :=
  ⟨htold h.1, htold h.2⟩

theorem Preface.mono {preface : List UInt8} (h : Preface reply told preface)
    (htold : told ⊆ told') : Preface reply told' preface := by
  cases h with
  | method => exact .method
  | bound h => exact .bound (h.mono htold)

theorem Served.mono {preface : List UInt8} (h : Served child reply told preface)
    (htold : told ⊆ told') : Served child reply told' preface := by
  cases h with
  | connect h => exact .connect (h.mono htold)
  | bind h haccept => exact .bind (h.mono htold) (htold haccept)

theorem Script.mono {script : List UInt8} (h : Script child reply told script)
    (htold : told ⊆ told') : Script child reply told' script := by
  cases h with
  | refused hse => exact .refused hse
  | failed h hse => exact .failed (h.mono htold) hse
  | served h haddr => exact .served (h.mono htold) (htold haddr)

theorem Spoken.mono {t' : SocksTalk} (h : Spoken child reply t) (hsaid : t'.said = t.said)
    (htold : t.told ⊆ t'.told) : Spoken child reply t' := by
  obtain ⟨script, hscript, hprefix⟩ := h
  exact ⟨script, hscript.mono htold, hsaid ▸ hprefix⟩

/-- As long as the last answer has not begun, it may be a refusal. -/
theorem Preface.spoken {preface : List UInt8} (h : Preface reply t.told preface)
    (hsaid : t.said <+: preface) : Spoken child reply t :=
  ⟨_, .failed h (by decide : (1 : UInt8) ≠ 0), hsaid.trans (List.prefix_append _ _)⟩

namespace NegotiateInv

theorem start : NegotiateInv child reply .start :=
  ⟨by simp [Talk.start], Preface.method.spoken List.nil_prefix⟩

theorem hear (t : SocksTalk) (bs : List UInt8) (h : NegotiateInv child reply t) :
    NegotiateInv child reply (t.hear bs) :=
  ⟨fun qa hqa => (h.grounded qa hqa).mono (List.prefix_append _ _) (List.Subset.refl _),
    h.spoken.mono rfl (List.Subset.refl _)⟩

theorem fails (t : SocksTalk) (h : NegotiateInv child reply t) :
    NegotiateInv child reply t.fails :=
  ⟨h.grounded, h.spoken.mono rfl (List.Subset.refl _)⟩

theorem tell (h : NegotiateInv child reply t) {a : Told} (hq : Grounded child t.heard t.told q) :
    NegotiateInv child reply (t.tell q a) := by
  have hsub : t.told ⊆ (t.tell q a).told := List.subset_append_left _ _
  refine ⟨fun qa hqa => ?_, h.spoken.mono rfl hsub⟩
  rcases List.mem_append.mp hqa with hqa | hqa
  · exact (h.grounded qa hqa).mono List.prefix_rfl hsub
  · obtain rfl := List.mem_singleton.mp hqa
    exact hq.mono List.prefix_rfl hsub

theorem say (h : NegotiateInv child reply t) {bs : List UInt8}
    (hsaid : Spoken child reply (t.say bs)) : NegotiateInv child reply (t.say bs) :=
  ⟨h.grounded, hsaid⟩

end NegotiateInv

/-- A part of what is still to be said. -/
theorem Script.spoken {answer : List UInt8} (h : Script child reply t.told (t.said ++ answer))
    (n : ℕ) : Spoken child reply (t.say (answer.take n)) :=
  ⟨_, h, (List.prefix_append_right_inj _).mpr (List.take_prefix _ _)⟩

end Ctcp
