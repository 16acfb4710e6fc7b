import Ctcp.Verification.Negotiation.Handling
import Ctcp.Verification.Negotiation.Polling
import Ctcp.Verification.Proxy.Ports

/-! # Each party against any peer -/

namespace Ctcp

open Program

/-! ## `handle_con` -/

/-- `handle_con` as a party. -/
def childRole (child : SocksChild) (buf : List UInt8) :
    Role UInt8 Question Told (Except Stop Unit) where
  allow := Answers
  start := handleCon child buf
  again _ := none

instance (child : SocksChild) (buf : List UInt8) (q : Question) (a : Told) :
    Decidable ((childRole child buf).allow q a) := inferInstanceAs (Decidable (Answers q a))

/-- The two proxies, and the replies with which they select a method. -/
inductive ProxyChild : SocksChild → List UInt8 → Prop where
  | «local» (upProxy : Bool) : ProxyChild (childLocal upProxy) [socksVer, socksMethod]
  | remote (upProxy : Bool) {ctcpPort : ℕ} (hlow : startPort ≤ ctcpPort)
      (hhigh : ctcpPort ≤ maxPort) :
      ProxyChild (childRemote upProxy ctcpPort)
        (socksVer :: socksMethod :: (decimal ctcpPort ++ [0]))

variable {child : SocksChild} {reply buf : List UInt8}

theorem ProxyChild.replies (h : ProxyChild child reply) : Replies child reply := by
  cases h with
  | «local» => exact fun _ _ => rfl
  | remote upProxy hlow hhigh =>
      intro buf hbuf
      simp only [startPort, maxPort] at hlow hhigh
      exact selectMethod_eq hbuf (length_decimal (by omega) (by omega))

theorem childRole_keeps (hchild : ProxyChild child reply) (hbuf : buf.length = negBufLen) :
    (childRole child buf).Keeps (NegotiateInv child reply) (Concluded child reply) where
  init := .start
  start := handleCon_keeps hchild.replies hbuf
  again _ _ _ _ _ h := by cases h

/-- For every client: nothing is asked of the system but what the client's request asks for, and the
client hears the method and one last answer, or an immediate refusal, with the first answer
to `BIND` between them. It hears success only when the command has been carried out. No
buffer overruns, and `sz_error` has a text for the result, unless `accept` has failed. A
length from 128 on is refused like any count that cannot be read. The port of the remote
proxy has four digits. -/
theorem handleCon_of_reachable (hchild : ProxyChild child reply) (hbuf : buf.length = negBufLen)
    {s : Speaker UInt8 Question Told (Except Stop Unit)}
    (h : (childRole child buf).alone.Reachable s) :
    (∀ qa ∈ s.talk.told, Grounded child s.talk.heard s.talk.told qa.1) ∧ Spoken child reply s.talk ∧
      (∀ r, s.prog = .done r → Concluded child reply s.talk r) ∧
        s.prog ≠ .done (.error .overrun) := by
  have hsound := (childRole_keeps hchild hbuf).sound h
  exact ⟨hsound.talk.grounded, hsound.talk.spoken, fun r hr => hsound.returned hr,
    fun hr => hsound.returned hr⟩

namespace OneAddress

def role : Role UInt8 Question Told (Except Stop Unit) :=
  childRole (childRemote false startPort) (List.replicate negBufLen 0)

instance (q : Question) (a : Told) : Decidable (role.allow q a) :=
  inferInstanceAs (Decidable (Answers q a))

/-- A client asks for 10.0.0.1, in pieces. -/
def replies : List (Option (StreamReply UInt8 Told)) :=
  [some (.got [5]), some (.got [1]), some (.got [0]), some (.wrote 3), some (.wrote 4),
   some (.got [5, 1, 0, 1]), some (.got [10, 0]), some (.got [0, 1]), some (.got [0, 80]),
   some (.answer (.connect .connected)), some (.answer (.addr [0, 80, 10, 0, 0, 2])),
   some (.wrote 10)]

def view (s : Speaker UInt8 Question Told (Except Stop Unit)) :
    Option (Except Stop Unit) × List Question :=
  (match s.prog with
    | .done r => some r
    | .call _ _ => none,
   s.talk.told.map Prod.fst)

end OneAddress

theorem handleCon_oneAddress : ∃ s : Speaker UInt8 Question Told (Except Stop Unit),
    s.prog = .done (.ok ()) ∧
      s.talk.told.map Prod.fst = [.connect [10, 0, 0, 1] [0, 80], .getsockname] ∧
        Concluded (childRemote false startPort)
          (socksVer :: socksMethod :: (decimal startPort ++ [0])) s.talk (.ok ()) := by
  have hplay : (OneAddress.replies.foldlM OneAddress.role.next OneAddress.role.begin).map
      OneAddress.view = some (some (.ok ()), [.connect [10, 0, 0, 1] [0, 80], .getsockname]) := by
    decide +kernel
  obtain ⟨s, hs, hview⟩ := Option.map_eq_some_iff.mp hplay
  have hreach : OneAddress.role.alone.Reachable s := Role.alone_play (.init rfl) hs
  have hprog : s.prog = .done (.ok ()) := by
    have hfst := congrArg Prod.fst hview
    simp only [OneAddress.view] at hfst
    split at hfst
    next r hprog => rw [hprog, Option.some.inj hfst]
    next => cases hfst
  exact ⟨s, hprog, congrArg Prod.snd hview, (handleCon_of_reachable
    (.remote false (Nat.le_refl _) (by decide)) List.length_replicate hreach).2.2.1 _ hprog⟩

end Ctcp
