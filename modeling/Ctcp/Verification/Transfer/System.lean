import Ctcp.Verification.Agreement.Source
import Ctcp.Verification.Cache.EndOfStream
import Ctcp.Verification.Store.Runs

/-! # A transfer from one application to the other

`send_ctcp` at one end, `read_ctcp` at the other, and the packets between them. -/

namespace Ctcp

open Function Program

/-- Both ends, the packets that coding jobs have made, and the acknowledgements sent. A
packet of the sets may arrive at any time, any number of times, or never. -/
structure Transfer where
  sender : Sender
  session : Session
  data : Set DataPckt
  acks : Set AckPckt

inductive TransferEvent where
  | send (e : SenderEvent)
  | packet (msg : DataPckt)
  | arrive (e : Arrival)
  | handle
  | enter (count : ℕ)
  | pop
  | close
  | release

/-- The steps of all threads. `bldack` sends its acknowledgement before it hands anything
over, and the client may be told to close whenever it is between two packets. -/
inductive TransferStep : Transfer → TransferEvent → Transfer → Prop where
  | send {s : Transfer} {e : SenderEvent} {sender : Sender} (hstep : SenderStep s.sender e sender)
      (hack : ∀ a, e = .ack a → a ∈ s.acks) :
      TransferStep s (.send e) { s with sender := sender }
  | packet {s : Transfer} {msg : DataPckt} :
      TransferStep s (.packet msg) { s with data := insert msg s.data }
  | arrive {s : Transfer} {e : Arrival} {csk mid : Client}
      (hactive : s.session.status = .active) (hidle : s.session.handler = .idle csk)
      (hmsg : e.msg ∈ s.data)
      (hmid : absorbPacket e.rm (unmarshallData csk e.msg) e.msg = some mid) :
      TransferStep s (.arrive e)
        { s with
          session := { s.session with handler := .running (handleData e.rm csk e.msg) }
          acks := insert (buildAck mid e.msg.seqno) s.acks }
  | handle {s : Transfer} {c : Session} (hrun : handlerStep s.session = some c) :
      TransferStep s .handle { s with session := c }
  | enter {s : Transfer} {count : ℕ} (houtside : s.session.reader = .outside)
      (hcount : 1 ≤ count) :
      TransferStep s (.enter count) { s with session := readCtcp s.session count }
  | pop {s : Transfer} {c : Session} {count : ℕ} (hpopping : s.session.reader = .popping count)
      (hpop : readCtcpPop s.session count = some c) :
      TransferStep s .pop { s with session := c }
  | close {s : Transfer} {csk : Client} (hactive : s.session.status = .active)
      (hidle : s.session.handler = .idle csk) :
      TransferStep s .close { s with session := finClose s.session }
  | release {s : Transfer} (hclosed : s.session.status = .closed) :
      TransferStep s .release { s with session := finRelease s.session }

def transfer (memory : BlockMemory) : System Transfer TransferEvent where
  init s := ∃ raw, (sender memory).init s.sender ∧ s.session = openSession raw ∧ s.data = ∅ ∧
    s.acks = ∅
  step := TransferStep

/-- Packets are truthful and of a block of the window when they are made, and a packet over
several rows meets no stored row that reaches further. -/
def KeepsRows (s : Transfer) : TransferEvent → Prop
  | .packet msg => Sendable s.sender.sk msg
  | .arrive e => ∀ csk, s.session.handler = .idle csk → csk.Absorbs e.msg →
      2 ≤ e.msg.numPackets.toNat → Fits e.rm (csk.block e.msg.blockno) e.msg
  | _ => True

/-! ## The handler and what it will have handed over -/

/-- Whatever the buffer replies, the handler ends with a client and bytes handed over
that are related by `P`. -/
def Handler.Settles (P : Client → List UInt8 → Prop) (handed : List UInt8) : Handler → Prop
  | .idle csk => P csk handed
  | .running prog => prog.Ensures Drained fun t res =>
      ∃ c, res = some c ∧ P c.1 (handed ++ pushedBytes t)

variable {P P' : Client → List UInt8 → Prop}

theorem Handler.Settles.mono {handed : List UInt8} {h : Handler} (hs : h.Settles P handed)
    (hP : ∀ csk bytes, P csk bytes → P' csk bytes) : h.Settles P' handed := by
  cases h with
  | idle csk => exact hP csk handed hs
  | running prog =>
      refine Ensures.mono hs fun t res hres => ?_
      obtain ⟨c, hc, hp⟩ := hres
      exact ⟨c, hc, hP _ _ hp⟩

theorem running_of_handlerStep {s s' : Session} (hstep : handlerStep s = some s') :
    ∃ prog, s.handler = .running prog := by
  cases hs : s.handler with
  | idle csk =>
      rw [handlerStep, hs] at hstep
      cases hstep
  | running prog => exact ⟨prog, rfl⟩

/-- The next call of the handler: the buffer takes what it has room for. -/
theorem Handler.Settles.handle {s s' : Session} (hs : s.handler.Settles P s.handed)
    (hcache : s.usrCache.Inv) (hreleased : s.usrCache.released = false)
    (hstep : handlerStep s = some s') :
    s'.handler.Settles P s'.handed ∧ s'.usrCache.Inv ∧ s'.usrCache.released = false ∧
      s'.status = s.status := by
  unfold handlerStep at hstep
  split at hstep
  case h_1 => cases hstep
  case h_2 => cases hstep
  case h_3 csk ack hrun =>
    obtain rfl := Option.some.inj hstep
    rw [hrun] at hs
    obtain ⟨c, hc, hp⟩ := hs
    obtain rfl := Option.some.inj hc
    refine ⟨?_, hcache, hreleased, rfl⟩
    simpa [Handler.Settles, Session.handed] using hp
  case h_4 k hrun =>
    obtain rfl := Option.some.inj hstep
    rw [hrun] at hs
    refine ⟨?_, hcache, hreleased, rfl⟩
    have hreply := hs (fifoGetspace s.usrCache) trivial
    refine hreply.mono fun t res hres => ?_
    simpa [Session.handed] using hres
  case h_5 bytes k hrun =>
    obtain ⟨⟨n, Q'⟩, hpush, rfl⟩ := Option.map_eq_some_iff.mp hstep
    rw [hrun] at hs
    have hspec := fifoPush_spec hcache hpush
    refine ⟨?_, hspec.inv, hspec.released_eq.trans hreleased, rfl⟩
    have hreply := hs n (drained_of_pushedSpec hspec hreleased)
    refine hreply.mono fun t res hres => ?_
    simpa [Session.handed, hspec.contents_eq] using hres

/-- What is handed over now begins what the handler will have handed over. -/
theorem Handler.Settles.exists_prefix {handed : List UInt8} {h : Handler}
    (hs : h.Settles P handed) : ∃ csk bytes, P csk bytes ∧ handed <+: bytes := by
  cases h with
  | idle csk => exact ⟨csk, handed, hs, List.prefix_rfl⟩
  | running prog =>
      have hrun := runs_runWith (p := prog) drainReply drained_drainReply
      obtain ⟨c, -, hp⟩ := ensures_iff.mp hs _ _ hrun
      exact ⟨c.1, _, hp, List.prefix_append _ _⟩

/-- A pop moves bytes from the buffer to the application. -/
theorem handed_readCtcpPop {s s' : Session} {count : ℕ} (hcache : s.usrCache.Inv)
    (hpop : readCtcpPop s count = some s') :
    s'.handed = s.handed ∧ s'.usrCache.Inv ∧ s'.usrCache.released = s.usrCache.released ∧
      s'.status = s.status ∧ s'.handler = s.handler := by
  obtain ⟨⟨bytes, Q'⟩, hfifo, rfl⟩ := Option.map_eq_some_iff.mp hpop
  have hspec := fifoPop_spec hcache hfifo
  have hbytes : bytes ++ Q'.contents = s.usrCache.contents := by
    rw [hspec.bytes_eq, hspec.contents_eq, List.take_append_drop]
  by_cases hnil : bytes = []
  · rw [hnil, List.nil_append] at hbytes
    simp only [if_pos hnil]
    refine ⟨?_, hspec.inv, hspec.released_eq, trivial, trivial⟩
    rw [Session.handed, Session.handed, hbytes]
  · simp only [if_neg hnil]
    refine ⟨?_, hspec.inv, hspec.released_eq, trivial, trivial⟩
    rw [Session.handed, Session.handed, List.append_assoc, hbytes]

end Ctcp
