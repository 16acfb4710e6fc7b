import Ctcp.Library.Pipe
import Ctcp.Verification.Transfer.Prefix
import Ctcp.Verification.Tunnel.Relay

/-! # The tunnel between a client and its target

The two proxies after the negotiation: from the client everything goes over TCP, and what
the target sends goes over CTCP between the proxies. -/

namespace Ctcp

/-- The streams of both directions and the loops between them. -/
structure Tunnel where
  fromClient : Pipe UInt8
  localTraffic : Traffic
  /-- From `sk_target` of `proxy_local` to `sk_client` of `proxy_remote`. -/
  uplink : Pipe UInt8
  remoteTraffic : Traffic
  toTarget : Pipe UInt8
  fromTarget : Pipe UInt8
  transfer : Transfer
  ctcpTraffic : CtcpTraffic
  toClient : Pipe UInt8

def Tunnel.start (transfer : Transfer) : Tunnel where
  fromClient := .empty
  localTraffic := .start
  uplink := .empty
  remoteTraffic := .start
  toTarget := .empty
  fromTarget := .empty
  transfer := transfer
  ctcpTraffic := .start
  toClient := .empty

/-- Steps of a connection in which neither proxy's traffic takes part. -/
def TransferEvent.Background : TransferEvent → Prop
  | .send .startWorker | .send (.ack _) | .packet _ | .arrive _ | .handle | .close | .release =>
    True
  | _ => False

inductive TunnelEvent where
  | ctcp (e : TransferEvent)
  | other

section

variable (bufSize : ℕ)

/-- The steps of both ends and of `handle_traffic` in `proxy_local`. Nothing is ever written
to its `sk_target`, so there is only the end to read. -/
inductive LocalStep : Tunnel → Tunnel → Prop where
  | clientWrites {s : Tunnel} (bytes : List UInt8) :
      LocalStep s { s with fromClient := s.fromClient.write bytes }
  | clientReads {s : Tunnel} (n : ℕ) : LocalStep s { s with toClient := s.toClient.read n }
  | poll {s : Tunnel} (p : TrafficPoll) (hphase : s.localTraffic.phase = .polling) :
      LocalStep s { s with localTraffic := pollLocal s.localTraffic p }
  | read {s : Tunnel} {n : ℕ} (hphase : s.localTraffic.phase = .reading)
      (hown : s.localTraffic.bown = some .client) (hn : n ≤ bufSize) :
      LocalStep s
        { s with
          localTraffic := s.localTraffic.read (some (s.fromClient.pending.take n))
          fromClient := s.fromClient.read n }
  | readEnd {s : Tunnel} (hphase : s.localTraffic.phase = .reading) :
      LocalStep s { s with localTraffic := s.localTraffic.read (some []) }
  | readFails {s : Tunnel} (hphase : s.localTraffic.phase = .reading) :
      LocalStep s { s with localTraffic := s.localTraffic.read none }
  | write {s : Tunnel} {n : ℕ} (hphase : s.localTraffic.phase = .writing)
      (hown : s.localTraffic.bown = some .client) (hn : n ≤ s.localTraffic.pending.length) :
      LocalStep s
        { s with
          localTraffic := s.localTraffic.write (some n)
          uplink := s.uplink.write (s.localTraffic.pending.take n) }
  | writeBack {s : Tunnel} {n : ℕ} (hphase : s.localTraffic.phase = .writing)
      (hown : s.localTraffic.bown = some .target) (hn : n ≤ s.localTraffic.pending.length) :
      LocalStep s
        { s with
          localTraffic := s.localTraffic.write (some n)
          toClient := s.toClient.write (s.localTraffic.pending.take n) }
  | writeFails {s : Tunnel} (hphase : s.localTraffic.phase = .writing) :
      LocalStep s { s with localTraffic := s.localTraffic.write none }

/-- The steps of the target and of `handle_traffic` in `proxy_remote`, but for `send_ctcp`. -/
inductive RemoteStep : Tunnel → Tunnel → Prop where
  | targetWrites {s : Tunnel} (bytes : List UInt8) :
      RemoteStep s { s with fromTarget := s.fromTarget.write bytes }
  | targetReads {s : Tunnel} (n : ℕ) : RemoteStep s { s with toTarget := s.toTarget.read n }
  | poll {s : Tunnel} (p : TrafficPoll) (hphase : s.remoteTraffic.phase = .polling) :
      RemoteStep s { s with remoteTraffic := pollRemote s.remoteTraffic p }
  | readClient {s : Tunnel} {n : ℕ} (hphase : s.remoteTraffic.phase = .reading)
      (hown : s.remoteTraffic.bown = some .client) (hn : n ≤ bufSize) :
      RemoteStep s
        { s with
          remoteTraffic := s.remoteTraffic.read (some (s.uplink.pending.take n))
          uplink := s.uplink.read n }
  | readTarget {s : Tunnel} {n : ℕ} (hphase : s.remoteTraffic.phase = .reading)
      (hown : s.remoteTraffic.bown = some .target) (hn : n ≤ bufSize) :
      RemoteStep s
        { s with
          remoteTraffic := s.remoteTraffic.read (some (s.fromTarget.pending.take n))
          fromTarget := s.fromTarget.read n }
  | readFails {s : Tunnel} (hphase : s.remoteTraffic.phase = .reading) :
      RemoteStep s { s with remoteTraffic := s.remoteTraffic.read none }
  | write {s : Tunnel} {n : ℕ} (hphase : s.remoteTraffic.phase = .writing)
      (hown : s.remoteTraffic.bown = some .client) (hn : n ≤ s.remoteTraffic.pending.length) :
      RemoteStep s
        { s with
          remoteTraffic := s.remoteTraffic.write (some n)
          toTarget := s.toTarget.write (s.remoteTraffic.pending.take n) }
  | writeFails {s : Tunnel} (hphase : s.remoteTraffic.phase = .writing) :
      RemoteStep s { s with remoteTraffic := s.remoteTraffic.write none }
  /-- `send_ctcp` returns -1. -/
  | sendFails {s : Tunnel} (hphase : s.remoteTraffic.phase = .sending) :
      RemoteStep s { s with remoteTraffic := s.remoteTraffic.sendCtcp none }

/-- The steps of the CTCP connection, with the calls that the proxies make. -/
inductive CtcpStep : Tunnel → TransferEvent → Tunnel → Prop where
  | background {s : Tunnel} {e : TransferEvent} {c : Transfer} (hback : e.Background)
      (hstep : TransferStep s.transfer e c) : CtcpStep s e { s with transfer := c }
  /-- `proxy_remote` calls `send_ctcp`. -/
  | call {s : Tunnel} {c : Transfer} (hphase : s.remoteTraffic.phase = .sending)
      (hstep : TransferStep s.transfer (.send (.call s.remoteTraffic.pending)) c) :
      CtcpStep s (.send (.call s.remoteTraffic.pending)) { s with transfer := c }
  /-- The call goes on. -/
  | goesOn {s : Tunnel} {e : SenderEvent} {c : Transfer} {k k' : SendCall}
      (hphase : s.remoteTraffic.phase = .sending) (hcall : s.transfer.sender.call = some k)
      (hstep : TransferStep s.transfer (.send e) c) (hcall' : c.sender.call = some k')
      (he : e = .round ∨ e = .wake) : CtcpStep s (.send e) { s with transfer := c }
  /-- The call returns the number of bytes that it has taken. -/
  | returns {s : Tunnel} {e : SenderEvent} {c : Transfer} {k : SendCall}
      (hphase : s.remoteTraffic.phase = .sending) (hcall : s.transfer.sender.call = some k)
      (hstep : TransferStep s.transfer (.send e) c) (hcall' : c.sender.call = none)
      (he : e = .round ∨ e = .timeOut) :
      CtcpStep s (.send e)
        { s with
          transfer := c
          remoteTraffic := s.remoteTraffic.sendCtcp (some k.taken.length) }
  /-- `proxy_local` calls `read_ctcp`, which may fail at once. -/
  | enter {s : Tunnel} {c : Transfer} (hphase : s.ctcpTraffic.phase = .reading)
      (hstep : TransferStep s.transfer (.enter bufSize) c) :
      CtcpStep s (.enter bufSize)
        { s with
          transfer := c
          ctcpTraffic :=
            if c.session.reader = .failed then s.ctcpTraffic.read none else s.ctcpTraffic }
  | pop {s : Tunnel} {c : Transfer} {bytes : List UInt8} (hphase : s.ctcpTraffic.phase = .reading)
      (hstep : TransferStep s.transfer .pop c)
      (hread : c.session.read = s.transfer.session.read ++ bytes) :
      CtcpStep s .pop
        { s with
          transfer := c
          ctcpTraffic :=
            s.ctcpTraffic.read (if c.session.reader = .failed then none else some bytes) }

/-- The steps of `handle_ctcp_traffic` that write to the client. -/
inductive CtcpTrafficStep : Tunnel → Tunnel → Prop where
  | poll {s : Tunnel} (p : Option Bool) (hphase : s.ctcpTraffic.phase = .polling) :
      CtcpTrafficStep s { s with ctcpTraffic := s.ctcpTraffic.poll p }
  | write {s : Tunnel} {n : ℕ} (hphase : s.ctcpTraffic.phase = .writing)
      (hn : n ≤ s.ctcpTraffic.pending.length) :
      CtcpTrafficStep s
        { s with
          ctcpTraffic := s.ctcpTraffic.write (some n)
          toClient := s.toClient.write (s.ctcpTraffic.pending.take n) }
  | writeFails {s : Tunnel} (hphase : s.ctcpTraffic.phase = .writing) :
      CtcpTrafficStep s { s with ctcpTraffic := s.ctcpTraffic.write none }

inductive TunnelStep : Tunnel → TunnelEvent → Tunnel → Prop where
  | proxyLocal {s s' : Tunnel} (h : LocalStep bufSize s s') : TunnelStep s .other s'
  | proxyRemote {s s' : Tunnel} (h : RemoteStep bufSize s s') : TunnelStep s .other s'
  | ctcp {s s' : Tunnel} {e : TransferEvent} (h : CtcpStep bufSize s e s') :
      TunnelStep s (.ctcp e) s'
  | ctcpTraffic {s s' : Tunnel} (h : CtcpTrafficStep s s') : TunnelStep s .other s'

end

/-- The condition of `KeepsRows`, for the connection inside the tunnel. -/
def KeepsTunnelRows (s : Tunnel) : TunnelEvent → Prop
  | .ctcp e => KeepsRows s.transfer e
  | .other => True

end Ctcp
