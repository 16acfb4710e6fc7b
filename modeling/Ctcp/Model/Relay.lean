import Mathlib.Tactic.Common

/-! # The data traffic of the proxies

`handle_traffic` of `child_local.c` and `child_remote.c`, and `handle_ctcp_traffic` of
`child_local.c`. A system call that a signal interrupts is made again. -/

namespace Ctcp

/-- The two sockets of `handle_traffic`, in the order of `pfd`. -/
inductive Side where
  | client | target
  deriving DecidableEq

def Side.other : Side → Side
  | .client => .target
  | .target => .client

/-- The flags of a descriptor that are looked at after `poll`. -/
structure PollFlags where
  pollin : Bool
  pollerr : Bool
  pollhup : Bool
  deriving DecidableEq

/-- The return of `poll` on both sockets. -/
inductive TrafficPoll where
  | failed
  | timeout
  | ready (client target : PollFlags)

/-- The error codes that `handle_traffic` returns. -/
inductive TrafficRes where
  | errNone | errConidle | errSkfatal
  deriving DecidableEq

/-- The next call of the loop of `handle_traffic`, or its result. -/
inductive TrafficPhase where
  | polling
  | reading
  | writing
  /-- In the inner loop of `child_remote.c`. -/
  | sending
  | returned (res : TrafficRes)
  deriving DecidableEq

/-- The locals of `handle_traffic`: `btop` bytes of `buf` are in use, and `bown` is `none`
as long as it is -1. -/
structure Traffic where
  buf : List UInt8
  bptr : ℕ
  bown : Option Side
  phase : TrafficPhase
  deriving DecidableEq

def Traffic.start : Traffic := ⟨[], 0, none, .polling⟩

namespace Traffic

/-- The bytes from `bptr` up to `btop`. -/
def pending (t : Traffic) : List UInt8 := t.buf.drop t.bptr

/-- After `poll`. What comes from the target is sent with `send_ctcp` if `ctcp` is set. -/
def poll (ctcp : Bool) (t : Traffic) : TrafficPoll → Traffic
  | .failed => { t with phase := .returned .errSkfatal }
  | .timeout => { t with phase := .returned .errConidle }
  | .ready client target =>
    if client.pollerr || target.pollerr then { t with phase := .returned .errSkfatal }
    else if client.pollhup || target.pollhup then { t with phase := .returned .errNone }
    else if t.bptr < t.buf.length then
      { t with phase := if ctcp && t.bown = some .target then .sending else .writing }
    else
      { buf := []
        bptr := 0
        bown := some (if client.pollin then .client else .target)
        phase := .reading }

/-- After `read` from the socket of `bown`. -/
def read (t : Traffic) : Option (List UInt8) → Traffic
  | none => { t with phase := .returned .errSkfatal }
  | some [] => { t with phase := .returned .errNone }
  | some (c :: bytes) => { t with buf := c :: bytes, phase := .polling }

/-- After `write` to the other socket. -/
def write (t : Traffic) : Option ℕ → Traffic
  | none => { t with phase := .returned .errSkfatal }
  | some n => { t with bptr := t.bptr + n, phase := .polling }

/-- After `send_ctcp` in the inner loop. -/
def sendCtcp (t : Traffic) : Option ℕ → Traffic
  | none => { t with phase := .returned .errSkfatal }
  | some n =>
    { t with
      bptr := t.bptr + n
      phase := if t.bptr + n < t.buf.length then .sending else .polling }

end Traffic

/-- `handle_traffic` of `child_local.c` after `poll`. -/
def pollLocal : Traffic → TrafficPoll → Traffic := Traffic.poll false

/-- `handle_traffic` of `child_remote.c` after `poll`. -/
def pollRemote : Traffic → TrafficPoll → Traffic := Traffic.poll true

/-- The next call of `handle_ctcp_traffic`, or its end. -/
inductive CtcpPhase where
  | reading | polling | writing | exited
  deriving DecidableEq

structure CtcpTraffic where
  buf : List UInt8
  bptr : ℕ
  phase : CtcpPhase
  deriving DecidableEq

def CtcpTraffic.start : CtcpTraffic := ⟨[], 0, .reading⟩

namespace CtcpTraffic

def pending (t : CtcpTraffic) : List UInt8 := t.buf.drop t.bptr

/-- The test of the inner loop. -/
def next (t : CtcpTraffic) : CtcpTraffic :=
  { t with phase := if t.bptr < t.buf.length then .polling else .reading }

/-- After `read_ctcp`, which returns -1 or the number of bytes. -/
def read (t : CtcpTraffic) : Option (List UInt8) → CtcpTraffic
  | none => { buf := [], bptr := 0, phase := .exited }
  | some bytes => next { t with buf := bytes, bptr := 0 }

/-- After `poll`, with the flag `POLLHUP` if it returns one descriptor. -/
def poll (t : CtcpTraffic) : Option Bool → CtcpTraffic
  | none => { t with phase := .exited }
  | some pollhup => { t with phase := if pollhup then .exited else .writing }

/-- After `write` to `sk_client`. -/
def write (t : CtcpTraffic) : Option ℕ → CtcpTraffic
  | none => { t with phase := .exited }
  | some n => next { t with bptr := t.bptr + n }

end CtcpTraffic

end Ctcp
