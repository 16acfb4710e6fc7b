import Ctcp.Library.Execution
import Mathlib.Data.Int.Notation

/-! # The ports of `proxy_remote`

From `proxy_remote.c` the loop that accepts connections, with the handler of `SIGCHLD`, and
what `child_remote.c` and `up_proxy.c` say to each other about the port. -/

namespace Ctcp

/-- `START_PORT` -/
def startPort : ℕ := 8001

/-- `MAX_PORT` -/
def maxPort : ℕ := 9999

/-! ## The accept loop -/

/-- A child that is alive: the number of its fork, and what it passes to `handle_con`. -/
structure ProxySession where
  number : ℕ
  ctcpPort : ℕ
  deriving DecidableEq

/-- Where the parent stands. -/
inductive AcceptLoop where
  /-- At the head of the loop. -/
  | testing
  /-- Between the test of `con_cnt` and `fork`. -/
  | accepting
  /-- After `fork`. -/
  | counting
  /-- In `++con_cnt`, which has read `n`. -/
  | counted (n : ℤ)
  deriving DecidableEq

structure ProxyRemote where
  conCnt : ℤ
  ctcpPort : ℕ
  loop : AcceptLoop
  /-- The last one first. -/
  sessions : List ProxySession
  /-- Children that have exited and were not waited for. -/
  exited : ℕ
  forks : ℕ
  /-- `ctcp_port` was counted up since the last fork. -/
  moved : Bool

/-- `main` when it enters the loop. -/
def ProxyRemote.start : ProxyRemote where
  conCnt := 0
  ctcpPort := startPort
  loop := .testing
  sessions := []
  exited := 0
  forks := 0
  moved := true

inductive ProxyEvent where
  | fork
  | other

/-- The handler of `SIGCHLD` may run between any two steps. -/
inductive ProxyStep (maxConCnt : ℤ) : ProxyRemote → ProxyEvent → ProxyRemote → Prop where
  /-- `sleep(1)` -/
  | full {s : ProxyRemote} (hloop : s.loop = .testing) (hfull : maxConCnt ≤ s.conCnt) :
      ProxyStep maxConCnt s .other s
  | test {s : ProxyRemote} (hloop : s.loop = .testing) (hroom : s.conCnt < maxConCnt) :
      ProxyStep maxConCnt s .other { s with loop := .accepting }
  /-- `accept` or `fork` has failed, or the filter does not allow the connection. -/
  | refuse {s : ProxyRemote} (hloop : s.loop = .accepting) :
      ProxyStep maxConCnt s .other { s with loop := .testing }
  | fork {s : ProxyRemote} (hloop : s.loop = .accepting) :
      ProxyStep maxConCnt s .fork
        { s with
          loop := .counting
          sessions := ⟨s.forks, s.ctcpPort⟩ :: s.sessions
          forks := s.forks + 1
          moved := false }
  | read {s : ProxyRemote} (hloop : s.loop = .counting) :
      ProxyStep maxConCnt s .other { s with loop := .counted s.conCnt }
  /-- The load limit is reached: `++ctcp_port` is not evaluated. -/
  | countLast {s : ProxyRemote} {n : ℤ} (hloop : s.loop = .counted n) (hlast : maxConCnt ≤ n + 1) :
      ProxyStep maxConCnt s .other { s with loop := .testing, conCnt := n + 1 }
  | count {s : ProxyRemote} {n : ℤ} (hloop : s.loop = .counted n) (hroom : n + 1 < maxConCnt) :
      ProxyStep maxConCnt s .other
        { s with loop := .testing, conCnt := n + 1, ctcpPort := s.ctcpPort + 1, moved := true }
  | exit {s : ProxyRemote} {c : ProxySession} (hc : c ∈ s.sessions) :
      ProxyStep maxConCnt s .other
        { s with sessions := s.sessions.erase c, exited := s.exited + 1 }
  /-- A round of the loop of `handle_sig`. -/
  | wait {s : ProxyRemote} (hexited : 0 < s.exited) :
      ProxyStep maxConCnt s .other { s with conCnt := s.conCnt - 1, exited := s.exited - 1 }

def proxyRemote (maxConCnt : ℤ) : System ProxyRemote ProxyEvent where
  init s := s = .start
  step := ProxyStep maxConCnt

/-! ## What is said about the port -/

/-- What `%d` makes of a number. -/
def decimal (n : ℕ) : List UInt8 := (Nat.toDigits 10 n).map fun c => c.toNat.toUInt8

/-- `SOCKS_VER` -/
def socksVer : UInt8 := 5

/-- `SOCKS_METHOD` -/
def socksMethod : UInt8 := 0

/-- Bytes are written to a buffer from index `i` on. -/
def writeAt (buf : List UInt8) (i : ℕ) (bytes : List UInt8) : List UInt8 :=
  buf.take i ++ bytes ++ buf.drop (i + bytes.length)

/-- The reply in which `negotiate` selects a method; its buffer holds what it has read. -/
def selectMethod (buf : List UInt8) (ctcpPort : ℕ) : List UInt8 :=
  let buf := writeAt buf 0 [socksVer]
  let buf := writeAt buf 1 [socksMethod]
  let buf := writeAt buf 2 (decimal ctcpPort ++ [0])
  buf.take 7

/-- The status of a connection around `PROXY_CS_S5_WAITMET`. -/
inductive ProxyStatus where
  | waitMet
  | sendReq
  | sendAuth
  | error
  deriving DecidableEq

/-- `proxy_errno` -/
inductive ProxyErrno where
  | errno (n : ℤ)
  | socksVer
  | socksMethod
  deriving DecidableEq

/-- A connection, with `srvctcp_port`, to which its `ctcp_port` is set. -/
structure ProxyConnection where
  status : ProxyStatus
  waitWrite : Bool
  srvctcpPort : List UInt8
  proxyErrno : ProxyErrno

/-- `proxy_poll_connect` at `PROXY_CS_S5_WAITMET`; `buf` is what it has read, 7 bytes at
most. -/
def pollConnect (pcon : ProxyConnection) (buf : List UInt8) (errno : ℤ) : ℤ × ProxyConnection :=
  if buf.length < 7 then (-1, { pcon with proxyErrno := .errno errno, status := .error })
  else if buf.getD 0 0 ≠ 5 then (-1, { pcon with proxyErrno := .socksVer, status := .error })
  else
    match (buf.getD 1 0).toNat with
    | 0 =>
      (0,
        { pcon with
          status := .sendReq
          srvctcpPort := (buf.drop 2).take 5
          waitWrite := true })
    | 2 =>
      (0,
        { pcon with
          status := .sendAuth
          srvctcpPort := (buf.drop 2).take 5
          waitWrite := true })
    | _ => (-1, { pcon with proxyErrno := .socksMethod, status := .error })

end Ctcp
