import Ctcp.Library.Loop
import Ctcp.Model.Paths

/-! # The loops that repeat a control packet, from `clictcp.c` and `srvctcp.c` -/

namespace Ctcp

/-- What `recvfrom` returns: -1, no bytes, or a packet. -/
inductive Received where
  | failed
  | empty
  | packet (flag : Flag)
  deriving DecidableEq

/-! ## Client -/

def pollMaxTries : ℕ := 10

/-- What `poll` returns to `poll_flag`: -1, 0, or the substreams with `POLLIN` set and what
`recvfrom` then returns for the first of them. -/
inductive Polled where
  | failed
  | timedOut
  | ready (pollin : ℕ → Bool) (received : Received)

/-- The substream at which the scan of `poll_flag` stops. -/
def firstReady (pollin : ℕ → Bool) (substreams : ℕ) : Option ℕ :=
  (List.range substreams).find? pollin

/-- `poll_flag`: the substream on which `flag` has come, -1, or -2 for another flag. The
flag is passed by reference. A substream whose socket fails is removed. -/
def pollFlag (csk : CliPaths) (flag : Flag) : Polled → ℤ × Flag × CliPaths
  | .failed | .timedOut => (-1, flag, csk)
  | .ready pollin received =>
    match firstReady pollin csk.substreams with
    | none => (-1, flag, csk)
    | some sub =>
      match received with
      | .failed => (-1, flag, removeSubstream (csk.setPath sub .closing) sub)
      | .empty => (-1, flag, csk)
      | .packet got => if got = flag then (sub, flag, csk) else (-2, got, csk)

/-- One round of a loop: the substreams on which `send_flag` works, the time, and what
`poll_flag` gets. -/
structure CliRound where
  sent : ℕ → Bool
  now : ℚ
  polled : Polled

/-- The variables of the loops around `poll_flag`: `tries` is `rv` in `connect_ctcp`, and
`index` is `path_ix` there and `poll_rv` in `handle_connection`. -/
structure CliLoop where
  csk : CliPaths
  tries : ℕ
  index : ℤ
  flag : Flag

/-- Send again what is due, then wait for `flag`. -/
def pollLoop (resend : CliLoop → CliRound → CliLoop) (flag : Flag) :
    Loop CliLoop CliRound where
  body s r :=
    let s := resend s r
    let polled := pollFlag s.csk flag r.polled
    { s with index := polled.1, flag := polled.2.1, csk := polled.2.2 }
  goesOn s := s.index < 0 && s.tries < pollMaxTries

/-- The sending of SYN in `connect_ctcp`. The count is set, not increased. -/
def resendSyn (s : CliLoop) (r : CliRound) : CliLoop :=
  if s.index = -1 then
    let csk := s.csk.setPaths r.sent .synSent
    { s with
      csk := { csk with
        lastrcvt := fun k => if k < csk.substreams ∧ r.sent k then r.now else csk.lastrcvt k }
      tries := 1 }
  else s

/-- The SYN loop of `connect_ctcp`. -/
def synLoop : Loop CliLoop CliRound := pollLoop resendSyn .synAck

def startSyn (csk : CliPaths) : CliLoop :=
  { csk := csk, tries := 0, index := -1, flag := .synAck }

/-- The return of `connect_ctcp` after its loop: `none` is NULL. -/
def connectReturn (s : CliLoop) (acked : Bool) (now : ℚ) : Option CliPaths :=
  if pollMaxTries ≤ s.tries then none
  else
    let k := s.index.toNat
    let csk := s.csk.setPath k .synAckRecv
    let csk := { csk with lastrcvt := Function.update csk.lastrcvt k now }
    some (if acked then csk.setPath k .established else csk)

/-- The handshake of `connect_ctcp`, if `n` rounds are enough for it. -/
def connectCtcp (n : ℕ) (csk : CliPaths) (rounds : ℕ → CliRound) (acked : Bool) (now : ℚ) :
    Option (Option CliPaths) :=
  (synLoop.run n (startSyn csk) rounds).map fun s => connectReturn s acked now

/-- The sending of FIN_ACK in `handle_connection`. -/
def resendFinAck (s : CliLoop) (_r : CliRound) : CliLoop :=
  if s.index = -1 then
    { s with csk := s.csk.setPaths (fun _ => true) .finAckSent, tries := s.tries + 1 }
  else s

/-- The loop of `handle_connection` after a FIN. -/
def finLoop : Loop CliLoop CliRound := pollLoop resendFinAck .finAck

def startFin (csk : CliPaths) (currSubstream : ℕ) : CliLoop :=
  { csk := csk.setPath currSubstream .finRecv, tries := 0, index := -1, flag := .fin }

/-- The case `FIN` of `handle_connection`, if `n` rounds are enough for it. -/
def handleFin (n : ℕ) (csk : CliPaths) (currSubstream : ℕ) (rounds : ℕ → CliRound) :
    Option CliPaths :=
  (finLoop.run n (startFin csk currSubstream) rounds).map fun s =>
    let csk := if pollMaxTries ≤ s.tries then s.csk else s.csk.setPaths (fun _ => true) .closing
    { csk with status := .closed }

/-- The sending of FIN, or of FIN_ACK after a FIN, in `close_clictcp`. -/
def resendClose (s : CliLoop) (r : CliRound) : CliLoop :=
  if s.index = -1 then
    { s with csk := s.csk.setPaths r.sent .finSent, tries := s.tries + 1 }
  else if s.index = -2 ∧ s.flag = .fin then
    { s with csk := s.csk.setPaths r.sent .closing }
  else s

/-- The FIN loop of `close_clictcp`. -/
def closeLoop : Loop CliLoop CliRound := pollLoop resendClose .finAck

def startClose (csk : CliPaths) : CliLoop :=
  { csk := { csk with status := .closed }, tries := 0, index := -1, flag := .finAck }

/-- `close_clictcp` up to the sockets, if `n` rounds are enough for it. Before the loop the
thread of `handle_connection` has ended. -/
def closeClictcp (n : ℕ) (csk : CliPaths) (rounds : ℕ → CliRound) (acked : ℕ → Bool) :
    Option CliPaths :=
  if csk.status = .closed then some csk
  else
    (closeLoop.run n (startClose csk) rounds).map fun s =>
      if pollMaxTries ≤ s.tries then { s.csk with error := .closeErr }
      else if s.csk.pathstate s.index.toNat = .closing then s.csk
      else (s.csk.setPath s.index.toNat .finAckRecv).setPaths acked .closing

/-! ## Server -/

def controlMaxRetries : ℕ := 10

/-- What `timedread` returns, and `recvfrom` when there is something to read. -/
inductive TimedRead where
  | failed
  | timedOut
  | ready (received : Received)
  deriving DecidableEq

/-- One round of a loop. `closed` says that another thread has set the status to `CLOSED`. -/
structure SrvRound where
  sent : ℕ → Bool
  read : TimedRead
  closed : Bool

/-- The variables of the FIN_ACK loop of `server_worker`; `flag` is that of the last packet. -/
structure FinAckLoop where
  sk : SrvPaths
  tries : ℕ
  flag : Flag

def finAckBody (s : FinAckLoop) (r : SrvRound) : FinAckLoop :=
  let sk := if s.flag = .fin then s.sk.setPaths (fun _ => true) .finAckSent else s.sk
  let s' : FinAckLoop := match r.read with
    | .failed => { s with sk := sk }
    | .timedOut | .ready .failed | .ready .empty =>
      { s with sk := { sk with error := .closeErr }, tries := s.tries + 1 }
    | .ready (.packet .finAck) =>
      { s with
        sk := { sk.setPaths (fun _ => true) .closing with status := .closed, error := .none }
        flag := .finAck }
    | .ready (.packet .fin) => { sk := sk, tries := s.tries + 1, flag := .fin }
    | .ready (.packet flag) => { s with sk := sk, flag := flag }
  if r.closed then { s' with sk := { s'.sk with status := .closed } } else s'

/-- The FIN_ACK loop of `server_worker`. -/
def finAckLoop : Loop FinAckLoop SrvRound where
  body := finAckBody
  goesOn s := s.sk.status ≠ .closed && s.tries < controlMaxRetries

def startFinAck (sk : SrvPaths) (pathIndex : ℕ) : FinAckLoop where
  sk := { sk.setPath pathIndex .finRecv with status := .skClosing }
  tries := 0
  flag := .fin

/-- The case `FIN` of `server_worker`, if `n` rounds are enough for it. -/
def workerFin (n : ℕ) (sk : SrvPaths) (pathIndex : ℕ) (rounds : ℕ → SrvRound) :
    Option SrvPaths :=
  if sk.pathstate pathIndex = .closing ∨ sk.pathstate pathIndex = .finAckRecv then some sk
  else
    (finAckLoop.run n (startFinAck sk pathIndex) rounds).map fun s =>
      { s.sk.setPaths (fun _ => true) .closing with status := .closed }

/-- The variables of the loop of `close_srvctcp`. -/
structure CloseSrv where
  sk : SrvPaths
  tries : ℕ
  success : Bool

def closeSrvBody (s : CloseSrv) (r : SrvRound) : CloseSrv :=
  let sk := s.sk.setPaths (fun _ => true) .finSent
  match r.read with
  | .failed | .timedOut | .ready .failed | .ready .empty =>
    { s with sk := { sk with error := .closeErr }, tries := s.tries + 1 }
  | .ready (.packet .fin) =>
    if sk.pathstate 0 = .finSent then
      { s with sk := { sk.setPaths r.sent .finAckSent with error := .none } }
    else if sk.pathstate 0 = .finAckSent then
      { s with sk := { sk.setPaths (fun _ => true) .closing with error := .none }, success := true }
    else { s with sk := { sk with error := .none } }
  | .ready (.packet .finAck) =>
    { s with sk := { sk.setPaths (fun _ => true) .closing with error := .none }, success := true }
  | .ready (.packet _) => { s with sk := { sk with error := .closeErr } }

/-- The FIN loop of `close_srvctcp`. -/
def closeSrvLoop : Loop CloseSrv SrvRound where
  body := closeSrvBody
  goesOn s := s.tries < controlMaxRetries && !s.success

def startCloseSrv (sk : SrvPaths) : CloseSrv :=
  { sk := sk, tries := 0, success := false }

/-- `close_srvctcp` after `server_worker` has ended, if `n` rounds are enough for it. -/
def closeSrvctcp (n : ℕ) (sk : SrvPaths) (rounds : ℕ → SrvRound) : Option SrvPaths :=
  if sk.numActive = 0 ∨ sk.pathstate 0 = .closing then some sk
  else (closeSrvLoop.run n (startCloseSrv sk) rounds).map CloseSrv.sk

end Ctcp
