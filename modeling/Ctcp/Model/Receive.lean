import Ctcp.Library.Execution
import Ctcp.Model.Control

/-! # The loop of `handle_connection`, from `clictcp.c`

One step is a return of `poll`, one pass through the loop over the ready sockets, or one
path in the loop over the timers. Beside the arrays of the code each path has a record of its
own, under its socket; the steps update the record of the path that they mean. -/

namespace Ctcp

open Function

/-- 0.5 seconds. -/
def initIdleTime : ℚ := 1 / 2

def idleMaxCount : ℕ := 7

/-- What `poll` leaves in `revents`: 0, `POLLIN` and perhaps more, or something else. -/
inductive Revents where
  | none | input | other
  deriving DecidableEq

/-- What `poll` returns: -1, with `errno` equal to `EINTR` or not, or the events. -/
inductive PollReturn where
  | failed (eintr : Bool)
  | events (revents : ℕ → Revents)

/-- What `recvmsg` returns: -1, no bytes, or a packet with its time. The answer to a packet
is sent or not; what follows a FIN takes some rounds. -/
inductive RecvMsg where
  | failed
  | empty
  | packet (flag : Flag) (now : ℚ) (sent : Bool) (n : ℕ) (rounds : ℕ → CliRound)

/-- Where `handle_connection` stands: before `poll`, in the loop over the ready sockets, in
the loop over the timers before path `k`, or at its end. -/
inductive HandlePhase where
  | polling
  | receiving
  | timing (k : ℤ)
  | done
  deriving DecidableEq

/-- What belongs to one path. -/
structure PathRecord where
  pathstate : CliPath
  lastrcvt : ℚ
  idleTime : ℚ
  idleCount : ℕ
  deriving DecidableEq

/-- The entries of the arrays at `k`. -/
def CliPaths.record (csk : CliPaths) (k : ℕ) : PathRecord where
  pathstate := csk.pathstate k
  lastrcvt := csk.lastrcvt k
  idleTime := csk.idleTime k
  idleCount := csk.idleCount k

def CliPaths.sockets (csk : CliPaths) : List ℕ := (List.range csk.substreams).map csk.sockfd

/-- The variables of `handle_connection`. -/
structure HandleConn where
  csk : CliPaths
  readFd : ℕ → ℕ
  revents : ℕ → Revents
  currSubstream : ℤ
  ready : ℕ
  phase : HandlePhase
  /-- The record of the path on each socket. -/
  paths : ℕ → PathRecord
  /-- All indices used so far were those of substreams. -/
  inRange : Bool
  /-- The passes made since `poll`, and the indices at which `recvmsg` was called in them. -/
  passes : ℕ
  reads : List ℕ
  /-- The sockets at the start of the last loop over the timers, and those it examined. -/
  started : List ℕ
  examined : List ℕ

namespace HandleConn

/-- An array is read or written at `k`. -/
def use (s : HandleConn) (k : ℤ) : HandleConn :=
  { s with inRange := s.inRange && decide (0 ≤ k ∧ k < s.csk.substreams) }

def updatePath (s : HandleConn) (fd : ℕ) (f : PathRecord → PathRecord) : HandleConn :=
  { s with paths := update s.paths fd (f (s.paths fd)) }

/-- The end of a round of the outer loop. -/
def roundEnd (s : HandleConn) : HandleConn :=
  let csk := if s.csk.substreams = 0 then { s.csk with status := .closed } else s.csk
  { s with csk := csk, phase := if csk.status = .active then .polling else .done }

/-- After the loop over the ready sockets. -/
def afterPackets (s : HandleConn) : HandleConn :=
  if s.csk.status = .closed then s.roundEnd
  else { s with phase := .timing 0, started := s.csk.sockets, examined := [] }

/-- A path is given up: its entry in `read_set` goes, and so does its substream. -/
def dropSubstream (s : HandleConn) (k : ℕ) : HandleConn :=
  { s with
    csk := removeSubstream (s.csk.setPath k .closing) k
    readFd := update (shiftDown s.readFd k (s.csk.substreams - 1)) (s.csk.substreams - 1) 0 }

end HandleConn

/-! ## Packets -/

/-- The state of a path after a packet that is no FIN and does not end the connection. -/
def packetState (state : CliPath) (flag : Flag) (sent : Bool) : CliPath :=
  match flag with
  | .synAck =>
    if (state = .synSent ∨ state = .synAckRecv ∨ state = .established) ∧ sent then .established
    else state
  | .normal | .coded => if state = .synAckRecv ∨ state = .synSent then .established else state
  | _ => state

/-- The path has sent a FIN, and a FIN_ACK has come. -/
def endsConnection (state : CliPath) (flag : Flag) : Prop :=
  flag = .finAck ∧ (state = .finSent ∨ state = .finAckRecv)

instance (state : CliPath) (flag : Flag) : Decidable (endsConnection state flag) :=
  inferInstanceAs (Decidable (_ ∧ _))

/-- The part before the `switch`: the timer starts anew. -/
def CliPaths.received (csk : CliPaths) (k : ℕ) (now : ℚ) : CliPaths :=
  { csk with
    lastrcvt := update csk.lastrcvt k now
    idleTime := update csk.idleTime k initIdleTime
    idleCount := update csk.idleCount k 0 }

def PathRecord.received (p : PathRecord) (now : ℚ) : PathRecord :=
  { p with lastrcvt := now, idleTime := initIdleTime, idleCount := 0 }

/-- A packet other than a FIN. -/
def handlePacket (s : HandleConn) (k : ℕ) (flag : Flag) (now : ℚ) (sent : Bool) : HandleConn :=
  let fd := s.csk.sockfd k
  let state := s.csk.pathstate k
  let csk := s.csk.received k now
  if endsConnection state flag then
    { s with
      csk := { (csk.setPath k .finAckRecv).setPaths (fun _ => true) .closing with
        status := .closed }
      paths := fun p =>
        if p ∈ s.csk.sockets then
          { (if p = fd then (s.paths p).received now else s.paths p) with pathstate := .closing }
        else s.paths p }
  else
    ({ s with csk := csk.setPath k (packetState state flag sent) } : HandleConn).updatePath fd
      fun p => { p.received now with pathstate := packetState p.pathstate flag sent }

/-- On to the next socket; the loop goes on as long as `ready` is positive. -/
def nextSocket (s : HandleConn) : HandleConn :=
  let next := s.currSubstream + 1
  let s := { s with currSubstream := if next = s.csk.substreams then 0 else next }
  if 0 < s.ready then s else s.afterPackets

/-- `recvmsg` has failed on substream `k`. -/
def handleFailure (s : HandleConn) (k : ℕ) : HandleConn :=
  let t := s.updatePath (s.csk.sockfd k) fun p => { p with pathstate := .closing }
  { t.dropSubstream k with currSubstream := s.currSubstream - 1 }

/-- The body of the loop over the ready sockets. A FIN ends the thread, if its handshake
does. -/
def receiveBody (s : HandleConn) (r : RecvMsg) : Option HandleConn :=
  let k := s.currSubstream.toNat
  if s.revents k = .input then
    match r with
    | .failed => some (handleFailure s k).afterPackets
    | .empty => some s.afterPackets
    | .packet flag now sent n rounds =>
      if flag = .fin then
        (handleFin n (s.csk.received k now) k rounds).map fun csk =>
          { s with csk := csk, phase := .done }
      else some (nextSocket { handlePacket s k flag now sent with ready := s.ready - 1 })
  else some (nextSocket s)

/-- One pass through the loop over the ready sockets. -/
def receiveStep (s : HandleConn) (r : RecvMsg) : Option HandleConn :=
  let k := s.currSubstream.toNat
  receiveBody
    { s.use s.currSubstream with
      passes := s.passes + 1
      reads := if s.revents k = .input then s.reads ++ [k] else s.reads } r

/-! ## Timers -/

/-- The state of a path whose timer has run out once more. -/
def timerState (state : CliPath) (idleCount : ℕ) : CliPath :=
  if idleMaxCount ≤ idleCount then
    if state = .synAckRecv ∨ state = .established then .finSent else .closing
  else state

/-- The timer is doubled and the count goes up. -/
def CliPaths.idled (csk : CliPaths) (k : ℕ) : CliPaths :=
  { csk with
    idleTime := update csk.idleTime k (2 * csk.idleTime k)
    idleCount := update csk.idleCount k (csk.idleCount k + 1) }

def PathRecord.idled (p : PathRecord) : PathRecord :=
  { p with idleTime := 2 * p.idleTime, idleCount := p.idleCount + 1 }

/-- The timer of a path runs out. An established path is left alone. -/
def PathRecord.expire (p : PathRecord) (now : ℚ) : PathRecord :=
  if p.idleTime < now - p.lastrcvt ∧ p.pathstate ≠ .established then
    { p.idled with pathstate := timerState p.pathstate (p.idleCount + 1) }
  else p

/-- At `IDLE_MAX_COUNT` a FIN is sent, or the path is given up. -/
def checkIdle (s : HandleConn) (k : ℕ) : HandleConn :=
  if idleMaxCount ≤ s.csk.idleCount k then
    if s.csk.pathstate k = .synAckRecv ∨ s.csk.pathstate k = .established then
      { s with csk := s.csk.setPath k .finSent }
    else s.dropSubstream k
  else s

def countIdle (s : HandleConn) (k : ℤ) : HandleConn :=
  checkIdle { s.use k with csk := s.csk.idled k.toNat } k.toNat

/-- One path in the loop over the timers, or its end. -/
def timerStep (s : HandleConn) (k : ℤ) (now : ℚ) : HandleConn :=
  if k < s.csk.substreams then
    let i := k.toNat
    let fd := s.csk.sockfd i
    let s := { s.use k with examined := s.examined ++ [fd], phase := .timing (k + 1) }
    if s.csk.idleTime i < now - s.csk.lastrcvt i then
      let t := s.updatePath fd fun p => p.expire now
      match s.csk.pathstate i with
      | .established => s
      | .finAckRecv => { countIdle (t.dropSubstream i) (k - 1) with phase := .timing k }
      | _ => countIdle t k
    else s
  else s.roundEnd

/-! ## The thread -/

inductive HandleEvent where
  | poll (result : PollReturn)
  | receive (r : RecvMsg)
  | timer (now : ℚ)
  /-- `close_clictcp` sets the status. -/
  | close

def pollStep (s : HandleConn) : PollReturn → HandleConn
  | .failed eintr =>
    if eintr ∧ s.csk.status = .closed then { s with phase := .done } else s.afterPackets
  | .events revents =>
    let ready := (List.range s.csk.substreams).countP fun k => revents k ≠ .none
    let s := { s with revents := revents }
    if ready = 0 then s.afterPackets
    else { s with ready := ready, passes := 0, reads := [], phase := .receiving }

def handleStep (s : HandleConn) : HandleEvent → Option HandleConn
  | .poll result => if s.phase = .polling then some (pollStep s result) else none
  | .receive r => if s.phase = .receiving then receiveStep s r else none
  | .timer now => match s.phase with
    | .timing k => some (timerStep s k now)
    | _ => none
  | .close => some { s with csk := { s.csk with status := .closed } }

/-- `handle_connection` before its loop. -/
def startHandle (csk : CliPaths) : HandleConn where
  csk := csk
  readFd := csk.sockfd
  revents _ := .none
  currSubstream := 0
  ready := 0
  phase := .polling
  paths fd := csk.record (csk.sockets.idxOf fd)
  inRange := true
  passes := 0
  reads := []
  started := []
  examined := []

/-- The thread begins after the handshake, with distinct sockets. The state of a path on
which no SYN could be sent is what was in memory. -/
def handleSystem : System HandleConn HandleEvent where
  init s := ∃ csk : CliPaths, 0 < csk.substreams ∧ csk.sockets.Nodup ∧ s = startHandle csk
  step s e s' := handleStep s e = some s'

end Ctcp
