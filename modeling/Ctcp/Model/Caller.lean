import Ctcp.Model.Receive
import Ctcp.Model.Worker

/-! # The life of a connection at the client, from `clictcp.c`

`connect_ctcp` sends SYN until a SYN_ACK comes and starts the thread of `handle_connection`;
`close_clictcp` is called by another thread, and waits for that one before it begins its own
loop. Substream `k` sends through its socket, which is its address. -/

namespace Ctcp

open Function

/-! ## What is sent -/

/-- A packet on every substream. One that cannot be sent is one that is lost. -/
def CliPaths.mailAll (csk : CliPaths) (flag : Flag) : List Mail := csk.sockets.map (·, flag)

/-- What the `switch` of `handle_connection` sends on a packet on substream `k`, with the
acknowledgement that `bldack` sends. -/
def packetMail (csk : CliPaths) (k : ℕ) (flag : Flag) : List Mail :=
  let state := csk.pathstate k
  match flag with
  | .finAck => if endsConnection state flag then csk.mailAll .finAck else []
  | .synAck | .normal | .coded =>
    if state = .synSent ∨ state = .synAckRecv ∨ state = .established then
      [(csk.sockfd k, .normal)]
    else []
  | _ => []

/-- What is sent again when a timer has run out. -/
def timerFlag : CliPath → Option Flag
  | .synSent => some .syn
  | .synAckRecv => some .normal
  | .finSent => some .fin
  | .finRecv | .finAckSent | .finAckRecv => some .finAck
  | .established | .closing => none

/-- The FIN at `IDLE_MAX_COUNT`. -/
def idleMail (csk : CliPaths) (k : ℕ) : List Mail :=
  if idleMaxCount ≤ csk.idleCount k + 1 ∧
      (csk.pathstate k = .synAckRecv ∨ csk.pathstate k = .established) then
    [(csk.sockfd k, .fin)]
  else []

/-- What the loop over the timers sends on path `k`. -/
def timerMail (s : HandleConn) (k : ℤ) (now : ℚ) : List Mail :=
  let i := k.toNat
  if k < s.csk.substreams ∧ s.csk.idleTime i < now - s.csk.lastrcvt i then
    (timerFlag (s.csk.pathstate i)).toList.map (s.csk.sockfd i, ·) ++
      match s.csk.pathstate i with
      | .established => []
      | .finAckRecv => idleMail (s.dropSubstream i).csk (k - 1).toNat
      | _ => idleMail s.csk i
  else []

def handleMail (s : HandleConn) : HandleEvent → List Mail
  | .receive (.packet flag _ _ _ _) =>
    if s.revents s.currSubstream.toNat = .input then
      packetMail s.csk s.currSubstream.toNat flag
    else []
  | .timer now => match s.phase with
    | .timing k => timerMail s k now
    | _ => []
  | _ => []

/-! ## Both threads -/

/-- A loop around `poll_flag`, before its sending or after it, or `handle_connection`. -/
inductive CallerPhase where
  | connecting (l : CliLoop) (sent : Bool)
  | handling (s : HandleConn)
  | finning (l : CliLoop) (sent : Bool)
  | ended (csk : CliPaths)
  | closing (l : CliLoop) (sent : Bool)
  | closed (csk : CliPaths)

/-- A `clictcp_sock` with its threads, and the status that `close_clictcp` has found. -/
structure Caller where
  phase : CallerPhase
  found : Option SockStatus

namespace CallerPhase

def csk : CallerPhase → CliPaths
  | connecting l _ | finning l _ | closing l _ => l.csk
  | handling s => s.csk
  | ended csk | closed csk => csk

/-- `close_clictcp` sets the status. -/
def setClosed : CallerPhase → CallerPhase
  | connecting l sent => connecting l sent
  | handling s => handling { s with csk := { s.csk with status := .closed } }
  | finning l sent => finning { l with csk := { l.csk with status := .closed } } sent
  | ended csk => ended { csk with status := .closed }
  | closing l sent => closing l sent
  | closed csk => closed csk

end CallerPhase

/-- The second half of a round of a loop around `poll_flag`. -/
def pollWait (flag : Flag) (l : CliLoop) (polled : Polled) : CliLoop :=
  let result := pollFlag l.csk flag polled
  { l with index := result.1, flag := result.2.1, csk := result.2.2 }

theorem pollLoop_body {resend : CliLoop → CliRound → CliLoop} {flag : Flag} (l : CliLoop)
    (r : CliRound) : (pollLoop resend flag).body l r = pollWait flag (resend l r) r.polled := rfl

/-- The packet that `poll_flag` reads, and its address. -/
def polledMail (csk : CliPaths) : Polled → Option Mail
  | .ready pollin (.packet flag) => (firstReady pollin csk.substreams).map (csk.sockfd ·, flag)
  | _ => none

inductive CallerEvent where
  /-- The sending in a loop: the substreams on which it works, and the time. -/
  | resend (sent : ℕ → Bool) (now : ℚ)
  /-- The reading in a loop, and the substreams on which `send_flag` works after the loop. -/
  | poll (polled : Polled) (sent : ℕ → Bool) (now : ℚ)
  /-- A step of `handle_connection` that is no FIN. -/
  | handle (e : HandleEvent)
  /-- `handle_connection` reads a FIN. -/
  | fin (now : ℚ)
  /-- `close_clictcp` is called. -/
  | close
  /-- `close_clictcp` goes on once the thread has ended. -/
  | joined

/-- The packet that `recvmsg` or `poll_flag` reads. -/
def callerReads (c : Caller) : CallerEvent → Option Mail
  | .poll polled _ _ => polledMail c.phase.csk polled
  | .handle (.receive (.packet flag _ _ _ _)) => match c.phase with
    | .handling s =>
      if s.revents s.currSubstream.toNat = .input then
        some (s.csk.sockfd s.currSubstream.toNat, flag)
      else none
    | _ => none
  | .fin _ => match c.phase with
    | .handling s => some (s.csk.sockfd s.currSubstream.toNat, .fin)
    | _ => none
  | _ => none

/-- The start of the thread, and its end. -/
def handlingPhase (s : HandleConn) : CallerPhase :=
  if s.phase = .done then .ended s.csk else .handling s

/-- After the SYN loop: the SYN_ACK is acknowledged on its path. -/
def connectTest (l : CliLoop) (sent : ℕ → Bool) (now : ℚ) : Option (CallerPhase × List Mail) :=
  if synLoop.goesOn l then some (.connecting l false, [])
  else
    (connectReturn l (sent l.index.toNat) now).map fun csk =>
      (.handling (startHandle csk), [(csk.sockfd l.index.toNat, .normal)])

/-- After the loop that answers a FIN. -/
def finTest (l : CliLoop) : CallerPhase :=
  if finLoop.goesOn l then .finning l false
  else
    let csk := if pollMaxTries ≤ l.tries then l.csk else l.csk.setPaths (fun _ => true) .closing
    .ended { csk with status := .closed }

/-- After the loop of `close_clictcp`: a FIN_ACK is answered, unless a FIN was before it. -/
def closeTest (l : CliLoop) (sent : ℕ → Bool) : CallerPhase × List Mail :=
  if closeLoop.goesOn l then (.closing l false, [])
  else if pollMaxTries ≤ l.tries then (.closed { l.csk with error := .closeErr }, [])
  else if l.csk.pathstate l.index.toNat = .closing then (.closed l.csk, [])
  else
    (.closed ((l.csk.setPath l.index.toNat .finAckRecv).setPaths sent .closing),
      l.csk.mailAll .finAck)

/-- What `close_clictcp` sends in a round: FIN, or FIN_ACK after a FIN. -/
def resendCloseMail (l : CliLoop) : List Mail :=
  if l.index = -1 then l.csk.mailAll .fin
  else if l.index = -2 ∧ l.flag = .fin then l.csk.mailAll .finAck
  else []

/-- A step of `handle_connection`; there is none where it leaves its arrays. The handling of a
FIN is left to `finStep`. -/
def handlingStep (s : HandleConn) (e : HandleEvent) : Option (CallerPhase × List Mail) :=
  match e with
  | .close | .receive (.packet .fin _ _ _ _) => none
  | e =>
    (handleStep s e).bind fun s' =>
      if s'.inRange then some (handlingPhase s', handleMail s e) else none

/-- The case `FIN` of `handle_connection` up to its loop. -/
def finStep (s : HandleConn) (now : ℚ) : Option CallerPhase :=
  let k := s.currSubstream.toNat
  if s.phase = .receiving ∧ 0 ≤ s.currSubstream ∧ s.currSubstream < s.csk.substreams ∧
      s.revents k = .input then
    some (.finning (startFin (s.csk.received k now) k) false)
  else none

/-- One step of either thread, with the packets that it sends. -/
def callerStep (c : Caller) : CallerEvent → Option (Caller × List Mail)
  | .resend sent now => match c.phase with
    | .connecting l false =>
      some ({ c with phase := .connecting (resendSyn l ⟨sent, now, .failed⟩) true },
        if l.index = -1 then l.csk.mailAll .syn else [])
    | .finning l false =>
      some ({ c with phase := .finning (resendFinAck l ⟨sent, now, .failed⟩) true },
        if l.index = -1 then l.csk.mailAll .finAck else [])
    | .closing l false =>
      some ({ c with phase := .closing (resendClose l ⟨sent, now, .failed⟩) true },
        resendCloseMail l)
    | _ => none
  | .poll polled sent now => match c.phase with
    | .connecting l true =>
      (connectTest (pollWait .synAck l polled) sent now).map fun r => ({ c with phase := r.1 }, r.2)
    | .finning l true =>
      some ({ c with phase := finTest (pollWait .finAck l polled) }, [])
    | .closing l true =>
      let r := closeTest (pollWait .finAck l polled) sent
      some ({ c with phase := r.1 }, r.2)
    | _ => none
  | .handle e => match c.phase with
    | .handling s => (handlingStep s e).map fun r => ({ c with phase := r.1 }, r.2)
    | _ => none
  | .fin now => match c.phase with
    | .handling s => (finStep s now).map fun phase => ({ c with phase := phase }, [])
    | _ => none
  | .close => match c.phase, c.found with
    | .handling _, none | .finning _ _, none | .ended _, none =>
      some ({ phase := c.phase.setClosed, found := some c.phase.csk.status }, [])
    | _, _ => none
  | .joined => match c.phase, c.found with
    | .ended csk, some .active => some ({ c with phase := .closing (startClose csk) false }, [])
    | .ended csk, some .closed => some ({ c with phase := .closed csk }, [])
    | _, _ => none

/-- The client's end of a connection. Before the handshake each substream has a socket of its
own; its state is what is in the memory of the socket until a SYN is sent on it. -/
def clientParty (memory : ℕ → CliPath) : Party Caller CallerEvent Mail Mail where
  init c := ∃ csk : CliPaths, 0 < csk.substreams ∧ csk.sockets.Nodup ∧ csk.status = .active ∧
    csk.error = .none ∧ csk.pathstate = memory ∧ c = ⟨.connecting (startSyn csk) false, none⟩
  step := callerStep
  reads := callerReads

/-- Both ends of a connection. -/
def connection (memory : ℕ → CliPath) : System (Posted Caller Mail Mail × Posted Worker Mail Mail)
    (CallerEvent ⊕ ServerEvent) := (clientParty memory).link serverParty

end Ctcp
