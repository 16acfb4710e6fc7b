import Ctcp.Library.Datagram
import Ctcp.Model.Control
import Ctcp.Model.Sweep

/-! # The life of a connection at the server, from `srvctcp.c`

`listen_srvctcp` reads the first packet and starts the thread of `server_worker`;
`close_srvctcp` is called by another thread. One step is a packet or a timeout, or the sending
in a loop that repeats a control packet. -/

namespace Ctcp

open Function

/-- An address of the client, and the flag of a packet from it or to it. -/
abbrev Mail := ℕ × Flag

def maxConnect : ℕ := 5

/-- `INIT_RTO` -/
def initRto : ℚ := 1

/-- Where `server_worker` stands: not yet started, or never to be, before `timedread`, in its
loop for FIN_ACK before `send_flag` or after it, or at its end. -/
inductive WorkerPhase where
  | listening
  | refused
  | working
  | finAcking (tries : ℕ) (flag : Flag) (sent : Bool)
  | ended
  deriving DecidableEq

/-- Where `close_srvctcp` stands: not called, before its loop, in the loop before `send_flag`
or after it, or at its end. -/
inductive CloserPhase where
  | absent
  | joining
  | finning (tries : ℕ) (success sent : Bool)
  | returned (success : Bool)
  deriving DecidableEq

/-- A `srvctcp_sock` with its two threads. -/
structure Worker where
  sk : SrvPaths
  pathIndex : ℤ
  worker : WorkerPhase
  closer : CloserPhase

/-- The addresses of the active paths. -/
def SrvPaths.addresses (sk : SrvPaths) : List ℕ := sk.activePaths.map fun a => (sk.path a).cliAddr

/-- `send_flag` on every active path. A packet that cannot be sent is one that is lost. -/
def SrvPaths.mailAll (sk : SrvPaths) (flag : Flag) : List Mail := sk.addresses.map (·, flag)

/-- The fields that `init_stream` sets, and those that its callers set after it. -/
def initPath (cliAddr : ℕ) (pathstate : SrvPath) (lastAckTime : ℚ) : TimedPath where
  cliAddr := cliAddr
  pathstate := pathstate
  lastAckTime := lastAckTime
  rto := initRto
  idle := 0

/-- A path is added in memory that no path uses. -/
def SrvPaths.addPath (sk : SrvPaths) (a : ℕ) (ha : a ∉ sk.activePaths) (p : TimedPath) :
    SrvPaths where
  activePaths := sk.activePaths ++ [a]
  nodup := by
    rw [← List.concat_eq_append]
    exact sk.nodup.concat ha
  path := update sk.path a p
  maxidle := sk.maxidle
  status := sk.status
  error := sk.error

def SrvPaths.updatePath (sk : SrvPaths) (a : ℕ) (p : TimedPath) : SrvPaths :=
  { sk with path := update sk.path a p }

/-! ## Packets -/

/-- What comes with a packet: its time, memory for a new path, the time at which that is set
up, and what `handle_ack` leaves in `rto` and whether it calls the acknowledgement bad. -/
structure PacketContext where
  rcvt : ℚ
  memory : ℕ
  now : ℚ
  rto : ℚ
  bad : Bool

/-- `listen_srvctcp`; the SYN_ACK is sent, or the path stays where it is. -/
def listenSrvctcp (w : Worker) (addr : ℕ) (flag : Flag) (memory : ℕ) (sent : Bool) :
    Option (Worker × List Mail) :=
  if flag = .syn then
    if h : memory ∉ w.sk.activePaths then
      let state : SrvPath := if sent then .synAckSent else .synRecv
      some ({ w with
        sk := w.sk.addPath memory h (initPath addr state 0)
        worker := .working }, [(addr, .synAck)])
    else none
  else some ({ w with worker := .refused }, [])

/-- The test of the loop of `server_worker`. -/
def Worker.loopTest (w : Worker) : Worker :=
  { w with worker := if w.sk.status = .closed then .ended else .working }

/-- The end of a round: without paths the connection is closed. -/
def Worker.roundEnd (w : Worker) : Worker :=
  if w.sk.numActive = 0 then
    Worker.loopTest { w with sk := { w.sk with status := .closed, error := .none } }
  else w.loopTest

/-- What the loop over all paths sends on a path that is overdue and still alive. Data is a
step of its own. -/
def sweepMail (rcvt : ℚ) (s : Sweep) (i : ℕ) : List Mail :=
  if i < s.sk.numActive then
    match s.sk.entry ((s.pathIndex + i).tmod s.sk.numActive) with
    | none => []
    | some a =>
      if (s.sk.path a).Overdue rcvt ∧ (timeout s.sk a).1 = true ∧
          ((s.sk.path a).pathstate = .synRecv ∨ (s.sk.path a).pathstate = .synAckSent) then
        [((s.sk.path a).cliAddr, .synAck)]
      else []
  else []

/-- One round of the loop over all paths, with the packets. -/
def sweepSend (rcvt : ℚ) (s : Sweep × List Mail) (i : ℕ) : Option (Sweep × List Mail) :=
  (sweepRound rcvt s.1 i).map fun s' => (s', s.2 ++ sweepMail rcvt s.1 i)

/-- The second half of a round: timers, unless the connection is closed. There is no such step
when `active_paths` is read outside its entries. -/
def sweepPaths (rcvt : ℚ) (w : Worker) (out : List Mail) : Option (Worker × List Mail) :=
  if w.sk.status = .closed then some (w.roundEnd, out)
  else
    ((List.range w.sk.numActive).foldlM (sweepSend rcvt)
      ({ sk := w.sk, pathIndex := w.pathIndex, timedOut := [] }, [])).map fun s =>
      (Worker.roundEnd { w with sk := s.1.sk, pathIndex := s.1.pathIndex }, out ++ s.2)

/-- A packet from a known path that is no FIN; `a` is the path. -/
def knownPath (sk : SrvPaths) (a : ℕ) (flag : Flag) (o : PacketContext) : SrvPaths × List Mail :=
  let p := { sk.path a with lastAckTime := o.rcvt }
  match flag, (sk.path a).pathstate with
  | .normal, .synAckSent => (sk.updatePath a { p with pathstate := .established }, [])
  | .normal, .established =>
    (sk.updatePath a { p with rto := o.rto, idle := if o.bad then p.idle else 0 }, [])
  | .syn, .synAckSent => (sk.updatePath a p, [(p.cliAddr, .synAck)])
  | _, _ => (sk.updatePath a p, [])

/-- One round of `server_worker` that has read a packet. After a new path the timers are left
out; a FIN leads to the loop for FIN_ACK. -/
def receivePacket (w : Worker) (addr : ℕ) (flag : Flag) (o : PacketContext) :
    Option (Worker × List Mail) :=
  let k := lookupPath w.sk addr
  let w := { w with pathIndex := k }
  match w.sk.activePaths[k]? with
  | some a =>
    let p := { w.sk.path a with lastAckTime := o.rcvt }
    if flag = .fin ∧ p.pathstate ≠ .closing ∧ p.pathstate ≠ .finAckRecv then
      let fin := startFinAck (w.sk.updatePath a p) k
      some ({ w with sk := fin.sk, worker := .finAcking fin.tries fin.flag false }, [])
    else
      let known := knownPath w.sk a flag o
      sweepPaths o.rcvt { w with sk := known.1 } known.2
  | none =>
    if flag = .syn ∧ w.sk.numActive < maxConnect then
      if h : o.memory ∉ w.sk.activePaths then
        some (Worker.loopTest { w with
          sk := w.sk.addPath o.memory h (initPath addr .synAckSent o.now) }, [(addr, .synAck)])
      else none
    else sweepPaths o.rcvt w []

/-! ## The loops that repeat a control packet -/

/-- The sending in a round of the loop for FIN_ACK. -/
def finAckSend (s : FinAckLoop) : FinAckLoop :=
  { s with sk := if s.flag = .fin then s.sk.setPaths (fun _ => true) .finAckSent else s.sk }

/-- The reading in a round of the loop for FIN_ACK. -/
def finAckRead (s : FinAckLoop) : TimedRead → FinAckLoop
  | .failed => s
  | .timedOut | .ready .failed | .ready .empty =>
    { s with sk := { s.sk with error := .closeErr }, tries := s.tries + 1 }
  | .ready (.packet .finAck) =>
    { s with
      sk := { s.sk.setPaths (fun _ => true) .closing with status := .closed, error := .none }
      flag := .finAck }
  | .ready (.packet .fin) => { s with tries := s.tries + 1, flag := .fin }
  | .ready (.packet flag) => { s with flag := flag }

/-- A round of the loop, when no other thread interferes, is its two halves. -/
theorem finAckBody_eq (s : FinAckLoop) (sent : ℕ → Bool) (read : TimedRead) :
    finAckBody s ⟨sent, read, false⟩ = finAckRead (finAckSend s) read := by
  cases read with
  | failed => rfl
  | timedOut => rfl
  | ready received =>
      cases received with
      | failed => rfl
      | empty => rfl
      | packet flag => cases flag <;> rfl

/-- After the reading: another round, or the end of the thread. -/
def finAckTest (w : Worker) (s : FinAckLoop) : Worker :=
  if finAckLoop.goesOn s then { w with sk := s.sk, worker := .finAcking s.tries s.flag false }
  else
    { w with
      sk := { s.sk.setPaths (fun _ => true) .closing with status := .closed }
      worker := .ended }

/-- The sending in a round of the loop of `close_srvctcp`. -/
def closeSrvSend (s : CloseSrv) : CloseSrv :=
  { s with sk := s.sk.setPaths (fun _ => true) .finSent }

/-- The reading in a round of the loop of `close_srvctcp`. -/
def closeSrvRead (s : CloseSrv) (sent : ℕ → Bool) : TimedRead → CloseSrv
  | .failed | .timedOut | .ready .failed | .ready .empty =>
    { s with sk := { s.sk with error := .closeErr }, tries := s.tries + 1 }
  | .ready (.packet .fin) =>
    if s.sk.pathstate 0 = .finSent then
      { s with sk := { s.sk.setPaths sent .finAckSent with error := .none } }
    else if s.sk.pathstate 0 = .finAckSent then
      { s with
        sk := { s.sk.setPaths (fun _ => true) .closing with error := .none }, success := true }
    else { s with sk := { s.sk with error := .none } }
  | .ready (.packet .finAck) =>
    { s with
      sk := { s.sk.setPaths (fun _ => true) .closing with error := .none }, success := true }
  | .ready (.packet _) => { s with sk := { s.sk with error := .closeErr } }

theorem closeSrvBody_eq (s : CloseSrv) (sent : ℕ → Bool) (read : TimedRead) (closed : Bool) :
    closeSrvBody s ⟨sent, read, closed⟩ = closeSrvRead (closeSrvSend s) sent read := by
  cases read with
  | failed => rfl
  | timedOut => rfl
  | ready received =>
      cases received with
      | failed => rfl
      | empty => rfl
      | packet flag => cases flag <;> rfl

/-- What the reading in the loop of `close_srvctcp` makes it send. -/
def closeSrvMail (sk : SrvPaths) : TimedRead → List Mail
  | .ready (.packet .fin) | .ready (.packet .finAck) =>
    if sk.pathstate 0 = .finSent then sk.mailAll .finAck else []
  | _ => []

def closeSrvTest (w : Worker) (s : CloseSrv) : Worker :=
  { w with
    sk := s.sk
    closer :=
      if closeSrvLoop.goesOn s then .finning s.tries s.success false else .returned s.success }

/-! ## Both threads -/

inductive ServerEvent where
  /-- The first packet is read by `listen_srvctcp`. -/
  | listen (mail : Mail) (memory : ℕ) (sent : Bool)
  | packet (mail : Mail) (o : PacketContext)
  /-- `recvmsg` has failed. -/
  | noPacket
  /-- `timedread` has failed or has timed out. -/
  | timer (rcvt : ℚ)
  /-- `send_segs` sends data on path `k`. -/
  | segs (k : ℕ) (coded : Bool)
  | finAckSend
  | finAckRead (addr : ℕ) (read : TimedRead)
  /-- `close_srvctcp` is called. -/
  | close
  /-- It does not wait for `server_worker` any more. -/
  | joined
  | closeSend
  | closeRead (addr : ℕ) (read : TimedRead) (sent : ℕ → Bool)

/-- The packet that is read, from an address. -/
def TimedRead.mail (addr : ℕ) : TimedRead → Option Mail
  | .ready (.packet flag) => some (addr, flag)
  | _ => none

def ServerEvent.reads : ServerEvent → Option Mail
  | .listen mail _ _ | .packet mail _ => some mail
  | .finAckRead addr read | .closeRead addr read _ => read.mail addr
  | _ => none

/-- Data is sent once some path is established, but on every active path. -/
def SrvPaths.HasEstablished (sk : SrvPaths) : Prop :=
  ∃ a ∈ sk.activePaths, (sk.path a).pathstate = .established

instance (sk : SrvPaths) : Decidable sk.HasEstablished :=
  inferInstanceAs (Decidable (∃ a ∈ sk.activePaths, _))

/-- `close_srvctcp` before its loop. Without a path nothing is left to do; `active_paths[0]`
is read after the wait, so there is no such step when it is NULL by then. -/
def joinWorker (w : Worker) : Option Worker :=
  if w.sk.numActive = 0 then none
  else if w.sk.pathstate 0 = .closing then some { w with closer := .returned false }
  else some { w with closer := .finning 0 false false }

/-- One step of either thread, with the packets that it sends. -/
def workerStep (w : Worker) : ServerEvent → Option (Worker × List Mail)
  | .listen mail memory sent =>
    if w.worker = .listening then listenSrvctcp w mail.1 mail.2 memory sent else none
  | .packet mail o =>
    if w.worker = .working then receivePacket w mail.1 mail.2 o else none
  | .noPacket => if w.worker = .working then some (w.loopTest, []) else none
  | .timer rcvt => if w.worker = .working then sweepPaths rcvt w [] else none
  | .segs k coded =>
    if w.worker = .working ∧ w.sk.status ≠ .closed ∧ w.sk.HasEstablished then
      w.sk.activePaths[k]?.map fun a =>
        (w, [((w.sk.path a).cliAddr, if coded then .coded else .normal)])
    else none
  | .finAckSend => match w.worker with
    | .finAcking tries flag false =>
      let s := finAckSend ⟨w.sk, tries, flag⟩
      some ({ w with sk := s.sk, worker := .finAcking tries flag true },
        if flag = .fin then w.sk.mailAll .finAck else [])
    | _ => none
  | .finAckRead _ read => match w.worker with
    | .finAcking tries flag true => some (finAckTest w (finAckRead ⟨w.sk, tries, flag⟩ read), [])
    | _ => none
  | .close =>
    if w.closer = .absent then
      if w.sk.numActive = 0 then some ({ w with closer := .returned false }, [])
      else some ({ w with sk := { w.sk with status := .closed }, closer := .joining }, [])
    else none
  | .joined => if w.closer = .joining then (joinWorker w).map (·, []) else none
  | .closeSend => match w.closer with
    | .finning tries success false =>
      let s := closeSrvSend ⟨w.sk, tries, success⟩
      some ({ w with sk := s.sk, closer := .finning tries success true }, w.sk.mailAll .fin)
    | _ => none
  | .closeRead _ read sent => match w.closer with
    | .finning tries success true =>
      some (closeSrvTest w (closeSrvRead ⟨w.sk, tries, success⟩ sent read),
        closeSrvMail w.sk read)
    | _ => none

/-- The socket after `open_srvctcp`. -/
def openSrvctcp (maxidle : ℕ) : Worker where
  sk := ⟨[], List.nodup_nil, fun _ => initPath 0 .synRecv 0, maxidle, .active, .none⟩
  pathIndex := 0
  worker := .listening
  closer := .absent

/-- The server's end of a connection. -/
def serverParty : Party Worker ServerEvent Mail Mail where
  init w := ∃ maxidle, w = openSrvctcp maxidle
  step := workerStep
  reads _ e := e.reads

end Ctcp
