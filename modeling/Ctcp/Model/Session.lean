import Ctcp.Model.Client
import Ctcp.Model.Fifo

/-! # The client's two threads, from `clictcp.c`

`handle_connection` handles packets one after the other; the application calls
`read_ctcp`. Both use `usr_cache`, whose calls are one step each. -/

namespace Ctcp

/-- The values of `status` that matter here. -/
inductive SockStatus where
  | active | closed
  deriving DecidableEq

/-- `handle_connection` between two packets, or within the handler of one. -/
inductive Handler where
  | idle (csk : Client)
  | running (prog : FifoProgram (Option (Client × AckPckt)))

/-- `read_ctcp` is not running, past its test of `status`, or has returned -1. -/
inductive Reader where
  | outside
  | popping (count : ℕ)
  | failed
  deriving DecidableEq

/-- A `clictcp_sock` with its threads, the acknowledgements of the packets handled
so far, and the bytes that the application has read. -/
structure Session where
  status : SockStatus
  usrCache : Fifo
  handler : Handler
  reader : Reader
  acks : List AckPckt
  read : List UInt8

/-- The session after `create_clictcp_sock` and the handshake. -/
def openSession (raw : ℕ → CodedBlock) : Session where
  status := .active
  usrCache := fifoInit (numBlocks * blockSize * payloadSize)
  handler := .idle (createClictcpSock raw)
  reader := .outside
  acks := []
  read := []

/-- The next call of the handler on `usr_cache`, or its return. -/
def handlerStep (s : Session) : Option Session :=
  match s.handler with
  | .idle _ => none
  | .running (.done none) => none
  | .running (.done (some (csk, ack))) =>
    some { s with handler := .idle csk, acks := s.acks ++ [ack] }
  | .running (.call .getspace k) =>
    some { s with handler := .running (k (fifoGetspace s.usrCache)) }
  | .running (.call (.push bytes) k) =>
    (fifoPush s.usrCache bytes).map fun pushed =>
      { s with usrCache := pushed.2, handler := .running (k pushed.1) }

/-- The start of `read_ctcp`: the test of `status`. -/
def readCtcp (s : Session) (count : ℕ) : Session :=
  if s.status = .active then { s with reader := .popping count } else { s with reader := .failed }

/-- The rest of `read_ctcp`; a pop of no bytes makes it return -1. -/
def readCtcpPop (s : Session) (count : ℕ) : Option Session :=
  (fifoPop s.usrCache count).map fun popped =>
    if popped.1 = [] then { s with usrCache := popped.2, reader := .failed }
    else { s with usrCache := popped.2, reader := .outside, read := s.read ++ popped.1 }

/-- The last part of the case `FIN`, before the buffer is released. -/
def finClose (s : Session) : Session := { s with status := .closed }

def finRelease (s : Session) : Session := { s with usrCache := fifoRelease s.usrCache }

end Ctcp
