import Ctcp.Library.Conversation
import Ctcp.Model.ProxyRemote

/-! # The negotiation of the proxies

`handle_con` and `negotiate` of `child_local.c` and `child_remote.c` up to the data traffic,
with `readnb` and `writenb` of `misc_local.c` and `misc_remote.c`, and `error.c`. A system
call that a signal interrupts is made again. Every question gets an answer of its kind. -/

namespace Ctcp

/-! ## Error codes -/

/-- The codes of `error.h`, and -1, which a failed `accept` leaves in `bind_client`. -/
inductive Err where
  | errNone | errNegfail | errNegtime | errBadver | errRead | errWrite | errNomethod
  | errCmdnotsup | errAtypnotsup | errResolv | errConrefuse | errNetunreach | errCreatesk
  | errBind | errListen | errConidle | errSkfatal | errSrvctcp | errClictcp | errAccept
  deriving DecidableEq

def Err.code : Err → ℤ
  | .errNone => 0
  | .errNegfail => 1
  | .errNegtime => 2
  | .errBadver => 3
  | .errRead => 4
  | .errWrite => 5
  | .errNomethod => 6
  | .errCmdnotsup => 7
  | .errAtypnotsup => 8
  | .errResolv => 9
  | .errConrefuse => 10
  | .errNetunreach => 11
  | .errCreatesk => 12
  | .errBind => 13
  | .errListen => 14
  | .errConidle => 15
  | .errSkfatal => 16
  | .errSrvctcp => 17
  | .errClictcp => 18
  | .errAccept => -1

/-- `err_to_se`, with the `SE_*` codes. -/
def errToSe : Err → UInt8
  | .errNone => 0
  | .errCmdnotsup => 7
  | .errAtypnotsup => 8
  | .errNetunreach => 3
  | .errConrefuse => 5
  | .errSrvctcp => 5
  | _ => 1

/-- Why a function does not go on: an error code, or `read` is told of more room than the
buffer has. -/
inductive Stop where
  | err (e : Err)
  | overrun
  deriving DecidableEq

/-! ## The surroundings -/

/-- How `socket` and `connect` end in `connect_client`. -/
inductive ConnectRes where
  | connected | noSocket | econnrefused | enetunreach | otherErrno
  deriving DecidableEq

/-- What is asked of the system and of the rest of the program. -/
inductive Question where
  | gethostbyname (name : List UInt8)
  | connect (ip port : List UInt8)
  | proxyConnect (name : List UInt8) (port : ℕ)
  | connectCtcp (ctcpPort : Option (List UInt8))
  | openServSock (port : List UInt8)
  | getHostIp
  | accept
  | getsockname
  deriving DecidableEq

inductive Told where
  | host (ip : Option (List UInt8))
  | connect (res : ConnectRes)
  /-- NULL, or the `ctcp_port` of the connection. -/
  | proxy (pcon : Option (Option (List UInt8)))
  | ctcp (connected : Bool)
  | opened (res : Err)
  | accepted (ok : Bool)
  /-- `sa_data`: the port and the address. -/
  | addr (bytes : List UInt8)
  deriving DecidableEq

/-- The answers that a question can have. -/
def answers : Question → Told → Bool
  | .gethostbyname _, .host ip => ip.all fun a => a.length = 4
  | .connect _ _, .connect _ => true
  | .proxyConnect _ _, .proxy _ => true
  | .connectCtcp _, .ctcp _ => true
  | .openServSock _, .opened res =>
    res = .errNone || res = .errCreatesk || res = .errBind || res = .errListen
  | .getHostIp, .addr ip => ip.length = 4
  | .accept, .accepted _ => true
  | .getsockname, .addr bytes => bytes.length = 6
  | _, _ => false

def Answers (q : Question) (a : Told) : Prop := answers q a = true

instance (q : Question) (a : Told) : Decidable (Answers q a) :=
  inferInstanceAs (Decidable (_ = true))

abbrev SocksProgram (α : Type) := StreamProgram UInt8 Question Told (Except Stop α)

def fail {α : Type} (e : Err) : SocksProgram α := .done (.error (.err e))

def succeed {α : Type} (a : α) : SocksProgram α := .done (.ok a)

/-! ## Reading and writing -/

/-- The loop of `readnb`; `got` is in the buffer, and `left` bytes are missing. -/
def readLoop (got : List UInt8) (left : ℕ) : SocksProgram (List UInt8) :=
  .call (.read left) fun
    | .got (b :: bs) =>
      if bs.length + 1 < left then readLoop (got ++ b :: bs) (left - (bs.length + 1))
      else succeed (got ++ b :: bs)
    | _ => fail .errRead
termination_by left

/-- `readnb` into a buffer with `room` bytes. A negative count is a very large one for `read`,
which fails with `EFAULT`. -/
def readnb (room : ℕ) (cnt : ℤ) : SocksProgram (List UInt8) :=
  if cnt < 0 then fail .errRead
  else if room < cnt then .done (.error .overrun)
  else readLoop [] cnt.toNat

/-- `writenb` -/
def writenb (bytes : List UInt8) : SocksProgram Unit :=
  .call (.write bytes) fun
    | .wrote n =>
      if n = 0 then fail .errWrite
      else if n < bytes.length then writenb (bytes.drop n)
      else succeed ()
    | _ => fail .errWrite
termination_by bytes.length
decreasing_by
  rw [List.length_drop]
  omega

/-! ## `negotiate` -/

/-- A `char` as a number. -/
def charVal (b : UInt8) : ℤ := b.toInt8.toInt

/-- The bytes before the terminator. -/
def cString (bytes : List UInt8) : List UInt8 := bytes.takeWhile (· ≠ 0)

/-- `"%u.%u.%u.%u"` -/
def dotted (ip : List UInt8) : List UInt8 :=
  [(46 : UInt8)].intercalate (ip.map fun b => decimal b.toNat)

/-- `ntohs` -/
def ntohs (bytes : List UInt8) : ℕ := (bytes.getD 0 0).toNat * 256 + (bytes.getD 1 0).toNat

/-- `SC_CONNECT` -/
def scConnect : UInt8 := 1

/-- `SC_BIND` -/
def scBind : UInt8 := 2

/-- `ATYP_IP4` -/
def atypIp4 : UInt8 := 1

/-- `ATYP_DOMAIN` -/
def atypDomain : UInt8 := 3

/-- `NEGBUFLEN`, the size of `buf`. -/
def negBufLen : ℕ := 256

/-- `MAXIPSTRLEN` -/
def maxIpStrLen : ℤ := 256

/-- The size of `sa_data`. -/
def saDataLen : ℕ := 14

/-- `ad_target` without its port, and `target_ip`. -/
structure Target where
  ip : List UInt8
  targetIp : List UInt8
  deriving DecidableEq

/-- What the two proxies do not share: whether `connect_ctcp` follows once an `up_proxy` has
connected, and the reply that selects a method, given what is in `buf`. -/
structure SocksChild where
  upProxy : Bool
  callsCtcp : Bool
  methodReply : List UInt8 → List UInt8

/-- The first part of `negotiate`: the methods of the client, and the reply. -/
def negotiateMethod (child : SocksChild) (buf : List UInt8) : SocksProgram Unit :=
  (readnb negBufLen 2).andThen fun head =>
    if head.getD 0 0 ≠ socksVer then fail .errBadver
    else
      (readnb (negBufLen - 2) (charVal (head.getD 1 0))).andThen fun methods =>
        if socksMethod ∉ methods then fail .errNomethod
        else writenb (child.methodReply (writeAt (writeAt buf 0 head) 2 methods))

/-- The address that follows `ATYP_IP4` or `ATYP_DOMAIN`. -/
def negotiateAddress (child : SocksChild) (atyp : UInt8) : SocksProgram Target :=
  if atyp = atypIp4 then
    (readnb (saDataLen - 2) 4).andThen fun ip => succeed ⟨ip, dotted ip⟩
  else if atyp = atypDomain then
    (readnb negBufLen 1).andThen fun len =>
      if charVal (len.getD 0 0) > maxIpStrLen - 1 then fail .errNegfail
      else
        (readnb (negBufLen - 1) (charVal (len.getD 0 0))).andThen fun name =>
          if child.upProxy then succeed ⟨[0, 0, 0, 0], cString name⟩
          else
            .call (.ask (.gethostbyname (cString name))) fun
              | .answer (.host (some ip)) => succeed ⟨ip, []⟩
              | _ => fail .errResolv
  else fail .errAtypnotsup

/-- `connect_client` -/
def connectClient (child : SocksChild) (target : Target) (port : List UInt8) :
    SocksProgram Unit :=
  if child.upProxy then
    .call (.ask (.proxyConnect target.targetIp (ntohs port))) fun
      | .answer (.proxy (some ctcpPort)) =>
        if child.callsCtcp then
          .call (.ask (.connectCtcp ctcpPort)) fun
            | .answer (.ctcp true) => succeed ()
            | _ => fail .errNegfail
        else succeed ()
      | _ => fail .errNegfail
  else
    .call (.ask (.connect target.ip port)) fun
      | .answer (.connect .connected) => succeed ()
      | .answer (.connect .econnrefused) => fail .errConrefuse
      | .answer (.connect .enetunreach) => fail .errNetunreach
      | _ => fail .errNegfail

/-- `bind_client`. Whether the first reply could be sent is not looked at. -/
def bindClient (port : List UInt8) : SocksProgram Unit :=
  .call (.ask (.openServSock port)) fun
    | .answer (.opened .errNone) =>
      .call (.ask .getHostIp) fun
        | .answer (.addr ip) =>
          (writenb (socksVer :: 0 :: 0 :: atypIp4 :: (ip ++ port))).bind fun _ =>
            .call (.ask .accept) fun
              | .answer (.accepted true) => succeed ()
              | _ => fail .errAccept
        | _ => fail .errNegfail
    | .answer (.opened res) => fail res
    | _ => fail .errNegfail

/-- The second part of `negotiate`: the request, up to the port. -/
def negotiateRequest (child : SocksChild) : SocksProgram (UInt8 × Target × List UInt8) :=
  (readnb negBufLen 4).andThen fun head =>
    let cmd := head.getD 1 0
    if cmd ≠ scConnect ∧ cmd ≠ scBind then fail .errCmdnotsup
    else
      (negotiateAddress child (head.getD 3 0)).andThen fun target =>
        (readnb saDataLen 2).andThen fun port => succeed (cmd, target, port)

/-- The command, and the address for the reply. -/
def negotiateCommand (child : SocksChild) (cmd : UInt8) (target : Target) (port : List UInt8) :
    SocksProgram (List UInt8) :=
  (if cmd = scConnect then connectClient child target port else bindClient port).andThen fun _ =>
    .call (.ask .getsockname) fun
      | .answer (.addr bytes) => succeed bytes
      | _ => fail .errNegfail

/-- `negotiate`; `buf` is what its buffer holds at first. -/
def negotiate (child : SocksChild) (buf : List UInt8) : SocksProgram (List UInt8) :=
  (negotiateMethod child buf).andThen fun _ =>
    (negotiateRequest child).andThen fun (cmd, target, port) =>
      negotiateCommand child cmd target port

/-! ## `handle_con` -/

/-- `handle_con` up to the data traffic. The address is in `sa_data` behind the port. -/
def handleCon (child : SocksChild) (buf : List UInt8) : SocksProgram Unit :=
  (negotiate child buf).bind fun
    | .ok bytes =>
      writenb (socksVer :: errToSe .errNone :: 0 :: atypIp4 :: (bytes.drop 2 ++ bytes.take 2))
    | .error (.err e) =>
      (writenb [socksVer, errToSe e, 0, atypIp4]).bind fun _ => fail e
    | .error .overrun => .done (.error .overrun)

/-- `child_remote.c`, which tells its port with the method. -/
def childRemote (upProxy : Bool) (ctcpPort : ℕ) : SocksChild where
  upProxy := upProxy
  callsCtcp := false
  methodReply buf := selectMethod buf ctcpPort

/-- `child_local.c`, which connects to the port that it was told. -/
def childLocal (upProxy : Bool) : SocksChild where
  upProxy := upProxy
  callsCtcp := true
  methodReply _ := [socksVer, socksMethod]

end Ctcp
