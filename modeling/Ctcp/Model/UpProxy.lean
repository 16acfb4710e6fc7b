import Ctcp.Model.Base64

/-! # The client of a proxy, `up_proxy.c` -/

namespace Ctcp

/-! ## Connections -/

/-- The types of a proxy, `PROXY_SOCKS5` and so on. -/
inductive ProxyType where
  | socks5 | socks4 | httpConnect | http
  deriving DecidableEq

/-- `PROXY_CS_*`; there is no status of `PROXY_HTTP`. -/
inductive ProxyCs where
  | connecting | connected | error
  | s5SendMet | s5WaitMet | s5SendAuth | s5WaitAuth | s5SendReq | s5WaitReq | s5WaitReq2
  | s4SendReq | s4WaitReq | s4WaitReq2
  | hcSendReq | hcWaitReq
  | http
  deriving DecidableEq

def ProxyType.code : ProxyType → ℕ
  | .socks5 => 1
  | .socks4 => 2
  | .httpConnect => 3
  | .http => 4

def ProxyCs.code : ProxyCs → ℕ
  | .connecting => 1
  | .connected => 2
  | .error => 3
  | .s5SendMet => 100
  | .s5WaitMet => 101
  | .s5SendAuth => 102
  | .s5WaitAuth => 103
  | .s5SendReq => 104
  | .s5WaitReq => 105
  | .s5WaitReq2 => 106
  | .s4SendReq => 200
  | .s4WaitReq => 201
  | .s4WaitReq2 => 202
  | .hcSendReq => 300
  | .hcWaitReq => 301
  | .http => 400

/-- `type * 100` -/
def ProxyType.firstStatus : ProxyType → ProxyCs
  | .socks5 => .s5SendMet
  | .socks4 => .s4SendReq
  | .httpConnect => .hcSendReq
  | .http => .http

/-- `PROXY_CMD_*` -/
inductive ProxyCmd where
  | connect | bind | udp
  deriving DecidableEq

def ProxyCmd.code : ProxyCmd → UInt8
  | .connect => 1
  | .bind => 2
  | .udp => 3

/-- `proxy_errno`: what `errno` was, or `PROXY_ERR_*`. -/
inductive ProxyErr where
  | none | errno | param | socksVer | socksMethod | auth | negot
  /-- `PROXY_ERR_S5_BASE` and a reply. -/
  | s5 (reply : ℤ)
  /-- `PROXY_ERR_S4_BASE` and a reply, less 90. -/
  | s4 (reply : ℤ)
  | hcGeneral
  deriving DecidableEq

/-- What the negotiation uses of `struct t_proxy`. The pointers may be NULL. -/
structure TProxy where
  type : ProxyType
  auth : Bool
  user : Option (List UInt8)
  pwd : Option (List UInt8)
  deriving DecidableEq

/-- `struct t_proxy_connection`, with `proxy_errno`. -/
structure ProxyCon where
  proxy : TProxy
  status : ProxyCs
  proxyCmd : ProxyCmd
  waitRead : Bool
  waitWrite : Bool
  remotePort : ℕ
  remoteName : Option (List UInt8)
  targetPort : ℕ
  targetName : List UInt8
  ctcpPort : Option (List UInt8)
  proxyErrno : ProxyErr
  deriving DecidableEq

/-- The commands that `proxy_connect_nb` lets through. -/
def ProxyCmd.allowed : ProxyCmd → ProxyType → Bool
  | .connect, _ => true
  | .bind, type => type = .socks5 || type = .socks4
  | .udp, type => type = .socks5

/-- `proxy_connect_nb`, when `connect` has been called. -/
def proxyConnectNb (proxy : TProxy) (targetName : List UInt8) (targetPort : ℕ)
    (proxyCmd : ProxyCmd) : Option ProxyCon :=
  if proxyCmd.allowed proxy.type then
    some
      { proxy := proxy
        status := .connecting
        proxyCmd := proxyCmd
        waitRead := false
        waitWrite := true
        remotePort := 0
        remoteName := none
        targetPort := targetPort
        targetName := targetName
        ctcpPort := none
        proxyErrno := .none }
  else none

/-! ## `proxy_poll_connect` -/

/-- What `poll` waits for. -/
inductive PollEvents where
  | pollin | pollout
  deriving DecidableEq

inductive PollRes where
  | timeout | failed | ready
  deriving DecidableEq

inductive PollQuestion where
  /-- With `none`, `events` was not set. -/
  | poll (events : Option PollEvents)
  /-- `getsockopt` for `SO_ERROR` -/
  | soError
  /-- `fcntl` -/
  | setBlocking
  | gethostbyname (name : List UInt8)
  | getuid
  deriving DecidableEq

inductive PollTold where
  | polled (res : PollRes)
  | ok (b : Bool)
  | host (ip : Option (List UInt8))
  | uid (n : ℕ)
  deriving DecidableEq

def pollAnswers : PollQuestion → PollTold → Bool
  | .poll _, .polled _ => true
  | .soError, .ok _ => true
  | .setBlocking, .ok _ => true
  | .gethostbyname _, .host ip => ip.all fun a => a.length = 4
  | .getuid, .uid n => n < 4294967296
  | _, _ => false

def PollAnswers (q : PollQuestion) (a : PollTold) : Prop := pollAnswers q a = true

instance (q : PollQuestion) (a : PollTold) : Decidable (PollAnswers q a) :=
  inferInstanceAs (Decidable (_ = true))

/-- What C leaves open: a buffer is too small, or a string is NULL. -/
inductive Fault where
  | overrun | null
  deriving DecidableEq

abbrev PollProgram := StreamProgram UInt8 PollQuestion PollTold (Except Fault (ℤ × ProxyCon))

/-- `PROXY_NEGBUFLEN` -/
def proxyNegBufLen : ℕ := 256

/-- `PROXY_AUTHBUFLEN` -/
def proxyAuthBufLen : ℕ := 128

def pollReturn (res : ℤ) (pcon : ProxyCon) : PollProgram := .done (.ok (res, pcon))

/-- The negotiation has failed. -/
def pollFail (pcon : ProxyCon) (e : ProxyErr) : PollProgram :=
  pollReturn (-1) { pcon with status := .error, proxyErrno := e }

/-- `write` has to take the whole request; then the reply is waited for. -/
def sendRequest (pcon : ProxyCon) (bytes : List UInt8) (next : ProxyCs)
    (failed : ProxyCs) : PollProgram :=
  .call (.write bytes) fun
    | .wrote n =>
      if n < bytes.length then pollReturn (-1) { pcon with status := failed, proxyErrno := .errno }
      else pollReturn 0 { pcon with status := next, waitRead := true }
    | _ => pollReturn (-1) { pcon with status := failed, proxyErrno := .errno }

/-- `read` has to return as many bytes as are needed. With fewer than these, but no error, the
source has a code of its own in some cases. -/
def readReply (pcon : ProxyCon) (room needed : ℕ) (short : ProxyErr)
    (k : List UInt8 → PollProgram) : PollProgram :=
  .call (.read room) fun
    | .got bs => if bs.length < needed then pollFail pcon short else k bs
    | _ => pollFail pcon .errno

/-- `htons`, as bytes. -/
def htons (n : ℕ) : List UInt8 := [(n / 256).toUInt8, n.toUInt8]

/-- `%d` -/
def decimalInt (n : ℤ) : List UInt8 :=
  if n < 0 then 45 :: decimal n.natAbs else decimal n.natAbs

/-- `"%d.%d.%d.%d"` with four elements of a buffer of `char`. -/
def dottedChars (bytes : List UInt8) : List UInt8 :=
  [(46 : UInt8)].intercalate (bytes.map fun b => decimalInt (charVal b))

/-- What `read` has put into a buffer. -/
def overlay (stack bytes : List UInt8) : List UInt8 := bytes ++ stack.drop bytes.length

/-- `n` elements of a buffer from index `i` on. -/
def elems (buf : List UInt8) (i n : ℕ) : List UInt8 :=
  (List.range n).map fun k => buf.getD (i + k) 0

/-- Set the remote address from an address in dotted form, into 16 bytes. -/
def setRemoteIp (pcon : ProxyCon) (ip port : List UInt8) : Except Fault ProxyCon :=
  if 16 < (dottedChars ip).length + 1 then .error .overrun
  else .ok { pcon with remoteName := some (dottedChars ip), remotePort := ntohs port }

/-- Set the remote address from a reply of a SOCKS5 server. For a length from 128 on, `calloc` is
asked for a size below zero and returns NULL; it is asked for nothing when the length is 255. -/
def setRemote (pcon : ProxyCon) (buf : List UInt8) : Except Fault ProxyCon :=
  if buf.getD 3 0 = atypIp4 then setRemoteIp pcon (elems buf 4 4) (elems buf 8 2)
  else if buf.getD 3 0 = atypDomain then
    let len := charVal (buf.getD 4 0)
    if len < -1 then .ok { pcon with remoteName := none }
    else if len < 0 then .error .overrun
    else
      .ok
        { pcon with
          remoteName := some (cString (elems buf 5 len.toNat))
          remotePort := ntohs (elems buf (5 + len.toNat) 2) }
  else .ok pcon

/-- A reply of a SOCKS5 server: success, or a code that is not above 8. -/
def checkS5 (pcon : ProxyCon) (buf : List UInt8) (k : PollProgram) : PollProgram :=
  let reply := charVal (buf.getD 1 0)
  if reply ≠ 0 then pollFail pcon (.s5 (if 8 < reply then 1 else reply)) else k

/-- A reply of a SOCKS4 server. -/
def checkS4 (pcon : ProxyCon) (buf : List UInt8) (k : PollProgram) : PollProgram :=
  let reply := charVal (buf.getD 1 0)
  if reply ≠ 90 then pollFail pcon (.s4 (reply - 90)) else k

/-- The list of methods. -/
def s5Methods (proxy : TProxy) : List UInt8 := if proxy.auth then [5, 2, 0, 2] else [5, 1, 0]

/-- User name and password in `buf`. The second string ends at `buf[user + pwd + 4]`. -/
def s5Auth (user pwd : List UInt8) : Except Fault (List UInt8) :=
  if 128 ≤ user.length ∨ proxyNegBufLen < user.length + pwd.length + 4 then .error .overrun
  else .ok (1 :: user.length.toUInt8 :: (user ++ pwd.length.toUInt8 :: pwd))

/-- `buf_len`. It is negative for a password of 128 bytes or more, which is a very large count
for `write`. -/
def s5AuthLen (user pwd : List UInt8) : ℤ := user.length + charVal pwd.length.toUInt8 + 3

/-- The request, with the target as a domain name. A length from 128 on is negative. -/
def s5Request (pcon : ProxyCon) : Except Fault (List UInt8) :=
  if 128 ≤ pcon.targetName.length then .error .overrun
  else
    .ok (5 :: pcon.proxyCmd.code :: 0 :: atypDomain :: pcon.targetName.length.toUInt8 ::
      (pcon.targetName ++ htons pcon.targetPort))

/-- The request of SOCKS4, with the address of the target and the user id. -/
def s4Request (pcon : ProxyCon) (ip : List UInt8) (uid : ℕ) : List UInt8 :=
  4 :: pcon.proxyCmd.code :: (htons pcon.targetPort ++ ip ++ decimal uid)

/-- Go on unless there is a fault. -/
def orFault {α : Type} (r : Except Fault α) (k : α → PollProgram) : PollProgram :=
  match r with
  | .ok a => k a
  | .error e => .done (.error e)

/-- A string that may be NULL. -/
def nonNull (s : Option (List UInt8)) : Except Fault (List UInt8) :=
  match s with
  | some s => .ok s
  | none => .error .null

/-- What is sent of user name and password: nothing if `buf_len` is negative, for which `write`
fails. -/
def s5Login (proxy : TProxy) : Except Fault (List UInt8) := do
  let user ← nonNull proxy.user
  let pwd ← nonNull proxy.pwd
  let bytes ← s5Auth user pwd
  .ok (if s5AuthLen user pwd < 0 then [] else bytes)

/-- The request for HTTP CONNECT, without its authorization. -/
def hcTarget (pcon : ProxyCon) : List UInt8 :=
  let addr := pcon.targetName ++ ascii ":" ++ decimal pcon.targetPort
  ascii "CONNECT " ++ addr ++ ascii " HTTP/1.1\nHost: " ++ addr ++ ascii "\n"

/-- User name and password for HTTP CONNECT. -/
def hcAuth (user pwd : List UInt8) : Except Fault (List UInt8) :=
  let authBuf := user ++ ascii ":" ++ pwd
  if proxyAuthBufLen < authBuf.length + 1 then .error .overrun
  else
    match proxyEncodeBase64 authBuf with
    | none => .error .overrun
    | some code =>
      .ok (ascii "Authorization: Basic " ++ code ++ ascii "\n" ++
        ascii "Proxy-Authorization: Basic " ++ code ++ ascii "\n")

/-- A text in `buf`, with its terminator. -/
def inNegBuf (text : List UInt8) : Except Fault (List UInt8) :=
  if proxyNegBufLen < text.length + 1 then .error .overrun else .ok text

/-- The request for HTTP CONNECT. -/
def hcRequest (pcon : ProxyCon) : Except Fault (List UInt8) := do
  let text ← inNegBuf (hcTarget pcon)
  if pcon.proxy.auth then
    let user ← nonNull pcon.proxy.user
    let pwd ← nonNull pcon.proxy.pwd
    let auth ← hcAuth user pwd
    inNegBuf (text ++ auth ++ ascii "\n")
  else inNegBuf (text ++ ascii "\n")

/-- The digits at the head of a string. -/
def leadingNumber (s : List UInt8) : Option ℕ :=
  let digits := s.takeWhile fun c => 48 ≤ c && c ≤ 57
  if digits = [] then none else some (digits.foldl (fun n c => 10 * n + (c.toNat - 48)) 0)

/-- `LONG_MAX` -/
def longMax : ℤ := 9223372036854775807

/-- The `int` that `%d` makes of a number: the nearest `long`, of which 32 bits are kept. -/
def scanInt (n : ℤ) : ℤ :=
  Int.bmod (if n < -longMax - 1 then -longMax - 1 else if longMax < n then longMax else n)
    4294967296

/-- The number that `sscanf(buf,"HTTP/1.1 %d",&adam)` finds. -/
def httpCode (buf : List UInt8) : Option ℤ :=
  if (ascii "HTTP/1.1").isPrefixOf buf then
    match (buf.drop 8).dropWhile isSpace with
    | 45 :: s => (leadingNumber s).map fun n => scanInt (-n)
    | 43 :: s => (leadingNumber s).map fun n => scanInt n
    | s => (leadingNumber s).map fun n => scanInt n
  else none

example : httpCode (ascii "HTTP/1.1 4294967496 OK") = some 200 := by decide

/-- `adam` after `sscanf`, which leaves it as it is when there is no number. -/
def scanHttp (buf : List UInt8) (adam : ℤ) : ℤ := (httpCode buf).getD adam

/-- What is on the stack at the places of `buf` and `adam`. -/
structure PollStack where
  buf : List UInt8
  adam : ℤ

/-- `proxy_poll_connect` after `poll` has returned for an event. -/
def pollStatus (stack : PollStack) (pcon : ProxyCon) : PollProgram :=
  match pcon.status with
  | .connecting =>
    .call (.ask .soError) fun
      | .answer (.ok true) =>
        .call (.ask .setBlocking) fun
          | .answer (.ok true) =>
            pollReturn 0 { pcon with status := pcon.proxy.type.firstStatus }
          | _ => pollFail pcon .errno
      | _ => pollFail pcon .errno
  | .s5SendMet => sendRequest pcon (s5Methods pcon.proxy) .s5WaitMet .error
  | .s5WaitMet =>
    readReply pcon 7 7 .errno fun buf =>
      if buf.getD 0 0 ≠ 5 then pollFail pcon .socksVer
      else if buf.getD 1 0 = 0 then
        pollReturn 0
          { pcon with
            status := .s5SendReq
            ctcpPort := some (elems buf 2 5)
            waitWrite := true }
      else if buf.getD 1 0 = 2 then
        pollReturn 0
          { pcon with
            status := .s5SendAuth
            ctcpPort := some (elems buf 2 5)
            waitWrite := true }
      else pollFail pcon .socksMethod
  | .s5SendAuth =>
    orFault (s5Login pcon.proxy) fun bytes =>
      -- `|= PROXY_CS_ERROR` makes `PROXY_CS_S5_WAITAUTH` of this status
      if bytes ≠ [] then sendRequest pcon bytes .s5WaitAuth .s5WaitAuth
      -- `write` has returned -1, which is not less than `buf_len`
      else pollReturn 0 { pcon with status := .s5WaitAuth, waitRead := true }
  | .s5WaitAuth =>
    readReply pcon 2 2 .auth fun buf =>
      if buf.getD 1 0 ≠ 0 then pollFail pcon .auth
      else pollReturn 0 { pcon with status := .s5SendReq, waitWrite := true }
  | .s5SendReq =>
    orFault (s5Request pcon) fun bytes => sendRequest pcon bytes .s5WaitReq .error
  | .s5WaitReq =>
    readReply pcon proxyNegBufLen 2 .negot fun bs =>
      let buf := overlay stack.buf bs
      checkS5 pcon buf
        (orFault (setRemote pcon buf) fun pcon =>
          if pcon.proxyCmd ≠ .bind then pollReturn 1 { pcon with status := .connected }
          else pollReturn 0 { pcon with status := .s5WaitReq2, waitRead := true })
  | .s5WaitReq2 =>
    readReply pcon proxyNegBufLen 2 .negot fun bs =>
      checkS5 pcon (overlay stack.buf bs) (pollReturn 1 { pcon with status := .connected })
  | .s4SendReq =>
    .call (.ask (.gethostbyname pcon.targetName)) fun
      | .answer (.host (some ip)) =>
        .call (.ask .getuid) fun
          | .answer (.uid uid) => sendRequest pcon (s4Request pcon ip uid) .s4WaitReq .error
          | _ => pollFail pcon .errno
      | _ => pollFail pcon .errno
  | .s4WaitReq =>
    readReply pcon proxyNegBufLen 2 .errno fun bs =>
      let buf := overlay stack.buf bs
      checkS4 pcon buf
        (orFault (setRemoteIp pcon (elems buf 4 4) (elems buf 2 2)) fun pcon =>
          if pcon.proxyCmd = .connect then pollReturn 1 { pcon with status := .connected }
          else pollReturn 0 { pcon with status := .s4WaitReq2, waitRead := true })
  | .s4WaitReq2 =>
    readReply pcon proxyNegBufLen 2 .errno fun bs =>
      checkS4 pcon (overlay stack.buf bs) (pollReturn 1 pcon)
  | .hcSendReq =>
    orFault (hcRequest pcon) fun bytes => sendRequest pcon bytes .hcWaitReq .error
  | .hcWaitReq =>
    readReply pcon proxyNegBufLen 1 .errno fun bs =>
      -- the terminator is put behind what was read
      if proxyNegBufLen ≤ bs.length then .done (.error .overrun)
      else if (scanHttp bs stack.adam).tdiv 100 ≠ 2 then pollFail pcon .hcGeneral
      else pollReturn 1 { pcon with status := .connected }
  | .connected => pollReturn 1 pcon
  | .error | .http => pollReturn (-1) { pcon with proxyErrno := .param }

/-- `proxy_poll_connect` -/
def proxyPollConnect (stack : PollStack) (pcon : ProxyCon) : PollProgram :=
  let events := if pcon.waitRead then some PollEvents.pollin
    else if pcon.waitWrite then some PollEvents.pollout else none
  let pcon :=
    { pcon with waitRead := false, waitWrite := pcon.waitRead && pcon.waitWrite }
  .call (.ask (.poll events)) fun
    | .answer (.polled .ready) => pollStatus stack pcon
    | .answer (.polled .failed) => pollFail pcon .errno
    | _ => pollReturn 0 pcon

/-- The loop of `proxy_connect`, each round with a stack of its own. -/
def proxyConnect (frames : ℕ → PollStack) (pcon : ProxyCon) :
    Role UInt8 PollQuestion PollTold (ℕ × Except Fault (ℤ × ProxyCon)) where
  allow := PollAnswers
  start := (proxyPollConnect (frames 0) pcon).map fun res => (0, res)
  again
    | (n, .ok (0, pcon)) =>
      some ((proxyPollConnect (frames (n + 1)) pcon).map fun res => (n + 1, res))
    | _ => none

instance (frames : ℕ → PollStack) (pcon : ProxyCon) (q : PollQuestion) (a : PollTold) :
    Decidable ((proxyConnect frames pcon).allow q a) :=
  inferInstanceAs (Decidable (PollAnswers q a))

end Ctcp
