import Savvy.Protocol.StreamParser

/-!
The worker of the TCP 8141 channel
(`src/platform/linux/tcp_8141/tcp_channel.c`): one request/response exchange
over a lazily connected socket. The operating system is an oracle: every loop
of the code takes one turn per iteration, and a turn holds what the calls of
that iteration return, including what is read from the clock and from
`stop_requested`. A loop whose turns run out has not returned (`none`).

A socket is known by the number of the connection it belongs to; `none` is
`sockfd < 0`.
-/

namespace Savvy.Tcp

open Kit

/-- `sensor_tcp_result_status_t`. -/
inductive TcpStatus
  | ok
  | sentNoWait
  | connectTimeout
  | responseTimeout
  | disconnected
  | io
  | protocol
  | notConnected
  | queueFull
  | shuttingDown
  deriving DecidableEq, Repr

inductive ItemKind
  | normal
  | final
  | relay
  deriving DecidableEq, Repr

/-- `sensor_tcp_queue_item_t`. The completion callback and its context are
known by the number of the request. -/
structure QueueItem where
  packet : List UInt8
  responseTimeoutMs : ℕ
  kind : ItemKind
  request : ℕ
  deriving DecidableEq, Repr

/-- `sensor_tcp_result_t`, with the bytes behind its borrowed pointer. -/
structure TcpResult where
  status : TcpStatus
  start : UInt8
  command : UInt8
  crcValid : Bool
  data : List UInt8
  deriving DecidableEq, Repr

def TcpResult.failed (status : TcpStatus) : TcpResult := ⟨status, 0, 0, false, []⟩

def TcpResult.ofPacket (pk : Packet) : TcpResult where
  status := .ok
  start := pk.header.start
  command := pk.header.command
  crcValid := pk.data.length == 0 || pk.header.crc32 == crc32 pk.data
  data := pk.data

/-! ### The operating system -/

/-- The values of `errno` the code tells apart. `EWOULDBLOCK` is `eagain`. -/
inductive Errno
  | eintr
  | eagain
  | epipe
  | econnreset
  | einprogress
  | other
  deriving DecidableEq, Repr

inductive Poll
  | error (e : Errno)
  | timeout
  | ready (errHup : Bool)
  deriving DecidableEq, Repr

structure ConnectTurn where
  stopRequested : Bool
  remainingMs : ℕ
  poll : Poll
  soError : Bool

/-- One address of `getaddrinfo`: whether `socket` succeeds, what `connect`
returns, the turns of the wait, and the two readings of the deadline after a
failed wait. -/
structure Address where
  socket : Bool
  connect : Option Errno
  turns : List ConnectTurn
  expired : Bool
  expiredAgain : Bool

structure SendTurn where
  stopRequested : Bool
  poll : Poll
  send : Except Errno ℕ

/-- A turn of `wait_for_response`. A peer that closed is `recv` of no bytes. -/
structure RecvTurn where
  stopRequested : Bool
  remainingMs : ℕ
  poll : Poll
  recv : Except Errno (List UInt8)

def recvChunk : ℕ := 10240

/-- Everything outside the code during one item: the addresses (`none` if
`getaddrinfo` fails), the turns of the two transfer loops, and whether the
completion callback closes the session. -/
structure ItemEnv where
  addresses : Option (List Address)
  send : List SendTurn
  recv : List RecvTurn
  closeSession : Bool

/-! ### The worker's state -/

/-- The fields of `struct sensor_tcp_channel` that the worker owns. `conns`
counts the connections made so far and names the next one. -/
structure Channel where
  sockfd : Option ℕ
  connected : Bool
  parser : StreamParser
  conns : ℕ

def Channel.create (parseBuf : List UInt8) : Channel := ⟨none, false, .init parseBuf, 0⟩

def Channel.closeSessionInternal (ch : Channel) : Channel :=
  { ch with sockfd := none, connected := false }

/-- The end of a successful `try_connect`. -/
def Channel.opened (ch : Channel) : Channel where
  sockfd := some ch.conns
  connected := true
  parser := .init ch.parser.buf
  conns := ch.conns + 1

/-! ### Connecting -/

/-- How the wait for one pending `connect` ends. -/
inductive ConnectWait
  | connected
  | aborted
  | failed
  deriving DecidableEq, Repr

/-- The inner loop of `try_connect`. -/
def connectLoop : List ConnectTurn → Option ConnectWait
  | [] => none
  | t :: ts =>
      if t.stopRequested then some .aborted
      else if t.remainingMs = 0 then some .failed
      else
        match t.poll with
        | .error e => if e = .eintr then connectLoop ts else some .failed
        | .timeout => connectLoop ts
        | .ready _ => if t.soError then some .failed else some .connected

/-- The loop of `try_connect` over the addresses. -/
def addressLoop : TcpStatus → List Address → Option TcpStatus
  | outcome, [] => some outcome
  | outcome, a :: as =>
      if !a.socket then addressLoop outcome as
      else
        match a.connect with
        | none => some .ok
        | some e =>
            if e ≠ .einprogress then addressLoop outcome as
            else
              match connectLoop a.turns with
              | none => none
              | some .connected => some .ok
              | some .aborted => some .shuttingDown
              | some .failed =>
                  let outcome := if a.expired then TcpStatus.connectTimeout else .io
                  if a.expiredAgain then some outcome else addressLoop outcome as

def tryConnect (ch : Channel) (addresses : Option (List Address)) :
    Option (TcpStatus × Channel) :=
  match addresses with
  | none => some (.io, ch)
  | some [] => some (.io, ch)
  | some (a :: as) =>
      (addressLoop .io (a :: as)).map fun outcome =>
        (outcome, if outcome = .ok then ch.opened else ch)

/-! ### Sending -/

/-- The loop of `send_all` with `sent` of `len` bytes sent. -/
def sendLoop (len : ℕ) (sent : ℕ) : List SendTurn → Option TcpStatus
  | [] => if len ≤ sent then some .ok else none
  | t :: ts =>
      if len ≤ sent then some .ok
      else if t.stopRequested then some .shuttingDown
      else
        match t.poll with
        | .error e => if e = .eintr then sendLoop len sent ts else some .io
        | .timeout => sendLoop len sent ts
        | .ready true => some .disconnected
        | .ready false =>
            match t.send with
            | .error e =>
                if e = .eintr ∨ e = .eagain then sendLoop len sent ts
                else if e = .epipe ∨ e = .econnreset then some .disconnected
                else some .io
            | .ok n => sendLoop len (sent + n) ts

def sendAll (packet : List UInt8) (ts : List SendTurn) : Option TcpStatus :=
  sendLoop packet.length 0 ts

/-! ### Waiting for the response -/

/-- A return of `wait_for_response`: its status, the packet if there is one,
the parser, the bytes read from the socket and the turns not taken. -/
structure Response where
  status : TcpStatus
  packet : Option Packet
  parser : StreamParser
  received : List UInt8
  rest : List RecvTurn

variable (A : Arch)

/-- A call of `try_extract` and the two tests of its result. `none` goes on
waiting. -/
def extractResponse (p : StreamParser) : Option (TcpStatus × Option Packet) × StreamParser :=
  match p.tryExtract A with
  | (.packetReady header data dataLen, q) =>
      (some (.ok, some ⟨header, slice q.buf data (data + dataLen)⟩), q)
  | (.error, q) => (some (.protocol, none), q)
  | (.needMoreData, q) => (none, q)

/-- What follows a successful `recv`. -/
def pushAndExtract (p : StreamParser) (bytes : List UInt8) :
    Option (TcpStatus × Option Packet) × StreamParser :=
  match p.push A (.bytes bytes) with
  | (.ok, q) => extractResponse A q
  | (_, q) => (some (.protocol, none), q)

/-- The loop of `wait_for_response`, having read `received` already. -/
def waitLoop (p : StreamParser) (received : List UInt8) : List RecvTurn → Option Response
  | [] => none
  | t :: ts =>
      if t.stopRequested then some ⟨.shuttingDown, none, p, received, ts⟩
      else if t.remainingMs = 0 then some ⟨.responseTimeout, none, p, received, ts⟩
      else
        match t.poll with
        | .error e =>
            if e = .eintr then waitLoop p received ts
            else some ⟨.io, none, p, received, ts⟩
        | .timeout => waitLoop p received ts
        | .ready _ =>
            match t.recv with
            | .error e =>
                if e = .eintr ∨ e = .eagain then waitLoop p received ts
                else some ⟨.io, none, p, received, ts⟩
            | .ok bytes =>
                if bytes.length = 0 then some ⟨.disconnected, none, p, received, ts⟩
                else
                  match pushAndExtract A p bytes with
                  | (some (status, packet), q) =>
                      some ⟨status, packet, q, received ++ bytes, ts⟩
                  | (none, q) => waitLoop q (received ++ bytes) ts

def waitForResponse (p : StreamParser) (ts : List RecvTurn) : Option Response :=
  match extractResponse A p with
  | (some (status, packet), q) => some ⟨status, packet, q, [], ts⟩
  | (none, q) => waitLoop A q [] ts

/-! ### One item -/

/-- A return of `process_item`: the channel, the result handed to the
completion callback, the channel as `send_all` was called if it was, whether
`try_connect` was called, the bytes read and the turns not taken. -/
structure Processed where
  channel : Channel
  result : TcpResult
  sentOn : Option Channel
  tried : Bool
  received : List UInt8
  rest : List RecvTurn

def Processed.conn (p : Processed) : Option ℕ := p.sentOn.bind (·.sockfd)

/-- The part of `process_item` from `send_all` on, on a connected channel. -/
def exchange (base : Channel) (item : QueueItem) (env : ItemEnv) (tried : Bool) :
    Option Processed :=
  match sendAll item.packet env.send with
  | none => none
  | some .ok =>
      match item.kind with
      | .final =>
          some ⟨base.closeSessionInternal, .failed .sentNoWait, base, tried, [], env.recv⟩
      | .relay => some ⟨base, .failed .sentNoWait, base, tried, [], env.recv⟩
      | .normal =>
          match waitForResponse A base.parser env.recv with
          | none => none
          | some r =>
              let ch := { base with parser := r.parser }
              match r.status, r.packet with
              | .ok, some pk => some ⟨ch, .ofPacket pk, base, tried, r.received, r.rest⟩
              | status, _ =>
                  some ⟨ch.closeSessionInternal, .failed status, base, tried, r.received, r.rest⟩
  | some status => some ⟨base.closeSessionInternal, .failed status, base, tried, [], env.recv⟩

/-- `process_item` up to the call of `on_complete`. -/
def processItem (ch : Channel) (item : QueueItem) (env : ItemEnv) : Option Processed :=
  if item.kind = .relay ∧ ch.sockfd = none then
    some ⟨ch, .failed .notConnected, none, false, [], env.recv⟩
  else if ch.sockfd = none then
    match tryConnect ch env.addresses with
    | none => none
    | some (.ok, ch) => exchange A ch item env true
    | some (status, ch) => some ⟨ch, .failed status, none, true, [], env.recv⟩
  else exchange A ch item env false

def Processed.closeSession (p : Processed) : Processed :=
  { p with channel := p.channel.closeSessionInternal }

/-- The callback runs on the worker and may close the session. -/
def onComplete (p : Processed) (env : ItemEnv) : Processed :=
  if env.closeSession then p.closeSession else p

end Savvy.Tcp
