import Savvy.Core.Clock
import Savvy.Kit.Calls
import Savvy.Tcp.Channel

/-!
The worker of the TCP 8141 channel, call by call
(`src/platform/linux/tcp_8141/tcp_channel.c`). `Savvy.Tcp.Channel` has what each
loop makes of the answers it gets, a turn at a time; here the loops are programs
that make the calls, with the descriptor they are made on, the time they may wait
and the order in which the clock, `stop_requested` and the socket are asked.
-/

namespace Savvy.Tcp

open Kit Kit.Prog

/-- What the worker asks. An address is known by its number. `complete` is the
completion callback, which says whether it closes the session; `pop` waits for an
item. -/
inductive SockCall
  | loadStop
  | now
  | getaddrinfo
  | socket (address : ℕ)
  | getFlags (fd : Int32)
  | setFlags (fd : Int32)
  | connect (fd : Int32)
  | poll (fd : Int32) (timeout : UInt32)
  | soError (fd : Int32)
  | send (fd : Int32) (bytes : List UInt8)
  | recv (fd : Int32)
  | close (fd : Int32)
  | complete (request : ℕ) (result : TcpResult)
  | pop
  deriving DecidableEq

abbrev SockAnswer : SockCall → Type
  | .loadStop | .soError _ | .complete _ _ => Bool
  | .now => UInt64
  | .getaddrinfo => Option (List ℕ)
  | .socket _ | .getFlags _ => Int32
  | .connect _ => Option Errno
  | .poll _ _ => Poll
  | .send _ _ => Except Errno ℕ
  | .recv _ => Except Errno (List UInt8)
  | .setFlags _ | .close _ => Unit
  | .pop => Option QueueItem

abbrev Worker (α : Type) := Prog SockCall SockAnswer α

abbrev ask (c : SockCall) : Worker (SockAnswer c) := perform c

def stopCheckSliceMs : UInt32 := 100

def connectTimeoutMs : UInt32 := 1000

/-- The fields of the channel that the worker owns. -/
structure Socketed where
  sockfd : Int32
  connected : Bool
  parser : StreamParser

def waitSlice (remaining : UInt32) : UInt32 :=
  if remaining < stopCheckSliceMs then remaining else stopCheckSliceMs

/-! ### Connecting -/

def awaitConnect (fd : Int32) (dl : Deadline) : ℕ → Worker ConnectWait
  | 0 => .unfinished
  | passes + 1 => do
      let stop ← ask .loadStop
      if stop then pure .aborted
      else
        let now ← ask .now
        if dl.remainingMs now = 0 then pure .failed
        else
          let poll ← ask (.poll fd (waitSlice (dl.remainingMs now)))
          match poll with
          | .error e => if e = .eintr then awaitConnect fd dl passes else pure .failed
          | .timeout => awaitConnect fd dl passes
          | .ready _ => do
              let soError ← ask (.soError fd)
              pure (if soError then .failed else .connected)

def makeNonblocking (fd : Int32) : Worker Unit := do
  let flags ← ask (.getFlags fd)
  if 0 ≤ flags then ask (.setFlags fd) else pure ()

/-- The loop of `try_connect` over the addresses, with the socket if it has one. -/
def tryAddresses (dl : Deadline) (passes : ℕ) :
    TcpStatus → List ℕ → Worker (TcpStatus × Option Int32)
  | outcome, [] => pure (outcome, none)
  | outcome, a :: as => do
      let fd ← ask (.socket a)
      if fd < 0 then tryAddresses dl passes outcome as
      else
        makeNonblocking fd
        let rc ← ask (.connect fd)
        match rc with
        | none => pure (.ok, some fd)
        | some e =>
            if e ≠ .einprogress then do
              ask (.close fd)
              tryAddresses dl passes outcome as
            else do
              let wait ← awaitConnect fd dl passes
              match wait with
              | .connected => pure (.ok, some fd)
              | .aborted => do
                  ask (.close fd)
                  pure (.shuttingDown, none)
              | .failed => do
                  ask (.close fd)
                  let now ← ask .now
                  let again ← ask .now
                  let outcome := if dl.expired now then TcpStatus.connectTimeout else .io
                  if dl.expired again then pure (outcome, none)
                  else tryAddresses dl passes outcome as

/-- `try_connect`. -/
def tryConnectSocket (ch : Socketed) (passes : ℕ) : Worker (TcpStatus × Socketed) := do
  let res ← ask .getaddrinfo
  match res with
  | none => pure (.io, ch)
  | some [] => pure (.io, ch)
  | some (a :: as) => do
      let now ← ask .now
      let found ← tryAddresses (.arm now connectTimeoutMs) passes .io (a :: as)
      match found.2 with
      | some fd => pure (found.1, ⟨fd, true, .init ch.parser.buf⟩)
      | none => pure (found.1, ch)

/-! ### Sending and receiving -/

/-- `send_all` with `sent` bytes sent. -/
def sendAllFrom (fd : Int32) (buf : List UInt8) : ℕ → ℕ → Worker TcpStatus
  | 0, sent => if buf.length ≤ sent then pure .ok else .unfinished
  | passes + 1, sent =>
      if buf.length ≤ sent then pure .ok
      else do
        let stop ← ask .loadStop
        if stop then pure .shuttingDown
        else
          let poll ← ask (.poll fd stopCheckSliceMs)
          match poll with
          | .error e => if e = .eintr then sendAllFrom fd buf passes sent else pure .io
          | .timeout => sendAllFrom fd buf passes sent
          | .ready true => pure .disconnected
          | .ready false => do
              let n ← ask (.send fd (buf.drop sent))
              match n with
              | .error e =>
                  if e = .eintr ∨ e = .eagain then sendAllFrom fd buf passes sent
                  else if e = .epipe ∨ e = .econnreset then pure .disconnected
                  else pure .io
              | .ok n => sendAllFrom fd buf passes (sent + n)

variable (A : Arch)

/-- A return of `wait_for_response`. -/
structure Waited where
  status : TcpStatus
  packet : Option Packet
  parser : StreamParser

def awaitResponse (fd : Int32) (dl : Deadline) : ℕ → StreamParser → Worker Waited
  | 0, _ => .unfinished
  | passes + 1, p => do
      let stop ← ask .loadStop
      if stop then pure ⟨.shuttingDown, none, p⟩
      else
        let now ← ask .now
        if dl.remainingMs now = 0 then pure ⟨.responseTimeout, none, p⟩
        else
          let poll ← ask (.poll fd (waitSlice (dl.remainingMs now)))
          match poll with
          | .error e =>
              if e = .eintr then awaitResponse fd dl passes p else pure ⟨.io, none, p⟩
          | .timeout => awaitResponse fd dl passes p
          | .ready _ => do
              let n ← ask (.recv fd)
              match n with
              | .error e =>
                  if e = .eintr ∨ e = .eagain then awaitResponse fd dl passes p
                  else pure ⟨.io, none, p⟩
              | .ok bytes =>
                  if bytes.length = 0 then pure ⟨.disconnected, none, p⟩
                  else
                    match pushAndExtract A p bytes with
                    | (some (status, packet), q) => pure ⟨status, packet, q⟩
                    | (none, q) => awaitResponse fd dl passes q

/-- `wait_for_response`. -/
def waitForResponseOn (fd : Int32) (timeoutMs : UInt32) (passes : ℕ) (p : StreamParser) :
    Worker Waited :=
  match extractResponse A p with
  | (some (status, packet), q) => pure ⟨status, packet, q⟩
  | (none, q) => do
      let now ← ask .now
      awaitResponse A fd (.arm now timeoutMs) passes q

/-! ### Items -/

/-- `close_session_internal`. -/
def closeSession (ch : Socketed) : Worker Socketed :=
  if 0 ≤ ch.sockfd then do
    ask (.close ch.sockfd)
    pure { ch with sockfd := -1, connected := false }
  else pure { ch with connected := false }

def completed (ch : Socketed) (item : QueueItem) (result : TcpResult) : Worker Socketed := do
  let close ← ask (.complete item.request result)
  if close then closeSession ch else pure ch

/-- The part of `process_item` from `send_all` on. -/
def exchangeOn (ch : Socketed) (item : QueueItem) (passes : ℕ) : Worker Socketed := do
  let ss ← sendAllFrom ch.sockfd item.packet passes 0
  if ss ≠ .ok then
    let ch ← closeSession ch
    completed ch item (.failed ss)
  else
    match item.kind with
    | .final => do
        let ch ← closeSession ch
        completed ch item (.failed .sentNoWait)
    | .relay => completed ch item (.failed .sentNoWait)
    | .normal => do
        let r ← waitForResponseOn A ch.sockfd (UInt32.ofNat item.responseTimeoutMs) passes ch.parser
        match r.status, r.packet with
        | .ok, some pk => completed { ch with parser := r.parser } item (.ofPacket pk)
        | status, _ => do
            let ch ← closeSession { ch with parser := r.parser }
            completed ch item (.failed status)

/-- `process_item`. -/
def processItemOn (ch : Socketed) (item : QueueItem) (passes : ℕ) : Worker Socketed :=
  if item.kind = .relay ∧ ch.sockfd < 0 then completed ch item (.failed .notConnected)
  else if ch.sockfd < 0 then do
    let cs ← tryConnectSocket ch passes
    if cs.1 ≠ .ok then completed cs.2 item (.failed cs.1)
    else exchangeOn A cs.2 item passes
  else exchangeOn A ch item passes

/-- `worker_main`, for so many items. -/
def workerMain (passes : ℕ) : ℕ → Socketed → Worker Socketed
  | 0, _ => .unfinished
  | items + 1, ch => do
      let item ← ask .pop
      match item with
      | some item => do
          let ch ← processItemOn A ch item passes
          workerMain passes items ch
      | none =>
          if 0 ≤ ch.sockfd then do
            ask (.close ch.sockfd)
            pure { ch with sockfd := -1, connected := false }
          else pure ch

end Savvy.Tcp
