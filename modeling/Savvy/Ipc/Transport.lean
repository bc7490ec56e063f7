import Savvy.Ipc.Envelope
import Savvy.Ipc.Poll
import Savvy.Kit.Calls

/-!
The socket transport of the IPC client and its cancel source
(`src/platform/linux/ipc/ipc_transport_common.c` and
`src/platform/linux/ipc/ipc_client.c`), as programs over the system calls they
make. What the kernel answers, the clock and `errno` among it, is not part of the
programs. A number of passes is the fuel of the wait.
-/

namespace Savvy.Ipc

open Kit Kit.Prog

/-! ### System calls -/

structure Ret where
  ret : ℤ
  errno : Int32
  deriving DecidableEq

/-- What `getsockopt` leaves: its value and `so_error`. -/
structure SoError where
  ret : Int32
  soError : Int32
  deriving DecidableEq

/-- What `recvmsg` leaves: its value, `MSG_TRUNC`, and the bytes it wrote. -/
structure Received where
  ret : ℤ
  truncated : Bool
  bytes : List UInt8
  deriving DecidableEq

inductive Call
  | now
  | poll (fds : List PollFd) (timeout : Int32)
  | pipe
  | socket
  | getFlags (fd : Int32)
  | setFlags (fd flags : Int32)
  | setCloexec (fd : Int32)
  | connect (fd : Int32) (path : List UInt8)
  | getSoError (fd : Int32)
  | send (fd : Int32) (bytes : List UInt8)
  | recvmsg (fd : Int32) (cap : ℕ)
  | write (fd : Int32)
  | shutdown (fd : Int32)
  | close (fd : Int32)
  deriving DecidableEq

abbrev Fd := { fd : Int32 // 0 ≤ fd }

/-- A failed `pipe` is `none`. -/
abbrev Answer : Call → Type
  | .now => UInt64
  | .poll _ _ => PollOutcome
  | .pipe => Option (Fd × Fd)
  | .socket | .getFlags _ | .setFlags _ _ | .setCloexec _ => Int32
  | .connect _ _ | .send _ _ | .write _ => Ret
  | .getSoError _ => SoError
  | .recvmsg _ _ => Received
  | .shutdown _ | .close _ => Unit

abbrev Sys (α : Type) := Prog Call Answer α

abbrev sys (c : Call) : Sys (Answer c) := perform c

def pollOut : Int16 := 4

def pollErr : Int16 := 8

def pollHup : Int16 := 16

def eagain : Int32 := 11

def einprogress : Int32 := 115

def oNonblock : Int32 := 2048

/-! ### The wait -/

def Deadline.check (d : Deadline) (firstPollDone : Bool) : Sys Bool :=
  if firstPollDone then do
    let now ← sys .now
    pure (d.expired now)
  else pure false

def PollArgs.polled (a : PollArgs) (d : Deadline) : Sys (Option Verdict) := do
  let now ← sys .now
  let timeout := clamped (d.remainingMs now)
  let outcome ← sys (.poll a.pfds timeout)
  pure (a.judge ⟨a.pfds, timeout, outcome⟩)

/-- The `for (;;)` of the wait. -/
def PollArgs.polling (a : PollArgs) (d : Deadline) : ℕ → Bool → Sys Verdict
  | 0, _ => .unfinished
  | passes + 1, firstPollDone => do
      let expired ← Deadline.check d firstPollDone
      if expired then pure ⟨0, a.outRevents⟩
      else
        let verdict ← a.polled d
        match verdict with
        | some v => pure v
        | none => a.polling d passes true

/-- `savvy_ipc_poll_with_deadline_cancelable`. -/
def PollArgs.pollCancelable (a : PollArgs) (passes : ℕ) : Sys Verdict := do
  let now ← sys .now
  a.polling (.arm now a.timeoutMs) passes false

/-- `savvy_ipc_poll_with_deadline`, with `revents` initialised to 0. -/
def pollWithDeadline (fd : Int32) (events : Int16) (timeoutMs : UInt32) (passes : ℕ) :
    Sys Verdict :=
  PollArgs.pollCancelable ⟨fd, events, timeoutMs, some 0, none⟩ passes

/-! ### The cancel source -/

structure CancelSource where
  readFd : Int32
  writeFd : Int32
  deriving DecidableEq

def CancelSource.gone : CancelSource := ⟨-1, -1⟩

/-- One turn of the loop of `savvy_ipc_cancel_source_init`: whether the descriptor
could be made non-blocking and close-on-exec. -/
def setUpEnd (fd : Int32) : Sys Bool := do
  let flags ← sys (.getFlags fd)
  if flags = -1 then pure false
  else
    let set ← sys (.setFlags fd (flags ||| oNonblock))
    if set = -1 then pure false
    else
      let cloexec ← sys (.setCloexec fd)
      pure (cloexec ≠ -1)

/-- The loop, which leaves off at the first failure. -/
def setUpEnds (readFd writeFd : Int32) : Sys Bool := do
  let ok ← setUpEnd readFd
  if ok then setUpEnd writeFd else pure false

def cancelSourceInit : Sys (CancelSource × Status) := do
  match ← sys .pipe with
  | none => pure (.gone, .io)
  | some (⟨readFd, _⟩, ⟨writeFd, _⟩) =>
      let ok ← setUpEnds readFd writeFd
      if ok then pure (⟨readFd, writeFd⟩, .ok)
      else
        sys (.close readFd)
        sys (.close writeFd)
        pure (.gone, .io)

def cancelWriteMaxAttempts : ℕ := 16

/-- The loop of `savvy_ipc_cancel_source_cancel` with some attempts left. -/
def cancelAttempts (writeFd : Int32) : ℕ → Sys Status
  | 0 => pure .io
  | attempts + 1 => do
      let n ← sys (.write writeFd)
      if n.ret = 1 then pure .ok
      else if n.ret < 0 ∧ n.errno = eintr then cancelAttempts writeFd attempts
      else if n.ret < 0 ∧ n.errno = eagain then pure .ok
      else pure .io

def cancelSourceCancel : Option CancelSource → Sys Status
  | none => pure .invalidArgument
  | some cs =>
      if cs.writeFd < 0 then pure .invalidArgument
      else cancelAttempts cs.writeFd cancelWriteMaxAttempts

def closeEnd (fd : Int32) : Sys Int32 :=
  if 0 ≤ fd then do
    sys (.close fd)
    pure (-1)
  else pure fd

def cancelSourceDestroy (cs : CancelSource) : Sys CancelSource := do
  let readFd ← closeEnd cs.readFd
  let writeFd ← closeEnd cs.writeFd
  pure ⟨readFd, writeFd⟩

def cancelSourceIsCancelled : Option CancelSource → Sys Bool
  | none => pure false
  | some cs =>
      if cs.readFd < 0 then pure false
      else do
        let outcome ← sys (.poll [⟨cs.readFd, pollIn⟩] 0)
        pure (0 < outcome.ret ∧ outcome.revents &&& pollIn ≠ 0)

/-! ### Records -/

def sendCapped (fd : Int32) (bytes : List UInt8) (timeoutMs : UInt32) (passes : ℕ) :
    Sys Status :=
  if bytes.length > maxMessage then pure .overflow
  else do
    let v ← pollWithDeadline fd pollOut timeoutMs passes
    if v.ret = 0 then pure .timeout
    else if v.ret < 0 then pure .io
    else if v.outRevents.getD 0 &&& (pollErr ||| pollHup) ≠ 0 then pure .io
    else
      let n ← sys (.send fd bytes)
      if n.ret < 0 then pure .io
      else if n.ret ≠ bytes.length then pure .io
      else pure .ok

/-- What `savvy_ipc_recv_capped` leaves: its status, `*out_len` if it was written,
and the bytes that are in the buffer. -/
structure Record where
  status : Status
  outLen : Option ℤ
  bytes : List UInt8
  deriving DecidableEq

def recvCapped (fd : Int32) (cap : ℕ) (timeoutMs : UInt32) (passes : ℕ) : Sys Record := do
  let v ← pollWithDeadline fd pollIn timeoutMs passes
  if v.ret = 0 then pure ⟨.timeout, none, []⟩
  else if v.ret < 0 then pure ⟨.io, none, []⟩
  else if v.outRevents.getD 0 &&& pollErr ≠ 0 then pure ⟨.io, none, []⟩
  else
    let msg ← sys (.recvmsg fd cap)
    if msg.ret < 0 then pure ⟨.io, none, msg.bytes⟩
    else if msg.ret = 0 then pure ⟨.ok, some 0, msg.bytes⟩
    else if msg.truncated ∨ msg.ret > maxMessage then pure ⟨.overflow, none, msg.bytes⟩
    else pure ⟨.ok, some msg.ret, msg.bytes⟩

/-! ### The transport, by the descriptor in its `impl` -/

def fdTransportSend (impl : Int32) (bytes : List UInt8) (timeoutMs : UInt32) (passes : ℕ) :
    Sys Status :=
  if impl < 0 then pure .closed else sendCapped impl bytes timeoutMs passes

def fdTransportRecv (impl : Int32) (cap : ℕ) (timeoutMs : UInt32) (passes : ℕ) : Sys Record :=
  if impl < 0 then pure ⟨.closed, none, []⟩ else recvCapped impl cap timeoutMs passes

/-- `fd_transport_close`, with the descriptor it leaves in `impl`. -/
def fdTransportClose (impl : Int32) : Sys Int32 :=
  if 0 ≤ impl then do
    sys (.shutdown impl)
    sys (.close impl)
    pure (-1)
  else pure (-1)

/-! ### Connecting -/

def sunPathSize : ℕ := 108

/-- A return of `savvy_ipc_client_connect_cancelable`: its status, and the
descriptor it has put into `out_transport` if it did. -/
structure Connected where
  status : Status
  impl : Option Int32
  deriving DecidableEq

def giveUp (fd : Int32) (status : Status) : Sys Connected := do
  sys (.close fd)
  pure ⟨status, none⟩

/-- The end of a connect that has succeeded: the flags are restored and the
descriptor is handed over. -/
def handOver (fd flags : Int32) : Sys Connected := do
  let restored ← sys (.setFlags fd flags)
  if restored = -1 then giveUp fd .io
  else pure ⟨.ok, some fd⟩

def awaitConnect (fd flags : Int32) (timeoutMs : UInt32) (cancel : Option CancelSource)
    (passes : ℕ) : Sys Connected := do
  let v ← PollArgs.pollCancelable ⟨fd, pollOut, timeoutMs, some 0, cancel.map (·.readFd)⟩ passes
  if v.ret = 0 then giveUp fd .timeout
  else if v.ret = 2 then giveUp fd .cancelled
  else if v.ret < 0 ∨ v.outRevents.getD 0 &&& (pollErr ||| pollHup) ≠ 0 then giveUp fd .io
  else
    let e ← sys (.getSoError fd)
    if e.ret ≠ 0 ∨ e.soError ≠ 0 then giveUp fd .notConnected
    else handOver fd flags

def connectSocket (path : List UInt8) (timeoutMs : UInt32) (cancel : Option CancelSource)
    (passes : ℕ) : Sys Connected := do
  let fd ← sys .socket
  if fd < 0 then pure ⟨.io, none⟩
  else
    let flags ← sys (.getFlags fd)
    if flags = -1 then giveUp fd .io
    else
      let set ← sys (.setFlags fd (flags ||| oNonblock))
      if set = -1 then giveUp fd .io
      else
        let c ← sys (.connect fd path)
        if c.ret = 0 then handOver fd flags
        else if c.errno ≠ einprogress then giveUp fd .notConnected
        else awaitConnect fd flags timeoutMs cancel passes

/-- `savvy_ipc_client_connect_cancelable`, with a transport to connect. -/
def clientConnectCancelable (socketPath : Option (List UInt8)) (timeoutMs : UInt32)
    (cancel : Option CancelSource) (passes : ℕ) : Sys Connected :=
  match socketPath with
  | none => pure ⟨.invalidArgument, none⟩
  | some path => do
      let cancelled ← cancelSourceIsCancelled cancel
      if cancelled then pure ⟨.cancelled, none⟩
      else if path.length ≥ sunPathSize then pure ⟨.invalidArgument, none⟩
      else connectSocket path timeoutMs cancel passes

end Savvy.Ipc
