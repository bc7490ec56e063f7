import Savvy.Kit.Locks

/-!
The MGR IPC client (`src/features/mgr_ipc/mgr_ipc_client.c`) with every thread
that runs in it: any number of external threads calling its API, and the
workers it starts, whose callbacks may call the API as well. A step is what a
thread does between taking a mutex and releasing it, or one call of user code
or of the transport; where a mutex stays locked across steps, the places in
between hold it. The mutexes themselves are added by `Kit.Threads`.

A thread that waits on a condition variable stands at a place of its own, from
which a broadcast moves it on. Workers are numbered from one in the order they
are created, and so are the transports that the connector returns, from zero.
-/

namespace Savvy.MgrIpc

open Kit

inductive Lock
  | lifecycle
  | registry
  | state
  | io
  deriving DecidableEq, Repr

inductive ConnectionState
  | disconnected
  | transportConnected
  | handshaking
  | connected
  | stopping
  deriving DecidableEq, Repr

/-- The envelope of a send: the CONNECT of the handshake, or a report. A report
may be any envelope, another CONNECT included. -/
inductive Record
  | connect
  | report
  deriving DecidableEq, Repr

inductive Op
  | start
  | stop
  | send
  | isConnected
  | destroy
  deriving DecidableEq, Repr

inductive Tid (ι : Type*)
  | ext (i : ι)
  | wrk (g : ℕ)
  deriving DecidableEq, Repr

/-- What `stop_impl` is called for: by `stop`, by `start` to reap a worker that
was told to stop, by the owner of a destroy, or by a destroy on the worker. -/
inductive StopFor
  | stop
  | reap
  | owner
  | worker
  deriving DecidableEq, Repr

inductive Api
  | idle
  | enter (op : Op)
  | leave (op : Op)
  | startTop
  | startCheck
  | startRelock
  | startAuth
  | startCreate
  | stopEntry (k : StopFor)
  | stopMarkSelf (k : StopFor)
  | stopWait (k : StopFor) (g : ℕ)
  | stopWoken (k : StopFor) (g : ℕ)
  | stopMark (k : StopFor) (g : ℕ)
  | stopJoin (k : StopFor) (g : ℕ)
  | stopFinish (k : StopFor) (g : ℕ)
  | sendBuild
  | sendState
  | sendLock
  | sendCall
  | queryState
  | claimLock
  | claimRegistry (fromWorker : Bool)
  | selfCheck
  | unclaimLock
  | unclaimRegistry
  | drainTest
  | drainWait
  | drainLeave
  | removeTest
  | removeWait
  | release
  deriving DecidableEq, Repr

/-- What `close_transport` is called for in `worker_main`: a shutdown seen
right after connecting, a failed handshake, the end of a session, or the end of
the worker. -/
inductive CloseFor
  | shutdown
  | handshake
  | session
  | final
  deriving DecidableEq, Repr

/-- The callbacks. `lost` is `on_disconnected` after a failed handshake,
`disconnected` the one after a session. -/
inductive Callback
  | connected
  | envelope
  | lost
  | disconnected
  deriving DecidableEq, Repr

inductive Wrk
  | absent
  | top
  | connecting
  | setTransport (n : ℕ)
  | recheck
  | hsBuild
  | hsState
  | hsSend
  | hsCall
  | hsDone (ok : Bool)
  | callback (k : Callback)
  | recvTop
  | recvState
  | recvLock
  | recvCall
  | closeState (k : CloseFor)
  | closeLock (k : CloseFor)
  | closeCall (k : CloseFor)
  | backoffTest
  | backoffWait
  | backoffEnd
  | fin1
  | fin2
  | fin3
  | removeTest
  | removeWait
  | release
  | exited
  deriving DecidableEq, Repr

/-- What happened to the cancel source, to the workers and to the storage. A
worker is completed when `stop_complete` is published for it. For a `destroy`
on an external thread `refused` says that another one had the claim, and
`destroyReturned` that the call returned. -/
inductive LifeEvent
  | cancelInit
  | cancel
  | cancelDestroy
  | spawn (g : ℕ)
  | join (g : ℕ)
  | detach (g : ℕ)
  | complete (g : ℕ)
  | release
  | refused
  | destroyReturned
  deriving DecidableEq, Repr

/-- A return of `recv`: a timeout or an overflow, a record and whether
`dispatch_envelope` accepts it, or the end of the connection. -/
inductive RecvOutcome
  | again
  | record (accepted : Bool)
  | broken
  deriving DecidableEq, Repr

/-- What happened on the transports, starting with the worker that was given one.
`none` is the zeroed transport struct. -/
inductive IoEvent
  | opened (g n : ℕ)
  | sendBegin (n : Option ℕ) (r : Record)
  | sendEnd (n : Option ℕ) (ok : Bool)
  | recvBegin (n : Option ℕ)
  | recvEnd (n : Option ℕ) (o : RecvOutcome)
  | closeBegin (n : Option ℕ)
  | closeEnd (n : Option ℕ)
  | callback (k : Callback) (wasReconnect : Bool)
  deriving DecidableEq, Repr

/-- The members of `struct sensor_mgr_ipc_client` under `lifecycle_lock` and
`g_registry_lock`, whether the client is in the registry, and the events, the
newest first. `workerThread` is the number of the last worker created. -/
structure LifeVars where
  started : Bool
  shutdownRequested : Bool
  stopComplete : Bool
  terminalCleanupComplete : Bool
  cancelInitialized : Bool
  workerDetached : Bool
  joinInProgress : Bool
  workerThread : ℕ
  destroyRequested : Bool
  destroyFromWorker : Bool
  apiCallers : ℕ
  registered : Bool
  trace : List LifeEvent
  deriving DecidableEq, Repr

/-- The members under `state_lock` and `io_lock`, the reconnect tracker, the
number of transports so far, and the events, the newest first. -/
structure LinkVars where
  transport : Option ℕ
  connectionState : ConnectionState
  hasConnectedBefore : Bool
  transports : ℕ
  trace : List IoEvent
  deriving DecidableEq, Repr

structure Client (ι : Type*) where
  life : LifeVars
  link : LinkVars
  api : Tid ι → Api
  wrk : ℕ → Wrk

structure Config where
  onEnvelope : Bool
  onConnected : Bool
  onDisconnected : Bool

def Config.has (cfg : Config) : Callback → Bool
  | .connected => cfg.onConnected
  | .envelope => cfg.onEnvelope
  | .lost | .disconnected => cfg.onDisconnected

inductive StartOutcome
  | initFailed
  | createFailed
  | created
  deriving DecidableEq, Repr

inductive ConnectOutcome
  | cancelled
  | failed
  | connected
  deriving DecidableEq, Repr

/-- What a step leaves open: which call is made, what the code outside
returns, or that a wait ends by itself. -/
inductive Choice
  | go
  | call (op : Op)
  | result (ok : Bool)
  | start (o : StartOutcome)
  | connect (o : ConnectOutcome)
  | recv (o : RecvOutcome)
  | wake
  deriving DecidableEq, Repr

namespace Api

def holds : Api → List Lock
  | .startAuth | .startCreate | .claimRegistry _ | .unclaimRegistry => [.lifecycle]
  | .sendLock => [.state]
  | .sendCall => [.io]
  | _ => []

def needs : Api → Option Lock
  | .startTop | .startRelock | .stopEntry _ | .stopWoken _ _ | .stopFinish _ _ | .claimLock
  | .selfCheck | .unclaimLock => some .lifecycle
  | .enter _ | .leave _ | .startCheck | .startAuth | .claimRegistry _ | .unclaimRegistry
  | .drainTest | .drainLeave | .removeTest => some .registry
  | .stopMarkSelf _ | .stopMark _ _ | .sendState | .queryState => some .state
  | .sendLock => some .io
  | _ => none

def wakeShutdown : Api → Api
  | .stopWait k g => .stopWoken k g
  | pc => pc

def wakeRegistry : Api → Api
  | .drainWait => .drainTest
  | .removeWait => .removeTest
  | pc => pc

/-- The first place of a call behind `client_enter`. -/
def first : Op → Api
  | .start => .startTop
  | .stop => .stopEntry .stop
  | .send => .sendBuild
  | .isConnected => .queryState
  | .destroy => .claimLock

/-- Where a return of `stop_impl` with `SAVVY_OK` leads. -/
def stopped : StopFor → Api
  | .stop => .leave .stop
  | .reap => .startTop
  | .owner => .drainTest
  | .worker => .leave .destroy

/-- Where a return of `stop_impl` with an error leads. -/
def stopFailed : StopFor → Api
  | .reap => .leave .start
  | k => stopped k

end Api

namespace Wrk

def holds : Wrk → List Lock
  | .recvLock | .closeLock _ => [.state]
  | .recvCall => [.io]
  | .closeCall _ => [.state, .io]
  | _ => []

def needs : Wrk → Option Lock
  | .top | .recheck | .recvTop | .backoffTest | .backoffEnd | .fin1 | .fin3 => some .lifecycle
  | .setTransport _ | .hsState | .hsDone _ | .recvState | .closeState _ => some .state
  | .recvLock | .closeLock _ => some .io
  | .removeTest => some .registry
  | _ => none

def wakeShutdown : Wrk → Wrk
  | .backoffWait => .backoffTest
  | pc => pc

def wakeRegistry : Wrk → Wrk
  | .removeWait => .removeTest
  | pc => pc

/-- Where `worker_main` goes on after a callback. -/
def after : Callback → Wrk
  | .connected | .envelope => .recvTop
  | .lost => .backoffTest
  | .disconnected => .top

end Wrk

namespace Client

variable {ι : Type*} [DecidableEq ι]

def created : Client ι where
  life :=
    { started := false
      shutdownRequested := false
      stopComplete := true
      terminalCleanupComplete := true
      cancelInitialized := false
      workerDetached := false
      joinInProgress := false
      workerThread := 0
      destroyRequested := false
      destroyFromWorker := false
      apiCallers := 0
      registered := true
      trace := [] }
  link :=
    { transport := none
      connectionState := .disconnected
      hasConnectedBefore := false
      transports := 0
      trace := [] }
  api _ := .idle
  wrk _ := .absent

def goto (s : Client ι) (t : Tid ι) (pc : Api) : Client ι :=
  { s with api := Function.update s.api t pc }

def run (s : Client ι) (g : ℕ) (pc : Wrk) : Client ι :=
  { s with wrk := Function.update s.wrk g pc }

def broadcastShutdown (s : Client ι) : Client ι :=
  { s with api := fun t => (s.api t).wakeShutdown, wrk := fun g => (s.wrk g).wakeShutdown }

def broadcastRegistry (s : Client ι) : Client ι :=
  { s with api := fun t => (s.api t).wakeRegistry, wrk := fun g => (s.wrk g).wakeRegistry }

/-- `pthread_equal(pthread_self(), client->worker_thread)`. -/
def isSelf (s : Client ι) (t : Tid ι) : Bool := t == .wrk s.life.workerThread

def isExternal : Tid ι → Bool
  | .ext _ => true
  | .wrk _ => false

def note (s : Client ι) (e : LifeEvent) : Client ι :=
  { s with life := { s.life with trace := e :: s.life.trace } }

def noteIo (s : Client ι) (e : IoEvent) : Client ι :=
  { s with link := { s.link with trace := e :: s.link.trace } }

/-- An event of a call of `destroy`, noted for an external thread. -/
def noteDestroy (s : Client ι) (t : Tid ι) (op : Op) (e : LifeEvent) : Client ι :=
  if op = .destroy ∧ isExternal t then s.note e else s

def returned (s : Client ι) (t : Tid ι) (op : Op) : Client ι :=
  (s.noteDestroy t op .destroyReturned).goto t .idle

/-! ### Entering and leaving -/

def enter (s : Client ι) (t : Tid ι) (op : Op) : Client ι :=
  if s.life.registered ∧ ¬ s.life.destroyRequested then
    { s with life := { s.life with apiCallers := s.life.apiCallers + 1 } }.goto t (.first op)
  else (s.noteDestroy t op .refused).returned t op

/-- The body of `client_leave`. -/
def unpin (s : Client ι) : Client ι :=
  { s with life := { s.life with apiCallers := s.life.apiCallers - 1 } }.broadcastRegistry

/-! ### `sensor_mgr_ipc_client_start` -/

/-- The first section of the loop. -/
def startTop (s : Client ι) (t : Tid ι) : Client ι :=
  if s.life.started ∧ ¬ s.life.shutdownRequested then s.goto t (.leave .start)
  else if ¬ s.life.started then s.goto t .startCheck
  else if s.isSelf t then s.goto t (.leave .start)
  else s.goto t (.stopEntry .reap)

/-- `client_destroy_is_requested` and the branch on it. -/
def startCheck (s : Client ι) (t : Tid ι) (next : Api) : Client ι :=
  if s.life.destroyRequested then s.goto t (.leave .start) else s.goto t next

def startRelock (s : Client ι) (t : Tid ι) : Client ι :=
  if s.life.started then s.goto t .startTop else s.goto t .startAuth

/-- The assignments between `savvy_ipc_cancel_source_init` and
`pthread_create`. -/
def startPrepare (s : Client ι) : Client ι :=
  { s with
    life := { s.life with
      cancelInitialized := true
      shutdownRequested := false
      stopComplete := false
      terminalCleanupComplete := false
      workerDetached := false
      joinInProgress := false
      trace := .cancelInit :: s.life.trace }
    link := { s.link with hasConnectedBefore := false } }

def startCreate (s : Client ι) (t : Tid ι) : StartOutcome → Client ι
  | .initFailed => s.goto t (.leave .start)
  | .createFailed =>
      let p := s.startPrepare
      { p with life := { p.life with
          cancelInitialized := false
          stopComplete := true
          trace := .cancelDestroy :: p.life.trace } }.goto t (.leave .start)
  | .created =>
      let p := s.startPrepare
      let g := s.life.workerThread + 1
      ({ p with life := { p.life with
          started := true
          workerThread := g
          trace := .spawn g :: p.life.trace } }.run g .top).goto t (.leave .start)

/-! ### `stop_impl` -/

def requestShutdown (s : Client ι) : Client ι :=
  if s.life.shutdownRequested then s
  else
    let r := { s with life := { s.life with shutdownRequested := true } }.broadcastShutdown
    if s.life.cancelInitialized then r.note .cancel else r

def stopEntry (s : Client ι) (t : Tid ι) (k : StopFor) : Client ι :=
  if ¬ s.life.started then s.goto t (.stopped k)
  else
    let r := s.requestShutdown
    if s.isSelf t then r.goto t (.stopMarkSelf k)
    else if s.life.workerDetached ∨ s.life.joinInProgress then
      if s.life.stopComplete then r.goto t (.stopped k)
      else r.goto t (.stopWait k s.life.workerThread)
    else
      { r with life := { r.life with joinInProgress := true } }.goto t
        (.stopMark k s.life.workerThread)

/-- The loop condition of both waits. -/
def stopWoken (s : Client ι) (t : Tid ι) (k : StopFor) (g : ℕ) : Client ι :=
  if s.life.stopComplete then s.goto t (.stopped k) else s.goto t (.stopWait k g)

def markTransportStopping (s : Client ι) : Client ι :=
  if s.link.connectionState ≠ .disconnected then
    { s with link := { s.link with connectionState := .stopping } }
  else s

def stopFinish (s : Client ι) (t : Tid ι) (k : StopFor) (g : ℕ) : Client ι :=
  if ¬ s.life.terminalCleanupComplete then s.goto t (.stopFailed k)
  else
    { s with life := { s.life with
        started := false
        stopComplete := true
        joinInProgress := false
        trace := .complete g :: s.life.trace } }.broadcastShutdown.goto t (.stopped k)

/-! ### `send_impl` -/

def sendState (s : Client ι) (t : Tid ι) : Client ι :=
  if s.link.connectionState ≠ .connected then s.goto t (.leave .send) else s.goto t .sendLock

/-! ### `sensor_mgr_ipc_client_destroy` -/

/-- The inner section of `client_claim_destroy`. -/
def claimRegistry (s : Client ι) (t : Tid ι) (fromWorker : Bool) : Client ι :=
  if s.life.destroyRequested then (s.noteDestroy t .destroy .refused).goto t (.leave .destroy)
  else
    { s with life := { s.life with
        destroyRequested := true
        destroyFromWorker := fromWorker } }.broadcastRegistry.goto t
      (if fromWorker then .selfCheck else .stopEntry .owner)

/-- The section of a destroy on the worker. -/
def selfCheck (s : Client ι) (t : Tid ι) : Client ι :=
  if s.life.joinInProgress then s.goto t .unclaimLock
  else if s.life.workerDetached then s.goto t (.stopEntry .worker)
  else
    { s with life := { s.life with
        workerDetached := true
        trace := .detach s.life.workerThread :: s.life.trace } }.goto t (.stopEntry .worker)

/-- The inner section of `client_unclaim_destroy`. -/
def unclaimRegistry (s : Client ι) (t : Tid ι) : Client ι :=
  { s with life := { s.life with
      destroyRequested := false
      destroyFromWorker := false } }.broadcastRegistry.goto t (.stopEntry .worker)

/-- The loop of `wait_for_other_api_callers`, for one caller that stays. -/
def drainTest (s : Client ι) (t : Tid ι) : Client ι :=
  if s.life.apiCallers > 1 then s.goto t .drainWait else s.goto t .drainLeave

def unregister (s : Client ι) : Client ι :=
  { s with life := { s.life with registered := false } }

/-! ### The steps of a call -/

def apiStep (s : Client ι) (t : Tid ι) (c : Choice) : Option (Client ι) :=
  match s.api t, c with
  | .idle, .call op => some (s.goto t (.enter op))
  | .enter op, .go => some (s.enter t op)
  | .leave op, .go => some (s.unpin.returned t op)
  | .startTop, .go => some (s.startTop t)
  | .startCheck, .go => some (s.startCheck t .startRelock)
  | .startRelock, .go => some (s.startRelock t)
  | .startAuth, .go => some (s.startCheck t .startCreate)
  | .startCreate, .start o => some (s.startCreate t o)
  | .stopEntry k, .go => some (s.stopEntry t k)
  | .stopMarkSelf k, .go => some (s.markTransportStopping.goto t (.stopped k))
  | .stopWait k g, .wake => some (s.goto t (.stopWoken k g))
  | .stopWoken k g, .go => some (s.stopWoken t k g)
  | .stopMark k g, .go => some (s.markTransportStopping.goto t (.stopJoin k g))
  | .stopJoin k g, .go =>
      if s.wrk g = .exited then some ((s.note (.join g)).goto t (.stopFinish k g)) else none
  | .stopFinish k g, .go => some (s.stopFinish t k g)
  | .sendBuild, .result ok => some (s.goto t (if ok then .sendState else .leave .send))
  | .sendState, .go => some (s.sendState t)
  | .sendLock, .go =>
      some ((s.noteIo (.sendBegin s.link.transport .report)).goto t .sendCall)
  | .sendCall, .result ok =>
      some ((s.noteIo (.sendEnd s.link.transport ok)).goto t (.leave .send))
  | .queryState, .go => some (s.goto t (.leave .isConnected))
  | .claimLock, .go => some (s.goto t (.claimRegistry (s.life.started && s.isSelf t)))
  | .claimRegistry fromWorker, .go => some (s.claimRegistry t fromWorker)
  | .selfCheck, .go => some (s.selfCheck t)
  | .unclaimLock, .go => some (s.goto t .unclaimRegistry)
  | .unclaimRegistry, .go => some (s.unclaimRegistry t)
  | .drainTest, .go => some (s.drainTest t)
  | .drainWait, .wake => some (s.goto t .drainTest)
  | .drainLeave, .go => some (s.unpin.goto t .removeTest)
  | .removeTest, .go =>
      some (if s.life.apiCallers ≠ 0 then s.goto t .removeWait else s.unregister.goto t .release)
  | .removeWait, .wake => some (s.goto t .removeTest)
  | .release, .go => some ((s.note .release).returned t .destroy)
  | _, _ => none

/-! ### The worker -/

/-- `is_shutdown_requested` and the branch on it. -/
def shutdownBranch (s : Client ι) (g : ℕ) (yes no : Wrk) : Client ι :=
  s.run g (if s.life.shutdownRequested then yes else no)

/-- `set_transport_connected`. -/
def setTransport (s : Client ι) (n : ℕ) : Client ι :=
  { s with link := { s.link with transport := some n, connectionState := .transportConnected } }

/-- The first section of `send_connect_handshake`. -/
def hsState (s : Client ι) (g : ℕ) : Client ι :=
  if s.link.connectionState ≠ .transportConnected then s.run g (.closeState .handshake)
  else { s with link := { s.link with connectionState := .handshaking } }.run g .hsSend

def notify (cfg : Config) (s : Client ι) (g : ℕ) (k : Callback) (wasReconnect : Bool) :
    Client ι :=
  if cfg.has k then (s.noteIo (.callback k wasReconnect)).run g (.callback k)
  else s.run g (.after k)

/-- The second section of `send_connect_handshake`, and the announcement of
the connection if it was successful. -/
def hsDone (cfg : Config) (s : Client ι) (g : ℕ) (ok : Bool) : Client ι :=
  if ok ∧ s.link.connectionState = .handshaking then
    notify cfg { s with link := { s.link with
      connectionState := .connected
      hasConnectedBefore := true } } g .connected s.link.hasConnectedBefore
  else s.run g (.closeState .handshake)

def recvState (s : Client ι) (g : ℕ) : Client ι :=
  if s.link.connectionState ≠ .connected then s.run g (.closeState .session)
  else s.run g .recvLock

/-- The end of `recv` and what follows it. -/
def recvCall (cfg : Config) (s : Client ι) (g : ℕ) (o : RecvOutcome) : Client ι :=
  let r := s.noteIo (.recvEnd s.link.transport o)
  match o with
  | .again => r.run g .recvTop
  | .record accepted => if accepted then notify cfg r g .envelope false else r.run g .recvTop
  | .broken => r.run g (.closeState .session)

/-- What follows `close_transport`. -/
def afterClose (cfg : Config) (s : Client ι) (g : ℕ) : CloseFor → Client ι
  | .shutdown => s.run g (.closeState .final)
  | .handshake => notify cfg s g .lost false
  | .session => notify cfg s g .disconnected false
  | .final => s.run g .fin1

/-- The section of `close_transport` up to the call of `close`. -/
def closeLock (cfg : Config) (s : Client ι) (g : ℕ) (k : CloseFor) : Client ι :=
  if s.link.connectionState ≠ .disconnected then
    (s.noteIo (.closeBegin s.link.transport)).run g (.closeCall k)
  else afterClose cfg s g k

/-- The rest of `close_transport`. -/
def closeCall (cfg : Config) (s : Client ι) (g : ℕ) (k : CloseFor) : Client ι :=
  afterClose cfg { s with link := { s.link with
    transport := none
    connectionState := .disconnected
    trace := .closeEnd s.link.transport :: s.link.trace } } g k

/-- The first section of `worker_mark_finished`. -/
def fin1 (s : Client ι) (g : ℕ) : Client ι :=
  if s.life.cancelInitialized then
    { s with life := { s.life with cancelInitialized := false } }.run g .fin2
  else s.run g .fin3

/-- The second section of `worker_mark_finished`. -/
def fin3 (s : Client ι) (g : ℕ) : Client ι :=
  let p : Client ι := { s with life := { s.life with terminalCleanupComplete := true } }
  let q : Client ι :=
    if s.life.workerDetached then
      { p with life := { p.life with
          started := false
          stopComplete := true
          trace := .complete g :: p.life.trace } }
    else p
  q.broadcastShutdown.run g (if s.life.destroyFromWorker then .removeTest else .exited)

def workerStep (cfg : Config) (s : Client ι) (g : ℕ) (c : Choice) : Option (Client ι) :=
  match s.wrk g, c with
  | .top, .go => some (s.shutdownBranch g (.closeState .final) .connecting)
  | .connecting, .connect .cancelled => some (s.run g (.closeState .final))
  | .connecting, .connect .failed => some (s.run g .backoffTest)
  | .connecting, .connect .connected =>
      some ({ s with link := { s.link with
          transports := s.link.transports + 1
          trace := .opened g s.link.transports :: s.link.trace } }.run g
        (.setTransport s.link.transports))
  | .setTransport n, .go => some ((s.setTransport n).run g .recheck)
  | .recheck, .go => some (s.shutdownBranch g (.closeState .shutdown) .hsBuild)
  | .hsBuild, .result ok => some (s.run g (if ok then .hsState else .closeState .handshake))
  | .hsState, .go => some (s.hsState g)
  | .hsSend, .go => some ((s.noteIo (.sendBegin s.link.transport .connect)).run g .hsCall)
  | .hsCall, .result ok => some ((s.noteIo (.sendEnd s.link.transport ok)).run g (.hsDone ok))
  | .hsDone ok, .go => some (hsDone cfg s g ok)
  | .recvTop, .go => some (s.shutdownBranch g (.closeState .session) .recvState)
  | .recvState, .go => some (s.recvState g)
  | .recvLock, .go => some ((s.noteIo (.recvBegin s.link.transport)).run g .recvCall)
  | .recvCall, .recv o => some (recvCall cfg s g o)
  | .closeState k, .go => some (s.run g (.closeLock k))
  | .closeLock k, .go => some (closeLock cfg s g k)
  | .closeCall k, .go => some (closeCall cfg s g k)
  | .backoffTest, .go => some (s.shutdownBranch g .top .backoffWait)
  | .backoffWait, .go => some (s.run g .backoffEnd)
  | .backoffWait, .wake => some (s.run g .backoffTest)
  | .backoffEnd, .go => some (s.run g .top)
  | .fin1, .go => some (s.fin1 g)
  | .fin2, .go => some ((s.note .cancelDestroy).run g .fin3)
  | .fin3, .go => some (s.fin3 g)
  | .removeTest, .go =>
      some (if s.life.apiCallers ≠ 0 then s.run g .removeWait else s.unregister.run g .release)
  | .removeWait, .wake => some (s.run g .removeTest)
  | .release, .go => some ((s.note .release).run g .exited)
  | _, _ => none

/-- A step of a thread. In a callback the worker may call the API, and when no
call is under way the callback may return. -/
def body (cfg : Config) (s : Client ι) (t : Tid ι) (c : Choice) : Option (Client ι) :=
  match t with
  | .ext _ => s.apiStep t c
  | .wrk g =>
      match s.wrk g with
      | .callback k =>
          if s.api t = .idle ∧ c = .go then some (s.run g (.after k)) else s.apiStep t c
      | _ => workerStep cfg s g c

def holds (s : Client ι) : Tid ι → List Lock
  | .ext i => (s.api (.ext i)).holds
  | .wrk g => (s.api (.wrk g)).holds ++ (s.wrk g).holds

def needs (s : Client ι) : Tid ι → Option Lock
  | .ext i => (s.api (.ext i)).needs
  | .wrk g => (s.api (.wrk g)).needs.or (s.wrk g).needs

end Client

def client (ι : Type*) [DecidableEq ι] (cfg : Config) :
    Threads (Client ι) (Tid ι) Lock Choice where
  init := .created
  body := Client.body cfg
  holds := Client.holds
  needs := Client.needs

end Savvy.MgrIpc
