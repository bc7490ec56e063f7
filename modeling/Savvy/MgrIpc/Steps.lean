import Savvy.MgrIpc.Client

/-!
What a step is at each place of a thread. A proof about the steps goes by cases
of these relations, and so names the places and not the arms of `apiStep` and
`workerStep`.
-/

namespace Savvy.MgrIpc.Client

variable {ι : Type*} [DecidableEq ι] {s s' : Client ι} {t : Tid ι} {c : Choice}

/-- The steps of a call, by the place where the thread stands. -/
inductive ApiMoves (s : Client ι) (t : Tid ι) : Choice → Client ι → Prop
  | idle {op : Op} (hpc : s.api t = .idle) : ApiMoves s t (.call op) (s.goto t (.enter op))
  | enter {op : Op} (hpc : s.api t = .enter op) : ApiMoves s t .go (s.enter t op)
  | leave {op : Op} (hpc : s.api t = .leave op) : ApiMoves s t .go (s.unpin.returned t op)
  | startTop (hpc : s.api t = .startTop) : ApiMoves s t .go (s.startTop t)
  | startCheck (hpc : s.api t = .startCheck) : ApiMoves s t .go (s.startCheck t .startRelock)
  | startRelock (hpc : s.api t = .startRelock) : ApiMoves s t .go (s.startRelock t)
  | startAuth (hpc : s.api t = .startAuth) : ApiMoves s t .go (s.startCheck t .startCreate)
  | startCreate {o : StartOutcome} (hpc : s.api t = .startCreate) :
      ApiMoves s t (.start o) (s.startCreate t o)
  | stopEntry {k : StopFor} (hpc : s.api t = .stopEntry k) : ApiMoves s t .go (s.stopEntry t k)
  | stopMarkSelf {k : StopFor} (hpc : s.api t = .stopMarkSelf k) :
      ApiMoves s t .go (s.markTransportStopping.goto t (.stopped k))
  | stopWait {k : StopFor} {g : ℕ} (hpc : s.api t = .stopWait k g) :
      ApiMoves s t .wake (s.goto t (.stopWoken k g))
  | stopWoken {k : StopFor} {g : ℕ} (hpc : s.api t = .stopWoken k g) :
      ApiMoves s t .go (s.stopWoken t k g)
  | stopMark {k : StopFor} {g : ℕ} (hpc : s.api t = .stopMark k g) :
      ApiMoves s t .go (s.markTransportStopping.goto t (.stopJoin k g))
  | stopJoin {k : StopFor} {g : ℕ} (hexit : s.wrk g = .exited) (hpc : s.api t = .stopJoin k g) :
      ApiMoves s t .go ((s.note (.join g)).goto t (.stopFinish k g))
  | stopFinish {k : StopFor} {g : ℕ} (hpc : s.api t = .stopFinish k g) :
      ApiMoves s t .go (s.stopFinish t k g)
  | sendBuild {ok : Bool} (hpc : s.api t = .sendBuild) :
      ApiMoves s t (.result ok) (s.goto t (if ok then .sendState else .leave .send))
  | sendState (hpc : s.api t = .sendState) : ApiMoves s t .go (s.sendState t)
  | sendLock (hpc : s.api t = .sendLock) :
      ApiMoves s t .go ((s.noteIo (.sendBegin s.link.transport .report)).goto t .sendCall)
  | sendCall {ok : Bool} (hpc : s.api t = .sendCall) :
      ApiMoves s t (.result ok) ((s.noteIo (.sendEnd s.link.transport ok)).goto t (.leave .send))
  | queryState (hpc : s.api t = .queryState) : ApiMoves s t .go (s.goto t (.leave .isConnected))
  | claimLock (hpc : s.api t = .claimLock) :
      ApiMoves s t .go (s.goto t (.claimRegistry (s.life.started && s.isSelf t)))
  | claimRegistry {fromWorker : Bool} (hpc : s.api t = .claimRegistry fromWorker) :
      ApiMoves s t .go (s.claimRegistry t fromWorker)
  | selfCheck (hpc : s.api t = .selfCheck) : ApiMoves s t .go (s.selfCheck t)
  | unclaimLock (hpc : s.api t = .unclaimLock) : ApiMoves s t .go (s.goto t .unclaimRegistry)
  | unclaimRegistry (hpc : s.api t = .unclaimRegistry) : ApiMoves s t .go (s.unclaimRegistry t)
  | drainTest (hpc : s.api t = .drainTest) : ApiMoves s t .go (s.drainTest t)
  | drainWait (hpc : s.api t = .drainWait) : ApiMoves s t .wake (s.goto t .drainTest)
  | drainLeave (hpc : s.api t = .drainLeave) : ApiMoves s t .go (s.unpin.goto t .removeTest)
  | removeTest (hpc : s.api t = .removeTest) :
      ApiMoves s t .go
        (if s.life.apiCallers ≠ 0 then s.goto t .removeWait else s.unregister.goto t .release)
  | removeWait (hpc : s.api t = .removeWait) : ApiMoves s t .wake (s.goto t .removeTest)
  | release (hpc : s.api t = .release) : ApiMoves s t .go ((s.note .release).returned t .destroy)

theorem moves_of_apiStep (h : s.apiStep t c = some s') : ApiMoves s t c s' := by
  unfold apiStep at h
  split at h
  -- The join is the only step with a guard.
  all_goals first
    | cases h
    | split at h <;> cases h
  all_goals constructor <;> assumption

variable {cfg : Config} {g : ℕ}

/-- The steps of a worker outside its callbacks, by the place where it stands. -/
inductive WorkerMoves (cfg : Config) (s : Client ι) (g : ℕ) : Choice → Client ι → Prop
  | top (hpc : s.wrk g = .top) :
      WorkerMoves cfg s g .go (s.shutdownBranch g (.closeState .final) .connecting)
  | cancelled (hpc : s.wrk g = .connecting) :
      WorkerMoves cfg s g (.connect .cancelled) (s.run g (.closeState .final))
  | failed (hpc : s.wrk g = .connecting) :
      WorkerMoves cfg s g (.connect .failed) (s.run g .backoffTest)
  | connected (hpc : s.wrk g = .connecting) :
      WorkerMoves cfg s g (.connect .connected)
        ({ s with link := { s.link with
            transports := s.link.transports + 1
            trace := .opened g s.link.transports :: s.link.trace } }.run g
          (.setTransport s.link.transports))
  | setTransport {n : ℕ} (hpc : s.wrk g = .setTransport n) :
      WorkerMoves cfg s g .go ((s.setTransport n).run g .recheck)
  | recheck (hpc : s.wrk g = .recheck) :
      WorkerMoves cfg s g .go (s.shutdownBranch g (.closeState .shutdown) .hsBuild)
  | hsBuild {ok : Bool} (hpc : s.wrk g = .hsBuild) :
      WorkerMoves cfg s g (.result ok) (s.run g (if ok then .hsState else .closeState .handshake))
  | hsState (hpc : s.wrk g = .hsState) : WorkerMoves cfg s g .go (s.hsState g)
  | hsSend (hpc : s.wrk g = .hsSend) :
      WorkerMoves cfg s g .go ((s.noteIo (.sendBegin s.link.transport .connect)).run g .hsCall)
  | hsCall {ok : Bool} (hpc : s.wrk g = .hsCall) :
      WorkerMoves cfg s g (.result ok)
        ((s.noteIo (.sendEnd s.link.transport ok)).run g (.hsDone ok))
  | hsDone {ok : Bool} (hpc : s.wrk g = .hsDone ok) : WorkerMoves cfg s g .go (hsDone cfg s g ok)
  | recvTop (hpc : s.wrk g = .recvTop) :
      WorkerMoves cfg s g .go (s.shutdownBranch g (.closeState .session) .recvState)
  | recvState (hpc : s.wrk g = .recvState) : WorkerMoves cfg s g .go (s.recvState g)
  | recvLock (hpc : s.wrk g = .recvLock) :
      WorkerMoves cfg s g .go ((s.noteIo (.recvBegin s.link.transport)).run g .recvCall)
  | recvCall {o : RecvOutcome} (hpc : s.wrk g = .recvCall) :
      WorkerMoves cfg s g (.recv o) (recvCall cfg s g o)
  | closeState {k : CloseFor} (hpc : s.wrk g = .closeState k) :
      WorkerMoves cfg s g .go (s.run g (.closeLock k))
  | closeLock {k : CloseFor} (hpc : s.wrk g = .closeLock k) :
      WorkerMoves cfg s g .go (closeLock cfg s g k)
  | closeCall {k : CloseFor} (hpc : s.wrk g = .closeCall k) :
      WorkerMoves cfg s g .go (closeCall cfg s g k)
  | backoffTest (hpc : s.wrk g = .backoffTest) :
      WorkerMoves cfg s g .go (s.shutdownBranch g .top .backoffWait)
  | backoffOver (hpc : s.wrk g = .backoffWait) : WorkerMoves cfg s g .go (s.run g .backoffEnd)
  | backoffWoken (hpc : s.wrk g = .backoffWait) : WorkerMoves cfg s g .wake (s.run g .backoffTest)
  | backoffEnd (hpc : s.wrk g = .backoffEnd) : WorkerMoves cfg s g .go (s.run g .top)
  | fin1 (hpc : s.wrk g = .fin1) : WorkerMoves cfg s g .go (s.fin1 g)
  | fin2 (hpc : s.wrk g = .fin2) :
      WorkerMoves cfg s g .go ((s.note .cancelDestroy).run g .fin3)
  | fin3 (hpc : s.wrk g = .fin3) : WorkerMoves cfg s g .go (s.fin3 g)
  | removeTest (hpc : s.wrk g = .removeTest) :
      WorkerMoves cfg s g .go
        (if s.life.apiCallers ≠ 0 then s.run g .removeWait else s.unregister.run g .release)
  | removeWait (hpc : s.wrk g = .removeWait) : WorkerMoves cfg s g .wake (s.run g .removeTest)
  | release (hpc : s.wrk g = .release) :
      WorkerMoves cfg s g .go ((s.note .release).run g .exited)

omit [DecidableEq ι] in
theorem moves_of_workerStep (h : workerStep cfg s g c = some s') : WorkerMoves cfg s g c s' := by
  unfold workerStep at h
  split at h
  all_goals cases h
  all_goals
    constructor
    assumption

end Savvy.MgrIpc.Client
