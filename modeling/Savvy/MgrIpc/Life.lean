import Mathlib.Data.Finset.Card
import Mathlib.Logic.Relation
import Savvy.MgrIpc.Client

/-!
The protocol by which the threads of a client start, stop and destroy it. Of a
thread only its role matters here, and of a worker only how far it has come;
sending, receiving and connecting do not show. `Move` lists what can happen,
and `Inv` is the invariant of all of it:

* the numbers of joins, detaches and completions of each worker (`Workers`),
* who holds the claim to destroy the client (`Claims`),
* who is inside the client and who takes it out of the registry (`Registry`),
* the state of the cancel source (`Cancel`),
* what each thread may rely on in its role (`Role.Ok`).
-/

namespace Savvy.MgrIpc

open Kit

/-- What a thread is doing to the life of the client. A thread whose `asleep`
is set waits on a condition variable that was not broadcast since. -/
inductive Role
  | outside
  | inside
  | leaving
  | committing (checked : Bool)
  | stopping (k : StopFor)
  | marking (k : StopFor)
  | waiting (k : StopFor) (g : ℕ) (asleep : Bool)
  | joining (k : StopFor) (g : ℕ) (joined : Bool)
  | claiming (fromWorker : Bool)
  | selfClaim
  | unclaiming
  | draining (asleep : Bool)
  | drained
  | removing (asleep : Bool)
  | releasing
  deriving DecidableEq, Repr

inductive Stage
  | absent
  | running
  | cancelling
  | finishing
  | removing (asleep : Bool)
  | releasing
  | exited
  deriving DecidableEq, Repr

inductive Place
  | outside
  | pinned
  | removing
  | releasing
  deriving DecidableEq, Repr

namespace Role

def place : Role → Place
  | .outside => .outside
  | .removing _ => .removing
  | .releasing => .releasing
  | _ => .pinned

def pinned (r : Role) : Bool := r.place == .pinned

/-- A destroy on the worker that has claimed the client and not detached its
worker yet. -/
def soft : Role → Bool
  | .selfClaim | .unclaiming => true
  | _ => false

def owner : Role → Bool
  | .stopping k | .marking k | .waiting k _ _ | .joining k _ _ => k == .owner
  | .draining _ | .drained | .removing _ | .releasing => true
  | _ => false

def claims (r : Role) : Bool := r.soft || r.owner

/-- The worker a thread has undertaken to join. -/
def joins : Role → Option (ℕ × Bool)
  | .joining _ g joined => some (g, joined)
  | _ => none

def waits : Role → Option ℕ
  | .waiting _ g _ => some g
  | _ => none

/-- The thread holds `lifecycle_lock` across steps, knowing its content. -/
def knowing : Role → Bool
  | .committing _ | .claiming _ => true
  | _ => false

def wakeShutdown : Role → Role
  | .waiting k g _ => .waiting k g false
  | r => r

def wakeRegistry : Role → Role
  | .draining _ => .draining false
  | .removing _ => .removing false
  | r => r

def stopped : StopFor → Role
  | .stop | .reap => .inside
  | .owner => .draining false
  | .worker => .leaving

@[simp] theorem joins_wakeShutdown (r : Role) : r.wakeShutdown.joins = r.joins := by
  cases r <;> rfl

@[simp] theorem joins_wakeRegistry (r : Role) : r.wakeRegistry.joins = r.joins := by
  cases r <;> rfl

@[simp] theorem soft_wakeShutdown (r : Role) : r.wakeShutdown.soft = r.soft := by
  cases r <;> rfl

@[simp] theorem soft_wakeRegistry (r : Role) : r.wakeRegistry.soft = r.soft := by
  cases r <;> rfl

@[simp] theorem owner_wakeShutdown (r : Role) : r.wakeShutdown.owner = r.owner := by
  cases r with
  | waiting k => cases k <;> rfl
  | _ => rfl

@[simp] theorem owner_wakeRegistry (r : Role) : r.wakeRegistry.owner = r.owner := by
  cases r <;> rfl

@[simp] theorem place_wakeShutdown (r : Role) : r.wakeShutdown.place = r.place := by
  cases r <;> rfl

@[simp] theorem place_wakeRegistry (r : Role) : r.wakeRegistry.place = r.place := by
  cases r <;> rfl

@[simp] theorem pinned_wakeShutdown (r : Role) : r.wakeShutdown.pinned = r.pinned := by
  cases r <;> rfl

@[simp] theorem pinned_wakeRegistry (r : Role) : r.wakeRegistry.pinned = r.pinned := by
  cases r <;> rfl

theorem place_eq_outside {r : Role} : r.place = .outside ↔ r = .outside := by
  cases r <;> simp [Role.place]

theorem place_eq_releasing {r : Role} : r.place = .releasing ↔ r = .releasing := by
  cases r <;> simp [Role.place]

@[simp] theorem wakeShutdown_outside (r : Role) : r.wakeShutdown = .outside ↔ r = .outside := by
  cases r <;> simp [Role.wakeShutdown]

@[simp] theorem wakeRegistry_outside (r : Role) : r.wakeRegistry = .outside ↔ r = .outside := by
  cases r <;> simp [Role.wakeRegistry]

end Role

namespace Stage

def live : Stage → Bool
  | .running | .cancelling | .finishing => true
  | _ => false

/-- A detached worker that releases the client. -/
def ending : Stage → Bool
  | .removing _ | .releasing => true
  | _ => false

/-- The phase of a stage: before, during and after the life of a worker, with a
phase of its own for the release of the client. -/
def phase : Stage → ℕ
  | .absent => 0
  | .running | .cancelling | .finishing => 1
  | .removing _ | .releasing => 2
  | .exited => 3

def wakeRegistry : Stage → Stage
  | .removing _ => .removing false
  | st => st

@[simp] theorem phase_wakeRegistry (st : Stage) : st.wakeRegistry.phase = st.phase := by
  cases st <;> rfl

theorem alike {a b : Stage} (h : a.phase = b.phase) :
    (a = .absent ↔ b = .absent) ∧ (a = .exited ↔ b = .exited) ∧ a.live = b.live ∧
      a.ending = b.ending := by
  cases a <;> cases b <;> simp_all [Stage.phase, Stage.live, Stage.ending]

@[simp] theorem wakeRegistry_running (st : Stage) : st.wakeRegistry = .running ↔ st = .running := by
  cases st <;> simp [Stage.wakeRegistry]

/-- Waking a worker makes no difference to a stage without sleep. -/
theorem wakeRegistry_iff {st st' : Stage} (h : st'.wakeRegistry = st')
    (hne : st' ≠ .removing false) : st.wakeRegistry = st' ↔ st = st' := by
  cases st <;> cases st' <;> simp_all [Stage.wakeRegistry]

theorem wakeRegistry_exited {st : Stage} : st.wakeRegistry = .exited ↔ st = .exited :=
  wakeRegistry_iff rfl (by simp)

theorem wakeRegistry_removing {st : Stage} {a : Bool} :
    st.wakeRegistry = .removing a ↔ a = false ∧ ∃ b, st = .removing b := by
  cases st <;> simp [Stage.wakeRegistry, eq_comm]

end Stage

def Api.role : Api → Role
  | .idle | .enter _ => .outside
  | .leave .destroy => .leaving
  | .startAuth => .committing false
  | .startCreate => .committing true
  | .stopEntry k => .stopping k
  | .stopMarkSelf k => .marking k
  | .stopWait k g => .waiting k g true
  | .stopWoken k g => .waiting k g false
  | .stopMark k g | .stopJoin k g => .joining k g false
  | .stopFinish k g => .joining k g true
  | .claimRegistry fromWorker => .claiming fromWorker
  | .selfCheck => .selfClaim
  | .unclaimLock | .unclaimRegistry => .unclaiming
  | .drainTest => .draining false
  | .drainWait => .draining true
  | .drainLeave => .drained
  | .removeTest => .removing false
  | .removeWait => .removing true
  | .release => .releasing
  | _ => .inside

def Wrk.stage : Wrk → Stage
  | .absent => .absent
  | .fin2 => .cancelling
  | .fin3 => .finishing
  | .removeTest => .removing false
  | .removeWait => .removing true
  | .release => .releasing
  | .exited => .exited
  | _ => .running

@[ext]
structure Life (ι : Type*) where
  vars : LifeVars
  role : Tid ι → Role
  stage : ℕ → Stage

def Client.toLife {ι : Type*} (s : Client ι) : Life ι where
  vars := s.life
  role t := (s.api t).role
  stage g := (s.wrk g).stage

namespace Life

variable {ι : Type*}

abbrev count (m : Life ι) (e : LifeEvent) : ℕ := m.vars.trace.count e

abbrev worker (m : Life ι) : ℕ := m.vars.workerThread

def wakeShutdown (m : Life ι) : Life ι := { m with role := fun t => (m.role t).wakeShutdown }

def wakeRegistry (m : Life ι) : Life ι :=
  { m with role := fun t => (m.role t).wakeRegistry, stage := fun g => (m.stage g).wakeRegistry }

def note (m : Life ι) (e : LifeEvent) : Life ι :=
  { m with vars := { m.vars with trace := e :: m.vars.trace } }

variable [DecidableEq ι]

def play (m : Life ι) (t : Tid ι) (r : Role) : Life ι :=
  { m with role := Function.update m.role t r }

def advance (m : Life ι) (g : ℕ) (st : Stage) : Life ι :=
  { m with stage := Function.update m.stage g st }

/-! ### What can happen -/

section

omit [DecidableEq ι]

structure OwnerOk (m : Life ι) (t : Tid ι) : Prop where
  external : Client.isExternal t = true
  requested : m.vars.destroyRequested = true
  not_worker : m.vars.destroyFromWorker = false
  attached : m.vars.workerDetached = false

structure KindOk (m : Life ι) (t : Tid ι) (k : StopFor) : Prop where
  owner : k = .owner → m.OwnerOk t
  worker : k = .worker → Client.isExternal t = false

/-- What a destroy on the worker may rely on while it can still give its claim
back. -/
structure SoftOk (m : Life ι) (t : Tid ι) : Prop where
  self : t = .wrk m.worker
  started : m.vars.started = true
  attached : m.vars.workerDetached = false
  requested : m.vars.destroyRequested = true
  from_worker : m.vars.destroyFromWorker = true

def RoleOk (m : Life ι) (t : Tid ι) : Role → Prop
  | .outside | .inside => True
  | .leaving => Client.isExternal t = true → .refused ∈ m.vars.trace
  | .committing checked =>
      m.vars.started = false ∧ (checked = true → m.vars.destroyRequested = false)
  | .stopping k => m.KindOk t k
  | .marking k =>
      m.KindOk t k ∧ t = .wrk m.worker ∧ m.vars.started = true
  | .waiting k g asleep =>
      m.KindOk t k ∧ Client.isExternal t = true ∧ 0 < g ∧ g ≤ m.worker ∧
        (asleep = true → m.vars.stopComplete = false)
  | .joining k g joined =>
      m.KindOk t k ∧ Client.isExternal t = true ∧ 0 < g ∧ g = m.worker ∧
        m.vars.started = true ∧ m.vars.workerDetached = false ∧ m.vars.joinInProgress = true ∧
        (joined = true → m.stage g = .exited) ∧ m.count (.join g) = joined.toNat
  | .claiming fromWorker =>
      fromWorker = true ↔ m.vars.started = true ∧ t = .wrk m.worker
  | .selfClaim | .unclaiming => m.SoftOk t
  | .draining asleep =>
      m.OwnerOk t ∧ m.vars.started = false ∧ (asleep = true → 1 < m.vars.apiCallers)
  | .drained => m.OwnerOk t ∧ m.vars.started = false
  | .removing asleep =>
      m.OwnerOk t ∧ m.vars.started = false ∧ m.vars.registered = true ∧
        (asleep = true → m.vars.apiCallers ≠ 0)
  | .releasing =>
      m.OwnerOk t ∧ m.vars.started = false ∧ m.vars.registered = false ∧ m.count .release = 0

/-- No other thread holds `lifecycle_lock` knowing what the variables are. -/
def Unknown (m : Life ι) (t : Tid ι) : Prop := ∀ u, u ≠ t → (m.role u).knowing = false

end

/-- The variables as `start` sets them before it creates a worker. -/
def prepared (m : Life ι) : LifeVars :=
  { m.vars with
    cancelInitialized := true
    shutdownRequested := false
    stopComplete := false
    terminalCleanupComplete := false
    workerDetached := false
    joinInProgress := false
    trace := .cancelInit :: m.vars.trace }

def restart (m : Life ι) (t : Tid ι) : Life ι :=
  ({ m with vars := { m.prepared with
      started := true
      workerThread := m.worker + 1
      trace := .spawn (m.worker + 1) :: m.prepared.trace } }.advance (m.worker + 1) .running).play
    t .inside

def startFail (m : Life ι) (t : Tid ι) : Life ι :=
  { m with vars := { m.prepared with
      cancelInitialized := false
      stopComplete := true
      trace := .cancelDestroy :: m.prepared.trace } }.play t .inside

def claimJoin (m : Life ι) (t : Tid ι) (k : StopFor) : Life ι :=
  { m with vars := { m.vars with joinInProgress := true } }.play t (.joining k m.worker false)

def joinWorker (m : Life ι) (t : Tid ι) (k : StopFor) (g : ℕ) : Life ι :=
  (m.note (.join g)).play t (.joining k g true)

def finishJoin (m : Life ι) (t : Tid ι) (k : StopFor) (g : ℕ) : Life ι :=
  { m with vars := { m.vars with
      started := false
      stopComplete := true
      joinInProgress := false
      trace := .complete g :: m.vars.trace } }.wakeShutdown.play t (.stopped k)

def pin (m : Life ι) (t : Tid ι) : Life ι :=
  { m with vars := { m.vars with apiCallers := m.vars.apiCallers + 1 } }.play t .inside

def unpin (m : Life ι) (t : Tid ι) (r : Role) : Life ι :=
  { m with vars := { m.vars with apiCallers := m.vars.apiCallers - 1 } }.wakeRegistry.play t r

def claim (m : Life ι) (t : Tid ι) (fromWorker : Bool) : Life ι :=
  { m with vars := { m.vars with
      destroyRequested := true
      destroyFromWorker := fromWorker } }.wakeRegistry.play t
    (if fromWorker then .selfClaim else .stopping .owner)

def unclaim (m : Life ι) (t : Tid ι) : Life ι :=
  { m with vars := { m.vars with
      destroyRequested := false
      destroyFromWorker := false } }.wakeRegistry.play t (.stopping .worker)

def detach (m : Life ι) (t : Tid ι) : Life ι :=
  { m with vars := { m.vars with
      workerDetached := true
      trace := .detach m.worker :: m.vars.trace } }.play t (.stopping .worker)

section

omit [DecidableEq ι]

def shutdown (m : Life ι) : Life ι :=
  { m.wakeShutdown with vars := { m.vars with shutdownRequested := true } }

def unregister (m : Life ι) : Life ι :=
  { m with vars := { m.vars with registered := false } }

def fin1 (m : Life ι) (g : ℕ) : Life ι :=
  { m with vars := { m.vars with cancelInitialized := false } }.advance g
    (if m.vars.cancelInitialized then .cancelling else .finishing)

def fin2 (m : Life ι) (g : ℕ) : Life ι := (m.note .cancelDestroy).advance g .finishing

/-- The end of a worker that is to be joined. -/
def fin3 (m : Life ι) (g : ℕ) : Life ι :=
  { m with vars := { m.vars with terminalCleanupComplete := true } }.wakeShutdown.advance g .exited

/-- The end of a detached worker. -/
def fin3Detached (m : Life ι) (g : ℕ) : Life ι :=
  { m with vars := { m.vars with
      terminalCleanupComplete := true
      started := false
      stopComplete := true
      trace := .complete g :: m.vars.trace } }.wakeShutdown.advance g (.removing false)

end

/-- The moves that the later results tell apart: the creation of a worker, a
destroy on the worker that gives its claim back, and all the others. -/
inductive Label
  | quiet
  | restart
  | unclaim
  deriving DecidableEq, Repr

inductive Move (m : Life ι) : Label → Life ι → Prop
  /-- A thread changes its role without changing what it owns. -/
  | relabel {t : Tid ι} {r : Role} (hplace : r.place = (m.role t).place)
      (hsoft : r.soft = (m.role t).soft) (howner : r.owner = (m.role t).owner)
      (hjoin : r.joins = (m.role t).joins) (hok : m.RoleOk t r)
      (hwait : r.waits ≠ none → r.waits ≠ (m.role t).waits → r.waits = some m.worker ∧
        m.vars.started = true ∧
          (m.vars.workerDetached = true ∨ m.vars.joinInProgress = true)) :
      Move m .quiet (m.play t r)
  /-- A worker in the middle of releasing the client falls asleep or wakes. -/
  | doze {g : ℕ} {a b : Bool} (h : m.stage g = .removing a)
      (hb : b = true → m.vars.apiCallers ≠ 0) : Move m .quiet (m.advance g (.removing b))
  | shutdown (h : m.vars.started = true) : Move m .quiet m.shutdown
  | cancel (h : m.vars.cancelInitialized = true) : Move m .quiet (m.note .cancel)
  | refuse (h : m.vars.destroyRequested = true ∨ m.vars.registered = false) :
      Move m .quiet (m.note .refused)
  | destroyReturned (h : .refused ∈ m.vars.trace ∨ m.count .release = 1) :
      Move m .quiet (m.note .destroyReturned)
  | pin {t : Tid ι} (h : m.role t = .outside) (hreg : m.vars.registered = true)
      (hreq : m.vars.destroyRequested = false) (hlive : ∀ g, t = .wrk g → m.stage g = .running) :
      Move m .quiet (m.pin t)
  | unpin {t : Tid ι} (h : (m.role t).pinned = true) (hclaim : (m.role t).claims = false)
      (hjoin : (m.role t).joins = none) : Move m .quiet (m.unpin t .outside)
  | drained {t : Tid ι} (h : m.role t = .drained) : Move m .quiet (m.unpin t (.removing false))
  | restart {t : Tid ι} (h : m.role t = .committing true) (hl : m.Unknown t) :
      Move m .restart (m.restart t)
  | startFail {t : Tid ι} (h : m.role t = .committing true) (hl : m.Unknown t) :
      Move m .quiet (m.startFail t)
  | claimJoin {t : Tid ι} {k : StopFor} (h : m.role t = .stopping k)
      (hstart : m.vars.started = true) (hself : t ≠ .wrk m.worker)
      (hdet : m.vars.workerDetached = false) (hjoin : m.vars.joinInProgress = false) :
      Move m .quiet (m.claimJoin t k)
  | joinWorker {t : Tid ι} {k : StopFor} {g : ℕ} (h : m.role t = .joining k g false)
      (hexit : m.stage g = .exited) : Move m .quiet (m.joinWorker t k g)
  | finishJoin {t : Tid ι} {k : StopFor} {g : ℕ} (h : m.role t = .joining k g true)
      (hl : m.Unknown t) : Move m .quiet (m.finishJoin t k g)
  | claim {t : Tid ι} {fromWorker : Bool} (h : m.role t = .claiming fromWorker)
      (hreq : m.vars.destroyRequested = false) (hl : m.Unknown t) :
      Move m .quiet (m.claim t fromWorker)
  | unclaim {t : Tid ι} (h : m.role t = .unclaiming) (hl : m.Unknown t) :
      Move m .unclaim (m.unclaim t)
  | detach {t : Tid ι} (h : m.role t = .selfClaim) (hjoin : m.vars.joinInProgress = false)
      (hl : m.Unknown t) : Move m .quiet (m.detach t)
  | unregister {t : Tid ι} (h : m.role t = .removing false) (hnone : m.vars.apiCallers = 0) :
      Move m .quiet (m.unregister.play t .releasing)
  | release {t : Tid ι} (h : m.role t = .releasing) :
      Move m .quiet ((m.note .release).play t .outside)
  | fin1 {g : ℕ} (h : m.stage g = .running) (hout : m.role (.wrk g) = .outside) :
      Move m .quiet (m.fin1 g)
  | fin2 {g : ℕ} (h : m.stage g = .cancelling) : Move m .quiet (m.fin2 g)
  | fin3 {g : ℕ} (h : m.stage g = .finishing) (hl : ∀ t, (m.role t).knowing = false)
      (hdet : m.vars.workerDetached = false) : Move m .quiet (m.fin3 g)
  | fin3Detached {g : ℕ} (h : m.stage g = .finishing) (hl : ∀ t, (m.role t).knowing = false)
      (hdet : m.vars.workerDetached = true) : Move m .quiet (m.fin3Detached g)
  | workerUnregister {g : ℕ} (h : m.stage g = .removing false)
      (hnone : m.vars.apiCallers = 0) : Move m .quiet (m.unregister.advance g .releasing)
  | workerRelease {g : ℕ} (h : m.stage g = .releasing) :
      Move m .quiet ((m.note .release).advance g .exited)

end Life

end Savvy.MgrIpc
