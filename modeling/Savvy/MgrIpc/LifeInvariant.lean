import Savvy.MgrIpc.Life

/-!
The invariant of the life of a client, in five parts:

* the numbers of joins, detaches and completions of each worker (`Workers`),
* who holds the claim to destroy the client (`Claims`),
* who is inside the client and who takes it out of the registry (`Registry`),
* the state of the cancel source (`Cancel`),
* what each thread may rely on in its role (`Roles`, `Callers`).

That the moves keep the parts is the subject of the next modules; here are the
consequences that they draw from each other.
-/

namespace Savvy.MgrIpc

open Kit

namespace Life

variable {ι : Type*}

/-- What an event does to the cancel source, initialised or not; `none` if it
is out of place. -/
def sourceStep : LifeEvent → Bool → Option Bool
  | .cancelInit, false => some true
  | .cancelInit, true => none
  | .cancel, true => some true
  | .cancel, false => none
  | .cancelDestroy, true => some false
  | .cancelDestroy, false => none
  | _, source => some source

/-- What has become of the cancel source after the events of a trace. -/
def cancelSource : List LifeEvent → Option Bool
  | [] => some false
  | e :: es => (cancelSource es).bind (sourceStep e)

structure Workers (m : Life ι) : Prop where
  absent_iff (g : ℕ) : m.stage g = .absent ↔ g = 0 ∨ m.worker < g
  old {g : ℕ} (hpos : 0 < g) (hlt : g < m.worker) :
    m.stage g = .exited ∧ m.count (.join g) = 1 ∧ m.count (.detach g) = 0 ∧
      m.count (.complete g) = 1
  unborn {g : ℕ} (h : g = 0 ∨ m.worker < g) :
    m.count (.spawn g) = 0 ∧ m.count (.join g) = 0 ∧ m.count (.detach g) = 0 ∧
      m.count (.complete g) = 0
  none_started (h : m.worker = 0) : m.vars.started = false ∧ m.vars.workerDetached = false
  completed (h : 0 < m.worker) : m.count (.complete m.worker) = (!m.vars.started).toNat
  detached (h : 0 < m.worker) : m.count (.detach m.worker) = m.vars.workerDetached.toNat
  detached_join (h : m.vars.workerDetached = true) : m.count (.join m.worker) = 0
  joined (hpos : 0 < m.worker) (h : m.vars.started = false)
    (hdet : m.vars.workerDetached = false) : m.count (.join m.worker) = 1
  unjoined (h : m.vars.started = true) :
    (∃ t, (m.role t).joins = some (m.worker, true)) ∨ m.count (.join m.worker) = 0
  started (h : m.vars.started = true) :
    (m.stage m.worker).live = true ∨
      m.stage m.worker = .exited ∧ m.vars.terminalCleanupComplete = true ∧
        m.vars.workerDetached = false
  stopped (hpos : 0 < m.worker) (h : m.vars.started = false) :
    m.stage m.worker = .exited ∨ m.vars.workerDetached = true ∧ (m.stage m.worker).ending = true
  complete_iff : m.vars.stopComplete = !m.vars.started
  joiner (h : m.vars.joinInProgress = true) :
    m.vars.started = true ∧ ∃ t b, (m.role t).joins = some (m.worker, b)
  joiner_unique {t u : Tid ι} (ht : (m.role t).joins ≠ none) (hu : (m.role u).joins ≠ none) :
    t = u

structure Claims (m : Life ι) : Prop where
  fromWorker (h : m.vars.destroyFromWorker = true) :
    m.vars.destroyRequested = true ∧
      (m.vars.workerDetached = true ∨ ∃ t, (m.role t).soft = true)
  unique {t u : Tid ι} (ht : (m.role t).claims = true) (hu : (m.role u).claims = true) : t = u
  detached (h : m.vars.workerDetached = true) :
    m.vars.destroyFromWorker = true ∧ ∀ t, (m.role t).claims = false
  owned (h : m.vars.destroyRequested = true) (hw : m.vars.destroyFromWorker = false) :
    (∃ t, (m.role t).owner = true) ∨ m.count .release = 1
  unregistered (h : m.vars.registered = false) : m.vars.destroyRequested = true

def Pins (m : Life ι) : Prop :=
  ∃ S : Finset (Tid ι), S.card = m.vars.apiCallers ∧ ∀ t, t ∈ S ↔ (m.role t).pinned = true

structure Registry (m : Life ι) : Prop where
  pins : m.Pins
  unregistered (h : m.vars.registered = false) : m.vars.apiCallers = 0
  remover (h : m.vars.registered = false) :
    (∃ t, (m.role t).place = .releasing) ∨ m.stage m.worker = .releasing ∨ m.count .release = 1
  removing {g : ℕ} {a : Bool} (h : m.stage g = .removing a) :
    m.vars.workerDetached = true ∧ m.vars.started = false ∧ m.vars.registered = true ∧
      (a = true → m.vars.apiCallers ≠ 0)
  releasing {g : ℕ} (h : m.stage g = .releasing) :
    m.vars.workerDetached = true ∧ m.vars.started = false ∧ m.vars.registered = false ∧
      m.count .release = 0
  registered (h : m.vars.registered = true) : m.count .release = 0
  once : m.count .release ≤ 1
  released (h : m.count .release = 1) :
    (∀ t, (m.role t).place = .outside) ∧ ∀ g, m.stage g = .absent ∨ m.stage g = .exited
  detached (h : m.vars.workerDetached = true) (hexit : m.stage m.worker = .exited) :
    m.count .release = 1

structure Cancel (m : Life ι) : Prop where
  source : cancelSource m.vars.trace =
    some (m.vars.cancelInitialized || m.stage m.worker == .cancelling)
  initialized (h : m.vars.cancelInitialized = true) : m.stage m.worker = .running

def Roles (m : Life ι) : Prop := ∀ t, m.RoleOk t (m.role t)

/-- Only a running worker is in a call. -/
def Callers (m : Life ι) : Prop := ∀ g, m.role (.wrk g) ≠ .outside → m.stage g = .running

structure Inv (m : Life ι) : Prop where
  workers : m.Workers
  claims : m.Claims
  registry : m.Registry
  cancel : m.Cancel
  roles : m.Roles
  callers : m.Callers

variable {m : Life ι}

theorem Inv.role (h : m.Inv) {t : Tid ι} {r : Role} (hrole : m.role t = r) : m.RoleOk t r :=
  hrole ▸ h.roles t

theorem Inv.worker_role (h : m.Inv) {g : ℕ} (hrole : m.role (.wrk g) ≠ .outside) :
    m.stage g = .running :=
  h.callers g hrole

theorem RoleOk.softOk {t : Tid ι} {r : Role} (h : m.RoleOk t r) (hsoft : r.soft = true) :
    m.SoftOk t := by
  cases r with
  | selfClaim => exact h
  | unclaiming => exact h
  | _ => cases hsoft

theorem RoleOk.ownerOk {t : Tid ι} {r : Role} (h : m.RoleOk t r) (howner : r.owner = true) :
    m.OwnerOk t := by
  cases r with
  | stopping k => exact h.owner (by simpa [Role.owner] using howner)
  | marking k => exact h.1.owner (by simpa [Role.owner] using howner)
  | waiting k => exact h.1.owner (by simpa [Role.owner] using howner)
  | joining k => exact h.1.owner (by simpa [Role.owner] using howner)
  | draining => exact h.1
  | drained => exact h.1
  | removing => exact h.1
  | releasing => exact h.1
  | _ => cases howner

theorem Inv.not_detached (h : m.Inv) (hreq : m.vars.destroyRequested = false) :
    m.vars.workerDetached = false := by
  by_contra hdet
  have hd : m.vars.workerDetached = true := by simpa using hdet
  have := (h.claims.fromWorker (h.claims.detached hd).1).1
  rw [hreq] at this
  cases this

/-- Whoever holds the claim has made it. -/
theorem Inv.requested (h : m.Inv) {t : Tid ι} (hclaim : (m.role t).claims = true) :
    m.vars.destroyRequested = true := by
  rcases Bool.or_eq_true_iff.mp hclaim with hsoft | howner
  · exact ((h.roles t).softOk hsoft).requested
  · exact ((h.roles t).ownerOk howner).requested

theorem Inv.no_other_claim (h : m.Inv) {t u : Tid ι} (ht : (m.role t).claims = true)
    (hu : u ≠ t) : (m.role u).soft = false ∧ (m.role u).owner = false := by
  apply Bool.or_eq_false_iff.mp
  by_contra hclaim
  exact hu (h.claims.unique (Bool.not_eq_false _ ▸ hclaim) ht)

theorem Inv.no_joiner (h : m.Inv) (hstart : m.vars.started = false) (t : Tid ι) :
    (m.role t).joins = none := by
  have hok := h.roles t
  cases hrole : m.role t with
  | joining k g joined =>
      rw [hrole] at hok
      have := hok.2.2.2.2.1
      rw [hstart] at this
      cases this
  | _ => rfl

theorem Inv.no_joiner' (h : m.Inv) (hjoin : m.vars.joinInProgress = false) (t : Tid ι) :
    (m.role t).joins = none := by
  cases hrole : m.role t with
  | joining k g joined =>
      have := (h.role hrole).2.2.2.2.2.2.1
      rw [hjoin] at this
      cases this
  | _ => rfl

theorem Inv.no_join (h : m.Inv) (hdet : m.vars.workerDetached = true) :
    m.vars.joinInProgress = false := by
  by_contra hjoin
  obtain ⟨-, t, b, ht⟩ := h.workers.joiner (by simpa using hjoin)
  cases hrole : m.role t with
  | joining k g joined =>
      have := (h.role hrole).2.2.2.2.2.1
      rw [hdet] at this
      cases this
  | _ =>
      rw [hrole] at ht
      cases ht

theorem Inv.worker_pos (h : m.Inv) (hstart : m.vars.started = true) : 0 < m.worker := by
  by_contra hzero
  have := (h.workers.none_started (by omega)).1
  rw [hstart] at this
  cases this

theorem Inv.live_worker (h : m.Inv) {g : ℕ} (hlive : (m.stage g).live = true) :
    g = m.worker ∧ m.vars.started = true := by
  have w := h.workers
  have hne : m.stage g ≠ .absent := by
    intro heq
    rw [heq] at hlive
    cases hlive
  rw [ne_eq, w.absent_iff] at hne
  have hg : g = m.worker := by
    by_contra hne'
    have := (w.old (by omega) (by omega : g < m.worker)).1
    rw [this] at hlive
    cases hlive
  refine ⟨hg, ?_⟩
  by_contra hstart
  subst hg
  rcases w.stopped (by omega) (by simpa using hstart) with hex | ⟨-, hend⟩
  · rw [hex] at hlive
    cases hlive
  · cases hs : m.stage m.worker <;> simp_all [Stage.live, Stage.ending]

theorem Inv.ending_worker (h : m.Inv) {g : ℕ} (hend : (m.stage g).ending = true) :
    g = m.worker ∧ 0 < g := by
  have w := h.workers
  have hne : m.stage g ≠ .absent := by
    intro heq
    rw [heq] at hend
    cases hend
  rw [ne_eq, w.absent_iff] at hne
  refine ⟨?_, by omega⟩
  by_contra hne'
  have := (w.old (by omega) (by omega : g < m.worker)).1
  rw [this] at hend
  cases hend

/-- A call on another thread than the worker is one on an external thread. -/
theorem Inv.external (h : m.Inv) {t : Tid ι} (hrole : m.role t ≠ .outside)
    (hself : t ≠ .wrk m.worker) : Client.isExternal t = true := by
  cases t with
  | ext i => rfl
  | wrk g =>
      have hrun := h.worker_role hrole
      obtain ⟨rfl, -⟩ := h.live_worker (g := g) (by rw [hrun]; rfl)
      exact absurd rfl hself

theorem Inv.registered_of_pinned (h : m.Inv) {t : Tid ι} (hpin : (m.role t).pinned = true) :
    m.vars.registered = true ∧ 0 < m.vars.apiCallers := by
  obtain ⟨S, hS, hmem⟩ := h.registry.pins
  have hcard : 0 < S.card := Finset.card_pos.mpr ⟨t, (hmem t).mpr hpin⟩
  refine ⟨?_, by omega⟩
  by_contra hreg
  have := h.registry.unregistered (by simpa using hreg)
  omega

theorem Inv.all_outside (h : m.Inv) (hnone : m.vars.apiCallers = 0) (t : Tid ι)
    (hclaim : (m.role t).claims = false) : m.role t = .outside := by
  obtain ⟨S, hS, hmem⟩ := h.registry.pins
  rw [hnone, Finset.card_eq_zero] at hS
  have hpin : (m.role t).pinned = false := by
    have := hmem t
    simpa [hS] using this
  cases hrole : m.role t <;> simp_all [Role.pinned, Role.place, Role.claims, Role.soft, Role.owner]

theorem Inv.all_ended (h : m.Inv) (hend : m.stage m.worker = .absent ∨ m.stage m.worker = .exited)
    (g : ℕ) : m.stage g = .absent ∨ m.stage g = .exited := by
  rcases Nat.lt_trichotomy g m.worker with hlt | rfl | hgt
  · rcases Nat.eq_zero_or_pos g with rfl | hpos
    · exact .inl ((h.workers.absent_iff 0).mpr (.inl rfl))
    · exact .inr (h.workers.old hpos hlt).1
  · exact hend
  · exact .inl ((h.workers.absent_iff g).mpr (.inr hgt))

theorem Inv.no_source (h : m.Inv) (hstart : m.vars.started = false) :
    cancelSource m.vars.trace = some false ∧ m.vars.cancelInitialized = false ∧
      (m.stage m.worker == .cancelling) = false := by
  have hnot : (m.stage m.worker).live = false := by
    by_contra hlive
    have := (h.live_worker (by simpa using hlive)).2
    rw [hstart] at this
    cases this
  have hinit : m.vars.cancelInitialized = false := by
    by_contra hinit
    rw [h.cancel.initialized (by simpa using hinit)] at hnot
    cases hnot
  have hcan : (m.stage m.worker == .cancelling) = false := by
    by_contra hcan
    have : m.stage m.worker = .cancelling := by simpa using hcan
    rw [this] at hnot
    cases hnot
  refine ⟨?_, hinit, hcan⟩
  rw [h.cancel.source, hinit, hcan]
  rfl

end Life

end Savvy.MgrIpc
