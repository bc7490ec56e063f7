import Savvy.MgrIpc.LifeWorkers
import Savvy.MgrIpc.LifeCustody

/-!
What a thread relies on in its role is kept by the moves of all the others, and
with it the whole invariant.
-/

namespace Savvy.MgrIpc

open Kit

namespace Life

variable {ι : Type*} [DecidableEq ι] {m m' : Life ι} {l : Label}

def relied (v : LifeVars) :=
  (v.started, v.workerDetached, v.stopComplete, v.joinInProgress, v.workerThread,
    v.destroyRequested, v.destroyFromWorker, v.apiCallers, v.registered)

structure Keeps (m m' : Life ι) : Prop where
  refused (h : .refused ∈ m.vars.trace) : .refused ∈ m'.vars.trace
  join (g : ℕ) : m'.count (.join g) = m.count (.join g)
  release : m'.count .release = m.count .release
  exited {g : ℕ} (h : m.stage g = .exited) : m'.stage g = .exited

omit [DecidableEq ι] in
theorem RoleOk.frame {t : Tid ι} {r : Role} (h : m.RoleOk t r) (hv : relied m'.vars = relied m.vars)
    (hk : m.Keeps m') : m'.RoleOk t r := by
  simp only [relied, Prod.mk.injEq] at hv
  obtain ⟨h1, h2, h3, h4, h5, h6, h7, h8, h9⟩ := hv
  cases r
  all_goals simp only [RoleOk] at h ⊢
  all_goals grind -ring -linarith [Keeps, KindOk, OwnerOk, SoftOk]

omit [DecidableEq ι] in
theorem RoleOk.wakeShutdown {t : Tid ι} {r : Role} (h : m.RoleOk t r) :
    m.RoleOk t r.wakeShutdown := by
  cases r with
  | waiting k g asleep =>
      obtain ⟨hk, hext, hpos, hle, -⟩ := h
      exact ⟨hk, hext, hpos, hle, by simp⟩
  | _ => exact h

omit [DecidableEq ι] in
theorem RoleOk.wakeRegistry {t : Tid ι} {r : Role} (h : m.RoleOk t r) :
    m.RoleOk t r.wakeRegistry := by
  cases r with
  | draining asleep =>
      obtain ⟨hown, hstart, -⟩ := h
      exact ⟨hown, hstart, by simp⟩
  | removing asleep =>
      obtain ⟨hown, hstart, hreg, -⟩ := h
      exact ⟨hown, hstart, hreg, by simp⟩
  | _ => exact h

omit [DecidableEq ι] in
theorem Keeps.note {e : LifeEvent} (hjoin : ∀ g, e ≠ .join g) (hrel : e ≠ .release) :
    m.Keeps (m.note e) := by
  refine ⟨List.mem_cons_of_mem _, fun g => ?_, ?_, id⟩
  · exact List.count_cons_of_ne (hjoin g)
  · exact List.count_cons_of_ne hrel

omit [DecidableEq ι] in
theorem Keeps.advance {g : ℕ} {st : Stage} (h : m.stage g ≠ .exited) : m.Keeps (m.advance g st) := by
  refine ⟨id, fun _ => rfl, rfl, ?_⟩
  intro g' hg'
  have hne : g' ≠ g := by
    rintro rfl
    exact h hg'
  simpa [Life.advance, hne] using hg'

/-- When a thread takes a role, the others have to be looked at one by one. -/
theorem Roles.play {t : Tid ι} {r : Role} (ht : m.RoleOk t r)
    (hother : ∀ u, u ≠ t → m.RoleOk u (m.role u)) : (m.play t r).Roles := by
  intro u
  by_cases hu : u = t
  · subst hu
    have : (m.play u r).role u = r := by simp [Life.play]
    rw [this]
    exact ht.frame rfl ⟨id, fun _ => rfl, rfl, id⟩
  · have : (m.play t r).role u = m.role u := by simp [Life.play, hu]
    rw [this]
    exact (hother u hu).frame rfl ⟨id, fun _ => rfl, rfl, id⟩

omit [DecidableEq ι] in
theorem Roles.frame (h : m.Roles) (hv : relied m'.vars = relied m.vars) (hk : m.Keeps m')
    (hrole : ∀ t, m'.role t = m.role t) : m'.Roles := by
  intro t
  rw [hrole]
  exact (h t).frame hv hk

omit [DecidableEq ι] in
theorem Roles.wakeShutdown (h : m.Roles) : m.wakeShutdown.Roles := by
  intro t
  exact (h t).wakeShutdown.frame rfl ⟨id, fun _ => rfl, rfl, id⟩

theorem Roles.restart (h : m.Inv) {t : Tid ι} (hrole : m.role t = .committing true)
    (hl : m.Unknown t) : (m.restart t).Roles := by
  obtain ⟨hstart, hreq⟩ := h.role hrole
  have hreq := hreq rfl
  apply Roles.play
  · trivial
  · intro u hu
    have hok := h.roles u
    have hknow := hl u hu
    show RoleOk _ u (m.role u)
    cases hr : m.role u
    all_goals rw [hr] at hok hknow
    all_goals simp only [RoleOk, prepared, advance] at hok ⊢
    all_goals grind -ring -linarith [KindOk, OwnerOk, SoftOk, Role.knowing]

theorem Roles.claimJoin (h : m.Inv) {t : Tid ι} {k : StopFor} (hrole : m.role t = .stopping k)
    (hstart : m.vars.started = true) (hself : t ≠ .wrk m.worker)
    (hdet : m.vars.workerDetached = false) (hjoin : m.vars.joinInProgress = false) :
    (m.claimJoin t k).Roles := by
  have hk := h.role hrole
  have hcount : m.count (.join m.worker) = 0 := by
    rcases h.workers.unjoined hstart with ⟨u, hu⟩ | hcount
    · rw [h.no_joiner' hjoin u] at hu
      cases hu
    · exact hcount
  have hpos := h.worker_pos hstart
  have hext := h.external (t := t) (by rw [hrole]; simp) hself
  apply Roles.play
  · refine ⟨⟨fun hk' => ?_, hk.worker⟩, hext, hpos, rfl, hstart, hdet, rfl, by simp, hcount⟩
    obtain ⟨h1, h2, h3, h4⟩ := hk.owner hk'
    exact ⟨h1, h2, h3, h4⟩
  · intro u hu
    have hok := h.roles u
    have hnone := h.no_joiner' hjoin u
    show RoleOk _ u (m.role u)
    cases hr : m.role u
    all_goals rw [hr] at hok hnone
    all_goals simp only [RoleOk] at hok ⊢
    all_goals grind -ring -linarith [KindOk, OwnerOk, SoftOk, Role.joins]

theorem Roles.startFail (h : m.Inv) {t : Tid ι} (hrole : m.role t = .committing true) :
    (m.startFail t).Roles := by
  obtain ⟨hstart, hreq⟩ := h.role hrole
  have hdet := h.not_detached (hreq rfl)
  have hstop : m.vars.stopComplete = true := by
    rw [h.workers.complete_iff, hstart]
    rfl
  have hjoin : m.vars.joinInProgress = false := by
    by_contra hjoin
    have := (h.workers.joiner (by simpa using hjoin)).1
    rw [hstart] at this
    cases this
  apply Roles.play
  · trivial
  · intro u _
    refine (h.roles u).frame ?_ ⟨?_, ?_, ?_, id⟩
    · simp [relied, prepared, hdet, hstop, hjoin]
    · intro hmem
      simpa [prepared] using hmem
    · simp [count, prepared]
    · simp [count, prepared]

theorem Roles.pin (h : m.Inv) (t : Tid ι) : (m.pin t).Roles := by
  apply Roles.play
  · trivial
  · intro u hu
    have hok := h.roles u
    show RoleOk _ u (m.role u)
    cases hr : m.role u
    all_goals rw [hr] at hok
    all_goals simp only [RoleOk] at hok ⊢
    all_goals grind -ring -linarith [KindOk, OwnerOk, SoftOk]

theorem Roles.unpin (h : m.Inv) {t : Tid ι} {r : Role}
    (hok : r = .outside ∨ m.role t = .drained ∧ r = .removing false) : (m.unpin t r).Roles := by
  apply Roles.play
  · rcases hok with rfl | ⟨hrole, rfl⟩
    · trivial
    · obtain ⟨⟨h1, h2, h3, h4⟩, hstart⟩ := h.role hrole
      have hreg := (h.registered_of_pinned (t := t) (by rw [hrole]; rfl)).1
      exact ⟨⟨h1, h2, h3, h4⟩, hstart, hreg, by simp⟩
  · intro u hu
    have hok := (h.roles u).wakeRegistry
    show RoleOk _ u (m.role u).wakeRegistry
    cases hr : m.role u
    all_goals rw [hr] at hok
    all_goals simp only [RoleOk, Role.wakeRegistry, Life.wakeRegistry] at hok ⊢
    all_goals grind -ring -linarith [KindOk, OwnerOk, SoftOk, Stage.wakeRegistry_exited]

theorem Roles.joinWorker (h : m.Inv) {t : Tid ι} {k : StopFor} {g : ℕ}
    (hrole : m.role t = .joining k g false) (hexit : m.stage g = .exited) :
    (m.joinWorker t k g).Roles := by
  obtain ⟨hk, hext, hpos, hg, hstart, hdet, hjoin, -, hcount⟩ := h.role hrole
  have huniq := fun u => h.workers.joiner_unique (t := u) (u := t)
  apply Roles.play
  · simp only [RoleOk, note] at *
    grind -ring -linarith [KindOk, OwnerOk]
  · intro u hu
    have hok := h.roles u
    have hu' := huniq u
    show RoleOk _ u (m.role u)
    cases hr : m.role u
    all_goals rw [hr] at hok hu'
    all_goals simp only [RoleOk, note] at hok ⊢
    all_goals grind -ring -linarith [KindOk, OwnerOk, SoftOk, Role.joins]

theorem Roles.finishJoin (h : m.Inv) {t : Tid ι} {k : StopFor} {g : ℕ}
    (hrole : m.role t = .joining k g true) (hl : m.Unknown t) : (m.finishJoin t k g).Roles := by
  obtain ⟨hk, hext, hpos, hg, hstart, hdet, hjoin, hexit, hcount⟩ := h.role hrole
  have huniq := fun u => h.workers.joiner_unique (t := u) (u := t)
  have hrun := h.worker_role (g := m.worker)
  apply Roles.play
  · cases k with
    | owner =>
        obtain ⟨h1, h2, h3, h4⟩ := hk.owner rfl
        exact ⟨⟨h1, h2, h3, h4⟩, rfl, by simp⟩
    | worker =>
        intro _
        rw [hk.worker rfl] at hext
        cases hext
    | stop => trivial
    | reap => trivial
  · intro u hu
    have hok := (h.roles u).wakeShutdown
    have hu' := huniq u
    have hknow := hl u hu
    show RoleOk _ u (m.role u).wakeShutdown
    cases hr : m.role u
    all_goals rw [hr] at hok hu' hknow
    all_goals simp only [RoleOk, Role.wakeShutdown, Life.wakeShutdown] at hok ⊢
    all_goals grind -ring -linarith [KindOk, OwnerOk, SoftOk, Role.joins, Role.knowing]

theorem Roles.claim (h : m.Inv) {t : Tid ι} {fromWorker : Bool}
    (hrole : m.role t = .claiming fromWorker) (hreq : m.vars.destroyRequested = false)
    (hl : m.Unknown t) : (m.claim t fromWorker).Roles := by
  have hok := h.role hrole
  have hdet := h.not_detached hreq
  apply Roles.play
  · cases fromWorker with
    | true =>
        obtain ⟨hstart, hself⟩ := hok.mp rfl
        exact ⟨hself, hstart, hdet, rfl, rfl⟩
    | false =>
        -- A worker in a call runs, so it would have claimed for itself.
        have hext : Client.isExternal t = true := by
          apply h.external (by rw [hrole]; simp)
          rintro rfl
          have hrun := h.worker_role (g := m.worker) (by rw [hrole]; simp)
          have hstart := (h.live_worker (g := m.worker) (by rw [hrun]; rfl)).2
          exact absurd (hok.mpr ⟨hstart, rfl⟩) (by simp)
        exact ⟨fun _ => ⟨hext, rfl, rfl, hdet⟩, by simp⟩
  · intro u hu
    have hok := (h.roles u).wakeRegistry
    have hknow := hl u hu
    show RoleOk _ u (m.role u).wakeRegistry
    cases hr : m.role u
    all_goals rw [hr] at hok hknow
    all_goals simp only [RoleOk, Role.wakeRegistry, Life.wakeRegistry] at hok ⊢
    all_goals grind -ring -linarith [KindOk, OwnerOk, SoftOk, Role.knowing, Stage.wakeRegistry_exited]

theorem Roles.unclaim (h : m.Inv) {t : Tid ι} (hrole : m.role t = .unclaiming) :
    (m.unclaim t).Roles := by
  have hself := ((h.role hrole).softOk rfl).self
  apply Roles.play
  · exact ⟨by simp, fun _ => by rw [hself]; rfl⟩
  · intro u hu
    have hok := (h.roles u).wakeRegistry
    have hnot := h.no_other_claim (t := t) (by rw [hrole]; rfl) hu
    show RoleOk _ u (m.role u).wakeRegistry
    cases hr : m.role u
    all_goals rw [hr] at hok hnot
    all_goals simp only [RoleOk, Role.wakeRegistry, Life.wakeRegistry, Role.soft, Role.owner]
      at hok hnot ⊢
    all_goals grind -ring -linarith [KindOk, OwnerOk, SoftOk, Stage.wakeRegistry_exited]

theorem Roles.detach (h : m.Inv) {t : Tid ι} (hrole : m.role t = .selfClaim)
    (hjoin : m.vars.joinInProgress = false) : (m.detach t).Roles := by
  have hself := ((h.role hrole).softOk rfl).self
  apply Roles.play
  · exact ⟨by simp, fun _ => by rw [hself]; rfl⟩
  · intro u hu
    have hok := h.roles u
    have hnot := h.no_other_claim (t := t) (by rw [hrole]; rfl) hu
    show RoleOk _ u (m.role u)
    cases hr : m.role u
    all_goals rw [hr] at hok hnot
    all_goals simp only [RoleOk, Role.soft, Role.owner] at hok hnot ⊢
    all_goals grind -ring -linarith [KindOk, OwnerOk, SoftOk]

theorem Roles.unregister (h : m.Inv) {t : Tid ι} (hrole : m.role t = .removing false) :
    (m.unregister.play t .releasing).Roles := by
  obtain ⟨⟨h1, h2, h3, h4⟩, hstart, hreg, -⟩ := h.role hrole
  apply Roles.play
  · exact ⟨⟨h1, h2, h3, h4⟩, hstart, rfl, h.registry.registered hreg⟩
  · intro u hu
    have hok := h.roles u
    have hnot := h.no_other_claim (t := t) (by rw [hrole]; rfl) hu
    show RoleOk _ u (m.role u)
    cases hr : m.role u
    all_goals rw [hr] at hok hnot
    all_goals simp only [RoleOk, Life.unregister, Role.soft, Role.owner] at hok hnot ⊢
    all_goals grind -ring -linarith [KindOk, OwnerOk, SoftOk]

theorem Roles.release (h : m.Inv) {t : Tid ι} (hrole : m.role t = .releasing) :
    ((m.note .release).play t .outside).Roles := by
  apply Roles.play
  · trivial
  · intro u hu
    have hok := h.roles u
    have hnot := h.no_other_claim (t := t) (by rw [hrole]; rfl) hu
    show RoleOk _ u (m.role u)
    cases hr : m.role u
    all_goals rw [hr] at hok hnot
    all_goals simp only [RoleOk, note, Role.soft, Role.owner] at hok hnot ⊢
    all_goals grind -ring -linarith [KindOk, OwnerOk, SoftOk]

omit [DecidableEq ι] in
theorem Roles.fin3Detached (h : m.Inv) {g : ℕ} (hst : m.stage g = .finishing)
    (hl : ∀ t, (m.role t).knowing = false) (hdet : m.vars.workerDetached = true) :
    (m.fin3Detached g).Roles := by
  intro u
  have hok := (h.roles u).wakeShutdown
  have hknow := hl u
  have hrun := h.worker_role (g := g)
  have hg := h.live_worker (g := g) (by rw [hst]; rfl)
  show RoleOk _ u (m.role u).wakeShutdown
  cases hr : m.role u
  all_goals rw [hr] at hok hknow
  all_goals simp only [RoleOk, Life.fin3Detached, advance, Role.wakeShutdown, Life.wakeShutdown]
    at hok ⊢
  all_goals grind -ring -linarith [KindOk, OwnerOk, SoftOk, Role.knowing]

omit [DecidableEq ι] in
/-- While a detached worker releases the client, only the workers change. -/
theorem Roles.ending (h : m.Inv) (hdet : m.vars.workerDetached = true)
    (hrole : ∀ t, m'.role t = m.role t) (hv : relied { m'.vars with registered := true } =
      relied { m.vars with registered := true })
    (hrefused : .refused ∈ m.vars.trace → .refused ∈ m'.vars.trace) : m'.Roles := by
  intro u
  have hok := h.roles u
  have hnot := Bool.or_eq_false_iff.mp ((h.claims.detached hdet).2 u)
  simp only [relied, Prod.mk.injEq] at hv
  obtain ⟨h1, h2, h3, h4, h5, h6, h7, h8, -⟩ := hv
  rw [hrole]
  cases hr : m.role u
  all_goals rw [hr] at hok hnot
  all_goals simp only [RoleOk, Role.soft, Role.owner] at hok hnot ⊢
  all_goals grind -ring -linarith [KindOk, OwnerOk, SoftOk]

theorem Roles.move (h : m.Inv) (hm : m.Move l m') : m'.Roles := by
  have r := h.roles
  cases hm with
  | relabel _ _ _ _ hok => exact Roles.play hok fun u _ => r u
  | doze hst =>
      exact r.frame rfl (Keeps.advance (hst.trans_ne (by simp))) (fun _ => rfl)
  | shutdown => exact r.wakeShutdown.frame rfl ⟨id, fun _ => rfl, rfl, id⟩ (fun _ => rfl)
  | cancel => exact r.frame rfl (Keeps.note (by simp) (by simp)) (fun _ => rfl)
  | refuse => exact r.frame rfl (Keeps.note (by simp) (by simp)) (fun _ => rfl)
  | destroyReturned => exact r.frame rfl (Keeps.note (by simp) (by simp)) (fun _ => rfl)
  | @pin t => exact Roles.pin h t
  | unpin => exact Roles.unpin h (.inl rfl)
  | drained hrole => exact Roles.unpin h (.inr ⟨hrole, rfl⟩)
  | restart hrole hl => exact Roles.restart h hrole hl
  | startFail hrole => exact Roles.startFail h hrole
  | claimJoin hrole hstart hself hdet hjoin =>
      exact Roles.claimJoin h hrole hstart hself hdet hjoin
  | joinWorker hrole hexit => exact Roles.joinWorker h hrole hexit
  | finishJoin hrole hl => exact Roles.finishJoin h hrole hl
  | claim hrole hreq hl => exact Roles.claim h hrole hreq hl
  | unclaim hrole => exact Roles.unclaim h hrole
  | detach hrole hjoin => exact Roles.detach h hrole hjoin
  | unregister hrole => exact Roles.unregister h hrole
  | release hrole => exact Roles.release h hrole
  | fin1 hst =>
      exact r.frame rfl
        ⟨id, fun _ => rfl, rfl, (Keeps.advance (hst.trans_ne (by simp))).exited⟩ (fun _ => rfl)
  | fin2 hst =>
      have hnote : (m.note .cancelDestroy).Roles :=
        r.frame rfl (Keeps.note (by simp) (by simp)) (fun _ => rfl)
      exact hnote.frame rfl (Keeps.advance (hst.trans_ne (by simp))) (fun _ => rfl)
  | fin3 hst =>
      exact r.wakeShutdown.frame rfl
        ⟨id, fun _ => rfl, rfl, (Keeps.advance (hst.trans_ne (by simp))).exited⟩ (fun _ => rfl)
  | fin3Detached hst hl hdet => exact Roles.fin3Detached h hst hl hdet
  | workerUnregister hst =>
      exact Roles.ending h (h.registry.removing hst).1 (fun _ => rfl) rfl id
  | workerRelease hst =>
      exact Roles.ending h (h.registry.releasing hst).1 (fun _ => rfl) rfl (List.mem_cons_of_mem _)

/-! ### The workers in a call -/

omit [DecidableEq ι] in
theorem Callers.frame (h : m.Callers)
    (hout : ∀ t, m.role t = .outside → m'.role t = .outside)
    (hst : ∀ g, m.stage g = .running → m'.stage g = .running) : m'.Callers := by
  intro g hg
  apply hst
  apply h
  intro hrole
  exact hg (hout _ hrole)

theorem outside_play {t : Tid ι} {r : Role} (h : m.role t = .outside → r = .outside) (u : Tid ι)
    (hu : m.role u = .outside) : (m.play t r).role u = .outside := by
  by_cases heq : u = t
  · subst heq
    simpa [play] using h hu
  · simpa [play, heq] using hu

omit [DecidableEq ι] in
theorem running_advance {g : ℕ} {st : Stage} (h : m.stage g ≠ .running) (g' : ℕ)
    (hg' : m.stage g' = .running) : (m.advance g st).stage g' = .running := by
  have hne : g' ≠ g := by
    rintro rfl
    exact h hg'
  simpa [advance, hne] using hg'

theorem Callers.move (h : m.Inv) (hm : m.Move l m') : m'.Callers := by
  have c := h.callers
  cases hm with
  | relabel hplace =>
      refine c.frame (outside_play ?_) (fun _ => id)
      intro hrole
      rw [← Role.place_eq_outside, hplace, hrole]
      rfl
  | doze hst => exact c.frame (fun _ => id) (running_advance (hst.trans_ne (by simp)))
  | _ =>
      intro g hg
      have hg' := c g
      simp only [Life.pin, Life.unpin, Life.restart, Life.startFail, Life.claimJoin,
        Life.joinWorker, Life.finishJoin, Life.claim, Life.unclaim, Life.detach, Life.shutdown,
        Life.unregister, Life.fin1, Life.fin2, Life.fin3, Life.fin3Detached, play, advance, note,
        wakeShutdown, wakeRegistry, Function.update_apply] at hg ⊢
      grind -ring -linarith [Role.wakeRegistry_outside, Role.wakeShutdown_outside, Stage.wakeRegistry_running]

theorem Inv.move (h : m.Inv) (hm : m.Move l m') : m'.Inv :=
  ⟨Workers.move h hm, Claims.move h hm, Registry.move h hm, Cancel.move h hm, Roles.move h hm,
    Callers.move h hm⟩

end Life

end Savvy.MgrIpc
