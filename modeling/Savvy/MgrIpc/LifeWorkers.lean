import Savvy.MgrIpc.LifeInvariant

/-!
The accounts of the workers and of the cancel source are kept by every move.
Each part of the invariant has a frame lemma, for the moves that it does not
see, and one lemma for each move that it does.
-/

namespace Savvy.MgrIpc

open Kit

namespace Life

variable {ι : Type*} [DecidableEq ι] {m m' : Life ι} {l : Label}

/-! ### The workers -/

def ofWorker : LifeEvent → Bool
  | .spawn _ | .join _ | .detach _ | .complete _ => true
  | _ => false

/-- The variables that the accounts of the workers are about. -/
def crew (v : LifeVars) :=
  (v.workerThread, v.started, v.workerDetached, v.terminalCleanupComplete, v.stopComplete,
    v.joinInProgress, v.trace.filter ofWorker)

theorem count_of_filter {tr tr' : List LifeEvent} (h : tr'.filter ofWorker = tr.filter ofWorker)
    (e : LifeEvent) (he : ofWorker e = true) : tr'.count e = tr.count e := by
  rw [← List.count_filter he, h, List.count_filter he]

omit [DecidableEq ι] in
theorem Workers.frame (h : m.Workers) (hv : crew m'.vars = crew m.vars)
    (hst : ∀ g, (m'.stage g).phase = (m.stage g).phase)
    (hr : ∀ t, (m'.role t).joins = (m.role t).joins) : m'.Workers := by
  simp only [crew, Prod.mk.injEq] at hv
  obtain ⟨hw, hstart, hdet, hterm, hstop, hjoin, htr⟩ := hv
  have hc := count_of_filter htr
  have hs := fun g => Stage.alike (hst g)
  constructor
  all_goals grind -ring -linarith [Workers, ofWorker]

theorem Workers.restart (h : m.Inv) {t : Tid ι} (hrole : m.role t = .committing true) :
    (m.restart t).Workers := by
  have w := h.workers
  obtain ⟨hstart, hreq⟩ := h.role hrole
  have hdet := h.not_detached (hreq rfl)
  have hnone := h.no_joiner hstart
  constructor
  all_goals simp only [Life.restart, play, advance, prepared, Function.update_apply]
  all_goals grind -ring -linarith [Workers, Stage.live, Role.joins]

theorem Workers.startFail (h : m.Inv) {t : Tid ι} (hrole : m.role t = .committing true) :
    (m.startFail t).Workers := by
  have w := h.workers
  obtain ⟨hstart, hreq⟩ := h.role hrole
  have hdet := h.not_detached (hreq rfl)
  have hnone := h.no_joiner hstart
  constructor
  all_goals simp only [Life.startFail, play, prepared, Function.update_apply]
  all_goals grind -ring -linarith [Workers, Stage.live, Role.joins]

theorem Workers.claimJoin (h : m.Inv) (t : Tid ι) (k : StopFor)
    (hstart : m.vars.started = true) (hdet : m.vars.workerDetached = false)
    (hjoin : m.vars.joinInProgress = false) : (m.claimJoin t k).Workers := by
  have w := h.workers
  have hnone := h.no_joiner' hjoin
  constructor
  case joiner =>
    intro _
    refine ⟨hstart, t, false, ?_⟩
    simp [Life.claimJoin, play, Role.joins]
  all_goals simp only [Life.claimJoin, play, Function.update_apply]
  all_goals grind -ring -linarith [Workers, Role.joins]

theorem Workers.joinWorker (h : m.Inv) {t : Tid ι} {k : StopFor} {g : ℕ}
    (hrole : m.role t = .joining k g false)
    (hexit : m.stage g = .exited) : (m.joinWorker t k g).Workers := by
  have w := h.workers
  obtain ⟨-, -, hpos, hg, hstart, hdet, hjoin, -, hcount⟩ := h.role hrole
  subst hg
  constructor
  all_goals simp only [Life.joinWorker, note, play, Function.update_apply]
  all_goals grind -ring -linarith [Workers, Role.joins]

theorem Workers.finishJoin (h : m.Inv) {t : Tid ι} {k : StopFor} {g : ℕ}
    (hrole : m.role t = .joining k g true) : (m.finishJoin t k g).Workers := by
  have w := h.workers
  obtain ⟨-, -, hpos, hg, hstart, hdet, hjoin, hexit, hcount⟩ := h.role hrole
  subst hg
  have hexit := hexit rfl
  have hnone : (Role.stopped k).joins = none := by cases k <;> rfl
  constructor
  all_goals simp only [Life.finishJoin, wakeShutdown, play, Function.update_apply]
  all_goals grind -ring -linarith [Workers, Role.joins, Role.joins_wakeShutdown]

theorem Workers.detach (h : m.Inv) {t : Tid ι} (hrole : m.role t = .selfClaim)
    (hjoin : m.vars.joinInProgress = false) : (m.detach t).Workers := by
  have w := h.workers
  obtain ⟨ht, hstart, hdet, -, -⟩ := (h.role hrole).softOk rfl
  have hrun : m.stage m.worker = .running := h.worker_role (by rw [← ht, hrole]; simp)
  have hnone := h.no_joiner' hjoin
  constructor
  all_goals simp only [Life.detach, play, Function.update_apply]
  all_goals grind -ring -linarith [Workers, Role.joins, Stage.live]

omit [DecidableEq ι] in
theorem Workers.fin3 (h : m.Inv) {g : ℕ} (hst : m.stage g = .finishing)
    (hdet : m.vars.workerDetached = false) : (m.fin3 g).Workers := by
  have w := h.workers
  have hg : g = m.worker ∧ m.vars.started = true := h.live_worker (by rw [hst]; rfl)
  constructor
  all_goals simp only [Life.fin3, wakeShutdown, advance, Function.update_apply]
  all_goals grind -ring -linarith [Workers, Role.joins_wakeShutdown]

omit [DecidableEq ι] in
theorem Workers.fin3Detached (h : m.Inv) {g : ℕ} (hst : m.stage g = .finishing)
    (hdet : m.vars.workerDetached = true) : (m.fin3Detached g).Workers := by
  have w := h.workers
  have hg : g = m.worker ∧ m.vars.started = true := h.live_worker (by rw [hst]; rfl)
  have hjoin := h.no_join hdet
  constructor
  all_goals simp only [Life.fin3Detached, wakeShutdown, advance, Function.update_apply]
  all_goals grind -ring -linarith [Workers, Role.joins_wakeShutdown, Stage.ending]

omit [DecidableEq ι] in
theorem Workers.workerRelease (h : m.Inv) {g : ℕ} (hst : m.stage g = .releasing) :
    ((m.note .release).advance g .exited).Workers := by
  have w := h.workers
  obtain ⟨hdet, hstart, -, -⟩ := h.registry.releasing hst
  have hg := h.ending_worker (by rw [hst]; rfl)
  constructor
  all_goals simp only [note, advance, Function.update_apply]
  all_goals grind -ring -linarith [Workers]

theorem Workers.move (h : m.Inv) (hm : m.Move l m') : m'.Workers := by
  have w := h.workers
  cases hm with
  | relabel _ _ _ hjoin => exact w.frame rfl (fun _ => rfl) (update_view hjoin)
  | doze hst => exact w.frame rfl (known_view hst rfl) (fun _ => rfl)
  | shutdown => exact w.frame rfl (fun _ => rfl) (fun _ => Role.joins_wakeShutdown _)
  | cancel => exact w.frame rfl (fun _ => rfl) (fun _ => rfl)
  | refuse => exact w.frame rfl (fun _ => rfl) (fun _ => rfl)
  | destroyReturned => exact w.frame rfl (fun _ => rfl) (fun _ => rfl)
  | pin hrole => exact w.frame rfl (fun _ => rfl) (known_view hrole rfl)
  | unpin _ _ hjoin =>
      exact w.frame rfl (fun _ => Stage.phase_wakeRegistry _)
        (known_map_view Role.joins_wakeRegistry rfl hjoin.symm)
  | drained hrole =>
      exact w.frame rfl (fun _ => Stage.phase_wakeRegistry _)
        (known_map_view Role.joins_wakeRegistry hrole rfl)
  | restart hrole => exact Workers.restart h hrole
  | startFail hrole => exact Workers.startFail h hrole
  | claimJoin _ hstart _ hdet hjoin => exact Workers.claimJoin h _ _ hstart hdet hjoin
  | joinWorker hrole hexit => exact Workers.joinWorker h hrole hexit
  | finishJoin hrole => exact Workers.finishJoin h hrole
  | @claim t fromWorker hrole =>
      exact w.frame rfl (fun _ => Stage.phase_wakeRegistry _)
        (known_map_view Role.joins_wakeRegistry hrole (by cases fromWorker <;> rfl))
  | unclaim hrole =>
      exact w.frame rfl (fun _ => Stage.phase_wakeRegistry _)
        (known_map_view Role.joins_wakeRegistry hrole rfl)
  | detach hrole hjoin => exact Workers.detach h hrole hjoin
  | unregister hrole => exact w.frame rfl (fun _ => rfl) (known_view hrole rfl)
  | release hrole => exact w.frame rfl (fun _ => rfl) (known_view hrole rfl)
  | fin1 hst =>
      exact w.frame rfl (known_view hst (by split <;> rfl)) (fun _ => rfl)
  | fin2 hst => exact w.frame rfl (known_view hst rfl) (fun _ => rfl)
  | fin3 hst _ hdet => exact Workers.fin3 h hst hdet
  | fin3Detached hst _ hdet => exact Workers.fin3Detached h hst hdet
  | workerUnregister hst =>
      exact w.frame rfl (known_view hst rfl) (fun _ => rfl)
  | workerRelease hst => exact Workers.workerRelease h hst

/-! ### The cancel source -/

def ofSource : LifeEvent → Bool
  | .cancelInit | .cancel | .cancelDestroy => true
  | _ => false

theorem sourceStep_other {e : LifeEvent} (h : ofSource e = false) : sourceStep e = some := by
  funext b
  cases e <;> first | rfl | cases h

theorem cancelSource_filter (tr : List LifeEvent) :
    cancelSource (tr.filter ofSource) = cancelSource tr := by
  induction tr with
  | nil => rfl
  | cons e tr ih =>
      cases he : ofSource e with
      | true => simp [he, cancelSource, ih]
      | false => simp [he, cancelSource, ih, sourceStep_other he]

/-- A stage as the cancel source sees it: the source may be in use, or is about
to be destroyed. -/
def sourceUse : Stage → Option Bool
  | .running => some false
  | .cancelling => some true
  | _ => none

theorem sourceUse_running {st : Stage} : sourceUse st = some false ↔ st = .running := by
  cases st <;> simp [sourceUse]

theorem sourceUse_cancelling {st : Stage} : sourceUse st = some true ↔ st = .cancelling := by
  cases st <;> simp [sourceUse]

@[simp] theorem sourceUse_wakeRegistry (st : Stage) : sourceUse st.wakeRegistry = sourceUse st := by
  cases st <;> rfl

omit [DecidableEq ι] in
theorem Cancel.frame (h : m.Cancel)
    (htr : m'.vars.trace.filter ofSource = m.vars.trace.filter ofSource)
    (hinit : m'.vars.cancelInitialized = m.vars.cancelInitialized) (hw : m'.worker = m.worker)
    (hst : ∀ g, sourceUse (m'.stage g) = sourceUse (m.stage g)) : m'.Cancel := by
  have htrace : cancelSource m'.vars.trace = cancelSource m.vars.trace := by
    rw [← cancelSource_filter, htr, cancelSource_filter]
  have hrun : m'.stage m'.worker = .running ↔ m.stage m.worker = .running := by
    rw [← sourceUse_running, hst, hw, sourceUse_running]
  have hcan : (m'.stage m'.worker == .cancelling) = (m.stage m.worker == .cancelling) := by
    rw [Bool.eq_iff_iff, beq_iff_eq, beq_iff_eq, ← sourceUse_cancelling, hst, hw,
      sourceUse_cancelling]
  constructor
  · rw [htrace, hinit, hcan]
    exact h.source
  · intro hi
    rw [hrun]
    exact h.initialized (hinit ▸ hi)

theorem Cancel.restart (h : m.Inv) {t : Tid ι} (hrole : m.role t = .committing true) :
    (m.restart t).Cancel := by
  obtain ⟨hsource, -, -⟩ := h.no_source (h.role hrole).1
  constructor
  · simp [Life.restart, play, advance, prepared, cancelSource, hsource, sourceStep]
  · simp [Life.restart, play, advance]

theorem Cancel.startFail (h : m.Inv) {t : Tid ι} (hrole : m.role t = .committing true) :
    (m.startFail t).Cancel := by
  obtain ⟨hsource, hinit, hcan⟩ := h.no_source (h.role hrole).1
  constructor
  · simp [Life.startFail, play, prepared, cancelSource, hsource, sourceStep, hcan]
  · simp [Life.startFail, play]

omit [DecidableEq ι] in
theorem Cancel.cancel (h : m.Inv) (hinit : m.vars.cancelInitialized = true) :
    (m.note .cancel).Cancel := by
  constructor
  · simp [note, cancelSource, h.cancel.source, hinit, sourceStep]
  · exact h.cancel.initialized

omit [DecidableEq ι] in
theorem Cancel.fin1 (h : m.Inv) {g : ℕ} (hst : m.stage g = .running) : (m.fin1 g).Cancel := by
  obtain ⟨rfl, -⟩ := h.live_worker (g := g) (by rw [hst]; rfl)
  constructor
  · have := h.cancel.source
    cases hinit : m.vars.cancelInitialized <;> simp_all [Life.fin1, advance]
  · simp [Life.fin1, advance]

omit [DecidableEq ι] in
theorem Cancel.fin2 (h : m.Inv) {g : ℕ} (hst : m.stage g = .cancelling) : (m.fin2 g).Cancel := by
  obtain ⟨rfl, -⟩ := h.live_worker (g := g) (by rw [hst]; rfl)
  have hinit : m.vars.cancelInitialized = false := by
    by_contra hinit
    have := h.cancel.initialized (by simpa using hinit)
    rw [hst] at this
    cases this
  constructor
  · simp [Life.fin2, note, advance, cancelSource, h.cancel.source, hinit, hst, sourceStep]
  · simp [Life.fin2, note, advance, hinit]

theorem Cancel.move (h : m.Inv) (hm : m.Move l m') : m'.Cancel := by
  have c := h.cancel
  cases hm with
  | cancel hinit => exact Cancel.cancel h hinit
  | restart hrole => exact Cancel.restart h hrole
  | startFail hrole => exact Cancel.startFail h hrole
  | fin1 hst => exact Cancel.fin1 h hst
  | fin2 hst => exact Cancel.fin2 h hst
  | doze hst => exact c.frame rfl rfl rfl (known_view hst rfl)
  | fin3 hst => exact c.frame rfl rfl rfl (known_view hst rfl)
  | fin3Detached hst => exact c.frame rfl rfl rfl (known_view hst rfl)
  | workerUnregister hst => exact c.frame rfl rfl rfl (known_view hst rfl)
  | workerRelease hst => exact c.frame rfl rfl rfl (known_view hst rfl)
  | unpin => exact c.frame rfl rfl rfl (fun _ => sourceUse_wakeRegistry _)
  | drained => exact c.frame rfl rfl rfl (fun _ => sourceUse_wakeRegistry _)
  | claim => exact c.frame rfl rfl rfl (fun _ => sourceUse_wakeRegistry _)
  | unclaim => exact c.frame rfl rfl rfl (fun _ => sourceUse_wakeRegistry _)
  | _ => exact c.frame rfl rfl rfl (fun _ => rfl)

end Life

end Savvy.MgrIpc
