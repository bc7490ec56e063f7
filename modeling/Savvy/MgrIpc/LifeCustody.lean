import Savvy.MgrIpc.LifeInvariant

/-!
The claim to destroy the client and its place in the registry are kept by every
move.
-/

namespace Savvy.MgrIpc

open Kit

namespace Life

variable {ι : Type*} [DecidableEq ι] {m m' : Life ι} {l : Label}

/-! ### The claim -/

/-- The variables that the claim is about. -/
def claimed (v : LifeVars) :=
  (v.destroyRequested, v.destroyFromWorker, v.workerDetached, v.registered,
    v.trace.count .release)

omit [DecidableEq ι] in
theorem Claims.frame (h : m.Claims) (hv : claimed m'.vars = claimed m.vars)
    (hsoft : ∀ t, (m'.role t).soft = (m.role t).soft)
    (howner : ∀ t, (m'.role t).owner = (m.role t).owner) : m'.Claims := by
  simp only [claimed, Prod.mk.injEq] at hv
  obtain ⟨hreq, hfrom, hdet, hreg, hrel⟩ := hv
  constructor
  all_goals grind -ring -linarith [Claims, Role.claims]

omit [DecidableEq ι] in
theorem Claims.unregister (h : m.Claims) (hreq : m.vars.destroyRequested = true) :
    m.unregister.Claims :=
  ⟨h.fromWorker, h.unique, h.detached, h.owned, fun _ => hreq⟩

theorem Claims.claim (h : m.Inv) {t : Tid ι} {fromWorker : Bool}
    (hrole : m.role t = .claiming fromWorker) (hreq : m.vars.destroyRequested = false) :
    (m.claim t fromWorker).Claims := by
  have c := h.claims
  have hdet := h.not_detached hreq
  have hnone : ∀ u, (m.role u).claims = false := by
    intro u
    by_contra hu
    have := h.requested (by simpa using hu)
    rw [hreq] at this
    cases this
  have hsoft : ((m.claim t fromWorker).role t).soft = fromWorker := by
    cases fromWorker <;> simp [Life.claim, play, Role.soft]
  have howner : ((m.claim t fromWorker).role t).owner = !fromWorker := by
    cases fromWorker <;> simp [Life.claim, play, Role.owner]
  have hother : ∀ u, u ≠ t → ((m.claim t fromWorker).role u).claims = false := by
    intro u hu
    have := hnone u
    simpa [Life.claim, play, wakeRegistry, hu, Role.claims] using this
  have hvars : (m.claim t fromWorker).vars = { m.vars with
      destroyRequested := true
      destroyFromWorker := fromWorker } := rfl
  constructor
  all_goals grind -ring -linarith [Claims, Role.claims]

theorem Claims.unclaim (h : m.Inv) {t : Tid ι} (hrole : m.role t = .unclaiming) :
    (m.unclaim t).Claims := by
  have c := h.claims
  obtain ⟨-, -, hdet, hreq, -⟩ := (h.role hrole).softOk rfl
  have hreg := (h.registered_of_pinned (t := t) (by rw [hrole]; rfl)).1
  constructor
  all_goals simp only [Life.unclaim, wakeRegistry, play, Function.update_apply]
  all_goals grind -ring -linarith [Claims, Role.claims, Role.soft_wakeRegistry, Role.owner_wakeRegistry, Role.soft, Role.owner]

theorem Claims.detach (h : m.Inv) {t : Tid ι} (hrole : m.role t = .selfClaim) :
    (m.detach t).Claims := by
  have c := h.claims
  obtain ⟨-, -, hdet, hreq, hfrom⟩ := (h.role hrole).softOk rfl
  constructor
  all_goals simp only [Life.detach, play, Function.update_apply]
  all_goals grind -ring -linarith [Claims, Role.claims, Role.soft, Role.owner]

theorem Claims.release (h : m.Inv) {t : Tid ι} (hrole : m.role t = .releasing) :
    ((m.note .release).play t .outside).Claims := by
  have c := h.claims
  obtain ⟨⟨hext, hreq, hfrom, hdet⟩, hstart, hreg, hcount⟩ := h.role hrole
  constructor
  all_goals simp only [note, play, Function.update_apply]
  all_goals grind -ring -linarith [Claims, Role.claims, Role.soft, Role.owner]

omit [DecidableEq ι] in
theorem Claims.workerRelease (h : m.Inv) {g : ℕ} (hst : m.stage g = .releasing) :
    ((m.note .release).advance g .exited).Claims := by
  have c := h.claims
  obtain ⟨hdet, hstart, hreg, hcount⟩ := h.registry.releasing hst
  constructor
  all_goals simp only [note, advance]
  all_goals grind -ring -linarith [Claims]

theorem Claims.move (h : m.Inv) (hm : m.Move l m') : m'.Claims := by
  have c := h.claims
  cases hm with
  | relabel _ hsoft howner => exact c.frame rfl (update_view hsoft) (update_view howner)
  | doze => exact c.frame rfl (fun _ => rfl) (fun _ => rfl)
  | shutdown => exact c.frame rfl (fun _ => Role.soft_wakeShutdown _) (fun _ => Role.owner_wakeShutdown _)
  | cancel => exact c.frame (by simp [claimed, note]) (fun _ => rfl) (fun _ => rfl)
  | refuse => exact c.frame (by simp [claimed, note]) (fun _ => rfl) (fun _ => rfl)
  | destroyReturned => exact c.frame (by simp [claimed, note]) (fun _ => rfl) (fun _ => rfl)
  | pin hrole =>
      exact c.frame rfl (known_view hrole rfl) (known_view hrole rfl)
  | unpin _ hclaim =>
      obtain ⟨hsoft, howner⟩ := Bool.or_eq_false_iff.mp hclaim
      exact c.frame rfl (known_map_view Role.soft_wakeRegistry rfl hsoft.symm)
        (known_map_view Role.owner_wakeRegistry rfl howner.symm)
  | drained hrole =>
      exact c.frame rfl (known_map_view Role.soft_wakeRegistry hrole rfl)
        (known_map_view Role.owner_wakeRegistry hrole rfl)
  | restart hrole =>
      have hdet := h.not_detached ((h.role hrole).2 rfl)
      exact c.frame (by simp [claimed, Life.restart, play, advance, prepared, hdet])
        (known_view hrole rfl) (known_view hrole rfl)
  | startFail hrole =>
      have hdet := h.not_detached ((h.role hrole).2 rfl)
      exact c.frame (by simp [claimed, Life.startFail, play, prepared, hdet])
        (known_view hrole rfl) (known_view hrole rfl)
  | claimJoin hrole =>
      exact c.frame rfl (known_view hrole rfl) (known_view hrole rfl)
  | joinWorker hrole =>
      exact c.frame (by simp [claimed, Life.joinWorker, note, play])
        (known_view hrole rfl) (known_view hrole rfl)
  | @finishJoin t k g hrole =>
      exact c.frame (by simp [claimed, Life.finishJoin, wakeShutdown, play])
        (known_map_view Role.soft_wakeShutdown hrole (by cases k <;> rfl))
        (known_map_view Role.owner_wakeShutdown hrole (by cases k <;> rfl))
  | claim hrole hreq => exact Claims.claim h hrole hreq
  | unclaim hrole => exact Claims.unclaim h hrole
  | detach hrole => exact Claims.detach h hrole
  | unregister hrole =>
      exact (c.unregister ((h.role hrole).ownerOk rfl).requested).frame rfl (known_view hrole rfl)
        (known_view hrole rfl)
  | release hrole => exact Claims.release h hrole
  | fin1 => exact c.frame rfl (fun _ => rfl) (fun _ => rfl)
  | fin2 => exact c.frame (by simp [claimed, Life.fin2, note, advance]) (fun _ => rfl) (fun _ => rfl)
  | fin3 => exact c.frame rfl (fun _ => Role.soft_wakeShutdown _) (fun _ => Role.owner_wakeShutdown _)
  | fin3Detached =>
      exact c.frame (by simp [claimed, Life.fin3Detached, wakeShutdown, advance])
        (fun _ => Role.soft_wakeShutdown _) (fun _ => Role.owner_wakeShutdown _)
  | workerUnregister hst =>
      have hfrom := (c.detached (h.registry.removing hst).1).1
      exact (c.unregister (c.fromWorker hfrom).1).frame rfl (fun _ => rfl) (fun _ => rfl)
  | workerRelease hst => exact Claims.workerRelease h hst

/-! ### The registry -/

/-- The variables that the registry is about. -/
def entry (v : LifeVars) :=
  (v.apiCallers, v.registered, v.workerDetached, v.started, v.workerThread,
    v.trace.count .release)

omit [DecidableEq ι] in
theorem Pins.frame (h : m.Pins) (hcall : m'.vars.apiCallers = m.vars.apiCallers)
    (hpin : ∀ t, (m'.role t).pinned = (m.role t).pinned) : m'.Pins := by
  obtain ⟨S, hS, hmem⟩ := h
  refine ⟨S, hS.trans hcall.symm, ?_⟩
  intro t
  rw [hpin, hmem]

omit [DecidableEq ι] in
theorem Registry.frame (h : m.Registry) (hv : entry m'.vars = entry m.vars)
    (hst : ∀ g, m'.stage g = m.stage g)
    (hplace : ∀ t, (m'.role t).place = (m.role t).place) : m'.Registry := by
  simp only [entry, Prod.mk.injEq] at hv
  obtain ⟨hcall, hreg, hdet, hstart, hw, hcount⟩ := hv
  constructor
  case pins => exact h.pins.frame hcall (fun t => by rw [Role.pinned, hplace]; rfl)
  all_goals grind -ring -linarith [Registry]

omit [DecidableEq ι] in
theorem Registry.wake (h : m.Registry) : m.wakeRegistry.Registry := by
  have hrem := @Stage.wakeRegistry_removing
  have hrel := fun st => @Stage.wakeRegistry_iff st .releasing rfl (by simp)
  have habs := fun st => @Stage.wakeRegistry_iff st .absent rfl (by simp)
  have hexit := fun st => @Stage.wakeRegistry_iff st .exited rfl (by simp)
  constructor
  case pins => exact h.pins.frame rfl (fun _ => Role.pinned_wakeRegistry _)
  all_goals simp only [wakeRegistry, hrem, hrel, habs, hexit, Role.place_wakeRegistry]
  all_goals grind -ring -linarith [Registry]

theorem Registry.pin (h : m.Inv) {t : Tid ι} (hrole : m.role t = .outside)
    (hreg : m.vars.registered = true) : (m.pin t).Registry := by
  have r := h.registry
  obtain ⟨S, hS, hmem⟩ := r.pins
  have hnot : t ∉ S := by
    rw [hmem, hrole]
    simp [Role.pinned, Role.place]
  constructor
  case pins =>
    refine ⟨insert t S, ?_, ?_⟩
    · rw [Finset.card_insert_of_notMem hnot, hS]
      rfl
    · intro u
      by_cases hu : u = t
      · simp [hu, Life.pin, play, Role.pinned, Role.place]
      · simp [hu, Life.pin, play, hmem]
  all_goals simp only [Life.pin, play, Function.update_apply]
  all_goals grind -ring -linarith [Registry]

/-- A caller that leaves is no longer counted, wherever it goes. -/
theorem Registry.unpin (h : m.Inv) {t : Tid ι} {r : Role} (hpin : (m.role t).pinned = true)
    (hr : r.pinned = false) : (m.unpin t r).Registry := by
  have hregistry := h.registry
  obtain ⟨hreg, hpos⟩ := h.registered_of_pinned hpin
  have hrem := @Stage.wakeRegistry_removing
  have hrel := fun st => @Stage.wakeRegistry_iff st .releasing rfl (by simp)
  have hexit := fun st => @Stage.wakeRegistry_iff st .exited rfl (by simp)
  constructor
  case pins =>
    obtain ⟨S, hS, hmem⟩ := hregistry.pins
    refine ⟨S.erase t, ?_, ?_⟩
    · rw [Finset.card_erase_of_mem ((hmem t).mpr hpin), hS]
      rfl
    · intro u
      by_cases hu : u = t
      · simp [hu, Life.unpin, play, hr]
      · simp [hu, Life.unpin, play, wakeRegistry, hmem]
  all_goals simp only [Life.unpin, wakeRegistry, play, hrem, hrel, hexit]
  all_goals grind -ring -linarith [Registry]

theorem Registry.unregister (h : m.Inv) {t : Tid ι} (hrole : m.role t = .removing false)
    (hnone : m.vars.apiCallers = 0) : (m.unregister.play t .releasing).Registry := by
  have r := h.registry
  obtain ⟨⟨-, -, -, hdet⟩, hstart, hreg, -⟩ := h.role hrole
  have hcount := r.registered hreg
  constructor
  case pins => exact r.pins.frame rfl (known_view hrole rfl)
  case remover =>
    intro _
    exact .inl ⟨t, by simp [play, Role.place]⟩
  all_goals simp only [Life.unregister, play, Function.update_apply]
  all_goals grind -ring -linarith [Registry]

theorem Registry.release (h : m.Inv) {t : Tid ι} (hrole : m.role t = .releasing) :
    ((m.note .release).play t .outside).Registry := by
  have r := h.registry
  obtain ⟨⟨-, -, -, hdet⟩, hstart, hreg, hcount⟩ := h.role hrole
  have hnone := r.unregistered hreg
  have hout : ∀ u, u ≠ t → m.role u = .outside := by
    intro u hu
    apply h.all_outside hnone u
    by_contra hclaim
    exact hu (h.claims.unique (by simpa using hclaim) (by rw [hrole]; rfl))
  have hend : m.stage m.worker = .absent ∨ m.stage m.worker = .exited := by
    rcases Nat.eq_zero_or_pos m.worker with hzero | hpos
    · exact .inl ((h.workers.absent_iff _).mpr (.inl hzero))
    · rcases h.workers.stopped hpos hstart with hexit | ⟨hdet', -⟩
      · exact .inr hexit
      · rw [hdet] at hdet'
        cases hdet'
  have hended := h.all_ended hend
  constructor
  case pins => exact r.pins.frame rfl (known_view hrole rfl)
  all_goals simp only [note, play, Function.update_apply]
  all_goals grind -ring -linarith [Registry, Role.place]

omit [DecidableEq ι] in
theorem Registry.workerRelease (h : m.Inv) {g : ℕ} (hst : m.stage g = .releasing) :
    ((m.note .release).advance g .exited).Registry := by
  have r := h.registry
  obtain ⟨hdet, hstart, hreg, hcount⟩ := r.releasing hst
  have hnone := r.unregistered hreg
  have hout := fun t => h.all_outside hnone t ((h.claims.detached hdet).2 t)
  have hg := (h.ending_worker (by rw [hst]; rfl)).1
  have hended : ∀ g', g' ≠ g → m.stage g' = .absent ∨ m.stage g' = .exited := by
    intro g' hne
    have habs := h.workers.absent_iff g'
    have hold := h.workers.old (g := g')
    grind -ring -linarith
  constructor
  case pins => exact r.pins.frame rfl (fun _ => rfl)
  all_goals simp only [note, advance, Function.update_apply]
  all_goals grind -ring -linarith [Registry, Role.place]

omit [DecidableEq ι] in
theorem Registry.workerUnregister (h : m.Inv) {g : ℕ} (hst : m.stage g = .removing false)
    (hnone : m.vars.apiCallers = 0) : (m.unregister.advance g .releasing).Registry := by
  have r := h.registry
  obtain ⟨hdet, hstart, hreg, -⟩ := r.removing hst
  have hg := (h.ending_worker (by rw [hst]; rfl)).1
  have hcount := r.registered hreg
  have huniq : ∀ g', (m.stage g').ending = true → g' = g := by
    intro g' hend
    rw [hg]
    exact (h.ending_worker hend).1
  constructor
  case pins => exact r.pins.frame rfl (fun _ => rfl)
  all_goals simp only [Life.unregister, advance, Function.update_apply]
  all_goals grind -ring -linarith [Registry, Stage.ending]

omit [DecidableEq ι] in
theorem Registry.fin3Detached (h : m.Inv) {g : ℕ} (hst : m.stage g = .finishing)
    (hdet : m.vars.workerDetached = true) : (m.fin3Detached g).Registry := by
  have r := h.registry
  have hg := (h.live_worker (g := g) (by rw [hst]; rfl)).1
  have hreg : m.vars.registered = true := by
    by_contra hreg
    rcases r.remover (by simpa using hreg) with ⟨t, ht⟩ | hrel | hcount
    · have := (h.claims.detached hdet).2 t
      rw [Role.place_eq_releasing.mp ht] at this
      cases this
    · rw [← hg, hst] at hrel
      cases hrel
    · have := (r.released hcount).2 g
      rw [hst] at this
      rcases this with this | this <;> cases this
  constructor
  case pins => exact r.pins.frame rfl (fun _ => Role.pinned_wakeShutdown _)
  all_goals simp only [Life.fin3Detached, wakeShutdown, advance, Function.update_apply,
    Role.place_wakeShutdown]
  all_goals grind -ring -linarith [Registry]

theorem Registry.detach (h : m.Inv) {t : Tid ι} (hrole : m.role t = .selfClaim) :
    (m.detach t).Registry := by
  have r := h.registry
  have hself := ((h.role hrole).softOk rfl).self
  have hrun : m.stage m.worker = .running := h.worker_role (by rw [← hself, hrole]; simp)
  have hreg := (h.registered_of_pinned (t := t) (by rw [hrole]; rfl)).1
  constructor
  case pins => exact r.pins.frame rfl (known_view hrole rfl)
  all_goals simp only [Life.detach, play, Function.update_apply]
  all_goals grind -ring -linarith [Registry]

theorem Registry.restart (h : m.Inv) {t : Tid ι} (hrole : m.role t = .committing true) :
    (m.restart t).Registry := by
  have r := h.registry
  obtain ⟨hstart, hreq⟩ := h.role hrole
  have hdet := h.not_detached (hreq rfl)
  have hreg := (h.registered_of_pinned (t := t) (by rw [hrole]; rfl)).1
  constructor
  case pins => exact r.pins.frame rfl (known_view hrole rfl)
  all_goals simp only [Life.restart, play, advance, prepared, Function.update_apply]
  all_goals grind -ring -linarith [Registry]

theorem Registry.finishJoin (h : m.Inv) {t : Tid ι} {k : StopFor} {g : ℕ}
    (hrole : m.role t = .joining k g true) : (m.finishJoin t k g).Registry := by
  have r := h.registry
  have hreg := (h.registered_of_pinned (t := t) (by rw [hrole]; rfl)).1
  have hdet := (h.role hrole).2.2.2.2.2.1
  constructor
  case pins =>
    exact r.pins.frame rfl (known_map_view Role.pinned_wakeShutdown hrole (by cases k <;> rfl))
  all_goals simp only [Life.finishJoin, wakeShutdown, play, Function.update_apply]
  all_goals grind -ring -linarith [Registry]

omit [DecidableEq ι] in
theorem Registry.stage (h : m.Inv) {g : ℕ} {st : Stage} (hlive : (m.stage g).live = true)
    (hlive' : st.live = true ∨ st = .exited ∧ m.vars.workerDetached = false) : (m.advance g st).Registry := by
  have r := h.registry
  have hg := h.live_worker hlive
  constructor
  case pins => exact r.pins.frame rfl (fun _ => rfl)
  all_goals simp only [advance, Function.update_apply]
  all_goals grind -ring -linarith [Registry, Stage.live]

omit [DecidableEq ι] in
theorem Registry.doze (h : m.Inv) {g : ℕ} {a b : Bool} (hst : m.stage g = .removing a)
    (hb : b = true → m.vars.apiCallers ≠ 0) : (m.advance g (.removing b)).Registry := by
  have r := h.registry
  constructor
  case pins => exact r.pins.frame rfl (fun _ => rfl)
  all_goals simp only [advance, Function.update_apply]
  all_goals grind -ring -linarith [Registry]

theorem Registry.move (h : m.Inv) (hm : m.Move l m') : m'.Registry := by
  have r := h.registry
  cases hm with
  | relabel hplace => exact r.frame rfl (fun _ => rfl) (update_view hplace)
  | doze hst hb => exact Registry.doze h hst hb
  | shutdown => exact r.frame rfl (fun _ => rfl) (fun _ => Role.place_wakeShutdown _)
  | cancel => exact r.frame (by simp [entry, note]) (fun _ => rfl) (fun _ => rfl)
  | refuse => exact r.frame (by simp [entry, note]) (fun _ => rfl) (fun _ => rfl)
  | destroyReturned => exact r.frame (by simp [entry, note]) (fun _ => rfl) (fun _ => rfl)
  | pin hrole hreg => exact Registry.pin h hrole hreg
  | unpin hpin => exact Registry.unpin h hpin rfl
  | drained hrole => exact Registry.unpin h (by rw [hrole]; rfl) rfl
  | restart hrole => exact Registry.restart h hrole
  | startFail hrole =>
      have hdet := h.not_detached ((h.role hrole).2 rfl)
      exact r.frame (by simp [entry, Life.startFail, play, prepared, hdet]) (fun _ => rfl)
        (known_view hrole rfl)
  | claimJoin hrole => exact r.frame rfl (fun _ => rfl) (known_view hrole rfl)
  | joinWorker hrole =>
      exact r.frame (by simp [entry, Life.joinWorker, note, play]) (fun _ => rfl)
        (known_view hrole rfl)
  | finishJoin hrole => exact Registry.finishJoin h hrole
  | @claim t fromWorker hrole =>
      have hvars : Registry { m with vars := { m.vars with
          destroyRequested := true
          destroyFromWorker := fromWorker } } := r.frame rfl (fun _ => rfl) (fun _ => rfl)
      exact hvars.wake.frame rfl (fun _ => rfl)
        (known_view (congrArg Role.wakeRegistry hrole) (by cases fromWorker <;> rfl))
  | unclaim hrole =>
      have hvars : Registry { m with vars := { m.vars with
          destroyRequested := false
          destroyFromWorker := false } } := r.frame rfl (fun _ => rfl) (fun _ => rfl)
      exact hvars.wake.frame rfl (fun _ => rfl)
        (known_view (congrArg Role.wakeRegistry hrole) rfl)
  | detach hrole => exact Registry.detach h hrole
  | unregister hrole hnone => exact Registry.unregister h hrole hnone
  | release hrole => exact Registry.release h hrole
  | fin1 hst =>
      refine (Registry.stage h (by rw [hst]; rfl) (.inl ?_)).frame rfl (fun _ => rfl) (fun _ => rfl)
      split <;> rfl
  | fin2 hst =>
      exact (Registry.stage h (by rw [hst]; rfl) (.inl rfl)).frame
        (by simp [entry, Life.fin2, note, advance]) (fun _ => rfl) (fun _ => rfl)
  | fin3 hst _ hdet =>
      exact (Registry.stage h (by rw [hst]; rfl) (.inr ⟨rfl, hdet⟩)).frame rfl (fun _ => rfl)
        (fun _ => Role.place_wakeShutdown _)
  | fin3Detached hst _ hdet => exact Registry.fin3Detached h hst hdet
  | workerUnregister hst hnone => exact Registry.workerUnregister h hst hnone
  | workerRelease hst => exact Registry.workerRelease h hst

end Life

end Savvy.MgrIpc
