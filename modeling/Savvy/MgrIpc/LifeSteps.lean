import Savvy.MgrIpc.Frame
import Savvy.MgrIpc.LifeRoles

/-!
The steps of the client as moves of its life. A step of a thread is a path of
moves, most often none at all or a single one, and so the invariant holds in
every state of the client that can be reached.
-/

namespace Savvy.MgrIpc

open Kit Relation

variable {ι : Type*} [DecidableEq ι]

namespace Life

/-- Some moves without a restart or an unclaim. -/
def Quiet (m m' : Life ι) : Prop := ReflTransGen (fun a b => Move a .quiet b) m m'

/-- The moves of a step: quiet ones, or a single one of any label. -/
inductive Path (m : Life ι) : Label → Life ι → Prop
  | quiet {m' : Life ι} (h : m.Quiet m') : Path m .quiet m'
  | single {l : Label} {m' : Life ι} (h : m.Move l m') : Path m l m'

variable {m m' : Life ι} {l : Label}

theorem Quiet.single (h : m.Move .quiet m') : m.Quiet m' := ReflTransGen.single h

theorem Quiet.inv (hp : m.Quiet m') (h : m.Inv) : m'.Inv := by
  induction hp with
  | refl => exact h
  | tail _ hm ih => exact ih.move hm

theorem Path.preserves {J : Life ι → Prop} (hp : m.Path l m')
    (hstep : ∀ {a b : Life ι}, a.Inv → J a → a.Move l b → J b) (h : m.Inv) (hj : J m) : J m' := by
  cases hp with
  | quiet hq =>
      suffices hboth : m'.Inv ∧ J m' from hboth.2
      induction hq with
      | refl => exact ⟨h, hj⟩
      | tail _ hm ih => exact ⟨ih.1.move hm, hstep ih.1 ih.2 hm⟩
  | single hm => exact hstep h hj hm

theorem Path.loud (hp : m.Path l m') (hl : l ≠ .quiet) : m.Move l m' := by
  cases hp with
  | quiet => exact absurd rfl hl
  | single hm => exact hm

theorem Path.inv (hp : m.Path l m') (h : m.Inv) : m'.Inv :=
  hp.preserves (J := Inv) (fun hi _ hm => hi.move hm) h h

@[simp] theorem play_role (m : Life ι) (t : Tid ι) : m.play t (m.role t) = m := by
  simp [play]

@[simp] theorem play_play (m : Life ι) (t : Tid ι) (r r' : Role) :
    (m.play t r).play t r' = m.play t r' := by
  simp [play]

omit [DecidableEq ι] in
@[simp] theorem advance_stage (m : Life ι) (g : ℕ) : m.advance g (m.stage g) = m := by
  simp [advance]

theorem Quiet.stay {t : Tid ι} {r : Role} (hrole : m.role t = r) : m.Quiet (m.play t r) := by
  rw [← hrole, play_role]
  exact .refl

/-- A change of role that shows only in what the thread may rely on. -/
theorem Quiet.relabel {t : Tid ι} {r r' : Role} (hrole : m.role t = r)
    (hplace : r'.place = r.place) (hsoft : r'.soft = r.soft) (howner : r'.owner = r.owner)
    (hjoin : r'.joins = r.joins) (hwait : r'.waits = none ∨ r'.waits = r.waits)
    (hok : m.RoleOk t r') : m.Quiet (m.play t r') := by
  subst hrole
  refine .single (.relabel hplace hsoft howner hjoin hok ?_)
  intro hne hne'
  rcases hwait with hwait | hwait
  · exact absurd hwait hne
  · exact absurd hwait hne'

end Life

namespace Client

variable (s : Client ι)

@[simp] theorem toLife_goto (t : Tid ι) (pc : Api) :
    (s.goto t pc).toLife = s.toLife.play t pc.role := by
  ext1
  · rfl
  · funext u
    by_cases hu : u = t
    · subst hu
      simp [toLife, goto, Life.play]
    · simp [toLife, goto, Life.play, hu]
  · rfl

omit [DecidableEq ι] in
@[simp] theorem toLife_run (g : ℕ) (pc : Wrk) :
    (s.run g pc).toLife = s.toLife.advance g pc.stage := by
  ext1
  · rfl
  · rfl
  · funext g'
    by_cases hg : g' = g
    · subst hg
      simp [toLife, run, Life.advance]
    · simp [toLife, run, Life.advance, hg]

omit [DecidableEq ι] in
@[simp] theorem toLife_broadcastShutdown : s.broadcastShutdown.toLife = s.toLife.wakeShutdown := by
  ext1
  · rfl
  · funext t
    show (s.api t).wakeShutdown.role = (s.api t).role.wakeShutdown
    cases s.api t with
    | leave op => cases op <;> rfl
    | _ => rfl
  · funext g
    show (s.wrk g).wakeShutdown.stage = (s.wrk g).stage
    cases s.wrk g <;> rfl

omit [DecidableEq ι] in
@[simp] theorem toLife_broadcastRegistry :
    s.broadcastRegistry.toLife = s.toLife.wakeRegistry := by
  ext1
  · rfl
  · funext t
    show (s.api t).wakeRegistry.role = (s.api t).role.wakeRegistry
    cases s.api t with
    | leave op => cases op <;> rfl
    | _ => rfl
  · funext g
    show (s.wrk g).wakeRegistry.stage = (s.wrk g).stage.wakeRegistry
    cases s.wrk g <;> rfl

omit [DecidableEq ι] in
@[simp] theorem toLife_note (e : LifeEvent) : (s.note e).toLife = s.toLife.note e := rfl

omit [DecidableEq ι] in
@[simp] theorem toLife_noteIo (e : IoEvent) : (s.noteIo e).toLife = s.toLife := rfl

omit [DecidableEq ι] in
@[simp] theorem toLife_markTransportStopping : s.markTransportStopping.toLife = s.toLife := by
  unfold markTransportStopping
  split <;> rfl

variable {s}

omit [DecidableEq ι] in
theorem role_toLife {t : Tid ι} {pc : Api} (h : s.api t = pc) : s.toLife.role t = pc.role := by
  rw [← h]
  rfl

omit [DecidableEq ι] in
theorem stage_toLife {g : ℕ} {pc : Wrk} (h : s.wrk g = pc) : s.toLife.stage g = pc.stage := by
  rw [← h]
  rfl

/-! ### What the locks tell -/

omit [DecidableEq ι] in
theorem mem_holds {t : Tid ι} {l : Lock} (h : l ∈ (s.api t).holds) : l ∈ s.holds t := by
  cases t with
  | ext i => exact h
  | wrk g => exact List.mem_append_left _ h

omit [DecidableEq ι] in
theorem needs_eq {t : Tid ι} {l : Lock} (h : (s.api t).needs = some l) : s.needs t = some l := by
  cases t with
  | ext i => exact h
  | wrk g => simp [needs, h]

omit [DecidableEq ι] in
theorem holds_of_knowing {t : Tid ι} (h : (s.toLife.role t).knowing = true) :
    Lock.lifecycle ∈ (s.api t).holds := by
  change (s.api t).role.knowing = true at h
  cases hpc : s.api t with
  | leave op => cases op <;> (rw [hpc] at h; cases h)
  | startAuth => simp [Api.holds]
  | startCreate => simp [Api.holds]
  | claimRegistry fromWorker => simp [Api.holds]
  | _ =>
      rw [hpc] at h
      cases h

theorem unknown {cfg : Config} {t : Tid ι} (halone : (client ι cfg).Alone s t)
    (hl : Lock.lifecycle ∈ s.holds t ∨ s.needs t = some .lifecycle) : s.toLife.Unknown t := by
  intro u hu
  by_contra hk
  exact halone .lifecycle hl u hu (mem_holds (holds_of_knowing (by simpa using hk)))

/-! ### The steps of a call -/

open Life

theorem quiet_stay {t : Tid ι} {pc pc' : Api} (hpc : s.api t = pc) (hrole : pc'.role = pc.role) :
    s.toLife.Quiet (s.goto t pc').toLife := by
  rw [toLife_goto, hrole]
  exact .stay (role_toLife hpc)

/-- The events of a `destroy` that is refused and returns. -/
theorem quiet_noteDestroy {t : Tid ι} {op : Op} {e : LifeEvent}
    (he : op = .destroy → isExternal t = true → s.toLife.Move .quiet (s.toLife.note e)) :
    s.toLife.Quiet (s.noteDestroy t op e).toLife := by
  unfold noteDestroy
  split
  · next h => exact .single (he h.1 h.2)
  · exact .refl

omit [DecidableEq ι] in
@[simp] theorem role_noteDestroy (t u : Tid ι) (op : Op) (e : LifeEvent) :
    (s.noteDestroy t op e).toLife.role u = s.toLife.role u := by
  unfold noteDestroy
  split <;> rfl

omit [DecidableEq ι] in
theorem mem_noteDestroy {t : Tid ι} {op : Op} {e : LifeEvent} (hop : op = .destroy)
    (ht : isExternal t = true) : e ∈ (s.noteDestroy t op e).toLife.vars.trace := by
  simp [noteDestroy, hop, ht, toLife, note]

theorem quiet_enter {t : Tid ι} {op : Op} (hpc : s.api t = .enter op)
    (hlive : ∀ g, t = .wrk g → s.toLife.stage g = .running) :
    s.toLife.Quiet (s.enter t op).toLife := by
  have hout : s.toLife.role t = .outside := role_toLife hpc
  unfold enter
  split
  · next h =>
      have hpin : s.toLife.Move .quiet (s.toLife.pin t) :=
        .pin hout h.1 (Bool.eq_false_iff.mpr h.2) hlive
      have hrole : (s.toLife.pin t).role t = .inside := by simp [Life.pin, play]
      have hfirst : (s.toLife.pin t).Quiet ((s.toLife.pin t).play t (Api.first op).role) := by
        cases op with
        | stop => exact .relabel hrole rfl rfl rfl rfl (.inl rfl) ⟨by simp, by simp⟩
        | start => exact .stay hrole
        | send => exact .stay hrole
        | isConnected => exact .stay hrole
        | destroy => exact .stay hrole
      simp only [Life.pin, play_play] at hfirst hpin
      rw [toLife_goto]
      exact .head hpin hfirst
  · next h =>
      have hreq : s.toLife.vars.destroyRequested = true ∨ s.toLife.vars.registered = false := by
        by_contra hnot
        simp only [not_or, Bool.not_eq_true, Bool.not_eq_false] at hnot
        exact h ⟨hnot.2, Bool.eq_false_iff.mp hnot.1⟩
      have h1 : s.toLife.Quiet (s.noteDestroy t op .refused).toLife :=
        quiet_noteDestroy fun _ _ => .refuse hreq
      have h2 : (s.noteDestroy t op .refused).toLife.Quiet
          ((s.noteDestroy t op .refused).noteDestroy t op .destroyReturned).toLife :=
        quiet_noteDestroy fun hop ht => .destroyReturned (.inl (mem_noteDestroy hop ht))
      refine (h1.trans h2).trans ?_
      simp only [returned, toLife_goto]
      apply Quiet.stay
      simp [hout, Api.role]

theorem quiet_leave {t : Tid ι} {op : Op} (hpc : s.api t = .leave op) (hinv : s.toLife.Inv) :
    s.toLife.Quiet (s.unpin.returned t op).toLife := by
  have hrole : s.toLife.role t = (Api.leave op).role := role_toLife hpc
  have hunpin : s.toLife.Move .quiet (s.toLife.unpin t .outside) := by
    apply Move.unpin
    all_goals rw [hrole]; cases op <;> rfl
  refine .head hunpin ?_
  by_cases hd : op = .destroy ∧ isExternal t = true
  · obtain ⟨rfl, ht⟩ := hd
    have href : .refused ∈ s.life.trace := (hinv.role hrole) ht
    have hnote : (s.toLife.unpin t .outside).Move .quiet
        ((s.toLife.unpin t .outside).note .destroyReturned) := .destroyReturned (.inl href)
    have heq : (s.unpin.returned t .destroy).toLife =
        (s.toLife.unpin t .outside).note .destroyReturned := by
      simp [returned, noteDestroy, ht, unpin, Api.role]
      rfl
    rw [heq]
    exact .single hnote
  · have heq : (s.unpin.returned t op).toLife = s.toLife.unpin t .outside := by
      simp only [returned, noteDestroy, hd, if_false, unpin, toLife_goto, toLife_broadcastRegistry]
      rfl
    rw [heq]

/-! ### `start` -/

theorem quiet_startTop {t : Tid ι} (hpc : s.api t = .startTop) :
    s.toLife.Quiet (s.startTop t).toLife := by
  have hrole : s.toLife.role t = .inside := role_toLife hpc
  unfold startTop
  split
  · exact quiet_stay hpc rfl
  · split
    · exact quiet_stay hpc rfl
    · split
      · exact quiet_stay hpc rfl
      · rw [toLife_goto]
        exact .relabel hrole rfl rfl rfl rfl (.inl rfl) ⟨by simp, by simp⟩

theorem quiet_startCheck {t : Tid ι} (hpc : s.api t = .startCheck) :
    s.toLife.Quiet (s.startCheck t .startRelock).toLife := by
  unfold startCheck
  split
  · exact quiet_stay hpc rfl
  · exact quiet_stay hpc rfl

theorem quiet_startRelock {t : Tid ι} (hpc : s.api t = .startRelock) :
    s.toLife.Quiet (s.startRelock t).toLife := by
  have hrole : s.toLife.role t = .inside := role_toLife hpc
  unfold startRelock
  split
  · exact quiet_stay hpc rfl
  · next h =>
      rw [toLife_goto]
      refine .relabel hrole rfl rfl rfl rfl (.inl rfl) ⟨Bool.eq_false_iff.mpr h, ?_⟩
      intro hf
      cases hf

theorem quiet_startAuth {t : Tid ι} (hpc : s.api t = .startAuth) (hinv : s.toLife.Inv) :
    s.toLife.Quiet (s.startCheck t .startCreate).toLife := by
  have hrole : s.toLife.role t = .committing false := role_toLife hpc
  unfold startCheck
  split
  · rw [toLife_goto]
    exact .relabel hrole rfl rfl rfl rfl (.inl rfl) trivial
  · next h =>
      rw [toLife_goto]
      exact .relabel hrole rfl rfl rfl rfl (.inl rfl)
        ⟨(hinv.role hrole).1, fun _ => Bool.eq_false_iff.mpr h⟩

def startLabel : StartOutcome → Label
  | .created => .restart
  | _ => .quiet

theorem path_startCreate {cfg : Config} {t : Tid ι} (o : StartOutcome)
    (hpc : s.api t = .startCreate) (halone : (client ι cfg).Alone s t) :
    s.toLife.Path (startLabel o) (s.startCreate t o).toLife := by
  have hrole : s.toLife.role t = .committing true := role_toLife hpc
  have hl : s.toLife.Unknown t := unknown halone (.inl (mem_holds (by simp [hpc, Api.holds])))
  cases o with
  | initFailed =>
      refine .quiet ?_
      simp only [startCreate, toLife_goto]
      exact .relabel hrole rfl rfl rfl rfl (.inl rfl) trivial
  | createFailed =>
      refine .single ?_
      have heq : (s.startCreate t .createFailed).toLife = s.toLife.startFail t := by
        simp only [startCreate, toLife_goto]
        rfl
      rw [heq]
      exact .startFail hrole hl
  | created =>
      refine .single ?_
      have heq : (s.startCreate t .created).toLife = s.toLife.restart t := by
        simp only [startCreate, toLife_goto, toLife_run]
        rfl
      rw [heq]
      exact .restart hrole hl

/-! ### `stop_impl` -/

theorem quiet_requestShutdown (hstart : s.life.started = true) :
    s.toLife.Quiet s.requestShutdown.toLife := by
  unfold requestShutdown
  split
  · exact .refl
  · have hdown : s.toLife.Move .quiet s.toLife.shutdown := .shutdown hstart
    split
    · next hinit =>
        have hcancel : s.toLife.shutdown.Move .quiet (s.toLife.shutdown.note .cancel) :=
          .cancel hinit
        rw [toLife_note, toLife_broadcastShutdown]
        exact .head hdown (.single hcancel)
    · rw [toLife_broadcastShutdown]
      exact .single hdown

omit [DecidableEq ι] in
/-- The request changes no variable but its own. -/
theorem life_requestShutdown : ∃ tr, s.requestShutdown.life =
    { s.life with shutdownRequested := true, trace := tr } := by
  unfold requestShutdown
  split
  · next h => exact ⟨s.life.trace, by rw [← h]⟩
  · split
    · exact ⟨_, rfl⟩
    · exact ⟨_, rfl⟩

omit [DecidableEq ι] in
theorem role_requestShutdown {t : Tid ι} {r : Role} (hrole : s.toLife.role t = r)
    (hr : r.wakeShutdown = r) : s.requestShutdown.toLife.role t = r := by
  unfold requestShutdown
  split
  · exact hrole
  · split
    · rw [toLife_note, toLife_broadcastShutdown]
      show (s.toLife.role t).wakeShutdown = r
      rw [hrole, hr]
    · rw [toLife_broadcastShutdown]
      show (s.toLife.role t).wakeShutdown = r
      rw [hrole, hr]

theorem role_stopped (k : StopFor) : (Api.stopped k).role = Role.stopped k := by
  cases k <;> rfl

/-- A return of `stop_impl` with the worker stopped, or on the worker. -/
theorem quiet_stopped {t : Tid ι} {k : StopFor} {r : Role} (hrole : s.toLife.role t = r)
    (hplace : r.place = .pinned) (hsoft : r.soft = false) (howner : r.owner = (k == .owner))
    (hjoin : r.joins = none) (hk : s.toLife.KindOk t k)
    (hstop : k = .owner → s.toLife.vars.started = false) :
    s.toLife.Quiet (s.goto t (.stopped k)).toLife := by
  rw [toLife_goto, role_stopped]
  cases k with
  | stop => exact .relabel hrole hplace.symm hsoft.symm howner.symm hjoin.symm (.inl rfl) trivial
  | reap => exact .relabel hrole hplace.symm hsoft.symm howner.symm hjoin.symm (.inl rfl) trivial
  | owner =>
      refine .relabel hrole hplace.symm hsoft.symm howner.symm hjoin.symm (.inl rfl) ?_
      exact ⟨hk.owner rfl, hstop rfl, by simp⟩
  | worker =>
      refine .relabel hrole hplace.symm hsoft.symm howner.symm hjoin.symm (.inl rfl) ?_
      intro ht
      rw [hk.worker rfl] at ht
      cases ht

theorem quiet_stopEntry {t : Tid ι} {k : StopFor} (hpc : s.api t = .stopEntry k)
    (hinv : s.toLife.Inv) : s.toLife.Quiet (s.stopEntry t k).toLife := by
  have hrole : s.toLife.role t = .stopping k := role_toLife hpc
  unfold stopEntry
  split
  · next h =>
      exact quiet_stopped hrole rfl rfl rfl rfl (hinv.role hrole) fun _ => Bool.not_eq_true _ ▸ h
  · next h =>
      have hstart : s.life.started = true := by simpa using h
      have hreq := quiet_requestShutdown hstart
      have hinv' := hreq.inv hinv
      have hrole' := role_requestShutdown hrole rfl
      have hk := hinv'.role hrole'
      obtain ⟨tr, hlife⟩ := life_requestShutdown (s := s)
      have hvars : s.requestShutdown.toLife.vars =
        { s.life with shutdownRequested := true, trace := tr } := hlife
      have hstart' : s.requestShutdown.toLife.vars.started = true := by rw [hvars, hstart]
      have hworker : s.requestShutdown.toLife.worker = s.life.workerThread := by
        rw [worker, hvars]
      refine hreq.trans ?_
      simp only
      split
      · next hself =>
          rw [toLife_goto]
          refine Quiet.relabel hrole' rfl rfl rfl rfl (.inl rfl) ⟨hk, ?_, hstart'⟩
          rw [hworker]
          simpa [isSelf] using hself
      · next hself =>
          have hne : t ≠ .wrk s.requestShutdown.toLife.worker := by
            rw [hworker]
            simpa [isSelf] using hself
          have hext := hinv'.external (hrole'.trans_ne (by simp)) hne
          have hstop : s.requestShutdown.toLife.vars.stopComplete = false := by
            rw [hinv'.workers.complete_iff, hstart']
            rfl
          split
          · next hwait =>
              -- The worker runs, so the end of it cannot have been published.
              have hcomplete : ¬ s.life.stopComplete = true := by
                rw [hvars] at hstop
                simpa using hstop
              rw [if_neg hcomplete, toLife_goto, ← hworker]
              refine .single (.relabel ?_ ?_ ?_ ?_ ?_ ?_)
              · rw [hrole']
                rfl
              · rw [hrole']
                rfl
              · rw [hrole']
                rfl
              · rw [hrole']
                rfl
              · exact ⟨hk, hext, hinv'.worker_pos hstart', le_rfl, fun _ => hstop⟩
              · intro _ _
                refine ⟨rfl, hstart', ?_⟩
                rw [hvars]
                exact hwait
          · next hfree =>
              rw [not_or] at hfree
              have heq : ({ s.requestShutdown with life := { s.requestShutdown.life with
                    joinInProgress := true } }.goto t (.stopMark k s.life.workerThread)).toLife =
                  s.requestShutdown.toLife.claimJoin t k := by
                rw [toLife_goto, ← hworker]
                rfl
              rw [heq]
              refine .single (.claimJoin hrole' hstart' hne ?_ ?_)
              · rw [hvars]
                exact Bool.eq_false_iff.mpr hfree.1
              · rw [hvars]
                exact Bool.eq_false_iff.mpr hfree.2

theorem quiet_stopMarkSelf {t : Tid ι} {k : StopFor} (hpc : s.api t = .stopMarkSelf k)
    (hinv : s.toLife.Inv) :
    s.toLife.Quiet (s.markTransportStopping.goto t (.stopped k)).toLife := by
  have hrole : s.toLife.role t = .marking k := role_toLife hpc
  obtain ⟨hk, hself, -⟩ := hinv.role hrole
  have hquiet : s.toLife.Quiet (s.goto t (.stopped k)).toLife := by
    refine quiet_stopped hrole rfl rfl rfl rfl hk ?_
    intro howner
    have := (hk.owner howner).external
    rw [hself] at this
    cases this
  simpa using hquiet

theorem quiet_stopWoken {t : Tid ι} {k : StopFor} {g : ℕ} (hpc : s.api t = .stopWoken k g)
    (hinv : s.toLife.Inv) : s.toLife.Quiet (s.stopWoken t k g).toLife := by
  have hrole : s.toLife.role t = .waiting k g false := role_toLife hpc
  obtain ⟨hk, hext, hpos, hle, -⟩ := hinv.role hrole
  unfold stopWoken
  split
  · next h =>
      refine quiet_stopped hrole rfl rfl rfl rfl hk ?_
      intro _
      have hstop := hinv.workers.complete_iff
      have h' : s.toLife.vars.stopComplete = true := h
      rw [h'] at hstop
      simpa using hstop.symm
  · next h =>
      rw [toLife_goto]
      exact Quiet.relabel hrole rfl rfl rfl rfl (.inr rfl)
        ⟨hk, hext, hpos, hle, fun _ => Bool.eq_false_iff.mpr h⟩

theorem quiet_stopWait {t : Tid ι} {k : StopFor} {g : ℕ} (hpc : s.api t = .stopWait k g)
    (hinv : s.toLife.Inv) : s.toLife.Quiet (s.goto t (.stopWoken k g)).toLife := by
  have hrole : s.toLife.role t = .waiting k g true := role_toLife hpc
  rw [toLife_goto]
  exact Quiet.relabel hrole rfl rfl rfl rfl (.inr rfl) (hinv.role hrole).wakeShutdown

theorem quiet_stopJoin {t : Tid ι} {k : StopFor} {g : ℕ} (hpc : s.api t = .stopJoin k g)
    (hexit : s.wrk g = .exited) :
    s.toLife.Quiet ((s.note (.join g)).goto t (.stopFinish k g)).toLife := by
  rw [toLife_goto]
  exact .single (.joinWorker (role_toLife hpc) (stage_toLife hexit))

theorem quiet_stopFinish {cfg : Config} {t : Tid ι} {k : StopFor} {g : ℕ}
    (hpc : s.api t = .stopFinish k g) (hinv : s.toLife.Inv)
    (halone : (client ι cfg).Alone s t) : s.toLife.Quiet (s.stopFinish t k g).toLife := by
  have hrole : s.toLife.role t = .joining k g true := role_toLife hpc
  have hl : s.toLife.Unknown t := unknown halone (.inr (needs_eq (by simp [hpc, Api.needs])))
  obtain ⟨-, -, -, rfl, hstart, -, -, hexit, -⟩ := hinv.role hrole
  have hterm : s.life.terminalCleanupComplete = true := by
    rcases hinv.workers.started hstart with hlive | ⟨-, hterm, -⟩
    · rw [hexit rfl] at hlive
      cases hlive
    · exact hterm
  have heq : (s.stopFinish t k s.toLife.worker).toLife =
      s.toLife.finishJoin t k s.toLife.worker := by
    rw [stopFinish, if_neg (by simp [hterm]), toLife_goto, toLife_broadcastShutdown, role_stopped]
    rfl
  rw [heq]
  exact .single (.finishJoin hrole hl)

/-! ### `destroy` -/

theorem quiet_claimLock {t : Tid ι} (hpc : s.api t = .claimLock) :
    s.toLife.Quiet (s.goto t (.claimRegistry (s.life.started && s.isSelf t))).toLife := by
  rw [toLife_goto]
  refine Quiet.relabel (role_toLife hpc) rfl rfl rfl rfl (.inl rfl) ?_
  simp [RoleOk, Api.role, isSelf, worker, toLife]

theorem quiet_claimRegistry {cfg : Config} {t : Tid ι} {fromWorker : Bool}
    (hpc : s.api t = .claimRegistry fromWorker) (halone : (client ι cfg).Alone s t) :
    s.toLife.Quiet (s.claimRegistry t fromWorker).toLife := by
  have hrole : s.toLife.role t = .claiming fromWorker := role_toLife hpc
  have hl : s.toLife.Unknown t := unknown halone (.inl (mem_holds (by simp [hpc, Api.holds])))
  unfold claimRegistry
  split
  · next h =>
      have hnote : s.toLife.Quiet (s.noteDestroy t .destroy .refused).toLife :=
        quiet_noteDestroy fun _ _ => .refuse (.inl h)
      refine hnote.trans ?_
      rw [toLife_goto]
      refine Quiet.relabel ((role_noteDestroy t t .destroy .refused).trans hrole) rfl rfl rfl rfl
        (.inl rfl) ?_
      intro ht
      exact mem_noteDestroy rfl ht
  · next h =>
      have heq : ({ s with life := { s.life with
            destroyRequested := true
            destroyFromWorker := fromWorker } }.broadcastRegistry.goto t
          (if fromWorker then .selfCheck else .stopEntry .owner)).toLife =
          s.toLife.claim t fromWorker := by
        rw [toLife_goto, toLife_broadcastRegistry]
        cases fromWorker <;> rfl
      rw [heq]
      exact .single (.claim hrole (Bool.eq_false_iff.mpr h) hl)

theorem quiet_selfCheck {cfg : Config} {t : Tid ι} (hpc : s.api t = .selfCheck)
    (hinv : s.toLife.Inv) (halone : (client ι cfg).Alone s t) :
    s.toLife.Quiet (s.selfCheck t).toLife := by
  have hrole : s.toLife.role t = .selfClaim := role_toLife hpc
  have hl : s.toLife.Unknown t := unknown halone (.inr (needs_eq (by simp [hpc, Api.needs])))
  have hok := (hinv.role hrole).softOk rfl
  unfold selfCheck
  split
  · rw [toLife_goto]
    exact Quiet.relabel hrole rfl rfl rfl rfl (.inl rfl) hok
  · next hjoin =>
      have hdet : s.life.workerDetached = false := hok.attached
      rw [hdet, if_neg (by simp)]
      have heq : ({ s with life := { s.life with
            workerDetached := true
            trace := .detach s.life.workerThread :: s.life.trace } }.goto t
          (.stopEntry .worker)).toLife = s.toLife.detach t := by
        rw [toLife_goto]
        rfl
      rw [heq]
      exact .single (.detach hrole (Bool.eq_false_iff.mpr hjoin) hl)

theorem path_unclaimRegistry {cfg : Config} {t : Tid ι} (hpc : s.api t = .unclaimRegistry)
    (halone : (client ι cfg).Alone s t) :
    s.toLife.Path .unclaim (s.unclaimRegistry t).toLife := by
  have hrole : s.toLife.role t = .unclaiming := role_toLife hpc
  have hl : s.toLife.Unknown t := unknown halone (.inl (mem_holds (by simp [hpc, Api.holds])))
  have heq : (s.unclaimRegistry t).toLife = s.toLife.unclaim t := by
    simp only [unclaimRegistry, toLife_goto, toLife_broadcastRegistry]
    rfl
  rw [heq]
  exact .single (.unclaim hrole hl)

theorem quiet_drainTest {t : Tid ι} (hpc : s.api t = .drainTest) (hinv : s.toLife.Inv) :
    s.toLife.Quiet (s.drainTest t).toLife := by
  have hrole : s.toLife.role t = .draining false := role_toLife hpc
  obtain ⟨hown, hstart, -⟩ := hinv.role hrole
  unfold drainTest
  split
  · next h =>
      rw [toLife_goto]
      exact Quiet.relabel hrole rfl rfl rfl rfl (.inl rfl) ⟨hown, hstart, fun _ => h⟩
  · rw [toLife_goto]
    exact Quiet.relabel hrole rfl rfl rfl rfl (.inl rfl) ⟨hown, hstart⟩

theorem quiet_drainWait {t : Tid ι} (hpc : s.api t = .drainWait) (hinv : s.toLife.Inv) :
    s.toLife.Quiet (s.goto t .drainTest).toLife := by
  have hrole : s.toLife.role t = .draining true := role_toLife hpc
  rw [toLife_goto]
  exact Quiet.relabel hrole rfl rfl rfl rfl (.inl rfl) (hinv.role hrole).wakeRegistry

theorem quiet_drainLeave {t : Tid ι} (hpc : s.api t = .drainLeave) :
    s.toLife.Quiet (s.unpin.goto t .removeTest).toLife := by
  have heq : (s.unpin.goto t .removeTest).toLife = s.toLife.unpin t (.removing false) := by
    simp only [unpin, toLife_goto, toLife_broadcastRegistry]
    rfl
  rw [heq]
  exact .single (.drained (role_toLife hpc))

theorem quiet_removeTest {t : Tid ι} (hpc : s.api t = .removeTest) (hinv : s.toLife.Inv) :
    s.toLife.Quiet (if s.life.apiCallers ≠ 0 then s.goto t .removeWait
      else s.unregister.goto t .release).toLife := by
  have hrole : s.toLife.role t = .removing false := role_toLife hpc
  obtain ⟨hown, hstart, hreg, -⟩ := hinv.role hrole
  split
  · next h =>
      rw [toLife_goto]
      exact Quiet.relabel hrole rfl rfl rfl rfl (.inl rfl) ⟨hown, hstart, hreg, fun _ => h⟩
  · next h =>
      rw [toLife_goto]
      exact .single (.unregister hrole (not_not.mp h))

theorem quiet_removeWait {t : Tid ι} (hpc : s.api t = .removeWait) (hinv : s.toLife.Inv) :
    s.toLife.Quiet (s.goto t .removeTest).toLife := by
  have hrole : s.toLife.role t = .removing true := role_toLife hpc
  rw [toLife_goto]
  exact Quiet.relabel hrole rfl rfl rfl rfl (.inl rfl) (hinv.role hrole).wakeRegistry

theorem quiet_release {t : Tid ι} (hpc : s.api t = .release) (hinv : s.toLife.Inv) :
    s.toLife.Quiet ((s.note .release).returned t .destroy).toLife := by
  have hrole : s.toLife.role t = .releasing := role_toLife hpc
  obtain ⟨hown, -, -, hcount⟩ := hinv.role hrole
  have hrel : s.toLife.Move .quiet ((s.toLife.note .release).play t .outside) := .release hrole
  have hret : ((s.toLife.note .release).play t .outside).Move .quiet
      (((s.toLife.note .release).play t .outside).note .destroyReturned) := by
    refine .destroyReturned (.inr ?_)
    show (LifeEvent.release :: s.life.trace).count .release = 1
    rw [List.count_cons_self]
    exact congrArg (· + 1) hcount
  have heq : ((s.note .release).returned t .destroy).toLife =
      ((s.toLife.note .release).play t .outside).note .destroyReturned := by
    simp only [returned, noteDestroy, hown.external, and_self, if_true, toLife_goto, toLife_note]
    rfl
  rw [heq]
  exact .head hrel (.single hret)

/-! ### The steps of a worker -/

section

omit [DecidableEq ι]

variable {g : ℕ} (hst : (s.wrk g).stage = .running)

include hst

theorem toLife_run_running {pc : Wrk} (hpc : pc.stage = .running) :
    (s.run g pc).toLife = s.toLife := by
  have hstage : s.toLife.stage g = pc.stage := hst.trans hpc.symm
  rw [toLife_run, ← hstage, advance_stage]

theorem toLife_shutdownBranch {yes no : Wrk} (hyes : yes.stage = .running)
    (hno : no.stage = .running) : (s.shutdownBranch g yes no).toLife = s.toLife := by
  apply toLife_run_running hst
  split
  · exact hyes
  · exact hno

theorem toLife_hsState : (s.hsState g).toLife = s.toLife := by
  unfold hsState
  split
  · exact toLife_run_running hst rfl
  · exact toLife_run_running (s := { s with link := { s.link with
      connectionState := .handshaking } }) hst rfl

theorem toLife_notify (cfg : Config) (k : Callback) (wasReconnect : Bool) :
    (notify cfg s g k wasReconnect).toLife = s.toLife := by
  unfold notify
  split
  · exact toLife_run_running (s := s.noteIo (.callback k wasReconnect)) hst rfl
  · refine toLife_run_running hst ?_
    cases k <;> rfl

theorem toLife_hsDone (cfg : Config) (ok : Bool) : (hsDone cfg s g ok).toLife = s.toLife := by
  unfold hsDone
  split
  · exact toLife_notify (s := { s with link := { s.link with
      connectionState := .connected
      hasConnectedBefore := true } }) hst cfg .connected _
  · exact toLife_run_running hst rfl

theorem toLife_recvState : (s.recvState g).toLife = s.toLife := by
  unfold recvState
  split
  · exact toLife_run_running hst rfl
  · exact toLife_run_running hst rfl

theorem toLife_recvCall (cfg : Config) (o : RecvOutcome) :
    (recvCall cfg s g o).toLife = s.toLife := by
  have hrun : ∀ pc : Wrk, pc.stage = .running →
      ((s.noteIo (.recvEnd s.link.transport o)).run g pc).toLife = s.toLife := fun pc hpc =>
    toLife_run_running (s := s.noteIo (.recvEnd s.link.transport o)) hst hpc
  cases o with
  | again => exact hrun .recvTop rfl
  | record accepted =>
      cases accepted with
      | true =>
          exact toLife_notify (s := s.noteIo (.recvEnd s.link.transport (.record true))) hst cfg
            .envelope false
      | false => exact hrun .recvTop rfl
  | broken => exact hrun (.closeState .session) rfl

theorem toLife_afterClose (cfg : Config) (k : CloseFor) :
    (afterClose cfg s g k).toLife = s.toLife := by
  cases k with
  | shutdown => exact toLife_run_running hst rfl
  | handshake => exact toLife_notify hst cfg .lost false
  | session => exact toLife_notify hst cfg .disconnected false
  | final => exact toLife_run_running hst rfl

theorem toLife_closeLock (cfg : Config) (k : CloseFor) :
    (closeLock cfg s g k).toLife = s.toLife := by
  unfold closeLock
  split
  · exact toLife_run_running (s := s.noteIo (.closeBegin s.link.transport)) hst rfl
  · exact toLife_afterClose hst cfg k

theorem toLife_closeCall (cfg : Config) (k : CloseFor) :
    (closeCall cfg s g k).toLife = s.toLife :=
  toLife_afterClose (s := { s with link := { s.link with
    transport := none
    connectionState := .disconnected
    trace := .closeEnd s.link.transport :: s.link.trace } }) hst cfg k

/-- Up to its end the life of the client does not see what its worker does. -/
theorem toLife_workerStep {cfg : Config} {c : Choice} {s' : Client ι} (hfin : s.wrk g ≠ .fin1)
    (h : workerStep cfg s g c = some s') : s'.toLife = s.toLife := by
  cases moves_of_workerStep h with
  | top | recheck | recvTop | backoffTest => exact toLife_shutdownBranch hst rfl rfl
  | cancelled | failed | closeState | backoffOver | backoffWoken | backoffEnd =>
      exact toLife_run_running hst rfl
  | connected => exact toLife_run_running (s := { s with link := _ }) hst rfl
  | setTransport => exact toLife_run_running (s := s.setTransport _) hst rfl
  | @hsBuild ok =>
      refine toLife_run_running hst ?_
      cases ok <;> rfl
  | hsState => exact toLife_hsState hst
  | hsSend | hsCall | recvLock => exact toLife_run_running (s := s.noteIo _) hst rfl
  | hsDone => exact toLife_hsDone hst cfg _
  | recvState => exact toLife_recvState hst
  | recvCall => exact toLife_recvCall hst cfg _
  | closeLock => exact toLife_closeLock hst cfg _
  | closeCall => exact toLife_closeCall hst cfg _
  | fin1 hpc => exact absurd hpc hfin
  | fin2 hpc | fin3 hpc | removeTest hpc | removeWait hpc | release hpc =>
      rw [hpc] at hst
      cases hst

end

omit [DecidableEq ι] in
/-- No thread is in the middle of a section of `lifecycle_lock`. -/
theorem all_unknown {cfg : Config} {g : ℕ} [DecidableEq ι] (halone : (client ι cfg).Alone s (.wrk g))
    (hneed : (s.wrk g).needs = some .lifecycle) (hidle : s.api (.wrk g) = .idle) (t : Tid ι) :
    (s.toLife.role t).knowing = false := by
  by_cases ht : t = .wrk g
  · subst ht
    rw [role_toLife hidle]
    rfl
  · refine unknown halone (.inr ?_) t ht
    simp [needs, hidle, Api.needs, hneed]

theorem quiet_fin1 {g : ℕ} (hpc : s.wrk g = .fin1) (hidle : s.api (.wrk g) = .idle) :
    s.toLife.Quiet (s.fin1 g).toLife := by
  have heq : (s.fin1 g).toLife = s.toLife.fin1 g := by
    unfold fin1
    split
    · next h =>
        rw [toLife_run]
        simp only [Life.fin1]
        rw [show s.toLife.vars.cancelInitialized = true from h]
        rfl
    · next h =>
        have h' : s.life.cancelInitialized = false := Bool.eq_false_iff.mpr h
        have hvars : { s.life with cancelInitialized := false } = s.life := by rw [← h']
        rw [toLife_run]
        simp only [Life.fin1]
        rw [show s.toLife.vars.cancelInitialized = false from h']
        exact congrArg (fun v => Life.advance ⟨v, s.toLife.role, s.toLife.stage⟩ g .finishing)
          hvars.symm
  rw [heq]
  exact .single (.fin1 (stage_toLife hpc) (role_toLife hidle))

theorem quiet_fin3 {cfg : Config} {g : ℕ} (hpc : s.wrk g = .fin3) (hidle : s.api (.wrk g) = .idle)
    (hinv : s.toLife.Inv) (halone : (client ι cfg).Alone s (.wrk g)) :
    s.toLife.Quiet (s.fin3 g).toLife := by
  have hst : s.toLife.stage g = .finishing := stage_toLife hpc
  have hl := all_unknown halone (by simp [hpc, Wrk.needs]) hidle
  cases hdet : s.life.workerDetached with
  | true =>
      have hfrom : s.life.destroyFromWorker = true := (hinv.claims.detached hdet).1
      have heq : (s.fin3 g).toLife = s.toLife.fin3Detached g := by
        simp only [fin3]
        rw [if_pos hdet, if_pos hfrom, toLife_run, toLife_broadcastShutdown]
        rfl
      rw [heq]
      exact .single (.fin3Detached hst hl hdet)
  | false =>
      -- Only the worker itself could still give the claim back, and it is not in a call.
      have hfrom : s.life.destroyFromWorker = false := by
        by_contra hfrom
        rcases (hinv.claims.fromWorker (Bool.not_eq_false _ ▸ hfrom)).2 with hdet' | ⟨t, ht⟩
        · rw [show s.toLife.vars.workerDetached = false from hdet] at hdet'
          cases hdet'
        · have hself := ((hinv.roles t).softOk ht).self
          obtain ⟨rfl, -⟩ := hinv.live_worker (g := g) (by rw [hst]; rfl)
          rw [hself, role_toLife hidle] at ht
          cases ht
      have heq : (s.fin3 g).toLife = s.toLife.fin3 g := by
        simp only [fin3]
        rw [if_neg (Bool.eq_false_iff.mp hdet), if_neg (Bool.eq_false_iff.mp hfrom), toLife_run,
          toLife_broadcastShutdown]
        rfl
      rw [heq]
      exact .single (.fin3 hst hl hdet)

theorem quiet_workerRemove {g : ℕ} (hpc : s.wrk g = .removeTest) :
    s.toLife.Quiet (if s.life.apiCallers ≠ 0 then s.run g .removeWait
      else s.unregister.run g .release).toLife := by
  have hst : s.toLife.stage g = .removing false := stage_toLife hpc
  split
  · next h =>
      rw [toLife_run]
      exact .single (.doze hst fun _ => h)
  · next h =>
      rw [toLife_run]
      exact .single (.workerUnregister hst (not_not.mp h))

theorem quiet_workerStep {cfg : Config} {g : ℕ} {c : Choice} {s' : Client ι}
    (hidle : s.api (.wrk g) = .idle) (hinv : s.toLife.Inv)
    (halone : (client ι cfg).Alone s (.wrk g)) (h : workerStep cfg s g c = some s') :
    s.toLife.Quiet s'.toLife := by
  by_cases hrun : (s.wrk g).stage = .running ∧ s.wrk g ≠ .fin1
  · rw [toLife_workerStep hrun.1 hrun.2 h]
    exact .refl
  · cases moves_of_workerStep h with
    | fin1 hpc => exact quiet_fin1 hpc hidle
    | fin2 hpc =>
        rw [toLife_run]
        exact .single (.fin2 (stage_toLife hpc))
    | fin3 hpc => exact quiet_fin3 hpc hidle hinv halone
    | removeTest hpc => exact quiet_workerRemove hpc
    | removeWait hpc =>
        have hst : s.toLife.stage g = .removing true := stage_toLife hpc
        rw [toLife_run]
        exact .single (.doze hst (by simp))
    | release hpc =>
        rw [toLife_run]
        exact .single (.workerRelease (stage_toLife hpc))
    | _ =>
        rename_i hpc
        exact absurd ⟨by rw [hpc]; rfl, by simp [hpc]⟩ hrun

/-! ### All steps -/

def label (s : Client ι) (t : Tid ι) (c : Choice) : Label :=
  match s.api t, c with
  | .startCreate, .start o => startLabel o
  | .unclaimRegistry, _ => .unclaim
  | _, _ => .quiet

theorem path_apiStep {cfg : Config} {t : Tid ι} {c : Choice} {s' : Client ι}
    (hlive : ∀ g, t = .wrk g → s.toLife.stage g = .running) (hinv : s.toLife.Inv)
    (halone : (client ι cfg).Alone s t) (h : s.apiStep t c = some s') :
    s.toLife.Path (s.label t c) s'.toLife := by
  cases moves_of_apiStep h
  all_goals
    rename_i hpc
    simp only [label, hpc]
  case idle => exact .quiet (quiet_stay hpc rfl)
  case enter => exact .quiet (quiet_enter hpc hlive)
  case leave => exact .quiet (quiet_leave hpc hinv)
  case startTop => exact .quiet (quiet_startTop hpc)
  case startCheck => exact .quiet (quiet_startCheck hpc)
  case startRelock => exact .quiet (quiet_startRelock hpc)
  case startAuth => exact .quiet (quiet_startAuth hpc hinv)
  case startCreate => exact path_startCreate _ hpc halone
  case stopEntry => exact .quiet (quiet_stopEntry hpc hinv)
  case stopMarkSelf => exact .quiet (quiet_stopMarkSelf hpc hinv)
  case stopWait => exact .quiet (quiet_stopWait hpc hinv)
  case stopWoken => exact .quiet (quiet_stopWoken hpc hinv)
  case stopMark =>
    have hstay : s.toLife.Quiet (s.goto t (.stopJoin _ _)).toLife := quiet_stay hpc rfl
    exact .quiet (by simpa using hstay)
  case stopJoin hexit => exact .quiet (quiet_stopJoin hpc hexit)
  case stopFinish => exact .quiet (quiet_stopFinish hpc hinv halone)
  case sendBuild ok =>
    refine .quiet (quiet_stay hpc ?_)
    cases ok <;> rfl
  case sendState =>
    refine .quiet ?_
    unfold sendState
    split
    · exact quiet_stay hpc rfl
    · exact quiet_stay hpc rfl
  case sendLock => exact .quiet (quiet_stay (s := s.noteIo _) hpc rfl)
  case sendCall => exact .quiet (quiet_stay (s := s.noteIo _) hpc rfl)
  case queryState => exact .quiet (quiet_stay hpc rfl)
  case claimLock => exact .quiet (quiet_claimLock hpc)
  case claimRegistry => exact .quiet (quiet_claimRegistry hpc halone)
  case selfCheck => exact .quiet (quiet_selfCheck hpc hinv halone)
  case unclaimLock => exact .quiet (quiet_stay hpc rfl)
  case unclaimRegistry => exact path_unclaimRegistry hpc halone
  case drainTest => exact .quiet (quiet_drainTest hpc hinv)
  case drainWait => exact .quiet (quiet_drainWait hpc hinv)
  case drainLeave => exact .quiet (quiet_drainLeave hpc)
  case removeTest => exact .quiet (quiet_removeTest hpc hinv)
  case removeWait => exact .quiet (quiet_removeWait hpc hinv)
  case release => exact .quiet (quiet_release hpc hinv)

omit [DecidableEq ι] in
theorem label_idle {t : Tid ι} {c : Choice} (h : s.api t = .idle) : s.label t c = .quiet := by
  simp [label, h]

theorem path_body {cfg : Config} {t : Tid ι} {c : Choice} {s' : Client ι} (htidy : s.Tidy)
    (hinv : s.toLife.Inv) (halone : (client ι cfg).Alone s t) (h : s.body cfg t c = some s') :
    s.toLife.Path (s.label t c) s'.toLife := by
  rcases body_cases h with ⟨g, k, rfl, hpc, hidle, rfl⟩ | ⟨hcall, hstep⟩ | ⟨g, rfl, hnot, hstep⟩
  · rw [label_idle hidle]
    refine .quiet ?_
    rw [toLife_run_running (by rw [hpc]; rfl) (by cases k <;> rfl)]
    exact .refl
  · refine path_apiStep ?_ hinv halone hstep
    intro g hg
    obtain ⟨k, hk⟩ := hcall g hg
    rw [stage_toLife hk]
    rfl
  · have hidle := htidy.calls hnot
    rw [label_idle hidle]
    exact .quiet (quiet_workerStep hidle hinv halone hstep)

omit [DecidableEq ι] in
theorem inv_created : (created : Client ι).toLife.Inv where
  workers := by
    constructor
    all_goals simp [toLife, created, Wrk.stage, Api.role, Role.joins, count, worker]
    all_goals omega
  claims := by
    constructor
    all_goals simp [toLife, created, Api.role, Role.claims, Role.soft, Role.owner]
  registry := by
    constructor
    all_goals simp [toLife, created, Api.role, Wrk.stage, count, Pins, Role.pinned, Role.place]
  cancel := by
    constructor
    all_goals simp [toLife, created, Wrk.stage, cancelSource]
  roles t := trivial
  callers g hg := absurd rfl hg

end Client

open Client Life

/-- The invariant rule for the life of a client. Quiet moves have to keep `J`
in any case, the others only in steps that satisfy `ok`. -/
theorem life_invariant {cfg : Config}
    {ok : Locked (Client ι) (Tid ι) Lock → LockAct (Tid ι) Choice → Prop} {J : Life ι → Prop}
    (h0 : J (created : Client ι).toLife)
    (hquiet : ∀ {a b : Life ι}, a.Inv → J a → a.Move .quiet b → J b)
    (hloud : ∀ {s : Locked (Client ι) (Tid ι) Lock} {t : Tid ι} {c : Choice} {b : Life ι},
      ok s (.move t c) → s.core.toLife.Inv → J s.core.toLife → s.core.label t c ≠ .quiet →
        s.core.toLife.Move (s.core.label t c) b → J b)
    {s : Locked (Client ι) (Tid ι) Lock} (h : (client ι cfg).system.ReachBy ok s) :
    (s.core.toLife.Inv ∧ J s.core.toLife ∧ s.core.Tidy) ∧ (client ι cfg).Owned s := by
  refine Threads.invariant (I := fun s => s.toLife.Inv ∧ J s.toLife ∧ s.Tidy)
    (client_lawful.mono fun s hs => hs.2.2) ⟨inv_created, h0, Tidy.created⟩ ?_ h
  rintro s t c s' ⟨hinv, hj, htidy⟩ halone hok hbody
  have hpath := path_body htidy hinv halone hbody
  refine ⟨hpath.inv hinv, ?_, htidy.body hbody⟩
  by_cases hl : s.core.label t c = .quiet
  · rw [hl] at hpath
    exact hpath.preserves hquiet hinv hj
  · exact hloud hok hinv hj hl (hpath.loud hl)

end Savvy.MgrIpc
