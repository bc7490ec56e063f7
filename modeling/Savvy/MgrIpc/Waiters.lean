import Savvy.MgrIpc.Safety

/-!
Whom a call of `stop_impl` waits for. The waits test one flag, `stop_complete`,
that all workers share. As long as no worker is created while a call is in such
a wait, the flag stands for the worker that the call has stopped. A `start`
that comes between the broadcast and the waiter's return breaks this.
-/

namespace Savvy.MgrIpc

open Kit

/-- A call that is blocked waits for a worker that is not completed; once the
worker is, the call returns when it looks at the flag again. -/
structure WaitsForOwnWorker {ι : Type*} (s : Client ι) : Prop where
  blocked {t : Tid ι} {k : StopFor} {g : ℕ} (h : s.api t = .stopWait k g) :
    .complete g ∉ s.life.trace
  returns {t : Tid ι} {k : StopFor} {g : ℕ}
    (h : s.api t = .stopWait k g ∨ s.api t = .stopWoken k g) (hc : .complete g ∈ s.life.trace) :
    s.life.stopComplete = true

/-- No call of `stop_impl` is in a wait for `stop_complete`. -/
def Unattended {ι : Type*} (s : Client ι) : Prop :=
  ∀ t k g, s.api t ≠ .stopWait k g ∧ s.api t ≠ .stopWoken k g

/-- A worker is only created while no call of `stop_impl` is in a wait. -/
def StartsUnattended {ι : Type*} (s : Client ι) (_ : Tid ι) (c : Choice) : Prop :=
  c = .start .created → Unattended s

namespace Life

variable {ι : Type*} {m m' : Life ι} {l : Label}

/-- Everyone in a wait waits for the worker that runs, which is detached or
being joined. -/
def Attended (m : Life ι) : Prop :=
  ∀ t g, (m.role t).waits = some g → m.vars.started = true →
    g = m.worker ∧ (m.vars.workerDetached = true ∨ m.vars.joinInProgress = true)

@[simp] theorem waits_wakeShutdown (r : Role) : r.wakeShutdown.waits = r.waits := by
  cases r <;> rfl

@[simp] theorem waits_wakeRegistry (r : Role) : r.wakeRegistry.waits = r.waits := by
  cases r <;> rfl

theorem Attended.frame (h : m.Attended) (hw : m'.worker = m.worker)
    (hstart : m'.vars.started = m.vars.started)
    (hbusy : m.vars.workerDetached = true ∨ m.vars.joinInProgress = true →
      m'.vars.workerDetached = true ∨ m'.vars.joinInProgress = true)
    (hr : ∀ t g, (m'.role t).waits = some g → (m.role t).waits = some g) : m'.Attended := by
  intro t g hg hs
  rw [hw]
  obtain ⟨heq, hb⟩ := h t g (hr t g hg) (hstart ▸ hs)
  exact ⟨heq, hbusy hb⟩

/-- With the worker stopped there is nothing to show. -/
theorem Attended.stopped (h : m.vars.started = false) : m.Attended := by
  intro t g _ hs
  rw [h] at hs
  cases hs

variable [DecidableEq ι]

theorem waits_update {f : Tid ι → Role} {t : Tid ι} {r : Role} (hr : r.waits = none)
    (u : Tid ι) (g : ℕ) (hg : (Function.update f t r u).waits = some g) :
    (f u).waits = some g := by
  by_cases hu : u = t
  · subst hu
    rw [Function.update_self, hr] at hg
    cases hg
  · rwa [Function.update_of_ne hu] at hg

theorem waits_update_wake {role : Tid ι → Role} {wake : Role → Role} {t : Tid ι} {r : Role}
    (hwake : ∀ r, (wake r).waits = r.waits) (hr : r.waits = none) (u : Tid ι) (g : ℕ)
    (hg : (Function.update (fun v => wake (role v)) t r u).waits = some g) :
    (role u).waits = some g := by
  have := waits_update (f := fun v => wake (role v)) hr u g hg
  rwa [hwake] at this

theorem Attended.relabel (ha : m.Attended) {t : Tid ι} {r : Role}
    (hwait : r.waits ≠ none → r.waits ≠ (m.role t).waits → r.waits = some m.worker ∧
      m.vars.started = true ∧
        (m.vars.workerDetached = true ∨ m.vars.joinInProgress = true)) :
    (m.play t r).Attended := by
  intro u g hg hs
  by_cases hu : u = t
  · subst hu
    have hr : r.waits = some g := by simpa [play] using hg
    by_cases hsame : r.waits = (m.role u).waits
    · exact ha u g (hsame ▸ hr) hs
    · obtain ⟨hw, -, hbusy⟩ := hwait (by rw [hr]; simp) hsame
      rw [hr] at hw
      exact ⟨Option.some.inj hw, hbusy⟩
  · exact ha u g (by simpa [play, hu] using hg) hs

theorem Attended.move (h : m.Inv) (ha : m.Attended) (hm : m.Move l m') (hl : l ≠ .restart) :
    m'.Attended := by
  cases hm with
  | relabel _ _ _ _ _ hwait => exact ha.relabel hwait
  | shutdown => exact ha.frame rfl rfl id fun _ _ => by rw [shutdown]; simp [wakeShutdown]
  | pin => exact ha.frame rfl rfl id (waits_update rfl)
  | unpin => exact ha.frame rfl rfl id (waits_update_wake waits_wakeRegistry rfl)
  | drained => exact ha.frame rfl rfl id (waits_update_wake waits_wakeRegistry rfl)
  | restart => exact absurd rfl hl
  | startFail hrole => exact .stopped (h.role hrole).1
  | claimJoin => exact ha.frame rfl rfl (fun _ => .inr rfl) (waits_update rfl)
  | joinWorker => exact ha.frame rfl rfl id (waits_update rfl)
  | finishJoin => exact .stopped rfl
  | @claim t fromWorker =>
      exact ha.frame rfl rfl id
        (waits_update_wake waits_wakeRegistry (by cases fromWorker <;> rfl))
  | unclaim => exact ha.frame rfl rfl id (waits_update_wake waits_wakeRegistry rfl)
  | detach => exact ha.frame rfl rfl (fun _ => .inl rfl) (waits_update rfl)
  | unregister => exact ha.frame rfl rfl id (waits_update rfl)
  | release => exact ha.frame rfl rfl id (waits_update rfl)
  | fin3 => exact ha.frame rfl rfl id fun _ _ => by simp [Life.fin3, advance, wakeShutdown]
  | fin3Detached => exact .stopped rfl
  | _ => exact ha.frame rfl rfl id fun _ _ => id

/-- A worker is created while nobody waits. -/
theorem Attended.restart (hnone : ∀ t, (m.role t).waits = none) (t : Tid ι) :
    (m.restart t).Attended := by
  intro u g hg
  have := waits_update (f := m.role) rfl u g hg
  rw [hnone] at this
  cases this

end Life

open Client Life

variable {ι : Type*} [DecidableEq ι] {cfg : Config}

omit [DecidableEq ι] in
theorem waits_toLife {s : Client ι} {t : Tid ι} {g : ℕ} (h : (s.toLife.role t).waits = some g) :
    ∃ k, s.api t = .stopWait k g ∨ s.api t = .stopWoken k g := by
  change (s.api t).role.waits = some g at h
  cases hpc : s.api t with
  | stopWait k g' =>
      rw [hpc] at h
      cases h
      exact ⟨k, .inl rfl⟩
  | stopWoken k g' =>
      rw [hpc] at h
      cases h
      exact ⟨k, .inr rfl⟩
  | leave op =>
      rw [hpc] at h
      cases op <;> cases h
  | _ =>
      rw [hpc] at h
      cases h

omit [DecidableEq ι] in
theorem label_restart {s : Client ι} {t : Tid ι} {c : Choice} (h : s.label t c = .restart) :
    c = .start .created := by
  unfold label at h
  split at h
  · next o _ => cases o <;> first | rfl | cases h
  · cases h
  · cases h

/-- In runs that create workers only while nobody waits, everyone waits for the
worker that runs. -/
theorem attended_of_reachBy {s : Locked (Client ι) (Tid ι) Lock}
    (h : (client ι cfg).system.ReachBy (Threads.onMoves StartsUnattended) s) :
    (s.core.toLife.Inv ∧ s.core.toLife.Attended ∧ s.core.Tidy) ∧ (client ι cfg).Owned s := by
  refine life_invariant (Attended.stopped rfl) (fun hi ha hm => ha.move hi hm (by simp)) ?_ h
  intro s t c b hok hi ha hl hm
  by_cases hlabel : s.core.label t c = .restart
  · have hun : Unattended s.core := hok (label_restart hlabel)
    rw [hlabel] at hm
    cases hm with
    | restart =>
        apply Attended.restart
        intro u
        cases hu : (s.core.toLife.role u).waits with
        | none => rfl
        | some g =>
            obtain ⟨k, hk⟩ := waits_toLife hu
            exact absurd hk (not_or.mpr (hun u k g))
  · exact ha.move hi hm hlabel

/-- A stop waits only for the worker it stopped, in every run that creates
workers only while no call is in a wait. -/
theorem stop_waits_for_own_worker {s : Locked (Client ι) (Tid ι) Lock}
    (h : (client ι cfg).system.ReachBy (Threads.onMoves StartsUnattended) s) :
    WaitsForOwnWorker s.core := by
  obtain ⟨⟨hinv, hatt, -⟩, -⟩ := attended_of_reachBy h
  have hstop : s.core.life.stopComplete = !s.core.life.started := hinv.workers.complete_iff
  -- While the flag is down, the worker that is waited for is the one that runs.
  have hrun : ∀ {t k g}, s.core.api t = .stopWait k g ∨ s.core.api t = .stopWoken k g →
      s.core.life.stopComplete = false → .complete g ∉ s.core.life.trace := by
    intro t k g hpc hflag
    have hstart : s.core.toLife.vars.started = true := by
      show s.core.life.started = true
      rw [hstop] at hflag
      simpa using hflag
    have hwait : (s.core.toLife.role t).waits = some g := by
      rcases hpc with hpc | hpc
      · rw [role_toLife hpc]
        rfl
      · rw [role_toLife hpc]
        rfl
    obtain ⟨rfl, -⟩ := hatt t g hwait hstart
    have hcount := hinv.workers.completed (hinv.worker_pos hstart)
    rw [hstart] at hcount
    exact List.count_eq_zero.mp hcount
  constructor
  · intro t k g hpc
    have hasleep := (hinv.role (role_toLife hpc)).2.2.2.2 rfl
    exact hrun (.inl hpc) hasleep
  · intro t k g hpc hc
    by_contra hflag
    exact hrun hpc (by simpa using hflag) hc

/-- While one thread takes all the turns, the others stay out of the client. -/
theorem idle_turns {s s' : Locked (Client ι) (Tid ι) Lock} {t : Tid ι}
    {as : List (Tid ι × Choice)} (hall : ∀ p ∈ as, p.1 = t)
    (hidle : ∀ u, u ≠ t → s.core.api u = .idle) (hs : (client ι cfg).turns s as = some s') :
    ∀ u, u ≠ t → s'.core.api u = .idle := by
  induction as generalizing s with
  | nil =>
      simp only [Threads.turns, Option.some.injEq] at hs
      exact hs ▸ hidle
  | cons a as ih =>
      simp only [Threads.turns, Option.bind_eq_some_iff] at hs
      obtain ⟨m, hm, hrest⟩ := hs
      refine ih (fun p hp => hall p (List.mem_cons_of_mem _ hp)) ?_ hrest
      intro u hu
      have hwake := body_api (Threads.turn_body hm) (u := u) (by
        rw [hall a List.mem_cons_self]
        exact hu)
      rw [hidle u hu] at hwake
      exact hwake.idle

/-- Workers are created at one place only. -/
theorem startCreate_of_body {s s' : Client ι} {t : Tid ι} {o : StartOutcome}
    (h : s.body cfg t (.start o) = some s') : s.api t = .startCreate := by
  have hcall : s.apiStep t (.start o) = some s' := by
    cases t with
    | ext i => exact h
    | wrk g =>
        simp only [body] at h
        split at h
        · simpa using h
        · simp [workerStep] at h
  cases hpc : s.api t with
  | startCreate => rfl
  | _ => simp [apiStep, hpc] at hcall

/-- A first `start` creates its worker while nobody waits. -/
theorem reachBy_start {s : Locked (Client ι) (Tid ι) Lock} {t : Tid ι}
    (hs : (client ι cfg).turns (client ι cfg).system.init (startTurns t) = some s) :
    (client ι cfg).system.ReachBy (Threads.onMoves StartsUnattended) s := by
  rw [startTurns, Threads.turns_append, Option.bind_eq_some_iff] at hs
  obtain ⟨m, hm, hrest⟩ := hs
  have hreach : (client ι cfg).system.ReachBy (Threads.onMoves StartsUnattended) m := by
    refine Threads.reachBy_turns .init ?_ hm
    intro p hp c hc
    rcases List.mem_cons.mp hp with rfl | hp
    · cases hc
    · rw [List.eq_of_mem_replicate hp] at hc
      cases hc
  have hidle := idle_turns (t := t) (by
    intro p hp
    rcases List.mem_cons.mp hp with rfl | hp
    · rfl
    · rw [List.eq_of_mem_replicate hp]) (fun _ _ => rfl) hm
  simp only [Threads.turns, Option.bind_eq_some_iff] at hrest
  obtain ⟨m', hcreate, s', hgo, hs⟩ := hrest
  cases hs
  have hunattended : Unattended m.core := by
    intro u k g
    by_cases hu : u = t
    · have hpc := startCreate_of_body (Threads.turn_body hcreate)
      rw [hu, hpc]
      exact ⟨by simp, by simp⟩
    · rw [hidle u hu]
      exact ⟨by simp, by simp⟩
  have hcreated := Threads.reachBy_turn hreach (fun _ => hunattended) hcreate
  apply Threads.reachBy_turn hcreated ?_ hgo
  intro hc
  cases hc

/-- One thread joins the worker, a second one waits for the join. -/
def waitTurns : List (Tid (Fin 3) × Choice) :=
  (.ext 0, .call .stop) :: List.replicate 3 (.ext 0, .go) ++
    (.ext 1, .call .stop) :: List.replicate 2 (.ext 1, .go)

theorem reachBy_wait {s : Locked (Client (Fin 3)) (Tid (Fin 3)) Lock}
    (hs : (client (Fin 3) cfg).turns (client (Fin 3) cfg).system.init
      (startTurns (.ext 0) ++ waitTurns) = some s) :
    (client (Fin 3) cfg).system.ReachBy (Threads.onMoves StartsUnattended) s := by
  rw [Threads.turns_append, Option.bind_eq_some_iff] at hs
  obtain ⟨m, hstart, hwait⟩ := hs
  refine Threads.reachBy_turns (reachBy_start hstart) ?_ hwait
  -- No worker is created in the rest of the run.
  intro p hp c hc
  have hnone : ∀ p ∈ waitTurns, p.2 ≠ .start .created := by decide
  exact absurd hc (hnone p hp)

theorem stop_waits_for_own_worker_joined : ∃ s, (client (Fin 3) allCallbacks).turns
      (client (Fin 3) allCallbacks).system.init (startTurns (.ext 0) ++ waitTurns) = some s ∧
    s.core.api (.ext 1) = .stopWait .stop 1 ∧ WaitsForOwnWorker s.core := by
  obtain ⟨s, hs, hpc⟩ := Option.map_eq_some_iff.mp
    (show ((client (Fin 3) allCallbacks).turns (client (Fin 3) allCallbacks).system.init
        (startTurns (.ext 0) ++ waitTurns)).map (fun s => s.core.api (.ext 1)) =
      some (.stopWait .stop 1) by decide +kernel)
  exact ⟨s, hs, hpc, stop_waits_for_own_worker (reachBy_wait hs)⟩

/-- The worker ends and is joined, and before the second thread looks at the
flag again a third one starts the client. -/
def overtakenTurns : List (Tid (Fin 3) × Choice) :=
  startTurns (.ext 0) ++ waitTurns ++ endTurns 1 ++ List.replicate 3 (.ext 0, .go) ++
    startTurns (.ext 2) ++ [(.ext 1, .go)]

/-- After the second thread has been overtaken, a callback of the new worker
stops it, and the worker ends without anyone to join it. -/
def stuckTurns : List (Tid (Fin 3) × Choice) :=
  overtakenTurns ++ connectTurns 2 ++ (.wrk 2, .call .stop) :: List.replicate 16 (.wrk 2, .go) ++
    [(.ext 1, .go)]

/-- The second thread waits for a worker that is completed, and the new worker
may run forever. -/
theorem stop_waits_for_own_worker_fails :
    ¬ ∀ s, (client (Fin 3) allCallbacks).system.Reach s → WaitsForOwnWorker s.core := by
  intro hall
  obtain ⟨s, hs, hend⟩ := Option.map_eq_some_iff.mp
    (show ((client (Fin 3) allCallbacks).turns (client (Fin 3) allCallbacks).system.init
        overtakenTurns).map (fun s => (s.core.api (.ext 1),
          decide (LifeEvent.complete 1 ∈ s.core.life.trace))) =
      some (.stopWait .stop 1, true) by decide +kernel)
  have hpc : s.core.api (.ext 1) = .stopWait .stop 1 := congrArg Prod.fst hend
  have hdone : LifeEvent.complete 1 ∈ s.core.life.trace :=
    of_decide_eq_true (congrArg Prod.snd hend)
  exact (hall s (Threads.reach_turns .init hs)).blocked hpc hdone

end Savvy.MgrIpc
