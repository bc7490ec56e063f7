import Savvy.MgrIpc.Destroys
import Savvy.MgrIpc.Waiters

/-!
The client does not deadlock, as long as workers are only created while no call
waits for `stop_complete`. A thread that waits for a mutex leads to one that
owns a mutex and can go on, because the mutexes are nested in one order. A
thread that waits for anything else waits for the worker, for the joiner or for
a caller, and following this once or twice ends at a thread that is not waiting.
-/

namespace Savvy.MgrIpc

open Kit

def Busy {ι : Type*} (s : Client ι) : Tid ι → Prop
  | .ext i => s.api (.ext i) ≠ .idle
  | .wrk g => s.wrk g ≠ .absent ∧ s.wrk g ≠ .exited

/-- A thread can acquire the mutex it needs or take its step. A condition
variable may also wake up spuriously, but that is not to be relied on. -/
def CanGo {ι : Type*} [DecidableEq ι] (cfg : Config) (s : Locked (Client ι) (Tid ι) Lock)
    (t : Tid ι) : Prop :=
  ((client ι cfg).lockStep s (.acquire t)).isSome = true ∨
    ∃ c, c ≠ .wake ∧ ((client ι cfg).lockStep s (.move t c)).isSome = true

/-- If there are threads in the client at all, one of them can go on. -/
def NoDeadlock {ι : Type*} [DecidableEq ι] (cfg : Config)
    (s : Locked (Client ι) (Tid ι) Lock) : Prop :=
  (∃ t, Busy s.core t) → ∃ t, Busy s.core t ∧ CanGo cfg s t

/-- A thread waits on a condition variable, or for a worker to exit. -/
inductive Blocked {ι : Type*} (s : Client ι) : Tid ι → Prop
  | stopWait {t : Tid ι} {k : StopFor} {g : ℕ} (h : s.api t = .stopWait k g) : Blocked s t
  | stopJoin {t : Tid ι} {k : StopFor} {g : ℕ} (h : s.api t = .stopJoin k g)
      (hexit : s.wrk g ≠ .exited) : Blocked s t
  | drainWait {t : Tid ι} (h : s.api t = .drainWait) : Blocked s t
  | removeWait {t : Tid ι} (h : s.api t = .removeWait) : Blocked s t
  | workerRemove {g : ℕ} (h : s.wrk g = .removeWait) : Blocked s (.wrk g)

open Client Life

variable {ι : Type*} [DecidableEq ι] {cfg : Config}

/-! ### Threads that wait for nothing, or for a mutex -/

theorem apiStep_enabled {s : Client ι} {t : Tid ι} (hbusy : s.api t ≠ .idle)
    (hfree : ¬ Blocked s t) : ∃ c, c ≠ .wake ∧ (s.apiStep t c).isSome = true := by
  cases hpc : s.api t with
  | idle => exact absurd hpc hbusy
  | startCreate => exact ⟨.start .created, by simp, by simp [apiStep, hpc]⟩
  | sendBuild => exact ⟨.result true, by simp, by simp [apiStep, hpc]⟩
  | sendCall => exact ⟨.result true, by simp, by simp [apiStep, hpc]⟩
  | stopWait k g => exact absurd (.stopWait hpc) hfree
  | stopJoin k g =>
      have hexit : s.wrk g = .exited := by
        by_contra hexit
        exact hfree (.stopJoin hpc hexit)
      exact ⟨.go, by simp, by simp [apiStep, hpc, hexit]⟩
  | drainWait => exact absurd (.drainWait hpc) hfree
  | removeWait => exact absurd (.removeWait hpc) hfree
  | _ => exact ⟨.go, by simp, by simp [apiStep, hpc]⟩

omit [DecidableEq ι] in
theorem workerStep_enabled (cfg : Config) {s : Client ι} {g : ℕ} (hbusy : Busy s (.wrk g))
    (hcall : ∀ k, s.wrk g ≠ .callback k) (hfree : ¬ Blocked s (.wrk g)) :
    ∃ c, c ≠ .wake ∧ (workerStep cfg s g c).isSome = true := by
  cases hpc : s.wrk g with
  | absent => exact absurd hpc hbusy.1
  | exited => exact absurd hpc hbusy.2
  | callback k => exact absurd hpc (hcall k)
  | connecting => exact ⟨.connect .failed, by simp, by simp [workerStep, hpc]⟩
  | hsBuild => exact ⟨.result true, by simp, by simp [workerStep, hpc]⟩
  | hsCall => exact ⟨.result true, by simp, by simp [workerStep, hpc]⟩
  | recvCall => exact ⟨.recv .again, by simp, by simp [workerStep, hpc]⟩
  | removeWait => exact absurd (.workerRemove hpc) hfree
  | _ => exact ⟨.go, by simp, by simp [workerStep, hpc]⟩

theorem body_enabled (cfg : Config) {s : Client ι} {t : Tid ι} (hbusy : Busy s t) (hfree : ¬ Blocked s t) :
    ∃ c, c ≠ .wake ∧ (s.body cfg t c).isSome = true := by
  cases t with
  | ext i => exact apiStep_enabled hbusy hfree
  | wrk g =>
      cases hpc : s.wrk g with
      | callback k =>
          by_cases hidle : s.api (.wrk g) = .idle
          · exact ⟨.go, by simp, by simp [body, hpc, hidle]⟩
          · obtain ⟨c, hc, hstep⟩ := apiStep_enabled hidle hfree
            exact ⟨c, hc, by simpa [body, hpc, hidle] using hstep⟩
      | _ =>
          obtain ⟨c, hc, hstep⟩ := workerStep_enabled cfg hbusy (by simp [hpc]) hfree
          exact ⟨c, hc, by simpa [body, hpc] using hstep⟩

theorem canGo_of_ready {s : Locked (Client ι) (Tid ι) Lock} {t : Tid ι}
    (hbusy : Busy s.core t) (hfree : ¬ Blocked s.core t) (hready : (client ι cfg).Ready s t) :
    CanGo cfg s t := by
  right
  obtain ⟨c, hc, hstep⟩ := body_enabled cfg hbusy hfree
  refine ⟨c, hc, ?_⟩
  rw [Threads.lockStep, if_pos hready, Option.isSome_map]
  exact hstep

omit [DecidableEq ι] in
/-- A thread that holds or needs a mutex is not blocked otherwise. -/
theorem free_of_lock {s : Client ι} (htidy : s.Tidy) {t : Tid ι} {l : Lock}
    (h : l ∈ s.holds t ∨ s.needs t = some l) : Busy s t ∧ ¬ Blocked s t := by
  cases t with
  | ext i =>
      change l ∈ (s.api (.ext i)).holds ∨ (s.api (.ext i)).needs = some l at h
      constructor
      · intro hidle
        simp [hidle, Api.holds, Api.needs] at h
      · intro hb
        cases hb with
        | stopWait hpc => simp [hpc, Api.holds, Api.needs] at h
        | stopJoin hpc => simp [hpc, Api.holds, Api.needs] at h
        | drainWait hpc => simp [hpc, Api.holds, Api.needs] at h
        | removeWait hpc => simp [hpc, Api.holds, Api.needs] at h
  | wrk g =>
      change l ∈ (s.api (.wrk g)).holds ++ (s.wrk g).holds ∨
        (s.api (.wrk g)).needs.or (s.wrk g).needs = some l at h
      by_cases hcall : ∀ k, s.wrk g ≠ .callback k
      · have hidle := htidy.calls hcall
        rw [hidle] at h
        refine ⟨⟨?_, ?_⟩, ?_⟩
        · intro hpc
          simp [hpc, Api.holds, Api.needs, Wrk.holds, Wrk.needs] at h
        · intro hpc
          simp [hpc, Api.holds, Api.needs, Wrk.holds, Wrk.needs] at h
        · intro hb
          cases hb with
          | workerRemove hpc => simp [hpc, Api.holds, Api.needs, Wrk.holds, Wrk.needs] at h
          | _ => simp_all
      · simp only [not_forall, not_not] at hcall
        obtain ⟨k, hk⟩ := hcall
        rw [hk] at h
        refine ⟨by simp [Busy, hk], ?_⟩
        intro hb
        cases hb with
        | stopWait hpc => simp [hpc, Api.holds, Api.needs, Wrk.holds, Wrk.needs] at h
        | stopJoin hpc => simp [hpc, Api.holds, Api.needs, Wrk.holds, Wrk.needs] at h
        | drainWait hpc => simp [hpc, Api.holds, Api.needs, Wrk.holds, Wrk.needs] at h
        | removeWait hpc => simp [hpc, Api.holds, Api.needs, Wrk.holds, Wrk.needs] at h
        | workerRemove hpc => simp [hk] at hpc

theorem Lock.rank_lt_four (l : Lock) : l.rank < 4 := by
  cases l <;> decide

/-- Where a thread waits for nothing but a mutex, some thread can go on. -/
theorem exists_canGo {s : Locked (Client ι) (Tid ι) Lock} (htidy : s.core.Tidy)
    (howned : (client ι cfg).Owned s) {t : Tid ι} (hbusy : Busy s.core t)
    (hfree : ¬ Blocked s.core t) : ∃ u, Busy s.core u ∧ CanGo cfg s u := by
  by_cases hready : (client ι cfg).Ready s t
  · exact ⟨t, hbusy, canGo_of_ready hbusy hfree hready⟩
  · simp only [Threads.Ready, not_forall] at hready
    obtain ⟨l, hl, hwait⟩ := hready
    rcases howned.exists_ready Lock.rank_lt_four (client_ordered htidy) hl hwait with
      ⟨u, l', hneed, hnone⟩ | ⟨u, ⟨l', hown⟩, hready⟩
    · refine ⟨u, (free_of_lock htidy (.inr hneed)).1, .inl ?_⟩
      simp [Threads.lockStep, hneed, hnone]
    · obtain ⟨hbusy', hfree'⟩ := free_of_lock htidy (howned.wanted hown)
      exact ⟨u, hbusy', canGo_of_ready hbusy' hfree' hready⟩

/-! ### Threads that wait for something else -/

omit [DecidableEq ι] in
theorem busy_of_role {s : Client ι} (hinv : s.toLife.Inv) {t : Tid ι}
    (hrole : s.toLife.role t ≠ .outside) : Busy s t := by
  cases t with
  | ext i =>
      intro hidle
      exact hrole (role_toLife hidle)
  | wrk g =>
      have hrun : (s.wrk g).stage = .running := hinv.worker_role hrole
      constructor
      · intro hpc
        rw [hpc] at hrun
        cases hrun
      · intro hpc
        rw [hpc] at hrun
        cases hrun

omit [DecidableEq ι] in
/-- A worker that has not published its end waits for nobody. -/
theorem live_free {s : Client ι} (hinv : s.toLife.Inv) {g : ℕ}
    (hlive : (s.toLife.stage g).live = true) : Busy s (.wrk g) ∧ ¬ Blocked s (.wrk g) := by
  have hlive' : (s.wrk g).stage.live = true := hlive
  refine ⟨⟨?_, ?_⟩, ?_⟩
  · intro hpc
    rw [hpc] at hlive'
    cases hlive'
  · intro hpc
    rw [hpc] at hlive'
    cases hlive'
  · intro hb
    cases hb with
    | stopWait hpc =>
        have := (hinv.role (role_toLife hpc)).2.1
        cases this
    | stopJoin hpc =>
        have := (hinv.role (role_toLife hpc)).2.1
        cases this
    | drainWait hpc =>
        have := (hinv.role (role_toLife hpc)).1.external
        cases this
    | removeWait hpc =>
        have := (hinv.role (role_toLife hpc)).1.external
        cases this
    | workerRemove hpc =>
        rw [hpc] at hlive'
        cases hlive'

omit [DecidableEq ι] in
/-- Between two workers, a caller other than the owner of a destroy waits for
nobody. -/
theorem pinned_free {s : Client ι} (hinv : s.toLife.Inv) (hstart : s.life.started = false)
    {t : Tid ι} (hpin : (s.toLife.role t).pinned = true)
    (hnot : s.api t ≠ .drainWait) : Busy s t ∧ ¬ Blocked s t := by
  have hout : s.toLife.role t ≠ .outside := by
    intro hrole
    rw [hrole] at hpin
    cases hpin
  refine ⟨busy_of_role hinv hout, ?_⟩
  intro hb
  cases hb with
  | stopWait hpc =>
      have hflag : s.life.stopComplete = false :=
        (hinv.role (role_toLife hpc)).2.2.2.2 rfl
      have hiff : s.life.stopComplete = !s.life.started := hinv.workers.complete_iff
      rw [hflag, hstart] at hiff
      cases hiff
  | stopJoin hpc =>
      have hstart' : s.life.started = true := (hinv.role (role_toLife hpc)).2.2.2.2.1
      rw [hstart] at hstart'
      cases hstart'
  | drainWait hpc => exact hnot hpc
  | removeWait hpc =>
      rw [role_toLife hpc] at hpin
      cases hpin
  | workerRemove hpc =>
      have hrun := hinv.worker_role hout
      rw [stage_toLife hpc] at hrun
      cases hrun

omit [DecidableEq ι] in
/-- The worker that a call waits for is alive, or someone is about to join it. -/
theorem started_free {s : Client ι} (hinv : s.toLife.Inv) (hstart : s.life.started = true)
    (hjoin : s.wrk s.life.workerThread = .exited → s.life.workerDetached = true ∨
      s.life.joinInProgress = true) : ∃ u, Busy s u ∧ ¬ Blocked s u := by
  rcases hinv.workers.started hstart with hlive | ⟨hexit, -, hatt⟩
  · exact ⟨_, live_free hinv hlive⟩
  · have hexit' : s.wrk s.life.workerThread = .exited := Wrk.stage_exited.mp hexit
    have hprogress : s.life.joinInProgress = true := by
      refine (hjoin hexit').resolve_left ?_
      rw [show s.life.workerDetached = false from hatt]
      exact Bool.false_ne_true
    obtain ⟨-, u, b, hu⟩ := hinv.workers.joiner hprogress
    have hout : s.toLife.role u ≠ .outside := by
      intro hrole
      rw [hrole] at hu
      cases hu
    refine ⟨u, busy_of_role hinv hout, ?_⟩
    intro hb
    cases hb with
    | stopWait hpc =>
        rw [role_toLife hpc] at hu
        cases hu
    | stopJoin hpc hrun =>
        -- The joiner is at the worker that has exited.
        rw [role_toLife hpc] at hu
        cases hu
        exact hrun hexit'
    | drainWait hpc =>
        rw [role_toLife hpc] at hu
        cases hu
    | removeWait hpc =>
        rw [role_toLife hpc] at hu
        cases hu
    | workerRemove hpc =>
        have hrun := hinv.worker_role hout
        rw [stage_toLife hpc] at hrun
        cases hrun

omit [DecidableEq ι] in
theorem exists_pinned {s : Client ι} (hinv : s.toLife.Inv) (hcallers : s.life.apiCallers ≠ 0) :
    ∃ u, (s.toLife.role u).pinned = true := by
  obtain ⟨S, hcard, hmem⟩ := hinv.registry.pins
  have hne : 0 < S.card := by
    rw [hcard]
    exact Nat.pos_of_ne_zero hcallers
  obtain ⟨u, hu⟩ := Finset.card_pos.mp hne
  exact ⟨u, (hmem u).mp hu⟩

omit [DecidableEq ι] in
/-- Whoever is blocked waits, in the end, for someone who is not. -/
theorem Blocked.leads {s : Client ι} (hinv : s.toLife.Inv) (hatt : s.toLife.Attended)
    {t : Tid ι} (hb : Blocked s t) : ∃ u, Busy s u ∧ ¬ Blocked s u := by
  cases hb with
  | @stopWait _ k g hpc =>
      have hflag : s.life.stopComplete = false :=
        (hinv.role (role_toLife hpc)).2.2.2.2 rfl
      have hiff : s.life.stopComplete = !s.life.started := hinv.workers.complete_iff
      have hstart : s.life.started = true := by
        rw [hflag] at hiff
        simpa using hiff.symm
      have hwaits : (s.toLife.role t).waits = some g := by
        rw [role_toLife hpc]
        rfl
      exact started_free hinv hstart fun _ => (hatt t g hwaits hstart).2
  | @stopJoin _ k g hpc hrun =>
      obtain ⟨-, -, -, rfl, hstart, -, hjoin, -⟩ := hinv.role (role_toLife hpc)
      exact started_free hinv hstart fun _ => .inr hjoin
  | drainWait hpc =>
      obtain ⟨-, hstart, hcallers⟩ := hinv.role (role_toLife hpc)
      obtain ⟨S, hcard, hmem⟩ := hinv.registry.pins
      have htwo : 1 < S.card := by
        rw [hcard]
        exact hcallers rfl
      obtain ⟨u, hu, hne⟩ := Finset.exists_mem_ne htwo t
      refine ⟨u, pinned_free hinv hstart ((hmem u).mp hu) ?_⟩
      intro hpc'
      -- Only one destroy drains the client.
      refine hne (hinv.claims.unique ?_ ?_)
      · rw [role_toLife hpc']
        rfl
      · rw [role_toLife hpc]
        rfl
  | removeWait hpc =>
      obtain ⟨-, hstart, -, hcallers⟩ := hinv.role (role_toLife hpc)
      obtain ⟨u, hu⟩ := exists_pinned hinv (hcallers rfl)
      refine ⟨u, pinned_free hinv hstart hu ?_⟩
      intro hpc'
      have hut : u = t := by
        apply hinv.claims.unique
        · rw [role_toLife hpc']
          rfl
        · rw [role_toLife hpc]
          rfl
      rw [hut, hpc] at hpc'
      cases hpc'
  | workerRemove hpc =>
      obtain ⟨hdet, hstart, -, hcallers⟩ := hinv.registry.removing (stage_toLife hpc)
      obtain ⟨u, hu⟩ := exists_pinned hinv (hcallers rfl)
      refine ⟨u, pinned_free hinv hstart hu ?_⟩
      intro hpc'
      have hok := (hinv.role (role_toLife hpc')).1.attached
      rw [hdet] at hok
      cases hok

/-! ### The client -/

/-- The client does not deadlock, in every run that creates workers only while
no call is in a wait. -/
theorem no_deadlock {s : Locked (Client ι) (Tid ι) Lock}
    (h : (client ι cfg).system.ReachBy (Threads.onMoves StartsUnattended) s) :
    NoDeadlock cfg s := by
  obtain ⟨⟨hinv, hatt, htidy⟩, howned⟩ := attended_of_reachBy h
  rintro ⟨t, hbusy⟩
  by_cases hfree : Blocked s.core t
  · obtain ⟨u, hbusy', hfree'⟩ := hfree.leads hinv hatt
    exact exists_canGo htidy howned hbusy' hfree'
  · exact exists_canGo htidy howned hbusy hfree

theorem no_deadlock_joined : ∃ s, (client (Fin 3) allCallbacks).turns
      (client (Fin 3) allCallbacks).system.init (startTurns (.ext 0) ++ waitTurns) = some s ∧
    s.core.api (.ext 1) = .stopWait .stop 1 ∧ NoDeadlock allCallbacks s := by
  obtain ⟨s, hs, hpc⟩ := Option.map_eq_some_iff.mp
    (show ((client (Fin 3) allCallbacks).turns (client (Fin 3) allCallbacks).system.init
        (startTurns (.ext 0) ++ waitTurns)).map (fun s => s.core.api (.ext 1)) =
      some (.stopWait .stop 1) by decide +kernel)
  exact ⟨s, hs, hpc, no_deadlock (reachBy_wait hs)⟩

theorem not_canGo_of_stopWait {s : Locked (Client ι) (Tid ι) Lock} {i : ι} {k : StopFor} {g : ℕ}
    (hpc : s.core.api (.ext i) = .stopWait k g) : ¬ CanGo cfg s (.ext i) := by
  have hneed : (client ι cfg).needs s.core (.ext i) = none := by
    show (s.core.api (.ext i)).needs = none
    rw [hpc]
    rfl
  rintro (hacq | ⟨c, hc, hmove⟩)
  · simp [Threads.lockStep, hneed] at hacq
  · obtain ⟨s', hs'⟩ := Option.isSome_iff_exists.mp hmove
    have hbody : s.core.apiStep (.ext i) c = some s'.core := (Threads.lockStep_move hs').2.1
    cases c with
    | wake => exact hc rfl
    | _ => simp [apiStep, hpc] at hbody

/-- The only thread left waits for a worker that was completed long ago. -/
theorem no_deadlock_fails :
    ¬ ∀ s, (client (Fin 3) allCallbacks).system.Reach s → NoDeadlock allCallbacks s := by
  intro hall
  obtain ⟨s, hs, hend⟩ := Option.map_eq_some_iff.mp
    (show ((client (Fin 3) allCallbacks).turns (client (Fin 3) allCallbacks).system.init
        stuckTurns).map (fun s => (s.core.api (.ext 0), s.core.api (.ext 1),
          s.core.api (.ext 2), s.core.wrk s.core.life.workerThread)) =
      some (.idle, .stopWait .stop 1, .idle, .exited) by decide +kernel)
  simp only [Prod.mk.injEq] at hend
  obtain ⟨hzero, hpc, htwo, hwrk⟩ := hend
  have hreach := Threads.reach_turns .init hs
  obtain ⟨t, hbusy, hgo⟩ := hall s hreach ⟨.ext 1, by simp [Busy, hpc]⟩
  cases t with
  | ext i =>
      match i with
      | 0 => exact hbusy hzero
      | 1 => exact not_canGo_of_stopWait hpc hgo
      | 2 => exact hbusy htwo
  | wrk g =>
      rcases (workers_ended hreach hwrk g).1 with hg | hg
      · exact hbusy.1 hg
      · exact hbusy.2 hg

end Savvy.MgrIpc
