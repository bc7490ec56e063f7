import Savvy.MgrIpc.LifeSteps

/-!
Safety of the life of a client. In every state that the threads can reach, in
whatever order they run, at most one worker is alive, every worker is joined or
detached at most once and not both, the cancel source is used as it should be,
and the storage is released once, after everyone has left it for good.
-/

namespace Savvy.MgrIpc

open Kit

/-- A worker has been joined, or it is detached and has come to its end. -/
def Settled (tr : List LifeEvent) (g : ℕ) : Prop :=
  .join g ∈ tr ∨ .detach g ∈ tr ∧ .complete g ∈ tr

/-- The creation of a worker, or the release of the storage. -/
def LifeEvent.renews : LifeEvent → Bool
  | .spawn _ | .release => true
  | _ => false

/-- Whenever a worker is created or the storage is released, all workers created
before are settled. The newest event comes first. -/
def SettledFirst : List LifeEvent → Prop
  | [] => True
  | e :: tr => (e.renews = true → ∀ g, .spawn g ∈ tr → Settled tr g) ∧ SettledFirst tr

structure LifecycleSafe {ι : Type*} (s : Client ι) : Prop where
  /-- At most one worker is alive. -/
  one_worker {g g' : ℕ} (hg : s.wrk g ≠ .absent ∧ s.wrk g ≠ .exited)
    (hg' : s.wrk g' ≠ .absent ∧ s.wrk g' ≠ .exited) : g = g'
  /-- No worker is joined twice, detached twice, or both. -/
  joined_once (g : ℕ) : s.life.trace.count (.join g) + s.life.trace.count (.detach g) ≤ 1
  settled_first : SettledFirst s.life.trace
  /-- Initialisations and destructions of the cancel source alternate, and it is
  only cancelled in between. -/
  source : Life.cancelSource s.life.trace ≠ none
  released_once : s.life.trace.count .release ≤ 1
  /-- Once the storage is released nobody is in the client any more: a call
  that is under way has not looked it up yet, and will not find it. -/
  released (h : .release ∈ s.life.trace) :
    s.life.apiCallers = 0 ∧ s.life.registered = false ∧
      (∀ t, s.api t = .idle ∨ ∃ op, s.api t = .enter op) ∧
      ∀ g, s.wrk g = .absent ∨ s.wrk g = .exited

namespace Life

variable {ι : Type*} {m m' : Life ι} {l : Label}

theorem mem_of_count {e : LifeEvent} (h : m.count e = 1) : e ∈ m.vars.trace := by
  have hone : List.count e m.vars.trace = 1 := h
  exact List.count_pos_iff.mp (by omega)

/-- Between two workers, all of them are settled. -/
theorem Inv.settled (h : m.Inv) (hstart : m.vars.started = false) {g : ℕ}
    (hg : .spawn g ∈ m.vars.trace) : Settled m.vars.trace g := by
  have w := h.workers
  have hborn : ¬ (g = 0 ∨ m.worker < g) := by
    intro hnot
    have := (w.unborn hnot).1
    exact absurd hg (List.count_eq_zero.mp this)
  rcases Nat.lt_or_ge g m.worker with hlt | hge
  · left
    exact mem_of_count (w.old (by omega) hlt).2.1
  · obtain rfl : g = m.worker := by omega
    have hpos : 0 < m.worker := by omega
    cases hdet : m.vars.workerDetached with
    | false =>
        left
        exact mem_of_count (w.joined hpos hstart hdet)
    | true =>
        right
        have hd := w.detached hpos
        have hc := w.completed hpos
        rw [hdet] at hd
        rw [hstart] at hc
        exact ⟨mem_of_count hd, mem_of_count hc⟩

theorem settled_cons {tr : List LifeEvent} {g : ℕ} {e : LifeEvent} (h : Settled tr g) :
    Settled (e :: tr) g := by
  rcases h with h | ⟨h, h'⟩
  · exact .inl (List.mem_cons_of_mem _ h)
  · exact .inr ⟨List.mem_cons_of_mem _ h, List.mem_cons_of_mem _ h'⟩

theorem settledFirst_note {tr : List LifeEvent} {e : LifeEvent} (h : SettledFirst tr)
    (he : e.renews = false) : SettledFirst (e :: tr) := by
  refine ⟨?_, h⟩
  rw [he]
  nofun

variable [DecidableEq ι]

theorem settledFirst_move (h : m.Inv) (hj : SettledFirst m.vars.trace) (hm : m.Move l m') :
    SettledFirst m'.vars.trace := by
  cases hm with
  | cancel => exact settledFirst_note hj rfl
  | refuse => exact settledFirst_note hj rfl
  | destroyReturned => exact settledFirst_note hj rfl
  | restart hrole =>
      have hstart := (h.role hrole).1
      refine ⟨fun _ g hg => ?_, settledFirst_note hj rfl⟩
      have hg' : .spawn g ∈ m.vars.trace := by simpa [prepared] using hg
      exact settled_cons (h.settled hstart hg')
  | startFail => exact settledFirst_note (settledFirst_note hj rfl) rfl
  | joinWorker => exact settledFirst_note hj rfl
  | finishJoin => exact settledFirst_note hj rfl
  | detach => exact settledFirst_note hj rfl
  | release hrole =>
      have hstart := (h.role hrole).2.1
      exact ⟨fun _ g hg => h.settled hstart hg, hj⟩
  | fin2 => exact settledFirst_note hj rfl
  | fin3Detached => exact settledFirst_note hj rfl
  | workerRelease hst =>
      have hstart := (h.registry.releasing hst).2.1
      exact ⟨fun _ g hg => h.settled hstart hg, hj⟩
  | _ => exact hj

omit [DecidableEq ι] in
/-- The workers that are alive are the last one. -/
theorem Inv.alive (h : m.Inv) {g : ℕ} (habs : m.stage g ≠ .absent) (hexit : m.stage g ≠ .exited) :
    g = m.worker := by
  rw [ne_eq, h.workers.absent_iff] at habs
  by_contra hne
  exact hexit (h.workers.old (by omega) (by omega)).1

omit [DecidableEq ι] in
theorem Inv.join_le (h : m.Inv) (hpos : 0 < m.worker) (hdet : m.vars.workerDetached = false) :
    m.count (.join m.worker) ≤ 1 := by
  cases hstart : m.vars.started with
  | false => exact (h.workers.joined hpos hstart hdet).le
  | true =>
      rcases h.workers.unjoined hstart with ⟨t, ht⟩ | hzero
      · cases hrole : m.role t with
        | joining k g joined =>
            rw [hrole] at ht
            cases ht
            exact (h.role hrole).2.2.2.2.2.2.2.2.le
        | _ =>
            rw [hrole] at ht
            cases ht
      · omega

omit [DecidableEq ι] in
theorem Inv.joined_once (h : m.Inv) (g : ℕ) : m.count (.join g) + m.count (.detach g) ≤ 1 := by
  have w := h.workers
  by_cases hborn : g = 0 ∨ m.worker < g
  · have := w.unborn hborn
    omega
  · rcases Nat.lt_or_ge g m.worker with hlt | hge
    · have := w.old (by omega) hlt
      omega
    · obtain rfl : g = m.worker := by omega
      have hpos : 0 < m.worker := by omega
      have hd := w.detached hpos
      cases hdet : m.vars.workerDetached with
      | true =>
          have := w.detached_join hdet
          simp only [hdet, Bool.toNat_true] at hd
          omega
      | false =>
          have := h.join_le hpos hdet
          simp only [hdet, Bool.toNat_false] at hd
          omega

end Life

theorem Wrk.stage_absent {pc : Wrk} : pc.stage = .absent ↔ pc = .absent := by
  cases pc <;> simp [Wrk.stage]

theorem Wrk.stage_exited {pc : Wrk} : pc.stage = .exited ↔ pc = .exited := by
  cases pc <;> simp [Wrk.stage]

theorem Api.role_outside {pc : Api} : pc.role = .outside ↔ pc = .idle ∨ ∃ op, pc = .enter op := by
  cases pc with
  | leave op => cases op <;> simp [Api.role]
  | _ => simp [Api.role]

open Client Life

variable {ι : Type*} [DecidableEq ι] {cfg : Config}

theorem lifecycle_safe {s : Locked (Client ι) (Tid ι) Lock}
    (h : (client ι cfg).system.Reach s) : LifecycleSafe s.core := by
  obtain ⟨⟨hinv, hsettled, -⟩, -⟩ := life_invariant (J := fun m => SettledFirst m.vars.trace)
    trivial settledFirst_move (fun _ hi hj _ hm => settledFirst_move hi hj hm) h
  constructor
  · intro g g' hg hg'
    have halive := fun g (hg : s.core.wrk g ≠ .absent ∧ s.core.wrk g ≠ .exited) =>
      hinv.alive (g := g) (mt Wrk.stage_absent.mp hg.1) (mt Wrk.stage_exited.mp hg.2)
    rw [halive g hg, halive g' hg']
  · exact hinv.joined_once
  · exact hsettled
  · have hsource : cancelSource s.core.life.trace = some _ := hinv.cancel.source
    rw [hsource]
    simp
  · exact hinv.registry.once
  · intro hrel
    have hone : s.core.toLife.count .release = 1 :=
      Nat.le_antisymm hinv.registry.once (List.count_pos_iff.mpr hrel)
    have hreg : s.core.life.registered = false := by
      by_contra hreg
      have := hinv.registry.registered (Bool.not_eq_false _ ▸ hreg)
      omega
    obtain ⟨hout, hend⟩ := hinv.registry.released hone
    refine ⟨hinv.registry.unregistered hreg, hreg, ?_, ?_⟩
    · intro t
      exact Api.role_outside.mp (Role.place_eq_outside.mp (hout t))
    · intro g
      exact (hend g).imp Wrk.stage_absent.mp Wrk.stage_exited.mp

def allCallbacks : Config := ⟨true, true, true⟩

def startTurns (t : Tid ι) : List (Tid ι × Choice) :=
  (t, .call .start) :: List.replicate 5 (t, .go) ++ [(t, .start .created), (t, .go)]

/-- Worker `g` connects, and is in its first callback. -/
def connectTurns (g : ℕ) : List (Tid ι × Choice) :=
  [(.wrk g, .go), (.wrk g, .connect .connected), (.wrk g, .go), (.wrk g, .go),
    (.wrk g, .result true), (.wrk g, .go), (.wrk g, .go), (.wrk g, .result true), (.wrk g, .go)]

/-- The last worker sees the shutdown at the top of its loop and ends. -/
def endTurns (g : ℕ) : List (Tid ι × Choice) := List.replicate 6 (.wrk g, .go)

/-- A client is started, stopped, started again and destroyed. -/
def restartTurns : List (Tid Unit × Choice) :=
  startTurns (.ext ()) ++ (.ext (), .call .stop) :: List.replicate 3 (.ext (), .go) ++
    endTurns 1 ++ List.replicate 3 (.ext (), .go) ++
    startTurns (.ext ()) ++ (.ext (), .call .destroy) :: List.replicate 5 (.ext (), .go) ++
    endTurns 2 ++ List.replicate 6 (.ext (), .go)

theorem lifecycle_safe_restart : ∃ s, (client Unit allCallbacks).turns
      (client Unit allCallbacks).system.init restartTurns = some s ∧
    s.core.life.trace = [.destroyReturned, .release, .complete 2, .join 2, .cancelDestroy,
      .cancel, .spawn 2, .cancelInit, .complete 1, .join 1, .cancelDestroy, .cancel, .spawn 1,
      .cancelInit] ∧ LifecycleSafe s.core := by
  obtain ⟨s, hs, htrace⟩ := Option.map_eq_some_iff.mp
    (show ((client Unit allCallbacks).turns (client Unit allCallbacks).system.init
        restartTurns).map (fun s => s.core.life.trace) =
      some [.destroyReturned, .release, .complete 2, .join 2, .cancelDestroy, .cancel, .spawn 2,
        .cancelInit, .complete 1, .join 1, .cancelDestroy, .cancel, .spawn 1, .cancelInit] by
      decide +kernel)
  exact ⟨s, hs, htrace, lifecycle_safe (Threads.reach_turns .init hs)⟩

end Savvy.MgrIpc
