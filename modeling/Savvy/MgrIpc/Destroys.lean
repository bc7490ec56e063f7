import Savvy.MgrIpc.Safety

/-!
What becomes of a destroy. An external `destroy` that finds the client claimed
returns at once and leaves the release to whoever holds the claim. A destroy on
the worker may give its claim back, when it finds that the worker is being
joined. A destroy that was refused in between is then lost: nobody releases the
client. As long as no claim is given back after a refusal, none is.
-/

namespace Savvy.MgrIpc

open Kit

/-- No call is in progress and no worker is alive. -/
structure Quiescent {ι : Type*} (s : Client ι) : Prop where
  calls (t : Tid ι) : s.api t = .idle
  workers (g : ℕ) : s.wrk g = .absent ∨ s.wrk g = .exited

/-- Once an external destroy has returned and everything has come to rest, the
client is out of the registry and its storage is released. -/
def NoDestroyLost {ι : Type*} (s : Client ι) : Prop :=
  Quiescent s → .destroyReturned ∈ s.life.trace →
    s.life.registered = false ∧ s.life.trace.count .release = 1

/-- No destroy on the worker gives its claim back after an external destroy has
been refused. -/
def ClaimKept {ι : Type*} (s : Client ι) (t : Tid ι) (_ : Choice) : Prop :=
  s.api t = .unclaimRegistry → .refused ∉ s.life.trace

instance {ι : Type*} (s : Client ι) (t : Tid ι) (c : Choice) : Decidable (ClaimKept s t c) :=
  inferInstanceAs (Decidable (_ → _))

namespace Life

variable {ι : Type*} {m m' : Life ι} {l : Label}

/-- A refused destroy has someone to rely on, and a destroy only returns when it
was refused or has released the client. -/
structure Answered (m : Life ι) : Prop where
  refused (h : .refused ∈ m.vars.trace) : m.vars.destroyRequested = true
  returned (h : .destroyReturned ∈ m.vars.trace) :
    .refused ∈ m.vars.trace ∨ m.count .release = 1

theorem Answered.frame (h : m.Answered)
    (hreq : m.vars.destroyRequested = true → m'.vars.destroyRequested = true)
    (href : .refused ∈ m'.vars.trace ↔ .refused ∈ m.vars.trace)
    (hret : .destroyReturned ∈ m'.vars.trace ↔ .destroyReturned ∈ m.vars.trace)
    (hrel : m'.count .release = m.count .release) : m'.Answered := by
  constructor
  · intro hin
    exact hreq (h.refused (href.mp hin))
  · intro hin
    rw [href, hrel]
    exact h.returned (hret.mp hin)

theorem Answered.event (h : m.Answered) {e : LifeEvent}
    (htrace : m'.vars.trace = e :: m.vars.trace)
    (hreq : m'.vars.destroyRequested = m.vars.destroyRequested) (href : e ≠ .refused)
    (hret : e ≠ .destroyReturned) (hrel : e ≠ .release) : m'.Answered := by
  refine h.frame (fun hr => hreq.trans hr) ?_ ?_ ?_
  · rw [htrace, List.mem_cons, or_iff_right href.symm]
  · rw [htrace, List.mem_cons, or_iff_right hret.symm]
  · rw [count, htrace, List.count_cons_of_ne hrel]

theorem Answered.release (h : m.Answered) (htrace : m'.vars.trace = .release :: m.vars.trace)
    (hreq : m'.vars.destroyRequested = m.vars.destroyRequested) (hrel : m.count .release = 0) :
    m'.Answered := by
  constructor
  · intro hin
    rw [hreq]
    exact h.refused (by simpa [htrace] using hin)
  · intro _
    right
    rw [count] at hrel
    rw [count, htrace, List.count_cons_self, hrel]

variable [DecidableEq ι]

theorem Answered.move (h : m.Inv) (ha : m.Answered) (hm : m.Move l m') (hl : l ≠ .unclaim) :
    m'.Answered := by
  cases hm with
  | cancel => exact ha.event rfl rfl (by simp) (by simp) (by simp)
  | refuse hreq =>
      constructor
      · intro _
        exact hreq.elim id h.claims.unregistered
      · intro _
        exact .inl List.mem_cons_self
  | destroyReturned hret =>
      constructor
      · intro hin
        exact ha.refused (by simpa [note] using hin)
      · intro _
        rcases hret with href | hrel
        · exact .inl (List.mem_cons_of_mem _ href)
        · right
          rw [← hrel]
          exact List.count_cons_of_ne (by simp)
  | restart =>
      have hprep : ({ m with vars := m.prepared } : Life ι).Answered :=
        ha.event rfl rfl (by simp) (by simp) (by simp)
      exact hprep.event rfl rfl (by simp) (by simp) (by simp)
  | startFail =>
      have hprep : ({ m with vars := m.prepared } : Life ι).Answered :=
        ha.event rfl rfl (by simp) (by simp) (by simp)
      exact hprep.event rfl rfl (by simp) (by simp) (by simp)
  | joinWorker => exact ha.event rfl rfl (by simp) (by simp) (by simp)
  | finishJoin => exact ha.event rfl rfl (by simp) (by simp) (by simp)
  | claim => exact ha.frame (fun _ => rfl) .rfl .rfl rfl
  | unclaim => exact absurd rfl hl
  | detach => exact ha.event rfl rfl (by simp) (by simp) (by simp)
  | release hrole => exact ha.release rfl rfl (h.role hrole).2.2.2
  | fin2 => exact ha.event rfl rfl (by simp) (by simp) (by simp)
  | fin3Detached => exact ha.event rfl rfl (by simp) (by simp) (by simp)
  | workerRelease hst => exact ha.release rfl rfl (h.registry.releasing hst).2.2.2
  | _ => exact ha.frame id .rfl .rfl rfl

/-- A claim given back before anyone was refused. -/
theorem Answered.unclaim (ha : m.Answered) (hnone : .refused ∉ m.vars.trace) (t : Tid ι) :
    (m.unclaim t).Answered where
  refused hin := absurd hin hnone
  returned := ha.returned

omit [DecidableEq ι] in
/-- With everyone outside and all workers gone, a claim has led to a release. -/
theorem Inv.released_of_requested (h : m.Inv) (hout : ∀ t, m.role t = .outside)
    (hend : ∀ g, m.stage g = .absent ∨ m.stage g = .exited)
    (hreq : m.vars.destroyRequested = true) : m.count .release = 1 := by
  cases hfrom : m.vars.destroyFromWorker with
  | false =>
      rcases h.claims.owned hreq hfrom with ⟨t, ht⟩ | hrel
      · rw [hout t] at ht
        cases ht
      · exact hrel
  | true =>
      rcases (h.claims.fromWorker hfrom).2 with hdet | ⟨t, ht⟩
      · -- A detached worker only exits after releasing the client.
        refine h.registry.detached hdet ((hend m.worker).resolve_left ?_)
        intro habs
        have hzero : m.worker = 0 := by
          have := (h.workers.absent_iff m.worker).mp habs
          omega
        rw [(h.workers.none_started hzero).2] at hdet
        cases hdet
      · rw [hout t] at ht
        cases ht

end Life

open Client Life

variable {ι : Type*} [DecidableEq ι] {cfg : Config}

omit [DecidableEq ι] in
theorem label_unclaim {s : Client ι} {t : Tid ι} {c : Choice} (h : s.label t c = .unclaim) :
    s.api t = .unclaimRegistry := by
  unfold label at h
  split at h
  · next o _ => cases o <;> cases h
  · next hpc => exact hpc
  · cases h

/-- No destroy is lost, in every run in which no claim is given back after a
refusal. -/
theorem no_destroy_lost {s : Locked (Client ι) (Tid ι) Lock}
    (h : (client ι cfg).system.ReachBy (Threads.onMoves ClaimKept) s) : NoDestroyLost s.core := by
  have hloud : ∀ {s : Locked (Client ι) (Tid ι) Lock} {t : Tid ι} {c : Choice} {b : Life ι},
      Threads.onMoves ClaimKept s (.move t c) → s.core.toLife.Inv → s.core.toLife.Answered →
        s.core.label t c ≠ .quiet → s.core.toLife.Move (s.core.label t c) b → b.Answered := by
    intro s t c b hok hi ha _ hm
    by_cases hlabel : s.core.label t c = .unclaim
    · have hnone : .refused ∉ s.core.life.trace := hok (label_unclaim hlabel)
      rw [hlabel] at hm
      cases hm with
      | unclaim => exact ha.unclaim hnone _
    · exact ha.move hi hm hlabel
  obtain ⟨⟨hinv, hans, -⟩, -⟩ := life_invariant ⟨nofun, nofun⟩
    (fun hi ha hm => ha.move hi hm nofun) hloud h
  intro hq hret
  have hrel : s.core.toLife.count .release = 1 := by
    rcases hans.returned hret with href | hrel
    · refine hinv.released_of_requested ?_ ?_ (hans.refused href)
      · intro t
        exact role_toLife (hq.calls t)
      · intro g
        exact (hq.workers g).imp Wrk.stage_absent.mpr Wrk.stage_exited.mpr
    · exact hrel
  refine ⟨?_, hrel⟩
  by_contra hreg
  have := hinv.registry.registered (Bool.not_eq_false _ ▸ hreg)
  omega

/-- No worker is alive when the last one has exited. -/
theorem workers_ended {s : Locked (Client ι) (Tid ι) Lock}
    (h : (client ι cfg).system.Reach s)
    (hwrk : s.core.wrk s.core.life.workerThread = .exited) (g : ℕ) :
    (s.core.wrk g = .absent ∨ s.core.wrk g = .exited) ∧ s.core.api (.wrk g) = .idle := by
  obtain ⟨⟨hinv, -, htidy⟩, -⟩ := life_invariant (J := fun _ => True) trivial
    (fun _ _ _ => trivial) (fun _ _ _ _ _ => trivial) h
  have hend : s.core.wrk g = .absent ∨ s.core.wrk g = .exited := by
    have := hinv.all_ended (.inr (Wrk.stage_exited.mpr hwrk)) g
    exact this.imp Wrk.stage_absent.mp Wrk.stage_exited.mp
  refine ⟨hend, ?_⟩
  apply htidy.calls
  intro k hk
  rw [hk] at hend
  rcases hend with hg | hg
  · cases hg
  · cases hg

/-- A callback claims the client, and an external destroy is refused. -/
def refusedTurns : List (Tid (Fin 2) × Choice) :=
  (.wrk 1, .call .destroy) :: List.replicate 3 (.wrk 1, .go) ++
    [(.ext 1, .call .destroy), (.ext 1, .go)]

/-- The callback detaches its worker, which releases the client at its end. -/
def detachedTurns : List (Tid (Fin 2) × Choice) :=
  startTurns (.ext 0) ++ connectTurns 1 ++ refusedTurns ++ List.replicate 18 (.wrk 1, .go)

theorem no_destroy_lost_detached : ∃ s, (client (Fin 2) allCallbacks).turnsBy ClaimKept
      (client (Fin 2) allCallbacks).system.init detachedTurns = some s ∧
    s.core.life.trace = [.release, .complete 1, .cancelDestroy, .cancel, .detach 1,
      .destroyReturned, .refused, .spawn 1, .cancelInit] ∧ NoDestroyLost s.core := by
  obtain ⟨s, hs, htrace⟩ := Option.map_eq_some_iff.mp
    (show ((client (Fin 2) allCallbacks).turnsBy ClaimKept
        (client (Fin 2) allCallbacks).system.init detachedTurns).map
          (fun s => s.core.life.trace) =
      some [.release, .complete 1, .cancelDestroy, .cancel, .detach 1, .destroyReturned,
        .refused, .spawn 1, .cancelInit] by decide +kernel)
  exact ⟨s, hs, htrace, no_destroy_lost (Threads.reachBy_turnsBy .init hs)⟩

/-- The same with a stop that has begun to join the worker: the callback gives
its claim back, and the worker is joined. -/
def lostTurns : List (Tid (Fin 2) × Choice) :=
  startTurns (.ext 0) ++ connectTurns 1 ++ (.ext 0, .call .stop) :: List.replicate 2 (.ext 0, .go) ++
    refusedTurns ++ List.replicate 18 (.wrk 1, .go) ++ List.replicate 4 (.ext 0, .go)

/-- Everything is at rest after a destroy, and the client is still there. -/
theorem no_destroy_lost_fails :
    ¬ ∀ s, (client (Fin 2) allCallbacks).system.Reach s → NoDestroyLost s.core := by
  intro hall
  obtain ⟨s, hs, hend⟩ := Option.map_eq_some_iff.mp
    (show ((client (Fin 2) allCallbacks).turns (client (Fin 2) allCallbacks).system.init
        lostTurns).map (fun s => (decide (∀ i, s.core.api (.ext i) = .idle),
          s.core.wrk s.core.life.workerThread,
          decide (LifeEvent.destroyReturned ∈ s.core.life.trace), s.core.life.registered)) =
      some (true, .exited, true, true) by decide +kernel)
  simp only [Prod.mk.injEq, decide_eq_true_eq] at hend
  obtain ⟨hext, hwrk, hret, hreg⟩ := hend
  have hreach := Threads.reach_turns .init hs
  have hquiet : Quiescent s.core := by
    constructor
    · intro t
      cases t with
      | ext i => exact hext i
      | wrk g => exact (workers_ended hreach hwrk g).2
    · intro g
      exact (workers_ended hreach hwrk g).1
  have hgone := (hall s hreach hquiet hret).1
  rw [hreg] at hgone
  cases hgone

end Savvy.MgrIpc
