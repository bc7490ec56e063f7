import Savvy.MgrIpc.Steps

/-!
What a step of the client leaves alone. The other threads stay where they are,
except that a broadcast may move them on from a wait, and so the locks are used
as `Kit.Threads` asks for.
-/

namespace Savvy.MgrIpc

open Kit

def Api.Woken (pc pc' : Api) : Prop :=
  pc' = pc ∨ pc' = pc.wakeShutdown ∨ pc' = pc.wakeRegistry

def Wrk.Woken (pc pc' : Wrk) : Prop :=
  pc' = pc ∨ pc' = pc.wakeShutdown ∨ pc' = pc.wakeRegistry

theorem Api.Woken.holds {pc pc' : Api} (h : pc.Woken pc') : pc'.holds = pc.holds := by
  rcases h with rfl | rfl | rfl
  · rfl
  · cases pc <;> rfl
  · cases pc <;> rfl

theorem Api.Woken.needs {pc pc' : Api} (h : pc.Woken pc') {l : Lock} (hl : pc.needs = some l) :
    pc'.needs = some l := by
  rcases h with rfl | rfl | rfl
  · exact hl
  · cases pc <;> first | exact hl | cases hl
  · cases pc <;> first | exact hl | cases hl

theorem Api.Woken.idle {pc : Api} (h : Api.idle.Woken pc) : pc = .idle := by
  rcases h with rfl | rfl | rfl <;> rfl

theorem Wrk.Woken.holds {pc pc' : Wrk} (h : pc.Woken pc') : pc'.holds = pc.holds := by
  rcases h with rfl | rfl | rfl
  · rfl
  · cases pc <;> rfl
  · cases pc <;> rfl

theorem Wrk.Woken.needs {pc pc' : Wrk} (h : pc.Woken pc') {l : Lock} (hl : pc.needs = some l) :
    pc'.needs = some l := by
  rcases h with rfl | rfl | rfl
  · exact hl
  · cases pc <;> first | exact hl | cases hl
  · cases pc <;> first | exact hl | cases hl

theorem Wrk.Woken.absent {pc : Wrk} (h : Wrk.absent.Woken pc) : pc = .absent := by
  rcases h with rfl | rfl | rfl <;> rfl

theorem Wrk.Woken.callback {pc pc' : Wrk} (h : pc.Woken pc') {k : Callback} :
    pc' = .callback k ↔ pc = .callback k := by
  rcases h with rfl | rfl | rfl
  · rfl
  · cases pc <;> simp [Wrk.wakeShutdown]
  · cases pc <;> simp [Wrk.wakeRegistry]

@[simp] theorem Api.holds_first (op : Op) : (Api.first op).holds = [] := by
  cases op <;> rfl

@[simp] theorem Api.holds_stopped (k : StopFor) : (Api.stopped k).holds = [] := by
  cases k <;> rfl

@[simp] theorem Api.holds_stopFailed (k : StopFor) : (Api.stopFailed k).holds = [] := by
  cases k <;> rfl

namespace Client

variable {ι : Type*} [DecidableEq ι] {s s' : Client ι} {t u : Tid ι} {c : Choice}

/-- The other threads only notice the broadcasts of a call. -/
theorem apiStep_api (h : s.apiStep t c = some s') (hu : u ≠ t) : (s.api u).Woken (s'.api u) := by
  cases moves_of_apiStep h
  all_goals try simp only [enter, unpin, returned, noteDestroy, startTop, startCheck, startRelock,
    startCreate, startPrepare, requestShutdown, stopEntry, stopWoken, markTransportStopping,
    stopFinish, sendState, claimRegistry, selfCheck, unclaimRegistry, drainTest, unregister, note,
    noteIo]
  all_goals repeat' split
  all_goals simp [goto, hu, Api.Woken, broadcastShutdown, broadcastRegistry, run]

/-- A call does not move the workers, except that it may create one. -/
theorem apiStep_wrk (h : s.apiStep t c = some s') :
    (s'.life.workerThread = s.life.workerThread ∧ ∀ g, (s.wrk g).Woken (s'.wrk g)) ∨
      s.api t = .startCreate ∧ s'.life.workerThread = s.life.workerThread + 1 ∧
        s'.wrk = Function.update s.wrk (s.life.workerThread + 1) .top := by
  cases moves_of_apiStep h
  case startCreate o hpc =>
    cases o with
    | created => exact .inr ⟨hpc, rfl, rfl⟩
    | _ => exact .inl ⟨rfl, fun _ => .inl rfl⟩
  all_goals left
  all_goals try simp only [enter, unpin, returned, noteDestroy, startTop, startCheck, startRelock,
    requestShutdown, stopEntry, stopWoken, markTransportStopping, stopFinish, sendState,
    claimRegistry, selfCheck, unclaimRegistry, drainTest, unregister, note, noteIo]
  all_goals repeat' split
  all_goals simp [goto, Wrk.Woken, broadcastShutdown, broadcastRegistry]

@[simp] theorem goto_api (s : Client ι) (t : Tid ι) (pc : Api) : (s.goto t pc).api t = pc := by
  simp [goto]

theorem apiStep_keeps (h : s.apiStep t c = some s') {l : Lock} (hl : l ∈ (s'.api t).holds) :
    l ∈ (s.api t).holds ∨ (s.api t).needs = some l := by
  cases moves_of_apiStep h
  all_goals
    rename_i hpc
    rw [hpc]
  all_goals try simp only [enter, returned, startTop, startCheck, startRelock, stopEntry,
    stopWoken, stopFinish, sendState, claimRegistry, selfCheck, unclaimRegistry,
    drainTest, goto_api] at hl
  case startCreate o => cases o <;> simp [startCreate, Api.holds] at hl
  all_goals repeat' split at hl
  all_goals try simp only [goto_api, Api.holds_first, Api.holds_stopped, Api.holds_stopFailed,
    List.not_mem_nil] at hl
  all_goals simp_all [Api.holds, Api.needs]

variable {cfg : Config} {g g' : ℕ}

/-! ### The steps of a worker -/

omit [DecidableEq ι] in
/-- A worker outside its callbacks only wakes the calls. -/
theorem workerStep_api (h : workerStep cfg s g c = some s') (u : Tid ι) :
    (s.api u).Woken (s'.api u) := by
  cases moves_of_workerStep h
  all_goals try simp only [shutdownBranch, setTransport, hsState, hsDone, recvState, recvCall,
    closeLock, closeCall, afterClose, notify, fin1, fin3, unregister]
  all_goals repeat' split
  all_goals simp [run, note, noteIo, broadcastShutdown, Api.Woken]

omit [DecidableEq ι] in
theorem workerStep_wrk (h : workerStep cfg s g c = some s') (hg : g' ≠ g) :
    (s.wrk g').Woken (s'.wrk g') := by
  cases moves_of_workerStep h
  all_goals try simp only [shutdownBranch, setTransport, hsState, hsDone, recvState, recvCall,
    closeLock, closeCall, afterClose, notify, fin1, fin3, unregister]
  all_goals repeat' split
  all_goals simp [run, note, noteIo, broadcastShutdown, Wrk.Woken, hg]

omit [DecidableEq ι] in
@[simp] theorem run_wrk (s : Client ι) (g : ℕ) (pc : Wrk) : (s.run g pc).wrk g = pc := by
  simp [run]

omit [DecidableEq ι] in
@[simp] theorem holds_notify (cfg : Config) (s : Client ι) (g : ℕ) (k : Callback) (b : Bool) :
    ((notify cfg s g k b).wrk g).holds = [] := by
  unfold notify
  split
  · simp [Wrk.holds]
  · cases k <;> simp [Wrk.after, Wrk.holds]

omit [DecidableEq ι] in
@[simp] theorem holds_afterClose (cfg : Config) (s : Client ι) (g : ℕ) (k : CloseFor) :
    ((afterClose cfg s g k).wrk g).holds = [] := by
  cases k with
  | handshake => exact holds_notify cfg s g .lost false
  | session => exact holds_notify cfg s g .disconnected false
  | shutdown => simp [afterClose, Wrk.holds]
  | final => simp [afterClose, Wrk.holds]

omit [DecidableEq ι] in
theorem workerStep_keeps (h : workerStep cfg s g c = some s') {l : Lock}
    (hl : l ∈ (s'.wrk g).holds) : l ∈ (s.wrk g).holds ∨ (s.wrk g).needs = some l := by
  cases moves_of_workerStep h
  all_goals
    rename_i hpc
    rw [hpc]
  all_goals try simp only [shutdownBranch, hsState, hsDone, recvState, recvCall, closeLock,
    closeCall, fin1, fin3, run_wrk, holds_afterClose, List.not_mem_nil] at hl
  all_goals repeat' split at hl
  all_goals try simp only [holds_notify, holds_afterClose, run_wrk, List.not_mem_nil] at hl
  case closeLock.isTrue => simpa [Wrk.holds, Wrk.needs, eq_comm] using hl
  all_goals simp_all [Wrk.holds, Wrk.needs]

/-! ### The threads -/

/-- A worker that is not in a callback is in no call, and those that have not
been created are absent. -/
structure Tidy (s : Client ι) : Prop where
  calls {g : ℕ} (h : ∀ k, s.wrk g ≠ .callback k) : s.api (.wrk g) = .idle
  fresh {g : ℕ} (h : s.life.workerThread < g) : s.wrk g = .absent

omit [DecidableEq ι] in
theorem Tidy.created : (Client.created : Client ι).Tidy := ⟨fun _ => rfl, fun _ => rfl⟩

/-- A step of a worker is one of its call, or one outside its callbacks. -/
theorem body_cases (h : s.body cfg t c = some s') :
    (∃ g k, t = .wrk g ∧ s.wrk g = .callback k ∧ s.api t = .idle ∧ s' = s.run g (.after k)) ∨
    ((∀ g, t = .wrk g → ∃ k, s.wrk g = .callback k) ∧ s.apiStep t c = some s') ∨
    ∃ g, t = .wrk g ∧ (∀ k, s.wrk g ≠ .callback k) ∧ workerStep cfg s g c = some s' := by
  cases t with
  | ext i =>
      refine .inr (.inl ⟨?_, h⟩)
      intro g hg
      cases hg
  | wrk g =>
      simp only [body] at h
      split at h
      · next k hpc =>
          split at h
          · next hret =>
              cases h
              exact .inl ⟨g, k, rfl, hpc, hret.1, rfl⟩
          · refine .inr (.inl ⟨?_, h⟩)
            intro g' hg'
            cases hg'
            exact ⟨k, hpc⟩
      · next hnot => exact .inr (.inr ⟨g, rfl, hnot, h⟩)

omit [DecidableEq ι] in
theorem workerStep_workerThread (h : workerStep cfg s g c = some s') :
    s'.life.workerThread = s.life.workerThread ∧ s.wrk g ≠ .absent := by
  cases moves_of_workerStep h
  all_goals
    rename_i hpc
    rw [hpc]
    refine ⟨?_, by simp⟩
  all_goals try simp only [shutdownBranch, setTransport, hsState, hsDone, recvState, recvCall,
    closeLock, closeCall, afterClose, notify, fin1, fin3, unregister]
  all_goals repeat' split
  all_goals rfl

/-- A step of one thread only wakes the calls of the others. -/
theorem body_api (h : s.body cfg t c = some s') (hu : u ≠ t) : (s.api u).Woken (s'.api u) := by
  rcases body_cases h with ⟨g, k, -, -, -, rfl⟩ | ⟨-, hstep⟩ | ⟨g, -, -, hstep⟩
  · exact .inl rfl
  · exact apiStep_api hstep hu
  · exact workerStep_api hstep u

theorem Tidy.body (htidy : s.Tidy) (h : s.body cfg t c = some s') : s'.Tidy := by
  rcases body_cases h with ⟨g, k, rfl, hpc, hidle, rfl⟩ | ⟨hcall, hstep⟩ | ⟨g, rfl, hnot, hstep⟩
  · constructor
    · intro g' hg'
      by_cases hg : g' = g
      · subst hg
        exact hidle
      · refine htidy.calls fun k' hk' => hg' k' ?_
        simp [run, hg, hk']
    · intro g' hg'
      have hne : g' ≠ g := by
        rintro rfl
        have := htidy.fresh hg'
        rw [hpc] at this
        cases this
      simpa [run, hne] using htidy.fresh hg'
  · -- A worker outside its callbacks is not the one that moves.
    have hidle : ∀ g, (∀ k, s.wrk g ≠ .callback k) → s'.api (.wrk g) = .idle := by
      intro g hold
      have hne : Tid.wrk g ≠ t := by
        rintro rfl
        obtain ⟨k, hk⟩ := hcall g rfl
        exact hold k hk
      have := apiStep_api hstep hne
      rw [htidy.calls hold] at this
      exact this.idle
    rcases apiStep_wrk hstep with ⟨hw, hwake⟩ | ⟨-, hw, hwrk⟩
    · constructor
      · intro g hg
        exact hidle g fun k hk => hg k ((hwake g).callback.mpr hk)
      · intro g hg
        have := hwake g
        rw [htidy.fresh (hw ▸ hg)] at this
        exact this.absent
    · have habs := htidy.fresh (Nat.lt_succ_self s.life.workerThread)
      constructor
      · intro g hg
        apply hidle
        intro k hk
        have hne : g ≠ s.life.workerThread + 1 := by
          rintro rfl
          rw [habs] at hk
          cases hk
        exact hg k (by rw [hwrk, Function.update_of_ne hne, hk])
      · intro g hg
        rw [hw] at hg
        rw [hwrk, Function.update_of_ne (by omega)]
        exact htidy.fresh (by omega)
  · obtain ⟨hw, hpresent⟩ := workerStep_workerThread hstep
    constructor
    · intro g' hg'
      have hwake := workerStep_api hstep (.wrk g')
      have hidle : s.api (.wrk g') = .idle := by
        by_cases hg : g' = g
        · subst hg
          exact htidy.calls hnot
        · exact htidy.calls fun k hk => hg' k ((workerStep_wrk hstep hg).callback.mpr hk)
      rw [hidle] at hwake
      exact hwake.idle
    · intro g' hg'
      rw [hw] at hg'
      have hne : g' ≠ g := by
        rintro rfl
        exact hpresent (htidy.fresh hg')
      have hwake := workerStep_wrk hstep hne
      rw [htidy.fresh hg'] at hwake
      exact hwake.absent

end Client

open Client

variable {ι : Type*} [DecidableEq ι] {cfg : Config}

/-- The other threads hold and need the locks they did. -/
theorem client_frame {s s' : Client ι} {t u : Tid ι} {c : Choice} (htidy : s.Tidy)
    (h : s.body cfg t c = some s') (hu : u ≠ t) :
    (s.api u).Woken (s'.api u) ∧ ∀ g, u = .wrk g → (s.wrk g).Woken (s'.wrk g) ∨
      s.wrk g = .absent ∧ s'.wrk g = .top := by
  refine ⟨body_api h hu, ?_⟩
  rcases body_cases h with ⟨g, k, rfl, -, -, rfl⟩ | ⟨-, hstep⟩ | ⟨g, rfl, -, hstep⟩
  · rintro g' rfl
    have hne : g' ≠ g := fun heq => hu (heq ▸ rfl)
    exact .inl (.inl (by simp [run, hne]))
  · rintro g' -
    rcases apiStep_wrk hstep with ⟨-, hwake⟩ | ⟨-, -, hwrk⟩
    · exact .inl (hwake g')
    · by_cases hg : g' = s.life.workerThread + 1
      · subst hg
        exact .inr ⟨htidy.fresh (Nat.lt_succ_self _), by simp [hwrk]⟩
      · exact .inl (.inl (by simp [hwrk, hg]))
  · rintro g' rfl
    have hne : g' ≠ g := fun heq => hu (heq ▸ rfl)
    exact .inl (workerStep_wrk hstep hne)

theorem apiStep_callback {s s' : Client ι} {g : ℕ} {c : Choice} {k : Callback} (htidy : s.Tidy)
    (hpc : s.wrk g = .callback k) (h : s.apiStep (.wrk g) c = some s') :
    s'.wrk g = .callback k := by
  rcases apiStep_wrk h with ⟨-, hwake⟩ | ⟨-, -, hwrk⟩
  · exact (hwake g).callback.mpr hpc
  · have hne : g ≠ s.life.workerThread + 1 := by
      rintro rfl
      rw [htidy.fresh (Nat.lt_succ_self _)] at hpc
      cases hpc
    rw [hwrk, Function.update_of_ne hne, hpc]

theorem client_keeps {s s' : Client ι} {t : Tid ι} {c : Choice} (htidy : s.Tidy)
    (h : s.body cfg t c = some s') {l : Lock} (hl : l ∈ s'.holds t) :
    l ∈ s.holds t ∨ s.needs t = some l := by
  rcases body_cases h with ⟨g, k, rfl, -, hidle, rfl⟩ | ⟨hcall, hstep⟩ | ⟨g, rfl, hnot, hstep⟩
  · have hnil : (s.run g (.after k)).holds (.wrk g) = [] := by
      have hafter : (Wrk.after k).holds = [] := by cases k <;> rfl
      have hapi : (s.run g (.after k)).api (.wrk g) = .idle := hidle
      simp [holds, hapi, hafter, Api.holds]
    rw [hnil] at hl
    cases hl
  · cases t with
    | ext i => exact apiStep_keeps hstep hl
    | wrk g =>
        obtain ⟨k, hpc⟩ := hcall g rfl
        have hl' : l ∈ (s'.api (.wrk g)).holds := by
          simpa [holds, apiStep_callback htidy hpc hstep, Wrk.holds] using hl
        rcases apiStep_keeps hstep hl' with hheld | hneed
        · exact .inl (List.mem_append_left _ hheld)
        · exact .inr (by simp [needs, hneed])
  · have hidle := htidy.calls hnot
    have hidle' : s'.api (.wrk g) = .idle := by
      have := workerStep_api hstep (.wrk g)
      rw [hidle] at this
      exact this.idle
    have hl' : l ∈ (s'.wrk g).holds := by
      simpa [holds, hidle', Api.holds] using hl
    rcases workerStep_keeps hstep hl' with hheld | hneed
    · exact .inl (List.mem_append_right _ hheld)
    · exact .inr (by simp [needs, hidle, Api.needs, hneed])

theorem client_lawful : (client ι cfg).Lawful Tidy where
  init_holds t := by
    cases t <;> rfl
  keeps htidy h _ hl := client_keeps htidy h hl
  frame_holds := by
    intro s s' t u c htidy h hu
    obtain ⟨hapi, hwrk⟩ := client_frame htidy h hu
    cases u with
    | ext i => exact hapi.holds
    | wrk g =>
        show (s'.api (.wrk g)).holds ++ (s'.wrk g).holds = (s.api (.wrk g)).holds ++ (s.wrk g).holds
        rw [hapi.holds]
        rcases hwrk g rfl with hwake | ⟨habs, htop⟩
        · rw [hwake.holds]
        · rw [habs, htop]
          rfl
  frame_needs := by
    intro s s' t u c htidy h hu l hl
    obtain ⟨hapi, hwrk⟩ := client_frame htidy h hu
    cases u with
    | ext i => exact hapi.needs hl
    | wrk g =>
        show (s'.api (.wrk g)).needs.or (s'.wrk g).needs = some l
        have hl' : (s.api (.wrk g)).needs.or (s.wrk g).needs = some l := hl
        by_cases hcall : ∀ k, s.wrk g ≠ .callback k
        · have hidle := htidy.calls hcall
          rw [hidle] at hapi hl'
          rw [hapi.idle]
          rcases hwrk g rfl with hwake | ⟨habs, -⟩
          · exact hwake.needs hl'
          · rw [habs] at hl'
            cases hl'
        · -- In a callback the worker itself needs no lock.
          simp only [not_forall, not_not] at hcall
          obtain ⟨k, hk⟩ := hcall
          have hneed : (s.api (.wrk g)).needs = some l := by
            simpa [hk, Wrk.needs] using hl'
          rw [hapi.needs hneed]
          rfl

/-- The order in which the mutexes are nested. -/
def Lock.rank : Lock → ℕ
  | .lifecycle => 0
  | .registry => 1
  | .state => 2
  | .io => 3

theorem Api.rank_lt {pc : Api} {l l' : Lock} (hl : l ∈ pc.holds) (hl' : pc.needs = some l') :
    l.rank < l'.rank := by
  cases pc <;> simp_all [Api.holds, Api.needs] <;> (subst hl hl'; decide)

theorem Wrk.rank_lt {pc : Wrk} {l l' : Lock} (hl : l ∈ pc.holds) (hl' : pc.needs = some l') :
    l.rank < l'.rank := by
  cases pc <;> simp_all [Wrk.holds, Wrk.needs] <;> (subst hl hl'; decide)

theorem client_ordered {s : Client ι} (htidy : s.Tidy) : (client ι cfg).Ordered Lock.rank s := by
  intro t l l' hl hl'
  cases t with
  | ext i => exact Api.rank_lt hl hl'
  | wrk g =>
      change l ∈ (s.api (.wrk g)).holds ++ (s.wrk g).holds at hl
      change (s.api (.wrk g)).needs.or (s.wrk g).needs = some l' at hl'
      by_cases hcall : ∀ k, s.wrk g ≠ .callback k
      · rw [htidy.calls hcall] at hl hl'
        exact Wrk.rank_lt hl hl'
      · simp only [not_forall, not_not] at hcall
        obtain ⟨k, hk⟩ := hcall
        rw [hk] at hl hl'
        exact Api.rank_lt (by simpa [Wrk.holds] using hl) (by simpa [Wrk.needs] using hl')

end Savvy.MgrIpc
