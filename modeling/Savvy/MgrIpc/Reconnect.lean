import Savvy.Kit.Streak
import Savvy.MgrIpc.Callbacks

/-!
The flag `was_reconnect` of `on_connected`. It is what the reconnect tracker says
before the connection is noted there. `start` initialises the tracker anew, so
the flag marks the first connection of the client's lifetime only as long as no
`start` gets that far on a client that has been connected.
-/

namespace Savvy.MgrIpc

open Kit

/-- The flags that `on_connected` was invoked with, the oldest first. -/
def reconnects : List IoEvent → List Bool
  | [] => []
  | .callback .connected wasReconnect :: es => reconnects es ++ [wasReconnect]
  | _ :: es => reconnects es

def FirstOnly (flags : List Bool) : Prop :=
  ∀ i wasReconnect, flags[i]? = some wasReconnect → (wasReconnect = true ↔ 0 < i)

/-- No `start` initialises the tracker of a client that has been connected. -/
def TrackerKept {ι : Type*} (s : Client ι) (_ : Tid ι) (c : Choice) : Prop :=
  c = .start .created ∨ c = .start .createFailed → s.link.hasConnectedBefore = false

instance {ι : Type*} (s : Client ι) (t : Tid ι) (c : Choice) : Decidable (TrackerKept s t c) :=
  inferInstanceAs (Decidable (_ → _))

theorem firstOnly_nil : FirstOnly [] := by
  intro i b h
  cases h

theorem FirstOnly.concat {flags : List Bool} {b : Bool} (h : FirstOnly flags)
    (hb : b = true ↔ flags ≠ []) : FirstOnly (flags ++ [b]) :=
  forall_getElem?_concat.mpr ⟨h, hb.trans List.length_pos_iff.symm⟩

namespace Client

variable {ι : Type*} {cfg : Config} {s s' : Client ι} {c : Choice}

/-- What a step does to the tracker and to the flags: nothing, a connection, or a
new start. -/
inductive Tracks (cfg : Config) (s : Client ι) (c : Choice) (s' : Client ι) : Prop
  | same (htracker : s'.link.hasConnectedBefore = s.link.hasConnectedBefore)
      (hflags : reconnects s'.link.trace = reconnects s.link.trace)
  | connected (htracker : s'.link.hasConnectedBefore = true)
      (hflags : reconnects s'.link.trace =
        reconnects s.link.trace ++ if cfg.onConnected then [s.link.hasConnectedBefore] else [])
  | started (hstart : c = .start .created ∨ c = .start .createFailed)
      (htracker : s'.link.hasConnectedBefore = false)
      (hflags : reconnects s'.link.trace = reconnects s.link.trace)

theorem tracks_apiStep [DecidableEq ι] {t : Tid ι} (h : s.apiStep t c = some s') :
    Tracks cfg s c s' := by
  by_cases hq : touches (s.api t) = false
  · have hlink := (apiStep_link hq h).1
    exact .same (by rw [hlink]) (by rw [hlink])
  · cases moves_of_apiStep h with
    | @startCreate o =>
        cases o with
        | initFailed => exact .same rfl rfl
        | createFailed => exact .started (.inr rfl) rfl rfl
        | created => exact .started (.inl rfl) rfl rfl
    | stopMarkSelf | stopMark =>
        unfold markTransportStopping
        split <;> exact .same rfl rfl
    | sendState =>
        unfold sendState
        split <;> exact .same rfl rfl
    | sendLock => exact .same rfl rfl
    | sendCall => exact .same rfl rfl
    | _ =>
        rename_i hpc
        exact absurd (by rw [hpc]; rfl) hq

theorem tracks_workerStep {g : ℕ} (h : workerStep cfg s g c = some s') : Tracks cfg s c s' := by
  cases moves_of_workerStep h
  case hsDone =>
    unfold hsDone
    split
    · unfold notify
      split
      · next hset =>
          have hon : cfg.onConnected = true := hset
          refine .connected rfl ?_
          rw [hon]
          rfl
      · next hunset =>
          have hoff : cfg.onConnected = false := Bool.not_eq_true _ ▸ hunset
          refine .connected rfl ?_
          rw [hoff]
          exact (List.append_nil _).symm
    · exact .same rfl rfl
  all_goals try simp only [shutdownBranch, setTransport, hsState, recvState, recvCall, closeLock,
    closeCall, afterClose, notify, fin1, fin3, unregister]
  all_goals repeat' split
  all_goals exact .same rfl rfl

theorem tracks_body [DecidableEq ι] {t : Tid ι} (h : s.body cfg t c = some s') :
    Tracks cfg s c s' := by
  rcases body_cases h with ⟨g, k, -, -, -, rfl⟩ | ⟨-, hstep⟩ | ⟨g, -, -, hstep⟩
  · exact .same rfl rfl
  · exact tracks_apiStep hstep
  · exact tracks_workerStep hstep

/-- The tracker knows whether there was a connection, and the flags so far are
right. -/
structure Tracked (cfg : Config) (s : Client ι) : Prop where
  fresh : s.link.hasConnectedBefore = false → reconnects s.link.trace = []
  marked : s.link.hasConnectedBefore = true → cfg.onConnected = true →
    reconnects s.link.trace ≠ []
  flags : FirstOnly (reconnects s.link.trace)

theorem Tracked.step {t : Tid ι} (h : Tracked cfg s) (hkept : TrackerKept s t c)
    (htracks : Tracks cfg s c s') : Tracked cfg s' := by
  cases htracks with
  | same htracker hflags =>
      refine ⟨?_, ?_, ?_⟩
      · rw [htracker, hflags]
        exact h.fresh
      · rw [htracker, hflags]
        exact h.marked
      · rw [hflags]
        exact h.flags
  | started hstart htracker hflags =>
      refine ⟨fun _ => ?_, fun hmarked => ?_, ?_⟩
      · rw [hflags]
        exact h.fresh (hkept hstart)
      · rw [htracker] at hmarked
        cases hmarked
      · rw [hflags]
        exact h.flags
  | connected htracker hflags =>
      refine ⟨fun hfresh => ?_, fun _ hon => ?_, ?_⟩
      · rw [htracker] at hfresh
        cases hfresh
      · rw [hflags, hon]
        simp
      · rw [hflags]
        split
        · next hon =>
            refine h.flags.concat ⟨fun hb => h.marked hb hon, fun hne => ?_⟩
            by_contra hb
            exact hne (h.fresh (Bool.not_eq_true _ ▸ hb))
        · rw [List.append_nil]
          exact h.flags

end Client

open Client

variable {ι : Type*} [DecidableEq ι] {cfg : Config}

/-- In every run in which no `start` initialises the tracker of a client that has
been connected, `on_connected` is told of a reconnect by every call but the very
first. -/
theorem reconnect_flags {s : Locked (Client ι) (Tid ι) Lock}
    (h : (client ι cfg).system.ReachBy (Threads.onMoves TrackerKept) s) :
    FirstOnly (reconnects s.core.link.trace) := by
  have hinit : Tracked cfg (created : Client ι) :=
    ⟨fun _ => rfl, fun hb => absurd hb Bool.false_ne_true, firstOnly_nil⟩
  refine (System.ReachBy.invariant (I := fun s => Tracked cfg s.core) hinit ?_ h).flags
  intro s a s' htracked hok hstep
  cases a with
  | acquire t =>
      obtain ⟨l, -, -, rfl⟩ := Threads.lockStep_acquire hstep
      exact htracked
  | move t c =>
      obtain ⟨-, hbody, -⟩ := Threads.lockStep_move hstep
      have hkept : TrackerKept s.core t c := hok
      exact htracked.step hkept (tracks_body hbody)

/-- The connection of the first worker is lost, and it connects again. -/
def lossTurns : List (Tid Unit × Choice) :=
  startTurns (.ext ()) ++ connectTurns 1 ++ List.replicate 4 (.wrk 1, .go) ++
    [(.wrk 1, .recv .broken)] ++ List.replicate 4 (.wrk 1, .go) ++ connectTurns 1

theorem reconnect_flags_loss : ∃ s, (client Unit allCallbacks).turnsBy TrackerKept
      (client Unit allCallbacks).system.init lossTurns = some s ∧
    reconnects s.core.link.trace = [false, true] ∧ FirstOnly (reconnects s.core.link.trace) := by
  obtain ⟨s, hs, hend⟩ := Option.map_eq_some_iff.mp
    (show ((client Unit allCallbacks).turnsBy TrackerKept (client Unit allCallbacks).system.init
        lossTurns).map (fun s => reconnects s.core.link.trace) = some [false, true] by
      decide +kernel)
  exact ⟨s, hs, hend, reconnect_flags (Threads.reachBy_turnsBy .init hs)⟩

/-- A client connects, is stopped, and connects again behind a new start. -/
def againTurns : List (Tid Unit × Choice) :=
  startTurns (.ext ()) ++ connectTurns 1 ++ [(.wrk 1, .go)] ++
    (.ext (), .call .stop) :: List.replicate 3 (.ext (), .go) ++
    List.replicate 11 (.wrk 1, .go) ++ List.replicate 3 (.ext (), .go) ++
    startTurns (.ext ()) ++ connectTurns 2

/-- The second connection is announced as a first one. -/
theorem reconnect_flags_fail :
    ∃ s, (client Unit allCallbacks).system.Reach s ∧
      reconnects s.core.link.trace = [false, false] ∧
      ¬ FirstOnly (reconnects s.core.link.trace) := by
  obtain ⟨s, hs, hend⟩ := Option.map_eq_some_iff.mp
    (show ((client Unit allCallbacks).turns (client Unit allCallbacks).system.init
        againTurns).map (fun s => reconnects s.core.link.trace) = some [false, false] by
      decide +kernel)
  refine ⟨s, Threads.reach_turns .init hs, hend, fun hfirst => ?_⟩
  have hsecond := (hfirst 1 false (by rw [hend]; rfl)).mpr (by decide)
  cases hsecond

end Savvy.MgrIpc
