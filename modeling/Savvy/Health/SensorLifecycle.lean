import Savvy.Core.Lifecycle
import Savvy.Core.Status
import Savvy.Kit.System

/-!
The registry of modules (`src/features/health/sensor_lifecycle.c`). A start, a
stop and a configuration notice each call one hook of every module, over a
snapshot of the registry and with no lock held, so a hook may call any function
of the registry again: the fan-outs in progress form a stack, the innermost one
in front. What a hook does is not the registry's code. It is any sequence of
calls, and then a return.
-/

namespace Savvy.Health

inductive Hook
  | onStart
  | onConfigApplied
  | onShutdown
  deriving DecidableEq, Repr

/-- The state that a start or a shutdown notice stands for. -/
def Hook.announces : Hook → Option Lifecycle
  | .onStart => some .running
  | .onConfigApplied => none
  | .onShutdown => some .stopped

/-- `sensor_lifecycle_hooks_t`: the name, and which of the hooks are set. -/
structure Hooks where
  moduleId : Option String
  onStart : Bool
  onConfigApplied : Bool
  onShutdown : Bool

def Hooks.has (m : Hooks) : Hook → Bool
  | .onStart => m.onStart
  | .onConfigApplied => m.onConfigApplied
  | .onShutdown => m.onShutdown

def maxModules : ℕ := 16

/-- `sensor_lifecycle_t`. The depth is far below `SIZE_MAX`, as each of its levels
is a call on the stack of the thread. -/
structure SensorLifecycle where
  base : Lifecycle
  modules : List Hooks
  callbackDepth : ℕ
  count_le : modules.length ≤ maxModules

namespace SensorLifecycle

def init : SensorLifecycle := ⟨.stopped, [], 0, Nat.zero_le _⟩

def registerModule (lc : SensorLifecycle) (hooks : Hooks) : Status × SensorLifecycle :=
  if hooks.moduleId = none then (.invalidArgument, lc)
  else if h : maxModules ≤ lc.modules.length then (.overflow, lc)
  else
    (.ok,
      { lc with
        modules := lc.modules ++ [hooks]
        count_le := by
          rw [List.length_append]
          exact Nat.lt_of_not_le h })

def snapshotModules (lc : SensorLifecycle) : List Hooks × SensorLifecycle :=
  (lc.modules, { lc with callbackDepth := lc.callbackDepth + 1 })

def finishModuleSnapshot (lc : SensorLifecycle) : SensorLifecycle :=
  { lc with callbackDepth := lc.callbackDepth - 1 }

end SensorLifecycle

/-- A loop over a snapshot: the hook it calls and its index. While the hook of the
module at the index runs, the loop is inside it. -/
structure Fanout where
  hook : Hook
  snapshot : List Hooks
  i : ℕ
  inside : Bool

/-- What happened: a transition of the state, or the call of a hook of the module
with that place in the registry. -/
inductive Event
  | transition (base : Lifecycle)
  | called (hook : Hook) (module : ℕ)

/-- The registry with the fan-outs in progress, and what happened so far, the
oldest first. -/
structure Daemon where
  lc : SensorLifecycle
  stack : List Fanout
  destroyed : Bool
  log : List Event

inductive Call
  | registerModule (hooks : Hooks)
  | start
  | notifyConfigApplied
  | stop
  | destroy

/-- A call by the owner of the registry or by the hook that runs, a turn of the
innermost loop, or the return of the innermost hook. -/
inductive Action
  | call (c : Call)
  | next
  | ret

namespace Daemon

/-- The snapshot is taken, and the loop is in front of its first module. -/
def fanOut (s : Daemon) (hook : Hook) : Daemon :=
  { s with
    lc := s.lc.snapshotModules.2
    stack := ⟨hook, s.lc.snapshotModules.1, 0, false⟩ :: s.stack }

/-- The new state, and behind a transition the fan-out that tells it. -/
def settle (s : Daemon) (hook : Hook) : Bool × Lifecycle → Daemon
  | (false, base) => { s with lc := { s.lc with base := base } }
  | (true, base) =>
      fanOut { s with lc := { s.lc with base := base }, log := s.log ++ [.transition base] } hook

/-- `sensor_lifecycle_start`, up to the first turn of its loop. -/
def start (s : Daemon) : Daemon := s.settle .onStart s.lc.base.start

/-- `sensor_lifecycle_stop`, up to the first turn of its loop. -/
def stop (s : Daemon) : Daemon := s.settle .onShutdown s.lc.base.stop

/-- `sensor_lifecycle_destroy`, which refuses while a fan-out is in progress. -/
def destroy (s : Daemon) : Daemon :=
  if s.lc.callbackDepth ≠ 0 then s else { s with destroyed := true }

/-- What a call does before it returns or starts its loop. -/
def call (s : Daemon) : Call → Daemon
  | .registerModule hooks => { s with lc := (s.lc.registerModule hooks).2 }
  | .start => s.start
  | .notifyConfigApplied => s.fanOut .onConfigApplied
  | .stop => s.stop
  | .destroy => s.destroy

/-- Whether it is the turn of the owner, or of a hook, and not of a loop. -/
def idle (s : Daemon) : Bool :=
  match s.stack with
  | [] => true
  | f :: _ => f.inside

/-- The test of the loop and what it does with one module: its hook is called if
it is set, and behind the last module the fan-out is finished. -/
def turn (s : Daemon) (f : Fanout) (rest : List Fanout) : Daemon :=
  match f.snapshot[f.i]? with
  | none => { s with lc := s.lc.finishModuleSnapshot, stack := rest }
  | some m =>
      if m.has f.hook then
        { s with
          stack := { f with inside := true } :: rest
          log := s.log ++ [.called f.hook f.i] }
      else { s with stack := { f with i := f.i + 1 } :: rest }

def step (s : Daemon) : Action → Option Daemon
  | .call c => if s.idle = true ∧ s.destroyed = false then some (s.call c) else none
  | .next =>
      match s.stack with
      | [] => none
      | f :: rest => if f.inside then none else some (s.turn f rest)
  | .ret =>
      match s.stack with
      | [] => none
      | f :: rest =>
          if f.inside then
            some { s with stack := { f with i := f.i + 1, inside := false } :: rest }
          else none

end Daemon

/-- The registry from its initialisation on. -/
def daemon : Kit.System Daemon Action := ⟨⟨.init, [], false, []⟩, Daemon.step⟩

namespace Daemon

variable {s s' : Daemon} {a : Action}

inductive Stepped (s : Daemon) : Action → Daemon → Prop
  | call (c : Call) (hidle : s.idle = true) (hlive : s.destroyed = false) :
      Stepped s (.call c) (s.call c)
  | turn (f : Fanout) (rest : List Fanout) (hstack : s.stack = f :: rest)
      (hinside : f.inside = false) : Stepped s .next (s.turn f rest)
  | ret (f : Fanout) (rest : List Fanout) (hstack : s.stack = f :: rest)
      (hinside : f.inside = true) :
      Stepped s .ret { s with stack := { f with i := f.i + 1, inside := false } :: rest }

theorem stepped_of_step (h : s.step a = some s') : Stepped s a s' := by
  cases a with
  | call c =>
      obtain ⟨⟨hidle, hlive⟩, rfl⟩ := Option.ite_none_right_eq_some.mp h |>.imp id Option.some.inj
      exact .call c hidle hlive
  | next =>
      simp only [step] at h
      split at h
      · cases h
      · next f rest hstack =>
          obtain ⟨hinside, hs⟩ := Option.ite_none_left_eq_some.mp h
          obtain rfl := Option.some.inj hs
          exact .turn f rest hstack (Bool.not_eq_true _ ▸ hinside)
  | ret =>
      simp only [step] at h
      split at h
      · cases h
      · next f rest hstack =>
          obtain ⟨hinside, hs⟩ := Option.ite_none_right_eq_some.mp h
          obtain rfl := Option.some.inj hs
          exact .ret f rest hstack hinside

end Daemon

end Savvy.Health
