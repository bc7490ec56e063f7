/-!
The two-state lifecycle guard (`src/core/lifecycle.c`). Each function is one
section of its lock; `start` and `stop` also say whether they were the call
that made the transition.
-/

namespace Savvy

/-- `savvy_lifecycle_state_t`. -/
inductive Lifecycle
  | stopped
  | running
  deriving DecidableEq, Repr

namespace Lifecycle

def start (lc : Lifecycle) : Bool × Lifecycle := (lc == .stopped, .running)

def stop (lc : Lifecycle) : Bool × Lifecycle := (lc == .running, .stopped)

end Lifecycle

end Savvy
