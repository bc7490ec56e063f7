/-!
Status codes shared by every component (`savvy/core/error.h`).
-/

namespace Savvy

inductive Status
  | ok
  | invalidArgument
  | outOfMemory
  | io
  | protocol
  | timeout
  | notConnected
  | alreadyStarted
  | notStarted
  | closed
  | overflow
  | cancelled
  | unknown
  deriving DecidableEq, Repr, Inhabited

end Savvy
