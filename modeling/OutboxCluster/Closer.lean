import OutboxCluster.Error
import OutboxCluster.Notice

/-!
# Closing Resources

A shutdown closes several resources in turn. A step that fails does not keep
the later ones from running: its error is noted, and all errors are reported
together at the end, in the order of the steps.

## Main definitions

* `Closer`: The errors of the steps so far.
* `Closer.close`: One more step.
* `Closer.finish`: What the shutdown reports.
-/

namespace OutboxCluster

/-- The errors of the steps so far, and the notices about them. -/
structure Closer where
  errors : List CoordinationError := []
  notices : List Notice := []

namespace Closer

/-- One more step, with its outcome. -/
def close (c : Closer) (resource : String) : Except CoordinationError Unit → Closer
  | .ok () => c
  | .error e =>
    { errors := c.errors ++ [e], notices := c.notices ++ [.closeFailed resource] }

/-- What the shutdown reports: success, or the errors of all failed steps. -/
def finish (c : Closer) : Except CoordinationError Unit :=
  if c.errors.isEmpty then .ok () else .error (.shutdown c.errors)

/-- All steps, each with its resource and its outcome. -/
def closeAll (steps : List (String × Except CoordinationError Unit)) : Closer :=
  steps.foldl (fun c (resource, outcome) => c.close resource outcome) {}

end Closer

end OutboxCluster
