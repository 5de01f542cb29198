import OutboxCluster.Error

/-!
# Faults

Any use of the shared tables can fail, and some can take time. Which use fails
next is not decided by the tables but by a plan, so that a statement about
failures can quantify over plans. A plan arms some points: the next few uses of
an armed point fail with a given error, and later ones succeed again. Arming a
point replaces what was planned for it before.

## Main definitions

* `UsePoint`: The uses that can fail or take time.
* `Faults`: A plan.
* `Faults.strike`: One use of a point.
-/

namespace OutboxCluster

/-- The uses of the shared tables that can fail or take time. -/
inductive UsePoint where
  /-- Opening a session. -/
  | begin
  | list
  | create
  | update
  /-- An update that writes nothing and finds no record. -/
  | updateLost
  | deleteAgents
  | commit
  /-- Searching the outbox. -/
  | find
  /-- Deleting events, before they are gone. -/
  | deleteEvents
  /-- Deleting events, after they are gone. -/
  | afterDeleteEvents
  | closeAgents
  | closeFinders
deriving DecidableEq, Repr

/-- Which uses fail, and how long uses take. -/
structure Faults where
  /-- The points that fail, each with a number of times and an error. -/
  armed : List (UsePoint × Nat × StoreError) := []
  /-- The points that take time, in milliseconds. -/
  delays : List (UsePoint × Nat) := []

namespace Faults

/-- Let the next `times` uses of a point fail. -/
def arm (f : Faults) (point : UsePoint) (times : Nat) (error : StoreError) : Faults :=
  { f with armed := (point, times, error) :: f.armed.filter (·.1 ≠ point) }

/-- Let every use of a point take some time. -/
def slow (f : Faults) (point : UsePoint) (ms : Nat) : Faults :=
  { f with delays := (point, ms) :: f.delays.filter (·.1 ≠ point) }

/-- How long a use of a point takes. -/
def delay (f : Faults) (point : UsePoint) : Nat :=
  ((f.delays.find? (·.1 = point)).map (·.2)).getD 0

/-- One use of a point: the error it fails with, if it does, and what is left
    of the plan. -/
def strike (f : Faults) (point : UsePoint) : Option StoreError × Faults :=
  match f.armed.find? (·.1 = point) with
  | some (_, times + 1, error) => (some error, f.arm point times error)
  | _ => (none, f)

end Faults

end OutboxCluster
