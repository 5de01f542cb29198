import OutboxCluster.Batch
import OutboxCluster.Link
import OutboxCluster.Notice
import OutboxCluster.Sink

/-!
# The Journal

What happens in a cluster, as a list: what nodes report, when their workers
pulse, when their cycles begin and end, which events they find, what their
sinks do with them, and which events are deleted. The newest entry comes first,
so that adding one is a constructor. Where a worker acts for its agent, the
entry keeps what it knew of the agent at that instant.

Nothing reads the journal back. It is what an observer sees, and what
statements about whole runs are about.

## Main definitions

* `Stamp`: Who did something, and when.
* `Entry`: What happened.
* `Journal`: All that happened.
-/

namespace OutboxCluster

/-- Who did something, and when. -/
structure Stamp where
  node : String
  worker : String
  time : Nat
deriving DecidableEq, Repr

/-- What happened. -/
inductive Entry where
  | notice (n : Notice)
  /-- A pulse was made, whether or not it got through. -/
  | pulsed (who : Stamp)
  /-- A renewal was made, whether or not it got through. -/
  | renewed (who : Stamp)
  | cycleBegan (who : Stamp)
  /-- A cycle ended, and the next one comes after `wait` milliseconds. -/
  | cycleEnded (who : Stamp) (wait : Nat)
  /-- A search of the outbox within a shard, with the events that it found
      unless it failed. -/
  | searched (who : Stamp) (snapshot : Snapshot) (assignment : Option Assignment)
      (found : Option (List OutboxEvent))
  /-- A sink was given a batch. -/
  | began (who : Stamp) (snapshot : Snapshot) (batch : Batch)
  /-- A sink was done with a batch. -/
  | ended (who : Stamp) (batch : Batch) (ending : Ending)
  /-- The outbox was asked to delete the events of a batch. -/
  | deleting (who : Stamp) (snapshot : Snapshot) (batch : Batch)
  /-- Events were deleted: the ids that were asked for, and how many were
      there. -/
  | deleted (who : Stamp) (ids : List Int) (count : Nat)
deriving DecidableEq, Repr

/-- All that happened, newest first. -/
abbrev Journal := List Entry

namespace Journal

/-- Add what was reported, in order. -/
def addNotices (j : Journal) (ns : List Notice) : Journal :=
  (ns.map Entry.notice).reverse ++ j

/-- What was reported, oldest first. -/
def notices (j : Journal) : List Notice :=
  j.reverse.filterMap fun
    | .notice n => some n
    | _ => none

end Journal

end OutboxCluster
