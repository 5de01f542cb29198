import OutboxCluster.Outbox

/-!
# Batches

Events that a worker has in hand. A batch remembers for which agent and which
shard it was found, because it may be handed on only by that agent and only as
long as that shard is its own. A batch that fails is kept as it is, whatever
happens to the outbox meanwhile; only the number of its failures changes.

## Main definitions

* `Batch`: Events in hand.
* `Batch.failed`: The batch after another failure.
-/

namespace OutboxCluster

/-- Events in hand, with the agent and the shard that they were found for. -/
structure Batch where
  events : List OutboxEvent
  agentId : Option Int
  assignment : Option Assignment
  /-- How often the batch has failed. -/
  attempts : Nat := 0
deriving DecidableEq, Repr

namespace Batch

/-- The ids of the events. -/
def ids (b : Batch) : List Int := b.events.map (·.id)

/-- The batch after another failure. -/
def failed (b : Batch) : Batch := { b with attempts := b.attempts + 1 }

end Batch

end OutboxCluster
