import OutboxCluster.Agent
import OutboxCluster.Clock

/-!
# Links to the Cluster

A link keeps one agent in the cluster. What the rest of the node may know about
the agent is its `Snapshot`: the id of its record, its state and assignment, and
the instant of the monotonic clock after which its lease may be lost. An agent
may process events only while it is running and before that instant.

This module holds the link and the two decisions an agent makes about itself
from the live records. Under dynamic sharding the target is the own position
among the live ids. An agent that finds a new target records it and waits; it
runs on a later decision, once every running peer has the same total and another
index. Under static sharding the shard is configured. The agent waits while a
peer records another total, or while a peer with a smaller id claims the same
shard.

## Main definitions

* `Snapshot`, `Snapshot.canProcess`: What a node knows about its agent.
* `Link`: An agent and how it takes part.
* `decideDynamic`, `decideStatic`: The two decisions.
* `Link.leaseEnd`: The lease that an agent writes.
-/

namespace OutboxCluster

/-- What a node knows about its agent. -/
structure Snapshot where
  agentId : Option Int := none
  state : AgentState := .starting
  assignment : Option Assignment := none
  /-- The monotonic instant after which the lease may be lost. -/
  leaseDeadline : Option Nat := none
deriving DecidableEq, Repr

namespace Snapshot

/-- Whether events may be processed at an instant. -/
def canProcess (s : Snapshot) (now : Nat) : Bool :=
  s.state == .running && s.leaseDeadline.any (now < ·)

/-- What is known of an agent that has left. -/
def departed : Snapshot := { state := .suspended }

end Snapshot

/-- An agent and how it takes part in the cluster. -/
structure Link where
  name : String
  role : String
  /-- The configured shard; without one the agent shares the shards out with
      its peers. -/
  configured : Option Assignment
  /-- How long a lease lasts, in milliseconds. -/
  expiration : Nat
  /-- The id of the record that the agent takes for its own. -/
  selfId : Option Int := none
  /-- Whether the conflict that the agent waits for has been reported. -/
  conflictReported : Bool := false
  /-- Failures since the last success. -/
  failures : Nat := 0
  snapshot : Snapshot := {}

/-- The role of an agent that hands on events. -/
def eventProcessorRole : String := "event-processor"

/-- Whether a peer leaves the shard `target` to the agent. One that runs must
    have the same total and another index. -/
def Agent.leaves (peer : Agent) (target : Option Assignment) : Bool :=
  match peer.state with
  | .running => peer.total == target.map (·.total) && peer.assignment != target
  | .starting | .suspended => true

/-- The decision under dynamic sharding, from the live ids in ascending order
    and the live peers. -/
def decideDynamic (me : Agent) (liveIds : List Int) (peers : List Agent) : Agent :=
  let target := dynamicAssignment liveIds me.id
  if me.assignment ≠ target then
    { me.withAssignment target with state := .starting }
  else if peers.all (·.leaves target) then
    { me with state := .running }
  else
    { me with state := .starting }

/-- Whether a peer stands in the way of the configured shard of the agent with
    this id. -/
def Agent.blocks (peer : Agent) (configured : Assignment) (id : Int) : Bool :=
  peer.total.any (· != configured.total) ||
    (peer.id < id && peer.assignment == some configured)

/-- The decision under static sharding, and the first peer that stands in the
    way. -/
def decideStatic (me : Agent) (configured : Assignment) (peers : List Agent) :
    Agent × Option Agent :=
  let blocker := peers.find? (·.blocks configured me.id)
  let state : AgentState := if blocker.isSome then .starting else .running
  ({ me.withAssignment (some configured) with state }, blocker)

namespace Link

/-- The end of a lease that is written at `now`: it stops at the largest
    reading of the clock. -/
def leaseEnd (l : Link) (now : Int) : Int :=
  saturate (now + min (l.expiration : Int) maxReading)

/-- The link after a failed attempt at `now`. The agent goes on as before,
    unless its lease may be lost. -/
def afterFailure (l : Link) (now : Nat) : Link :=
  let lapsed := l.snapshot.leaseDeadline.any (· ≤ now)
  { l with
    failures := l.failures + 1
    snapshot := if lapsed then { l.snapshot with state := .suspended } else l.snapshot }

/-- Whether a failed attempt at `now` suspends the agent. -/
def lapsesAt (l : Link) (now : Nat) : Bool :=
  l.snapshot.leaseDeadline.any (· ≤ now) && l.snapshot.state != .suspended

end Link

end OutboxCluster
