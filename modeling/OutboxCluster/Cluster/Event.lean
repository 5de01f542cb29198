import OutboxCluster.Cluster.Control

/-!
# Runs of a Cluster

Everything that can happen to a cluster, one thing at a time. Most of it comes
from outside and takes no time. The two events from inside are that a worker
takes its turn and that a millisecond goes by, and each of them happens only
when it may: a worker takes no turn before it goes on by itself, and no time
goes by while some worker has yet to take its turn. An event that may not
happen changes nothing, so every list of events is a run.

Nothing says which of several workers goes first, or which of several things that
a worker waits for it takes up first. A law about every run is therefore a law
about every order in which workers can act, and moving time on by
`Cluster.advance` is one of these orders.

## Main definitions

* `Cluster.Event`: What can happen.
* `Cluster.perform`: The cluster after an event, with its outcome.
* `Cluster.run`: The cluster after several events.
-/

namespace OutboxCluster

namespace Cluster

/-- What can happen to a cluster. -/
inductive Event where
  | addStrategy (host : Host) (settings : Settings) (separate : Bool)
  | addSingle (host : Host) (settings : Settings) (agent : String)
      (configured : Option Assignment)
  | start (node : String)
  | drain (node : String)
  | stop (node : String)
  | send (node : String) (raised : Bool)
  | dropSignal (node : String)
  | abort (node : String)
  | discard (node : String)
  | enqueue (keys : List String)
  | deleteEvents (ids : List Int)
  | putAgent (row : AgentRow)
  | deleteAgents (ids : List Int)
  | moveWall (node : String) (ms : Int)
  | arm (node : String) (point : UsePoint) (times : Nat) (error : StoreError)
  | slow (node : String) (point : UsePoint) (ms : Nat)
  /-- Worker `i` of node `n` takes its turn, if it goes on now, and passes over
      `skip` branches of its wait at first. -/
  | turn (n i : Nat) (skip : Nat := 0)
  /-- A millisecond goes by, if no worker goes on now. -/
  | tick

/-- Whether worker `i` of node `n` goes on now. -/
def isDue (c : Cluster) (n i : Nat) : Bool :=
  c.turns.any fun t => t.node == n && t.worker == i && t.due ≤ c.now

/-- Whether no worker goes on now, so that time can pass. -/
def isQuiet (c : Cluster) : Bool := c.turns.all fun t => c.now < t.due

/-- The cluster after an event, with its outcome. Most events always succeed. -/
def perform (c : Cluster) : Event → Except CoordinationError Unit × Cluster
  | .addStrategy host settings separate => (.ok (), c.addStrategy host settings separate)
  | .addSingle host settings agent configured =>
    match c.addSingle host settings agent configured with
    | .ok c => (.ok (), c)
    | .error e => (.error (.config e), c)
  | .start node => c.start node
  | .drain node => (.ok (), c.drain node)
  | .stop node => c.stop node
  | .send node raised => (.ok (), c.send node raised)
  | .dropSignal node => (.ok (), c.dropSignal node)
  | .abort node => (.ok (), c.abort node)
  | .discard node => (.ok (), c.discard node)
  | .enqueue keys => (.ok (), c.enqueue keys)
  | .deleteEvents ids => (.ok (), c.deleteEvents ids)
  | .putAgent row => (.ok (), c.putAgent row)
  | .deleteAgents ids => (.ok (), c.deleteAgents ids)
  | .moveWall node ms => (.ok (), c.moveWall node ms)
  | .arm node point times error => (.ok (), c.arm node point times error)
  | .slow node point ms => (.ok (), c.slow node point ms)
  | .turn n i skip => (.ok (), if c.isDue n i then c.resumeWorker n i skip else c)
  | .tick => (.ok (), if c.isQuiet then { c with now := c.now + 1 } else c)

/-- The cluster after several events. -/
def run (c : Cluster) (events : List Event) : Cluster :=
  events.foldl (fun c e => (c.perform e).2) c

end Cluster

end OutboxCluster
