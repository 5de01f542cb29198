import OutboxCluster.Strategy
import OutboxCluster.Worker.Resume

/-!
# Clusters in Virtual Time

Whole nodes over one pair of tables. Time is virtual: it stands still as long as
some worker can go on, and then jumps to the next instant at which one can. Of
several workers that can go on at an instant, the one that stands first does, and
of several branches of its wait it takes up the first. `resumeWorker` lets any
worker take its turn, and `OutboxCluster.Cluster.Event` has the runs in which
both orders are open.

A node is either a strategy, which starts its workers and ends them, or a single
worker with a request to stop of its own. The nodes share the tables and nothing
else, and each has a wall clock of its own that is a fixed distance ahead of the
virtual time.

## Main definitions

* `Node`: A node.
* `Cluster`: Nodes over one pair of tables.
* `Cluster.resumeWorker`: The turn of one worker.
* `Cluster.next?`: The worker that goes on first, and when.
* `Cluster.advanceUntil`: Time moved on until something is the case.
-/

namespace OutboxCluster

/-- What a node does. -/
inductive Body where
  /-- It starts and ends its workers. `separate` says that its access to the
      agents is closed apart from that to the events. -/
  | strategy (s : Strategy Worker) (separate : Bool)
  /-- It is one worker. -/
  | single (w : Worker) (signal : Signal)

/-- A node. -/
structure Node where
  host : Host
  body : Body
  /-- The number of shards that it is configured with, if it is. -/
  totalCount : Option Int64 := none

namespace Body

/-- The workers of a node, in order. -/
def workers : Body → List Worker
  | strategy s _ => s.workers
  | single w _ => [w]

/-- The request to stop that the workers of a node watch. -/
def signal : Body → Signal
  | strategy s _ => match s.running with
    | some r => r.signal
    | none => {}
  | single _ signal => signal

/-- The node with another worker in one place. -/
def setWorker (i : Nat) (w : Worker) : Body → Body
  | strategy s separate =>
    match s.running with
    | none => strategy s separate
    | some r =>
      let workers := r.scheduler.workers.set i w
      strategy { s with running := some { r with scheduler := { r.scheduler with workers } } }
        separate
  | single _ signal => single w signal

end Body

/-- Nodes over one pair of tables. -/
structure Cluster where
  now : Nat := 0
  /-- The wall clock at instant zero. -/
  epoch : Int
  agents : AgentTable := {}
  outbox : Outbox := {}
  nodes : List Node := []
  journal : Journal := []

namespace Cluster

/-- The node of this name. -/
def find? (c : Cluster) (name : String) : Option Node :=
  c.nodes.find? (·.host.name == name)

/-- Change the node of this name. -/
def modifyNode (c : Cluster) (name : String) (change : Node → Node) : Cluster :=
  { c with nodes := c.nodes.map fun n => if n.host.name = name then change n else n }

/-- What a worker of a node reads and changes in its turn. -/
def scene (c : Cluster) (node : Node) (worker : Worker) (skip : Nat := 0) : Scene :=
  { now := c.now, epoch := c.epoch, signal := node.body.signal, host := node.host
    agents := c.agents, outbox := c.outbox, journal := c.journal, worker, skip }

/-- The turn of worker `i` of node `n`, which passes over `skip` branches of its
    wait at first. -/
def resumeWorker (c : Cluster) (n i : Nat) (skip : Nat := 0) : Cluster :=
  match c.nodes[n]? with
  | none => c
  | some node =>
    match node.body.workers[i]? with
    | none => c
    | some worker =>
      let s := (c.scene node worker skip).resume
      { c with
        agents := s.agents, outbox := s.outbox, journal := s.journal
        nodes := c.nodes.set n
          { node with host := s.host, body := node.body.setWorker i s.worker } }

/-- A worker, by its place, with the instant at which it goes on. -/
structure Turn where
  node : Nat
  worker : Nat
  due : Nat
deriving DecidableEq, Repr

/-- The turns of all workers that go on by themselves. -/
def turns (c : Cluster) : List Turn :=
  c.nodes.zipIdx.flatMap fun (node, n) =>
    node.body.workers.zipIdx.filterMap fun (worker, i) =>
      (worker.dueAt node.body.signal).map fun due =>
        { node := n, worker := i, due := max c.now due }

/-- The turn with the earliest instant, the first one of several. -/
def earliest : List Turn → Option Turn
  | [] => none
  | t :: ts =>
    match earliest ts with
    | some u => if u.due < t.due then some u else some t
    | none => some t

/-- The worker that goes on first, and when. -/
def next? (c : Cluster) : Option Turn := earliest c.turns

/-- One turn before the instant `limit`, if there is one. -/
def turnBefore? (c : Cluster) (limit : Nat) : Option Cluster :=
  match c.next? with
  | none => none
  | some t =>
    if t.due < limit then some ({ c with now := t.due }.resumeWorker t.node t.worker) else none

/-- Move time on to `limit`, turn by turn, or up to the instant at which `done`
    holds. The first argument bounds the number of turns. -/
def runUntil (done : Cluster → Bool) (limit : Nat) : Nat → Cluster → Cluster
  | 0, c => c
  | turns + 1, c =>
    if done c then c
    else match c.turnBefore? limit with
      | some c => runUntil done limit turns c
      | none => { c with now := max c.now limit }

/-- More turns than there can be in `ms` milliseconds: at one instant a worker
    takes a few turns for each event in the outbox, and a few more. -/
def turnBound (c : Cluster) (ms : Nat) : Nat :=
  let workers := (c.nodes.flatMap (·.body.workers)).length
  (ms + 1) * (workers + 1) * (16 * (c.outbox.rows.length + 16))

/-- Move time on by at most `ms` milliseconds, up to the instant at which `done`
    holds. -/
def advanceUntil (c : Cluster) (done : Cluster → Bool) (ms : Nat) : Cluster :=
  runUntil done (c.now + ms) (c.turnBound ms) c

/-- Move time on. -/
def advance (c : Cluster) (ms : Nat) : Cluster := c.advanceUntil (fun _ => false) ms

end Cluster

end OutboxCluster
