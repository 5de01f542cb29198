import OutboxCluster.Cluster

/-!
# Controlling a Cluster

What can be done to a cluster from outside: nodes are added, started, asked to
stop, and stopped; events are added and deleted; records of agents come and go;
wall clocks jump; and uses of the tables are made to fail or to take time. None
of this takes time itself. Waiting for a node is a matter of moving time on
until the outcome is there.

## Main definitions

* `Cluster.addStrategy`, `addSingle`: New nodes.
* `Cluster.start`, `drain`, `stop`, `completion?`: The life of a strategy.
* `Cluster.send`, `dropSignal`, `abort`, `discard`, `lastState?`: The life of a
  single worker.
* `Cluster.enqueue`, `deleteEvents`, `putAgent`, `deleteAgents`: The tables.
* `Cluster.arm`, `slow`, `moveWall`: What goes wrong.
-/

namespace OutboxCluster

/-- How a worker came to its end, once it has. -/
def Worker.outcome? (w : Worker) : Option Outcome :=
  match w.lastState? with
  | some (.halted attempts reason) => some (.halted attempts reason)
  | some _ => some .stopped
  | none => none

/-- A worker that keeps an agent of this name. -/
def Worker.ofSettings (v : Validated) (name : String) (configured : Option Assignment)
    (now : Nat) : Worker :=
  { link := { name, role := eventProcessorRole, configured, expiration := v.pulseExpiration }
    settings := v, nextPulse := now }

namespace Cluster

/-- Add a node, in place of one of the same name. -/
def addNode (c : Cluster) (node : Node) : Cluster :=
  { c with nodes := c.nodes.filter (·.host.name != node.host.name) ++ [node] }

/-- Add a strategy that is not running. -/
def addStrategy (c : Cluster) (host : Host) (settings : Settings) (separate : Bool) : Cluster :=
  c.addNode { host, body := .strategy { settings } separate
              totalCount := settings.shards.totalCount }

/-- Add a single worker that is not started, if the settings are in order. -/
def addSingle (c : Cluster) (host : Host) (settings : Settings) (agent : String)
    (configured : Option Assignment) : Except ConfigError Cluster :=
  settings.validate.map fun v =>
    c.addNode { host, body := .single (Worker.ofSettings v agent configured c.now) {}
                totalCount := settings.shards.totalCount }

/-- Enter what was reported. -/
def report (c : Cluster) (ns : List Notice) : Cluster :=
  { c with journal := c.journal.addNotices ns }

/-- Start a node. A single worker that is not waiting to be started goes on as
    it is. -/
def start (c : Cluster) (name : String) : Except CoordinationError Unit × Cluster :=
  match c.find? name with
  | none => (.ok (), c)
  | some node =>
    match node.body with
    | .strategy s separate =>
      let make (v : Validated) (a : Option Assignment) : Worker :=
        { Worker.ofSettings v (processorName a) a c.now with wait := .launched }
      let reply := s.start make
      (reply.result, (c.modifyNode name fun n =>
        { n with body := .strategy reply.strategy separate }).report reply.notices)
    | .single w signal =>
      let w := if w.wait = .held then { w with wait := .launched } else w
      (.ok (), c.modifyNode name fun n => { n with body := .single w signal })

/-- The outcome of waiting for a strategy, once it is there. -/
def completion? (c : Cluster) (name : String) : Option (Except CoordinationError Unit) :=
  match c.find? name with
  | some { body := .strategy s _, .. } => s.completion? Worker.name Worker.outcome?
  | _ => some (.ok ())

/-- Ask the workers of a strategy to stop. -/
def drain (c : Cluster) (name : String) : Cluster :=
  match c.find? name with
  | some { body := .strategy s separate, .. } =>
    let (s, notices) := s.drain
    (c.modifyNode name fun n => { n with body := .strategy s separate }).report notices
  | _ => c

/-- Close one of the two accesses of a host: it fails by the plan, or, where it
    is the access to the agents, that is closed. -/
def closeAccess (host : Host) (point : UsePoint) (closesAgents : Bool) :
    Except CoordinationError Unit × Host :=
  match host.access.faults.strike point with
  | (some e, faults) => (.error (.store e), { host with access.faults := faults })
  | (none, _) =>
    (.ok (), { host with access.closed := host.access.closed || closesAgents })

/-- End the workers of a strategy and close what it holds. -/
def stop (c : Cluster) (name : String) : Except CoordinationError Unit × Cluster :=
  match c.find? name with
  | some { body := .strategy s separate, host, .. } =>
    let (finders, host) := closeAccess host .closeFinders (! separate)
    let (agents, host) := closeAccess host .closeAgents true
    let reply := s.stop Worker.isBroken finders agents
    (reply.result, (c.modifyNode name fun n =>
      { n with host, body := .strategy reply.strategy separate }).report reply.notices)
  | _ => (.ok (), c)

/-- Change the single worker of a node and its request to stop. -/
def modifySingle (c : Cluster) (name : String) (change : Worker → Signal → Worker × Signal) :
    Cluster :=
  c.modifyNode name fun n =>
    match n.body with
    | .single w signal =>
      let (w, signal) := change w signal
      { n with body := .single w signal }
    | .strategy .. => n

/-- Make the request to stop, or take it back. -/
def send (c : Cluster) (name : String) (raised : Bool) : Cluster :=
  c.modifySingle name fun w signal => (w, signal.send raised)

/-- Make sure that nobody can make the request any more. -/
def dropSignal (c : Cluster) (name : String) : Cluster :=
  c.modifySingle name fun w signal => (w, { signal with dropped := true })

/-- End a single worker from outside. -/
def abort (c : Cluster) (name : String) : Cluster :=
  c.modifySingle name fun w signal => (w.abort, signal)

/-- Give up a single worker before it was started. -/
def discard (c : Cluster) (name : String) : Cluster :=
  c.modifySingle name fun w signal => (w.discard, signal)

/-- The last state of a single worker, once there is one. -/
def lastState? (c : Cluster) (name : String) : Option ProcessorState :=
  match c.find? name with
  | some { body := .single w _, .. } => w.lastState?
  | _ => some .stopped

/-- Add events without a payload. -/
def enqueue (c : Cluster) (keys : List String) : Cluster :=
  { c with outbox := keys.foldl (fun t key => t.enqueue key []) c.outbox }

/-- Delete events. -/
def deleteEvents (c : Cluster) (ids : List Int) : Cluster :=
  { c with outbox := c.outbox.delete ids }

/-- Add a record of an agent. -/
def putAgent (c : Cluster) (row : AgentRow) : Cluster :=
  { c with agents := c.agents.insert row }

/-- Delete records of agents. -/
def deleteAgents (c : Cluster) (ids : List Int) : Cluster :=
  { c with agents := c.agents.delete ids }

/-- Move the wall clock of a node. -/
def moveWall (c : Cluster) (name : String) (ms : Int) : Cluster :=
  c.modifyNode name fun n => { n with host.skew := n.host.skew + ms }

/-- Change the plan of a node. -/
def modifyFaults (c : Cluster) (name : String) (change : Faults → Faults) : Cluster :=
  c.modifyNode name fun n => { n with host.access.faults := change n.host.access.faults }

/-- Let the next uses of a point by a node fail. -/
def arm (c : Cluster) (name : String) (point : UsePoint) (times : Nat) (error : StoreError) :
    Cluster :=
  c.modifyFaults name fun f => f.arm point times error

/-- Let every use of a point by a node take some time. -/
def slow (c : Cluster) (name : String) (point : UsePoint) (ms : Nat) : Cluster :=
  c.modifyFaults name fun f => f.slow point ms

end Cluster

end OutboxCluster
