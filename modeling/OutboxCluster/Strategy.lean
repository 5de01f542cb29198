import OutboxCluster.Closer
import OutboxCluster.Scheduler
import OutboxCluster.Settings
import OutboxCluster.Worker

/-!
# The Life of a Node

A node starts one worker per agent, waits for them to come to an end, asks them
to do so, or ends them and closes what it holds. It can be started again after
it was stopped, and not before. Settings are checked when it is started; a start
that fails changes nothing.

What a worker is does not matter here. The type is a parameter, and what a node
needs to know of a worker is handed in: its name, its outcome once it has one,
and whether it ended by a fault of its own.

## Main definitions

* `Strategy`: A node, running or not.
* `Strategy.start`, `completion?`, `drain`, `stop`: What its host asks of it.
* `Parts.build`: A node from its parts.
-/

namespace OutboxCluster

/-- How a worker came to its end. -/
inductive Outcome where
  | stopped
  /-- It gave up on a batch. -/
  | halted (attempts : Nat) (reason : String)
deriving DecidableEq, Repr

/-- Workers that run, and the request to stop that they share. -/
structure Running (ω : Type) where
  scheduler : Scheduler ω
  signal : Signal := {}

/-- A node, running or not. -/
structure Strategy (ω : Type) where
  settings : Settings
  running : Option (Running ω) := none

/-- The name of the worker with this shard. -/
def processorName : Option Assignment → String
  | none => "Outbox event processor"
  | some a => s!"Outbox event processor - {a.index.toNat}"

/-- What a request of the host leaves behind. -/
structure Reply (ω : Type) where
  result : Except CoordinationError Unit
  strategy : Strategy ω
  notices : List Notice := []

namespace Strategy

variable {ω : Type}

/-- The workers that run, in the order of their shards. -/
def workers (s : Strategy ω) : List ω :=
  match s.running with
  | none => []
  | some r => r.scheduler.workers

/-- Put workers into slots, in order. -/
def spawnAll (scheduler : Scheduler ω) :
    List ω → Except CoordinationError (Scheduler ω)
  | [] => .ok scheduler
  | w :: ws => do spawnAll (← scheduler.spawn w) ws

/-- Start one worker per agent. `make` makes a worker from the checked settings
    and a shard. -/
def start (s : Strategy ω) (make : Validated → Option Assignment → ω) : Reply ω :=
  if ! s.settings.processors.enabled then
    { result := .ok (), strategy := s, notices := [.processingDisabled] }
  else if s.running.isSome then { result := .error .alreadyStarted, strategy := s }
  else match s.settings.validate with
  | .error e => { result := .error (.config e), strategy := s }
  | .ok settings =>
    let workers := settings.assignments.map (make settings)
    match spawnAll { capacity := workers.length } workers with
    | .error e => { result := .error e, strategy := s }
    | .ok scheduler =>
      { result := .ok (), strategy := { s with running := some { scheduler } }
        notices := [.processingStarted workers.length] }

/-- The workers that gave up, as errors. -/
def haltErrors (name : ω → String) (outcome : ω → Option Outcome) (workers : List ω) :
    List CoordinationError :=
  workers.filterMap fun w =>
    match outcome w with
    | some (.halted attempts reason) => some (.processorHalted (name w) attempts reason)
    | _ => none

/-- The outcome of waiting for all workers, once all have come to an end. -/
def completion? (s : Strategy ω) (name : ω → String) (outcome : ω → Option Outcome) :
    Option (Except CoordinationError Unit) :=
  if s.workers.all fun w => (outcome w).isSome then
    some (CoordinationError.collect (haltErrors name outcome s.workers))
  else none

/-- Ask all workers to stop. -/
def drain (s : Strategy ω) : Strategy ω × List Notice :=
  match s.running with
  | none => (s, [])
  | some r =>
    ({ s with running := some { r with signal := r.signal.send true } },
      [.draining r.scheduler.workers.length])

/-- End all workers and close what the node holds. Every step runs, and the
    errors of all are reported together. `faulty` tells the workers that had
    ended by a fault of their own; the outcomes of the two closings are handed
    in. -/
def stop (s : Strategy ω) (faulty : ω → Bool)
    (closeFinders closeAgents : Except CoordinationError Unit) : Reply ω :=
  let ended := match s.running with
    | none => []
    | some r => [("processors", r.scheduler.shutdownOutcome faulty)]
  let shutDown := match s.running with
    | none => []
    | some r => r.scheduler.shutdownNotices
  let closer := Closer.closeAll (ended ++
    [("event finder provider", closeFinders), ("agent repository provider", closeAgents)])
  let result := closer.finish
  let last : Notice := match result with
    | .ok () => .stopped
    | .error _ => .stoppedWithErrors
  { result, strategy := { s with running := none }
    notices := shutDown ++ closer.notices ++ [last] }

end Strategy

/-- What a node is built from. The store can stand in for both accesses. -/
structure Parts where
  settings : Settings := {}
  sink : Bool := false
  store : Bool := false
  agents : Bool := false
  finders : Bool := false
deriving DecidableEq, Repr

/-- A node from its parts, or the first part that is missing. -/
def Parts.build (p : Parts) (ω : Type) : Except CoordinationError (Strategy ω) :=
  if ! p.sink then .error (.missingComponent "sink")
  else if ! (p.agents || p.store) then .error (.missingComponent "agent repository provider")
  else if ! (p.finders || p.store) then .error (.missingComponent "event finder provider")
  else .ok { settings := p.settings }

end OutboxCluster
