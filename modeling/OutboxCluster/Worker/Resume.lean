import OutboxCluster.Worker

/-!
# What a Worker Does

The step of a worker: from one point at which it waits to the next. Within a
step no time passes and nobody else acts, so a step is a function, and it has no
loop, because every use of the tables and of the sink is a point to wait at,
even when it takes no time. Where a worker waits for several things at once and
more than one of them is there, which one it takes up is not fixed: the branches
are looked at in turn, and the scene says with which one that begins.

Ownership is looked at three times: a kept batch is dropped at the start of a
cycle unless agent and shard are still those it was found for; the sink keeps a
batch only as long as the agent may process; and the events of a batch are
deleted only if the agent may process when the sink has accepted it.

## Main definitions

* `Host`: What the workers of a node share.
* `Scene`: Everything that a step reads and changes.
* `Branch`: What a worker waits for while its sink has a batch.
* `Scene.resume`: The step.
-/

namespace OutboxCluster

/-- What the workers of a node share. -/
structure Host where
  name : String
  /-- How far the wall clock of the node is ahead of that of the cluster. -/
  skew : Int := 0
  access : Access := {}
  sink : Sink

/-- Everything that a step of a worker reads and changes. -/
structure Scene where
  now : Nat
  /-- The wall clock of the cluster at instant zero. -/
  epoch : Int
  signal : Signal
  host : Host
  agents : AgentTable
  outbox : Outbox
  journal : Journal
  worker : Worker
  /-- How many branches of a wait are passed over before the first one that is
      looked at. -/
  skip : Nat := 0

/-- What a worker waits for while its sink has a batch. -/
inductive Branch where
  /-- The word of the sink. -/
  | sink
  /-- The instant of the next renewal. -/
  | renewal
  /-- The end of the lease. -/
  | deadline
  /-- The end of the time allowed for the batch. -/
  | timeout
deriving DecidableEq, Repr

namespace Scene

/-- The wall clock of the node. -/
def wall (s : Scene) : Int := s.epoch + s.now + s.host.skew

/-- Who acts, and when. -/
def stamp (s : Scene) : Stamp := ⟨s.host.name, s.worker.name, s.now⟩

/-- Whether the agent may process now. -/
def canProcess (s : Scene) : Bool := s.worker.link.snapshot.canProcess s.now

/-- The instant at which a use of `point` that begins now is made. -/
def after (s : Scene) (point : UsePoint) : Nat := s.now + s.host.access.faults.delay point

/-- Report something. -/
def note (s : Scene) (n : Notice) : Scene := { s with journal := .notice n :: s.journal }

/-- Enter something in the journal. -/
def enter (s : Scene) (e : Entry) : Scene := { s with journal := e :: s.journal }

/-- Show a state. -/
def becomes (s : Scene) (state : ProcessorState) : Scene := { s with worker.state := state }

/-- Wait for something. -/
def await (s : Scene) (wait : Wait) : Scene := { s with worker.wait := wait }

/-- Use a point of the plan of the node. -/
def strike (s : Scene) (point : UsePoint) : Option StoreError × Scene :=
  let (error, faults) := s.host.access.faults.strike point
  (error, { s with host.access.faults := faults })

/-- Let the link make an attempt. -/
def attempt (s : Scene) (act : Link → Access → AgentTable → Attempt) : Scene :=
  let a := act s.worker.link s.host.access s.agents
  { s with
    worker.link := a.link, host.access := a.access, agents := a.table
    journal := s.journal.addNotices a.notices }

/-- Rest until the next pulse or the next cycle. -/
def rest (s : Scene) : Scene := s.await (.resting (min s.worker.nextCycle s.worker.nextPulse))

/-- End a cycle. The next one comes after `wait` milliseconds. -/
def endCycle (s : Scene) (wait : Nat) : Scene :=
  let s := s.enter (.cycleEnded s.stamp wait)
  rest { s with worker.nextCycle := s.now + wait }

/-- End a cycle with nothing in hand. -/
def endIdle (s : Scene) (wait : Nat) : Scene := (s.becomes .idle).endCycle wait

/-- Come to the end, after the agent has left. -/
def finish (s : Scene) : Option Halt → Scene
  | none =>
    let stats := s.worker.stats
    ((s.note (.processorStopped stats.batchesApplied stats.eventsConsumed
      stats.failedAttempts)).becomes .stopped).await (.over .finished)
  | some h => (s.becomes (.halted h.attempts h.reason)).await (.over .finished)

/-- Leave the cluster and come to the end. -/
def depart (s : Scene) (halt : Option Halt) : Scene :=
  if s.worker.link.selfId.isNone then s.finish halt
  else s.await (.leaving (s.after .begin) halt)

/-- Give up a batch, because the shard may be lost. Its events stay for the next
    owner. -/
def loseOwnership (s : Scene) (h : Handover) : Scene :=
  let s := s.note (.ownershipLost h.batch.events.length)
  let s := { s with worker.stats.discardedBatches := s.worker.stats.discardedBatches + 1 }
  s.endIdle s.worker.settings.pollingInterval

/-- A batch has failed. It is kept and tried again, or the worker gives up. -/
def failBatch (s : Scene) (h : Handover) (error : CoordinationError) : Scene :=
  let batch := h.batch.failed
  let s := { s with worker.stats.failedAttempts := s.worker.stats.failedAttempts + 1 }
  if s.worker.settings.retryPolicy.isExhausted batch.attempts then
    (s.note (.batchHalted batch.attempts (batch.ids.head?))).depart
      (some ⟨batch.attempts, error.message⟩)
  else
    let s := s.note (.batchRetried batch.attempts batch.events.length)
    let s := { s with worker.retained := some batch }
    (s.becomes (.retryWait batch.attempts)).endCycle s.worker.settings.retryWait

/-- A batch has taken too long. -/
def timeOut (s : Scene) (h : Handover) : Scene :=
  s.failBatch h (.transactionTimeout ((s.worker.settings.transactionTimeout.getD 0) * 1000000))

/-- Leave a batch with the sink, or give it up if the agent may not process. -/
def keepApplying (s : Scene) (h : Handover) : Scene :=
  if s.canProcess then s.await (.applying h) else s.loseOwnership h

/-- Begin to hand on a batch. -/
def handOver (s : Scene) (cycle : Cycle) (batch : Batch) : Scene :=
  let timeoutAt := s.worker.settings.transactionTimeout.map (s.now + ·)
  (s.becomes .applying).keepApplying { cycle, batch, timeoutAt }

/-- Go on with the kept batch, or look for another one. -/
def nextBatch (s : Scene) (cycle : Cycle) : Scene :=
  match s.worker.retained with
  | some batch => handOver { s with worker.retained := none } cycle batch
  | none => (s.becomes .polling).await (.polling (s.after .find) cycle)

/-- Drop the kept batch, unless agent and shard are those it was found for. -/
def dropForeign (s : Scene) : Scene :=
  match s.worker.retained with
  | none => s
  | some batch =>
    let snapshot := s.worker.link.snapshot
    if s.canProcess ∧ snapshot.agentId = batch.agentId ∧ snapshot.assignment = batch.assignment
    then s
    else
      let s := s.note (.ownershipChanged batch.events.length batch.attempts)
      { s with
        worker.retained := none
        worker.stats.discardedBatches := s.worker.stats.discardedBatches + 1 }

/-- Begin a cycle, if the agent may process. -/
def beginCycle (s : Scene) : Scene :=
  let s := (s.enter (.cycleBegan s.stamp)).dropForeign
  if s.canProcess then
    let snapshot := s.worker.link.snapshot
    s.nextBatch { agentId := snapshot.agentId, assignment := snapshot.assignment }
  else s.endIdle s.worker.settings.pollingInterval

/-- Begin a cycle when one is due, and rest otherwise. -/
def cycleIfDue (s : Scene) : Scene :=
  if s.worker.nextCycle ≤ s.now then s.beginCycle else s.rest

/-- The head of the loop: stop, or pulse, or begin a cycle, or rest. -/
def loop (s : Scene) : Scene :=
  if s.signal.raised then s.depart none
  else if s.worker.nextPulse ≤ s.now then
    s.await (.pulsing (s.after .begin) s.now s.wall)
  else s.cycleIfDue

/-- The first turn of a worker. -/
def launch (s : Scene) : Scene :=
  let s := s.note
    (.processorStarted s.worker.settings.pollingInterval s.worker.settings.pulseInterval)
  loop { s with worker.nextCycle := s.now }

/-- Whether the link breaks down in an attempt that it makes now. -/
def breaksDown (s : Scene) (act : Link → Access → AgentTable → Attempt) : Bool :=
  (act s.worker.link s.host.access s.agents).broken

/-- The session of a pulse. A worker whose link breaks down goes no further. -/
def pulse (s : Scene) (started : Nat) (wall : Int) : Scene :=
  let act := fun l : Link => l.pulse { started, wall, opened := s.now }
  let pulsed := (s.enter (.pulsed s.stamp)).attempt act
  if s.breaksDown act then pulsed.await (.over .overflown)
  else
    cycleIfDue { pulsed with
      worker.nextPulse := pulsed.now + pulsed.worker.settings.pulseInterval }

/-- The session of a renewal. -/
def renew (s : Scene) (started : Nat) (wall : Int) (h : Handover) : Scene :=
  let s := (s.enter (.renewed s.stamp)).attempt fun l => l.renew { started, wall, opened := s.now }
  keepApplying { s with worker.nextPulse := s.now + s.worker.settings.pulseInterval } h

/-- The outcome of a search. -/
def poll (s : Scene) (cycle : Cycle) : Scene :=
  let (error, s) := s.strike .find
  let found : Except StoreError (List OutboxEvent) := match error with
    | some e => .error e
    | none => s.outbox.search cycle.assignment s.worker.settings.batchSize
  let s := s.enter
    (.searched s.stamp s.worker.link.snapshot cycle.assignment found.toOption)
  match found with
  | .error _ => (s.note .pollFailed).endIdle s.worker.settings.pollingInterval
  | .ok events =>
    if events.isEmpty then s.endIdle s.worker.settings.pollingInterval
    else s.handOver cycle { events, agentId := cycle.agentId, assignment := cycle.assignment }

/-- Give a batch to the sink. -/
def askSink (s : Scene) (h : Handover) : Scene × Nat × Ending :=
  let (behaviour, sink) := s.host.sink.next
  let s := s.enter (.began s.stamp s.worker.link.snapshot h.batch)
  let reported : List Notice :=
    if s.host.sink.isScripted then []
    else h.batch.events.map fun e => .eventApplied e.id e.payload.length
  let s := { s with journal := s.journal.addNotices reported }
  ({ s with host.sink := sink, host.skew := s.host.skew + behaviour.wallMs },
    s.now + behaviour.delay, behaviour.ending)

/-- Ask the outbox to delete the events of a batch. -/
def askDelete (s : Scene) (h : Handover) : Scene :=
  (s.enter (.deleting s.stamp s.worker.link.snapshot h.batch)).await
    (.deleting (s.after .deleteEvents) h)

/-- The sink is done with a batch. -/
def sinkDone (s : Scene) (h : Handover) (ending : Ending) : Scene :=
  let s := s.enter (.ended s.stamp h.batch ending)
  match ending with
  | .broken => s.await (.over .broken)
  | .refused message => s.failBatch h (.sink ⟨message, []⟩)
  | .accepted =>
    if s.canProcess then s.askDelete h else s.loseOwnership h

/-- Begin a renewal while the sink has a batch. -/
def beginRenewal (s : Scene) (h : Handover) : Scene :=
  let opened := if s.worker.link.selfId.isNone then s.now else s.after .begin
  s.await (.renewing opened s.now s.wall h)

/-- Take up the first of some branches that is there. The sink is given the
    batch when its branch is looked at for the first time. -/
def race (s : Scene) (h : Handover) : List Branch → Scene
  | [] => s.await (.applying h)
  | .sink :: rest =>
    let (s, due, ending) := match h.ongoing with
      | some (due, ending) => (s, due, ending)
      | none => s.askSink h
    let h := { h with ongoing := some (due, ending) }
    if due ≤ s.now then s.sinkDone h ending else s.race h rest
  | .renewal :: rest =>
    if s.worker.nextPulse ≤ s.now then s.beginRenewal h else s.race h rest
  | .deadline :: rest =>
    if s.worker.link.snapshot.leaseDeadline.any (· ≤ s.now) then s.loseOwnership h
    else s.race h rest
  | .timeout :: rest =>
    if h.timeoutAt.any (· ≤ s.now) then s.timeOut h else s.race h rest

/-- A turn while the sink has a batch, or is to be given it. -/
def apply (s : Scene) (h : Handover) : Scene :=
  s.race h ([.sink, .renewal, .deadline, .timeout].rotateLeft s.skip)

/-- A batch is done. A full one is followed by the next at once, up to the bound
    on batches in a row, unless a pulse is due or the worker should stop. -/
def completeBatch (s : Scene) (h : Handover) (count : Nat) : Scene :=
  let applied := h.batch.events.length
  let s := { s with
    worker.stats.batchesApplied := s.worker.stats.batchesApplied + 1
    worker.stats.eventsConsumed := s.worker.stats.eventsConsumed + applied }
  let s := if count < applied then s.note (.fewerDeleted applied count) else s
  let batches := h.cycle.batches + 1
  if applied < s.worker.settings.batchSize then s.endIdle s.worker.settings.pollingInterval
  else if s.worker.nextPulse ≤ s.now ∨ s.worker.settings.maxConsecutiveBatches ≤ batches ∨
      ! s.canProcess ∨ s.signal.raised then
    s.endIdle 0
  else s.nextBatch { h.cycle with batches }

/-- A turn while the events of a batch are being deleted. -/
def delete (s : Scene) (h : Handover) (due : Nat) : Scene :=
  if due ≤ s.now then
    match s.strike .deleteEvents with
    | (some e, s) => s.failBatch h (.store e)
    | (none, s) =>
      let count := s.outbox.count h.batch.ids
      let s := s.enter (.deleted s.stamp h.batch.ids count)
      let s := { s with outbox := s.outbox.delete h.batch.ids }
      s.await (.deleted (s.after .afterDeleteEvents) count h)
  else s.timeOut h

/-- A turn after the events of a batch were deleted. -/
def confirm (s : Scene) (h : Handover) (due count : Nat) : Scene :=
  if due ≤ s.now then s.completeBatch h count else s.timeOut h

/-- A turn of a worker that rests until `due`. Both that instant and the request
    to stop may be there. -/
def wake (s : Scene) (due : Nat) : Scene :=
  if s.skip % 2 = 1 ∧ due ≤ s.now then s.loop
  else if s.signal.version ≠ s.worker.seen then
    loop { s with worker.seen := s.signal.version }
  else if s.signal.dropped then s.depart none
  else s.loop

/-- The session in which the agent leaves. -/
def leave (s : Scene) (halt : Option Halt) : Scene :=
  (s.attempt fun l => l.leave).finish halt

/-- The step of a worker: from what it waits for to what it waits for next. -/
def resume (s : Scene) : Scene :=
  match s.worker.wait with
  | .held | .over _ => s
  | .launched => s.launch
  | .pulsing _ started wall => s.pulse started wall
  | .polling _ cycle => s.poll cycle
  | .applying h => s.apply h
  | .renewing _ started wall h => s.renew started wall h
  | .deleting due h => s.delete h due
  | .deleted due count h => s.confirm h due count
  | .resting due => s.wake due
  | .leaving _ halt => s.leave halt

end Scene

end OutboxCluster
