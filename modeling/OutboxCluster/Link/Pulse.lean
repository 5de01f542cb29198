import OutboxCluster.Link.Session
import OutboxCluster.View

/-!
# Pulses

What a link does to keep its agent in the cluster. A pulse reads the table,
removes the records whose lease is over, registers the agent if it has no live
record, decides about its state and its shard, and writes a new lease. A renewal
writes a new lease and decides nothing, so it can be made while events are in
hand. Leaving removes the record, so that the others need not wait for the end
of its lease.

Each of the three is one session. A pulse that fails leaves the agent as it was,
and so does a renewal, until the lease may be lost; a renewal that finds no live
record suspends the agent at once; an agent that leaves is suspended whether or
not its record could be removed.

Of a peer whose record it removes a pulse reports for how long the lease has been
over. The clock can be set so far ahead that this is no reading, and then the
pulse breaks down.

The lease in the table is measured from the wall clock, and the deadline in the
snapshot from the monotonic clock, both as they were when the pulse began.

## Main definitions

* `Moment`: When an attempt is made.
* `Link.pulse`: A pulse.
* `Link.renew`: A renewal.
* `Link.leave`: Leaving the cluster.
-/

namespace OutboxCluster

/-- When an attempt is made. -/
structure Moment where
  /-- The monotonic clock when it begins. -/
  started : Nat
  /-- The wall clock when it begins. -/
  wall : Int
  /-- The monotonic clock when its session has been opened. -/
  opened : Nat
deriving DecidableEq, Repr

namespace Link

/-- The record of an agent that registers. -/
def newRecord (l : Link) (now : Int) : Agent :=
  { id := 0, role := l.role, name := l.name, expiration := l.leaseEnd now, state := .starting
    total := l.configured.map (·.total), index := l.configured.map (·.index), payload := none }

/-- What is reported about a record that is removed because its lease is over.
    For a peer this is for how long it has been, if that is a reading. -/
def reclaimNotice? (l : Link) (now : Int) (a : Agent) : Option Notice :=
  if l.selfId = some a.id then some (.ownLeaseExpired a.id)
  else (reading? (now - a.expiration)).map (.reclaiming a.id)

open SessionM

/-- The own record and all live ones. An agent without a live record registers;
    its record comes last. -/
def register (l : Link) (now : Int) (live : List Agent) : SessionM (Agent × List Agent) := do
  match live.find? fun a => l.selfId = some a.id with
  | some me => return (me, live)
  | none =>
    match l.selfId with
    | some old => report (.registeringAgain old)
    | none => pure ()
    let created ← create (l.newRecord now)
    report (.registered created.id)
    remember (some created.id)
    return (created, live ++ [created])

/-- The decision of an agent, from the live records. A conflict is reported
    once, until it is over. -/
def decide (l : Link) (me : Agent) (live : List Agent) : SessionM Agent := do
  let peers := live.filter (·.id ≠ me.id)
  match l.configured with
  | none => return decideDynamic me (live.map (·.id)) peers
  | some configured =>
    let (me, blocker) := decideStatic me configured peers
    match blocker with
    | some peer =>
      if ! l.conflictReported then report (.conflict me.id peer.id)
      modify fun s => { s with link.conflictReported := true }
    | none => modify fun s => { s with link.conflictReported := false }
    return me

/-- Report that a record is to be removed, or break down. -/
def announce (l : Link) (now : Int) (a : Agent) : SessionM Unit :=
  match l.reclaimNotice? now a with
  | some n => report n
  | none => throw .overflow

/-- Remove the records whose lease is over. -/
def reclaim (l : Link) (now : Int) (expired : List Agent) : SessionM Unit := do
  if ! expired.isEmpty then
    expired.forM (l.announce now)
    delete (expired.map (·.id))

/-- The record of an agent that was decided from the live records `live`, with
    what it saw and a new lease. -/
def leased (l : Link) (now : Int) (me : Agent) (live : List Agent) : Agent :=
  let view : ClusterView := ⟨live.map (·.id), now⟩
  { me with expiration := l.leaseEnd now, payload := some view.payload }

/-- Write the own record and commit. -/
def settle (me : Agent) : SessionM Agent := do
  if ! (← update me) then
    remember none
    throw (.failure (.notFound me.id))
  commit
  return me

/-- The session of a pulse, which returns the record that was written. -/
def pulseSession (l : Link) (now : Int) : SessionM Agent := do
  begin
  let agents ← list
  let (expired, live) := agents.partition (·.isExpired now)
  l.reclaim now expired
  let (me, live) ← l.register now live
  let me ← l.decide me live
  settle (l.leased now me live)

/-- The link after a pulse that wrote `me`. -/
def afterPulse (l : Link) (started : Nat) (me : Agent) : Link :=
  { l with
    failures := 0
    snapshot := { agentId := some me.id, state := me.state, assignment := me.assignment
                  leaseDeadline := some (started + l.expiration) } }

/-- What a pulse that wrote `me` reports at its end: that it is the first one
    to get through, and that state or shard have changed. -/
def pulseNotices (l : Link) (me : Agent) : List Notice :=
  (if 0 < l.failures then [.pulseRecovered me.id l.failures] else []) ++
    (if me.state ≠ l.snapshot.state ∨ me.assignment ≠ l.snapshot.assignment then
      [.stateChanged me.id] else [])

/-- What a failed attempt reports. -/
def failureNotices (l : Link) (now : Nat) : List Notice :=
  .pulseFailed (l.failures + 1) :: (if l.lapsesAt now then [.leaseLapsed] else [])

/-- An attempt that failed. -/
def failed (a : Attempt) (now : Nat) : Attempt :=
  { a with
    link := a.link.afterFailure now
    notices := a.notices ++ a.link.failureNotices now }

/-- A pulse. One that breaks down leaves its link as it was. -/
def pulse (l : Link) (moment : Moment) (access : Access) (table : AgentTable) : Attempt :=
  match Session.run (l.pulseSession moment.wall) (fun _ => true) l access table with
  | (.ok me, a) =>
    { a with
      link := a.link.afterPulse moment.started me
      notices := a.notices ++ a.link.pulseNotices me }
  | (.error (.failure _), a) => failed a moment.opened
  | (.error .overflow, a) => a

/-- The session of a renewal, which tells whether there was a live record. -/
def renewSession (l : Link) (now : Int) : SessionM Bool := do
  match l.selfId with
  | none => return false
  | some id =>
    begin
    let agents ← list
    match agents.find? (·.id = id) with
    | none => return false
    | some me =>
      if me.isExpired now then return false
      if ! (← update { me with expiration := l.leaseEnd now }) then return false
      commit
      return true

/-- A renewal. A suspended agent has no lease to renew. -/
def renew (l : Link) (moment : Moment) (access : Access) (table : AgentTable) : Attempt :=
  if l.snapshot.state = .suspended then { link := l, access, table, notices := [] }
  else
    match Session.run (l.renewSession moment.wall) id l access table with
    | (.ok true, a) =>
      { a with
        link := { a.link with
          failures := 0
          snapshot.leaseDeadline := some (moment.started + l.expiration) } }
    | (.ok false, a) =>
      { a with
        link := { a.link with snapshot.state := .suspended }
        notices := a.notices ++ [.recordLost] }
    | (.error _, a) => failed a moment.opened

/-- The session in which an agent removes its record. -/
def leaveSession (id : Int) : SessionM Unit := do
  begin
  delete [id]
  commit

/-- Leaving the cluster. An agent without a record has nothing to leave. -/
def leave (l : Link) (access : Access) (table : AgentTable) : Attempt :=
  match l.selfId with
  | none => { link := l, access, table, notices := [] }
  | some id =>
    match Session.run (leaveSession id) (fun _ => true) { l with selfId := none } access table with
    | (result, a) =>
      { a with
        link := { a.link with snapshot := .departed }
        notices := a.notices ++ [match result with
          | .ok () => .left id
          | .error _ => .leaveFailed id] }

end Link

end OutboxCluster
