import OutboxCluster.Journal
import OutboxCluster.Link.Pulse
import OutboxCluster.Settings

/-!
# Workers

One worker keeps one agent and hands on the events of its shard. Its life is a
loop of pulses and cycles. A cycle finds a batch, gives it to the sink, deletes
its events, and goes on to the next batch as long as the batches are full. While
the sink has a batch, the worker only renews the lease, on the schedule of the
pulses. A batch that fails is kept and tried again as it is.

A worker is described by what it waits for. `Wait` names every point at which a
worker gives up control, together with what it needs to go on, and `dueAt` is
the instant at which it goes on by itself. What it does then is the matter of
`OutboxCluster.Worker.Resume`.

## Main definitions

* `Signal`: The request to stop.
* `ProcessorState`: What a worker shows of itself.
* `Wait`: What a worker waits for.
* `Worker`: A worker.
* `Worker.dueAt`: When a worker goes on.
-/

namespace OutboxCluster

/-- The request to stop, which several workers may share. A worker that waits
    wakes up whenever the request changes or cannot change any more. -/
structure Signal where
  raised : Bool := false
  /-- How often the request was made or taken back. -/
  version : Nat := 0
  /-- Nobody can make the request any more. -/
  dropped : Bool := false
deriving DecidableEq, Repr

/-- Make the request, or take it back, if anybody still can. -/
def Signal.send (s : Signal) (raised : Bool) : Signal :=
  if s.dropped then s else { s with raised, version := s.version + 1 }

/-- What a worker shows of itself. -/
inductive ProcessorState where
  | idle
  | polling
  | applying
  | retryWait (attempts : Nat)
  | stopped
  /-- Stopped because a batch used up its attempts. -/
  | halted (attempts : Nat) (reason : String)
deriving DecidableEq, Repr

namespace ProcessorState

/-- Whether the worker will show nothing else. -/
def isTerminal : ProcessorState → Bool
  | stopped | halted .. => true
  | _ => false

end ProcessorState

/-- What a worker has done. -/
structure Stats where
  batchesApplied : Nat := 0
  eventsConsumed : Nat := 0
  failedAttempts : Nat := 0
  discardedBatches : Nat := 0
deriving DecidableEq, Repr

/-- A cycle under way: the agent and the shard it began with, and how many
    batches it has done. -/
structure Cycle where
  agentId : Option Int
  assignment : Option Assignment
  batches : Nat := 0
deriving DecidableEq, Repr

/-- A batch that is being handed on. -/
structure Handover where
  cycle : Cycle
  batch : Batch
  /-- The instant after which it has taken too long. -/
  timeoutAt : Option Nat
  /-- When and how the sink will be done, once it has been asked. -/
  ongoing : Option (Nat × Ending) := none
deriving DecidableEq, Repr

/-- Why a worker gives up. -/
structure Halt where
  attempts : Nat
  reason : String
deriving DecidableEq, Repr

/-- How the life of a worker ended. -/
inductive End where
  /-- It came to its own end. -/
  | finished
  /-- Its sink broke down. -/
  | broken
  /-- A pulse of its link broke down. -/
  | overflown
  /-- It was ended from outside. -/
  | aborted
deriving DecidableEq, Repr

/-- What a worker waits for. Most waits are for an instant, `due`. -/
inductive Wait where
  /-- To be started. -/
  | held
  /-- For its first turn. -/
  | launched
  /-- For the session of a pulse that began earlier. -/
  | pulsing (due started : Nat) (wall : Int)
  /-- For the outcome of a search. -/
  | polling (due : Nat) (cycle : Cycle)
  /-- For the sink, the next renewal, or the end of the lease or the time
      allowed, whichever comes first. -/
  | applying (handover : Handover)
  /-- For the session of a renewal that began earlier. -/
  | renewing (due started : Nat) (wall : Int) (handover : Handover)
  /-- For events to be deleted. -/
  | deleting (due : Nat) (handover : Handover)
  /-- For the word that events were deleted, and how many. -/
  | deleted (due : Nat) (count : Nat) (handover : Handover)
  /-- For its next pulse or cycle, or a change of the request to stop. -/
  | resting (wake : Nat)
  /-- For the session in which it leaves. -/
  | leaving (due : Nat) (halt : Option Halt)
  /-- For nothing any more. -/
  | over (how : End)
deriving DecidableEq, Repr

/-- A worker. -/
structure Worker where
  link : Link
  settings : Validated
  /-- The batch that failed last, to be tried again. -/
  retained : Option Batch := none
  nextPulse : Nat
  nextCycle : Nat := 0
  state : ProcessorState := .idle
  stats : Stats := {}
  /-- The version of the request to stop that it has seen. -/
  seen : Nat := 0
  wait : Wait := .held

namespace Worker

/-- The name of a worker is that of its agent. -/
def name (w : Worker) : String := w.link.name

/-- The earlier of two instants, either of which may never come. -/
def earlier : Option Nat → Option Nat → Option Nat
  | some a, some b => some (min a b)
  | some a, none => some a
  | none, b => b

/-- The instant at which the worker goes on by itself, if it ever does. A past
    instant means at once. -/
def dueAt (signal : Signal) (w : Worker) : Option Nat :=
  match w.wait with
  | .held | .over _ => none
  | .launched => some 0
  | .pulsing due .. | .polling due _ | .renewing due .. | .leaving due _ => some due
  | .applying h =>
    match h.ongoing with
    | none => some 0
    | some (due, _) =>
      earlier (some (min due w.nextPulse)) (earlier w.link.snapshot.leaseDeadline h.timeoutAt)
  | .deleting due h | .deleted due _ h => earlier (some due) h.timeoutAt
  | .resting wake =>
    if signal.version ≠ w.seen ∨ signal.dropped then some 0 else some wake

/-- End the worker from outside, if it runs. -/
def abort (w : Worker) : Worker :=
  match w.wait with
  | .held | .over _ => w
  | _ => { w with wait := .over .aborted }

/-- Give up the worker before it was started. -/
def discard (w : Worker) : Worker :=
  match w.wait with
  | .held => { w with wait := .over .aborted }
  | _ => w

/-- The last state of a worker, once there is one. A worker that ended without
    showing one counts as stopped. -/
def lastState? (w : Worker) : Option ProcessorState :=
  if w.state.isTerminal then some w.state
  else match w.wait with
    | .over _ => some .stopped
    | _ => none

/-- Whether the worker ended by a fault of its own: its sink broke down, or a
    pulse of its link. -/
def isBroken (w : Worker) : Bool := w.wait == .over .broken || w.wait == .over .overflown

end Worker

end OutboxCluster
