import OutboxCluster.Scheduler

/-!
# Workers that Sleep

A scheduler whose workers sleep for a while and then finish or fail, in virtual
time. A worker begins its sleep when time next moves after it was accepted. A
worker that is ended in its sleep neither finishes nor fails.

## Main definitions

* `SleepingWorker`: A worker that sleeps.
* `TimedScheduler`: A scheduler of such workers with its clock.
* `TimedScheduler.advance`: Time moved on, with the workers that finish.
-/

namespace OutboxCluster

/-- How far a sleeping worker has come. -/
inductive SleepPhase where
  | accepted
  | asleep (wake : Nat)
  | finished
  | failed
deriving DecidableEq, Repr

/-- A worker that sleeps for `delay` milliseconds. -/
structure SleepingWorker where
  name : String
  delay : Nat
  /-- Whether it fails at the end of its sleep. -/
  fails : Bool
  phase : SleepPhase := .accepted
deriving DecidableEq, Repr

namespace SleepingWorker

/-- The instant at which the worker wakes, if it has not yet, given that an
    accepted worker begins its sleep at `now`. -/
def wake? (now : Nat) (w : SleepingWorker) : Option Nat :=
  match w.phase with
  | .accepted => some (now + w.delay)
  | .asleep wake => some wake
  | .finished | .failed => none

/-- Whether the worker wakes from `now` on and before `stop`. -/
def wakesBefore (now stop : Nat) (w : SleepingWorker) : Bool :=
  (w.wake? now).any (· < stop)

/-- The worker after time has moved from `now` to `stop`. -/
def advance (now stop : Nat) (w : SleepingWorker) : SleepingWorker :=
  match w.wake? now with
  | none => w
  | some wake =>
    if wake < stop then { w with phase := if w.fails then .failed else .finished }
    else { w with phase := .asleep wake }

/-- Whether the worker ended by a fault of its own. -/
def hasFailed (w : SleepingWorker) : Bool := w.phase == .failed

end SleepingWorker

/-- A scheduler of sleeping workers with its clock. -/
structure TimedScheduler where
  scheduler : Scheduler SleepingWorker
  now : Nat := 0

namespace TimedScheduler

/-- Accept a worker, or say why not. -/
def spawn (t : TimedScheduler) (w : SleepingWorker) :
    Except CoordinationError Unit × TimedScheduler :=
  match t.scheduler.spawn w with
  | .ok scheduler => (.ok (), { t with scheduler })
  | .error e => (.error e, t)

/-- Move time on. The names of the workers that finish are in the order of the
    instants at which they do. -/
def advance (t : TimedScheduler) (ms : Nat) : List String × TimedScheduler :=
  let stop := t.now + ms
  let finishing := t.scheduler.workers.filter fun w => w.wakesBefore t.now stop && ! w.fails
  let ordered := finishing.mergeSort fun v w =>
    (v.wake? t.now).getD 0 ≤ (w.wake? t.now).getD 0
  let workers := t.scheduler.workers.map (·.advance t.now stop)
  (ordered.map (·.name), { scheduler := { t.scheduler with workers }, now := stop })

/-- End all workers. -/
def shutdown (t : TimedScheduler) :
    Except CoordinationError Unit × List Notice × TimedScheduler :=
  (t.scheduler.shutdownOutcome SleepingWorker.hasFailed, t.scheduler.shutdownNotices,
    { t with scheduler := t.scheduler.emptied })

end TimedScheduler

end OutboxCluster
