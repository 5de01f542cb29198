import OutboxCluster.Outbox

/-!
# Sinks

A sink is what events are handed on to, a batch at a time. It takes some time
over a batch and then accepts it, refuses it, or breaks down and takes its
worker with it. A batch may be handed on more than once.

The sink of a host is either one that only reports what it gets, at once and
always with success, or one that behaves by a script: each batch uses up the
next behaviour, and when the script is over a default goes on for ever. A
behaviour may move the wall clock of its host before it does anything else.

## Main definitions

* `Ending`: How a sink is done with a batch.
* `Behaviour`: What a sink does with one batch.
* `Sink`: A sink.
* `Sink.next`: The behaviour for the next batch.
-/

namespace OutboxCluster

/-- How a sink is done with a batch. -/
inductive Ending where
  | accepted
  | refused (message : String)
  /-- The sink breaks down, and its worker with it. -/
  | broken
deriving DecidableEq, Repr

/-- What a sink does with one batch. -/
structure Behaviour where
  /-- How far the wall clock of the host moves. -/
  wallMs : Int := 0
  /-- How long the sink takes, in milliseconds. -/
  delay : Nat := 0
  ending : Ending := .accepted
deriving DecidableEq, Repr

/-- A sink. -/
inductive Sink where
  /-- Reports every event. -/
  | reporting
  | scripted (script : List Behaviour) (default : Behaviour)
deriving DecidableEq, Repr

namespace Sink

/-- The behaviour for the next batch, and what is left of the sink. -/
def next : Sink → Behaviour × Sink
  | reporting => ({}, reporting)
  | scripted [] default => (default, scripted [] default)
  | scripted (behaviour :: script) default => (behaviour, scripted script default)

/-- Whether the sink behaves by a script. -/
def isScripted : Sink → Bool
  | reporting => false
  | scripted .. => true

end Sink

end OutboxCluster
