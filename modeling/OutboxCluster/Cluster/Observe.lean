import OutboxCluster.Cluster.Control

/-!
# Watching a Cluster

What an observer learns from a cluster: the workers of a node, the last state of
a worker or the outcome of waiting for all of them, and what the sinks did.

Waiting moves time on, turn by turn, and stops at the instant at which the
answer is there. When the time allowed is over there is no answer, and the
cluster is as if nobody had waited.

Workers that go on at the same instant write to the journal in an order that
means nothing. `byShard` brings their entries into an order that does not depend
on it.

## Main definitions

* `Cluster.awaitCompletion`, `awaitLastState`: Waiting, with a time limit.
* `SinkEntry`: What a sink did.
* `Cluster.sinkEntries`: What the scripted sinks did.
* `Cluster.byShard`: The same in an order of its own.
-/

namespace OutboxCluster

/-- What a sink did: it was given a batch, or, if there is an ending, it was done
    with one. -/
structure SinkEntry where
  who : Stamp
  events : List OutboxEvent
  ending : Option Ending
deriving DecidableEq, Repr

namespace Cluster

/-- The workers of the node of this name. -/
def workersOf (c : Cluster) (name : String) : List Worker :=
  match c.find? name with
  | some node => node.body.workers
  | none => []

/-- Wait for an answer for at most `ms` milliseconds. -/
def await {α : Type} (c : Cluster) (answer? : Cluster → Option α) (ms : Nat) :
    Option α × Cluster :=
  let c := c.advanceUntil (fun c => (answer? c).isSome) ms
  (answer? c, c)

/-- Wait for the workers of a strategy to come to an end. -/
def awaitCompletion (c : Cluster) (name : String) (ms : Nat) :
    Option (Except CoordinationError Unit) × Cluster :=
  c.await (·.completion? name) ms

/-- Wait for a single worker to come to an end. -/
def awaitLastState (c : Cluster) (name : String) (ms : Nat) : Option ProcessorState × Cluster :=
  c.await (·.lastState? name) ms

/-- What the scripted sinks did, oldest first. -/
def sinkEntries (c : Cluster) : List SinkEntry :=
  let scripted (who : Stamp) : Bool :=
    (c.find? who.node).any fun n => n.host.sink.isScripted
  c.journal.reverse.filterMap fun
    | .began who _ batch => if scripted who then some ⟨who, batch.events, none⟩ else none
    | .ended who batch ending =>
      if scripted who then some ⟨who, batch.events, some ending⟩ else none
    | _ => none

/-- The shard of the first event of a batch, where the number of shards is that
    which the node is configured with. -/
def shardOf? (c : Cluster) (e : SinkEntry) : Option UInt32 := do
  let total ← (← c.find? e.who.node).totalCount
  let event ← e.events.head?
  return shardIndexFor event.hash (UInt32.ofNat total.toInt.toNat)

/-- Whether one shard comes before another or is the same; no shard comes
    first. -/
def shardLe : Option UInt32 → Option UInt32 → Bool
  | none, _ => true
  | some _, none => false
  | some a, some b => a ≤ b

/-- Entries in the order of their nodes and shards, and otherwise as they were. -/
def byShard (c : Cluster) (entries : List SinkEntry) : List SinkEntry :=
  entries.mergeSort fun a b =>
    a.who.node < b.who.node ||
      (a.who.node == b.who.node && shardLe (c.shardOf? a) (c.shardOf? b))

end Cluster

end OutboxCluster
