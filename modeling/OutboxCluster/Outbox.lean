import OutboxCluster.Error
import OutboxCluster.Shard
import OutboxCluster.Shard.Hash
import OutboxCluster.Table

/-!
# The Outbox

The outbox holds the events that wait to be handed on. An event is added with
the business change that produced it, is found by the owner of its shard, and
is deleted once it has been handed on. The order of ids is the order in which
events are handed on.

A stored hash is an integer of any size, like the numbers of an agent record;
one that is no word makes a search fail that comes across it. A search within a
shard asks for hashes between two words, so it never does.

## Main definitions

* `OutboxEvent`: An event as it is read.
* `Outbox`: The shared table.
* `Outbox.enqueue`: An event added.
* `Outbox.search`: The next events of a shard.
-/

namespace OutboxCluster

/-- An event that waits to be handed on. -/
structure OutboxEvent where
  id : Int
  key : String
  hash : UInt32
  payload : List UInt8
deriving DecidableEq, Repr

/-- An event as it is stored, without its id. -/
structure EventRow where
  key : String
  hash : Int
  payload : List UInt8
deriving DecidableEq, Repr

/-- A stored event as it is read. -/
def EventRow.read (id : Int) (r : EventRow) : Except StoreError OutboxEvent :=
  if 0 ≤ r.hash ∧ r.hash < 4294967296 then
    .ok { id, key := r.key, hash := UInt32.ofNat r.hash.toNat, payload := r.payload }
  else
    .error (.invalidData "routing_hash" (toString r.hash))

/-- An event with this key and payload, as it is stored. -/
def EventRow.ofKey (key : String) (payload : List UInt8) : EventRow :=
  { key, hash := (routingHash key).toNat, payload }

/-- The shared table of events. -/
abbrev Outbox := Table EventRow

namespace Outbox

/-- Add an event. -/
def enqueue (t : Outbox) (key : String) (payload : List UInt8) : Outbox :=
  t.insert (EventRow.ofKey key payload)

/-- Whether a stored hash lies in the range of a shard; without a shard, every
    hash does. -/
def eligible (assignment : Option Assignment) (hash : Int) : Bool :=
  match assignment with
  | none => true
  | some a => (a.hashRange.1.toNat : Int) ≤ hash && hash ≤ (a.hashRange.2.toNat : Int)

/-- The first `limit` events of a shard, in ascending order of their ids. -/
def search (t : Outbox) (assignment : Option Assignment) (limit : Nat) :
    Except StoreError (List OutboxEvent) :=
  ((t.rows.filter fun (_, row) => eligible assignment row.hash).take limit).mapM
    fun (id, row) => row.read id

end Outbox

end OutboxCluster
