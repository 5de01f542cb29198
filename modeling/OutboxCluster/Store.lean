import OutboxCluster.Agent
import OutboxCluster.Outbox

/-!
# The Store

The two shared tables, and the sessions in which agents change theirs. A
session works on a copy of the agent table. Committing puts the copy back;
dropping it leaves the table as it was. While a session is open everyone else
sees only what was committed. Events need no session: each change of the outbox
is a transaction of its own.

A store that is closed refuses everything that would touch its tables. Deleting
no ids touches nothing and succeeds even then.

## Main definitions

* `Store`: The shared tables and the open session.
* `Request`: What can be asked of a store.
* `Answer`: What it answers.
* `Store.handle`: One request carried out.
-/

namespace OutboxCluster

/-- The shared tables and the open session. -/
structure Store where
  agents : AgentTable := {}
  outbox : Outbox := {}
  /-- The copy that the open session works on. -/
  session : Option AgentTable := none
  closed : Bool := false

/-- What can be asked of a store. -/
inductive Request where
  | begin
  | commit
  | rollback
  | list (role : String)
  /-- Create an agent; its id does not matter. -/
  | create (agent : Agent)
  | update (agent : Agent)
  | delete (ids : List Int)
  | enqueue (key : String) (payload : List UInt8)
  /-- Add events with the given keys, each with its payload. -/
  | enqueueAll (events : List (String × List UInt8))
  /-- Add an event in a transaction of the caller, which is then committed or
      rolled back. -/
  | enqueueIn (key : String) (payload : List UInt8) (commits : Bool)
  | search (assignment : Option Assignment) (limit : Nat)
  | deleteEvents (ids : List Int)
  | count
  /-- Store an agent record as it is. -/
  | putAgent (row : AgentRow)
  /-- Store an event as it is. -/
  | putEvent (row : EventRow)
  | close
  | reopen

/-- What a store answers. -/
inductive Answer where
  | done
  | agents (list : List Agent)
  | agent (a : Agent)
  | flag (value : Bool)
  | number (n : Nat)
  | id (id : Int)
  | events (list : List OutboxEvent)

namespace Store

/-- Carry out a request on the session that is open. Without one there is
    nothing to ask. -/
def inSession (s : Store) (act : AgentTable → Except StoreError (Answer × AgentTable)) :
    Except StoreError Answer × Store :=
  match s.session with
  | none => (.error .database, s)
  | some copy =>
    match act copy with
    | .error e => (.error e, s)
    | .ok (answer, copy) => (.ok answer, { s with session := some copy })

/-- Carry out a request on the tables, unless the store is closed. -/
def whenOpen (s : Store) (act : Except StoreError Answer × Store) :
    Except StoreError Answer × Store :=
  if s.closed then (.error .database, s) else act

/-- Carry out one request. -/
def handle (s : Store) : Request → Except StoreError Answer × Store
  | .begin => s.whenOpen (.ok .done, { s with session := some s.agents })
  | .commit =>
    match s.session with
    | none => (.error .database, s)
    | some copy => (.ok .done, { s with agents := copy, session := none })
  | .rollback => (.ok .done, { s with session := none })
  | .list role => s.inSession fun t => (t.list role).map fun list => (.agents list, t)
  | .create agent => s.inSession fun t =>
    .ok (.agent { agent with id := t.nextId }, t.insert agent.row)
  | .update agent => s.inSession fun t =>
    .ok (.flag (t.holds agent), t.overwrite agent)
  | .delete ids => s.inSession fun t => .ok (.number (t.count ids), t.delete ids)
  | .enqueue key payload =>
    s.whenOpen (.ok (.id s.outbox.nextId), { s with outbox := s.outbox.enqueue key payload })
  | .enqueueAll events =>
    let outbox := s.outbox.insertAll (events.map fun (key, payload) => EventRow.ofKey key payload)
    if events.isEmpty then (.ok (.id 0), s)
    else s.whenOpen (.ok (.id outbox.lastId), { s with outbox })
  | .enqueueIn key payload commits =>
    let outbox := if commits then s.outbox.enqueue key payload else s.outbox
    s.whenOpen (.ok (.id s.outbox.nextId), { s with outbox })
  | .search assignment limit =>
    s.whenOpen ((s.outbox.search assignment limit).map .events, s)
  | .deleteEvents ids =>
    if ids.isEmpty then (.ok (.number 0), s)
    else s.whenOpen (.ok (.number (s.outbox.count ids)), { s with outbox := s.outbox.delete ids })
  | .count => s.whenOpen (.ok (.number s.outbox.rows.length), s)
  | .putAgent row => s.whenOpen (.ok .done, { s with agents := s.agents.insert row })
  | .putEvent row => s.whenOpen (.ok .done, { s with outbox := s.outbox.insert row })
  | .close => (.ok .done, { s with session := none, closed := true })
  | .reopen => (.ok .done, { s with session := none, closed := false })

end Store

end OutboxCluster
