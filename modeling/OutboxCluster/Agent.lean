import OutboxCluster.Error
import OutboxCluster.Shard
import OutboxCluster.Table

/-!
# Agents

An agent is one participant of the cluster, and its record in the shared table
is all that the others know of it: its role, a lease that it pushes forward
again and again, its state, and the shard it has taken. The others take an
agent for dead once its lease is over.

The table stores the two numbers of a shard as integers of any size, either of
which may be missing. `AgentRow` is a record as it is stored and `Agent` is one
as it is read; a stored number that is no word makes the record unreadable.
Reading does not ask whether the index is below the total: a record whose
numbers do not fit together simply has no assignment.

## Main definitions

* `AgentState`: The state of an agent.
* `Agent`: A record as it is read.
* `AgentRow`: A record as it is stored.
* `AgentTable`: The shared table.
* `AgentTable.list`: The records of one role, in ascending order of their ids.
-/

namespace OutboxCluster

/-- The state of an agent. -/
inductive AgentState where
  /-- Registered, and not yet allowed to process. -/
  | starting
  /-- Owner of its shard. -/
  | running
  /-- Stopped because its lease may be lost. -/
  | suspended
deriving DecidableEq, Repr

namespace AgentState

/-- The stored form of a state. -/
def text : AgentState → String
  | starting => "STARTING"
  | running => "RUNNING"
  | suspended => "SUSPENDED"

/-- The state with a stored form. -/
def ofText (s : String) : Except StoreError AgentState :=
  if s = "STARTING" then .ok starting
  else if s = "RUNNING" then .ok running
  else if s = "SUSPENDED" then .ok suspended
  else .error (.invalidData "state" s)

end AgentState

/-- A record of the agent table. Times are milliseconds of the wall clock. -/
structure Agent where
  id : Int
  /-- The role; agents of different roles do not see each other. -/
  role : String
  name : String
  /-- The last instant of the lease. -/
  expiration : Int
  state : AgentState
  total : Option UInt32
  index : Option UInt32
  payload : Option (List UInt8)
deriving DecidableEq, Repr

namespace Agent

/-- Whether the lease is over at `now`. -/
def isExpired (a : Agent) (now : Int) : Bool := a.expiration < now

/-- The recorded assignment, if there is a proper one. -/
def assignment (a : Agent) : Option Assignment :=
  match a.total, a.index with
  | some total, some index => Assignment.ofNumbers? total index
  | _, _ => none

/-- The record with an assignment, or with none. -/
def withAssignment (a : Agent) (assignment : Option Assignment) : Agent :=
  { a with total := assignment.map (·.total), index := assignment.map (·.index) }

end Agent

/-- A record as it is stored, without its id. -/
structure AgentRow where
  role : String
  name : String
  expiration : Int
  state : AgentState
  total : Option Int
  index : Option Int
  payload : Option (List UInt8)
deriving DecidableEq, Repr

/-- The word in a stored column. -/
def columnWord (column : String) : Option Int → Except StoreError (Option UInt32)
  | none => .ok none
  | some n =>
    if 0 ≤ n ∧ n < 4294967296 then .ok (some (UInt32.ofNat n.toNat))
    else .error (.invalidData column (toString n))

/-- A stored record as it is read. -/
def AgentRow.read (id : Int) (r : AgentRow) : Except StoreError Agent := do
  let total ← columnWord "total_shard_count" r.total
  let index ← columnWord "assigned_shard_index" r.index
  return { id, role := r.role, name := r.name, expiration := r.expiration, state := r.state,
           total, index, payload := r.payload }

/-- A record as it is stored. -/
def Agent.row (a : Agent) : AgentRow :=
  { role := a.role, name := a.name, expiration := a.expiration, state := a.state
    total := a.total.map fun n => (n.toNat : Int)
    index := a.index.map fun n => (n.toNat : Int)
    payload := a.payload }

/-- The shared table of agents. -/
abbrev AgentTable := Table AgentRow

namespace AgentTable

/-- The records of one role, live or not, in ascending order of their ids. One
    that cannot be read makes the whole list fail. -/
def list (t : AgentTable) (role : String) : Except StoreError (List Agent) :=
  (t.rows.filter (·.2.role == role)).mapM fun (id, row) => row.read id

/-- Whether there is a record with the id and the role of `a`. -/
def holds (t : AgentTable) (a : Agent) : Bool :=
  t.rows.any fun (id, row) => id == a.id && row.role == a.role

/-- The table with the record of `a` overwritten, where id and role agree. -/
def overwrite (t : AgentTable) (a : Agent) : AgentTable :=
  t.modify a.id fun row => if row.role = a.role then a.row else row

end AgentTable

end OutboxCluster
