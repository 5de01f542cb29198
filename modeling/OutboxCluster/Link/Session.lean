import OutboxCluster.Fault
import OutboxCluster.Link
import OutboxCluster.Notice

/-!
# Sessions of a Link

An agent changes the shared table only within a session: it opens one, reads and
writes a copy of the table, and commits. Every use can fail by the plan of the
node. A session that fails leaves the table alone, but not the link: what the
agent remembers in the middle of a session it still remembers after the session
has failed.

A session can also break down, which is no failure that the agent could deal
with: it computes a time that is no reading, and whoever makes the attempt goes
no further. The table is left alone then too.

`SessionM` is a computation within a session. Its state survives an interruption,
and `Session.run` decides what becomes of the table.

## Main definitions

* `Access`: How a node reaches the shared table.
* `Session`: What a session works on.
* `Interruption`: Why a session stops before its end.
* `SessionM`: A computation within a session.
* `SessionM.begin`, `list`, `create`, `update`, `delete`, `commit`: The uses.
* `Session.run`: A computation carried out on a table.
-/

namespace OutboxCluster

/-- How a node reaches the shared table. -/
structure Access where
  faults : Faults := {}
  /-- Whether the node has closed its access. -/
  closed : Bool := false

/-- What a session works on. -/
structure Session where
  link : Link
  access : Access
  /-- The copy of the table. -/
  table : AgentTable
  /-- What has been reported, in order. -/
  notices : List Notice := []

/-- Why a session stops before its end. -/
inductive Interruption where
  /-- A use failed. -/
  | failure (error : StoreError)
  /-- A time was computed that is no reading. -/
  | overflow
deriving DecidableEq, Repr

/-- A computation within a session, which may be interrupted. -/
abbrev SessionM := ExceptT Interruption (StateM Session)

namespace SessionM

/-- Use a point of the plan. -/
def use (point : UsePoint) : SessionM Unit := do
  let s ← get
  let (error, faults) := s.access.faults.strike point
  set { s with access.faults := faults }
  match error with
  | some e => throw (.failure e)
  | none => pure ()

/-- Report something. -/
def report (n : Notice) : SessionM Unit :=
  modify fun s => { s with notices := s.notices ++ [n] }

/-- Remember a record as the own one, or none. -/
def remember (id : Option Int) : SessionM Unit :=
  modify fun s => { s with link.selfId := id }

/-- Open the session. -/
def begin : SessionM Unit := do
  use .begin
  if (← get).access.closed then throw (.failure .closed)

/-- The records of the own role, in ascending order of their ids. -/
def list : SessionM (List Agent) := do
  use .list
  let s ← get
  match s.table.list s.link.role with
  | .ok agents => return agents
  | .error e => throw (.failure e)

/-- Add a record. The id in `agent` does not matter. -/
def create (agent : Agent) : SessionM Agent := do
  use .create
  let s ← get
  let created := { agent with id := s.table.nextId }
  set { s with table := s.table.insert created.row }
  return created

/-- Overwrite a record, and tell whether there was one. -/
def update (agent : Agent) : SessionM Bool := do
  use .update
  let s ← get
  match s.access.faults.strike .updateLost with
  | (some _, faults) =>
    set { s with access.faults := faults }
    return false
  | (none, _) =>
    set { s with table := s.table.overwrite agent }
    return s.table.holds agent

/-- Remove records. -/
def delete (ids : List Int) : SessionM Unit := do
  use .deleteAgents
  modify fun s => { s with table := s.table.delete ids }

/-- Commit. -/
def commit : SessionM Unit := use .commit

end SessionM

/-- What an attempt of a link leaves behind. -/
structure Attempt where
  link : Link
  access : Access
  table : AgentTable
  notices : List Notice
  /-- Whether whoever made the attempt has broken down in it. -/
  broken : Bool := false

namespace Session

/-- Carry out a computation on a table. The table is changed if the computation
    succeeds and `keeps` its result, and is otherwise as before. -/
def run {α : Type} (act : SessionM α) (keeps : α → Bool) (link : Link) (access : Access)
    (table : AgentTable) : Except Interruption α × Attempt :=
  match StateT.run (ExceptT.run act) ({ link, access, table } : Session) with
  | (result, s) =>
    let kept := match result with
      | .ok a => keeps a
      | .error _ => false
    let broken := match result with
      | .error .overflow => true
      | _ => false
    (result, { link := s.link, access := s.access, notices := s.notices, broken
               table := if kept then s.table else table })

end Session

end OutboxCluster
