import OutboxCluster.Toml.Value

/-!
# Tables under Construction

A document builds its tables piece by piece: by headers, by keys with dots, and
by both in any order. Which of these may still add to a table depends on how
the table came to be, so a table under construction remembers its `Origin`. The
rules are that a header opens a table once, that a key with dots adds only to
tables that such keys made, and that nothing adds to a finished value.

A header may open a table that exists only because a longer header passed
through it. Where a path meets an array of tables, it goes on in the last one.

## Main definitions

* `Origin`: How a table came to be.
* `Node`: A table under construction.
* `descend`: The table at the end of a path, changed by a function.
* `insertPair`: A table with one more value under a key with dots.
* `Node.value`: The finished value.
-/

namespace OutboxCluster

namespace Toml

/-- How a table came to be. -/
inductive Origin where
  /-- Opened by its own header, or the document itself. -/
  | opened
  /-- On the way of a longer header. -/
  | passed
  /-- On the way of a key with dots. -/
  | dotted
deriving DecidableEq

/-- A value of a document that may still grow. -/
inductive Node where
  | leaf (value : Value)
  | table (origin : Origin) (entries : List (String × Node))
  | tables (elements : List (List (String × Node)))

/-- Entries of a table under construction. -/
abbrev Entries := List (String × Node)

/-- Put a node under a key, in place of the one that is there. -/
def put (key : String) (node : Node) : Entries → Entries
  | [] => [(key, node)]
  | (k, n) :: rest => if k = key then (k, node) :: rest else (k, n) :: put key node rest

/-- Remove the node under a key. -/
def remove (key : String) : Entries → Entries
  | [] => []
  | (k, n) :: rest => if k = key then rest else (k, n) :: remove key rest

/-- Change the table at the end of `path`, making the missing ones on the way
    with origin `made`. A key with dots does not pass through a table that a
    header opened. -/
def descend {α : Type} (made : Origin) (change : Origin → Entries → Option (α × Entries)) :
    List String → Origin → Entries → Option (α × Entries)
  | [], origin, entries => change origin entries
  | key :: path, _, entries =>
    match entry? key entries with
    | none => do
      let (result, below) ← descend made change path made []
      return (result, put key (.table made below) entries)
    | some (.leaf _) => none
    | some (.table origin below) =>
      if made = .dotted ∧ origin = .opened then none
      else do
        let (result, below) ← descend made change path origin below
        return (result, put key (.table origin below) entries)
    | some (.tables elements) =>
      match elements.getLast? with
      | none => none
      | some last => do
        let (result, last) ← descend made change path .opened last
        return (result, put key (.tables (elements.dropLast ++ [last])) entries)

/-- A table with one more value. The key comes apart into the tables that its
    dots pass and the name of the value in the last one; that table must have
    been made by such keys, unless there are no dots. -/
def insertPair (path : List String) (name : String) (value : Value) (entries : Entries) :
    Option Entries :=
  let add (origin : Origin) (entries : Entries) : Option (Unit × Entries) :=
    if path.isEmpty = (origin == .dotted) then none
    else match entry? name entries with
      | some _ => none
      | none => some ((), entries ++ [(name, .leaf value)])
  (descend .dotted add path .opened entries).map (·.2)

mutual

/-- The finished value. -/
def Node.value : Node → Value
  | .leaf value => value
  | .table _ entries => .table (entryValues entries)
  | .tables elements => .array (elementValues elements)

/-- Finished entries. -/
def entryValues : List (String × Node) → List (String × Value)
  | [] => []
  | (key, node) :: rest => (key, node.value) :: entryValues rest

/-- Finished elements of an array of tables. -/
def elementValues : List (List (String × Node)) → List Value
  | [] => []
  | entries :: rest => .table (entryValues entries) :: elementValues rest

end

end Toml

end OutboxCluster
