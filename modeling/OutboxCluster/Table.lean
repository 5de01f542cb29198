/-!
# Tables with Increasing Ids

A table gives every row an id of its own, one above the largest it has ever
given, so that a later row always has a larger id than an earlier one, even
when the row with the largest id is gone. Rows stand in the order of their
ids, because a row is only ever added at the end.

A transaction works on a copy of the table and puts it back when it commits.
One that is dropped leaves rows and ids as they were, which is why an id given
inside it can be given again.

## Main definitions

* `Table`: Rows with ids.
* `Table.insert`: A row added under the next id.
* `Table.delete`: The rows with the given ids removed.
* `Table.modify`: The row with one id changed.
-/

namespace OutboxCluster

/-- Rows with ids, in ascending order. -/
structure Table (α : Type) where
  rows : List (Int × α) := []
  /-- The largest id that was ever given. -/
  lastId : Int := 0

namespace Table

variable {α : Type}

/-- The id that the next row gets. -/
def nextId (t : Table α) : Int := t.lastId + 1

/-- Add a row under the next id. -/
def insert (t : Table α) (row : α) : Table α :=
  { rows := t.rows ++ [(t.nextId, row)], lastId := t.nextId }

/-- Add rows in order, each under the next id. -/
def insertAll (t : Table α) (rows : List α) : Table α :=
  { rows := t.rows ++ rows.mapIdx fun i row => (t.lastId + 1 + i, row)
    lastId := t.lastId + rows.length }

/-- The row with an id. -/
def find? (t : Table α) (id : Int) : Option α :=
  (t.rows.find? (·.1 == id)).map (·.2)

/-- How many rows have one of these ids. -/
def count (t : Table α) (ids : List Int) : Nat :=
  t.rows.countP fun row => ids.contains row.1

/-- Remove the rows with these ids. -/
def delete (t : Table α) (ids : List Int) : Table α :=
  { t with rows := t.rows.filter fun row => ! ids.contains row.1 }

/-- Change the row with an id. -/
def modify (t : Table α) (id : Int) (change : α → α) : Table α :=
  { t with rows := t.rows.map fun row => if row.1 = id then (id, change row.2) else row }

end Table

end OutboxCluster
