/-!
# Cluster Views

What a member saw when it last decided: the ids of the live members, ascending,
and the reading of the clock. A member stores its view with its record, for
whoever looks at the table; no decision reads it back.

The stored form is a compact JSON object with two fields in a fixed order.

## Main definitions

* `ClusterView`: A view.
* `ClusterView.text`: Its stored form.
-/

namespace OutboxCluster

/-- What a member saw when it last decided. -/
structure ClusterView where
  /-- Ids of the live members, ascending. -/
  agentIds : List Int
  /-- The clock of the member, in milliseconds. -/
  observedAt : Int
deriving DecidableEq, Repr

namespace ClusterView

/-- Integers with commas between them. -/
def commaSeparated (ids : List Int) : String :=
  ",".intercalate (ids.map toString)

/-- The stored form of a view. -/
def text (view : ClusterView) : String :=
  "\x7b\"agent_ids\":[" ++ commaSeparated view.agentIds ++ "],\"observed_at\":" ++
    toString view.observedAt ++ "\x7d"

/-- The stored form as bytes. -/
def payload (view : ClusterView) : List UInt8 :=
  view.text.toUTF8.toList

end ClusterView

end OutboxCluster
