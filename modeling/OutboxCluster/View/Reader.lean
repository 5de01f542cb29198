import OutboxCluster.Json
import OutboxCluster.View

/-!
# Reading Cluster Views

A view is read back from any JSON text that says one: white space and the order
of the fields do not matter, and fields with other names are passed over
whatever they hold. A field may neither be missing nor stand there twice. The
two values may also stand in an array, in the order of the fields.

## Main definitions

* `ClusterView.ofText?`: The view that a text says.
-/

namespace OutboxCluster

namespace ClusterView

/-- The fields of a view and the closing brace, when some fields have been read
    before. -/
def fields? : Nat → Option (List Int) → Option Int → List Char →
    Option (ClusterView × List Char)
  | 0, _, _, _ => none
  | fuel + 1, ids, observed, s => do
    let (name, rest) ← Json.name? (← Json.expect? '"' s)
    let (ids, observed, rest) ←
      if name = "agent_ids" then
        if ids.isSome then none
        else (Json.integers? rest).map fun (ids, rest) => (some ids, observed, rest)
      else if name = "observed_at" then
        if observed.isSome then none
        else (Json.integer? rest).map fun (observed, rest) => (ids, some observed, rest)
      else
        (Json.skipValue? (rest.length + 1) rest).map fun rest => (ids, observed, rest)
    match Json.skipSpace rest with
    | ',' :: rest => fields? fuel ids observed rest
    | '\x7d' :: rest => return (⟨← ids, ← observed⟩, rest)
    | _ => none

/-- The view that a text says. -/
def ofText? (text : String) : Option ClusterView := do
  let s := text.toList
  let (view, rest) ← match Json.skipSpace s with
    | '\x7b' :: rest => fields? (rest.length + 1) none none rest
    | '[' :: rest => do
      let (ids, rest) ← Json.integers? rest
      let (observed, rest) ← Json.integer? (← Json.expect? ',' rest)
      pure (⟨ids, observed⟩, ← Json.expect? ']' rest)
    | _ => none
  if (Json.skipSpace rest).isEmpty then some view else none

end ClusterView

end OutboxCluster
