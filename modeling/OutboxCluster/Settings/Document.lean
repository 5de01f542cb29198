import OutboxCluster.Settings.Override
import OutboxCluster.Toml.Document

/-!
# Settings Documents

Settings as a file says them. A setting that the document leaves out has its
default, and a name that is no setting is passed over. A value of the wrong
type, or a number that its setting cannot hold, makes the whole document
unreadable.

A table of settings may also be written as an array, which gives its settings
in their order; what the array leaves out has its default, and what it has too
much is passed over. A moment in time, which is a table of no known names,
leaves everything at its default.

## Main definitions

* `Settings.ofDocument?`: The settings that a document says.
* `Settings.ofText`: The same, from the text of the document.
* `Source`: What stands at the path of a settings file.
* `Settings.load`: Settings from a file and the environment.
-/

namespace OutboxCluster

open Toml (Value)

/-- The entries of a table of settings whose names are `names`. -/
def namedEntries? (names : List String) : Value → Option (List (String × Value))
  | .table entries => some entries
  | .array items => some (names.zip items)
  | .moment => some []
  | _ => none

/-- Read the setting called `name`, if it is there. -/
def readEntry? {α : Type} (read : Value → Option α) (name : String) (default : α)
    (entries : List (String × Value)) : Option α :=
  match Toml.entry? name entries with
  | none => some default
  | some value => read value

/-- A truth value. -/
def truthOf? : Value → Option Bool
  | .boolean value => some value
  | _ => none

/-- An integer of the document, which fits 64 bits. -/
def integerOf? : Value → Option Int64
  | .integer n => some (Int64.ofInt n)
  | _ => none

/-- An integer that is not negative. -/
def word64Of? : Value → Option UInt64
  | .integer n => if 0 ≤ n then some (UInt64.ofNat n.toNat) else none
  | _ => none

/-- An integer that fits 32 bits without a sign. -/
def word32Of? : Value → Option UInt32
  | .integer n => if 0 ≤ n ∧ n < 4294967296 then some (UInt32.ofNat n.toNat) else none
  | _ => none

/-- A list of integers. -/
def integersOf? : Value → Option (List Int64)
  | .array items => items.mapM integerOf?
  | _ => none

/-- The settings of shards that a value says. -/
def ShardSettings.ofValue? (value : Value) : Option ShardSettings := do
  let entries ← namedEntries? ["static", "total_count", "assigned"] value
  return {
    isStatic := ← readEntry? truthOf? "static" false entries
    totalCount := ← readEntry? (fun v => (integerOf? v).map some) "total_count" none entries
    assigned := ← readEntry? (fun v => (integersOf? v).map some) "assigned" none entries }

/-- The settings of processors that a value says. -/
def ProcessorSettings.ofValue? (value : Value) : Option ProcessorSettings := do
  let names := ["enabled", "polling_interval", "pulse_interval", "pulse_expiration",
    "batch_size", "transaction_timeout", "retry_delay", "max_consecutive_batches",
    "max_retry_attempts"]
  let entries ← namedEntries? names value
  let d : ProcessorSettings := {}
  return {
    enabled := ← readEntry? truthOf? "enabled" d.enabled entries
    pollingInterval := ← readEntry? word64Of? "polling_interval" d.pollingInterval entries
    pulseInterval := ← readEntry? word64Of? "pulse_interval" d.pulseInterval entries
    pulseExpiration := ← readEntry? word64Of? "pulse_expiration" d.pulseExpiration entries
    batchSize := ← readEntry? word32Of? "batch_size" d.batchSize entries
    transactionTimeout :=
      ← readEntry? (fun v => (word64Of? v).map some) "transaction_timeout" none entries
    retryDelay := ← readEntry? word64Of? "retry_delay" d.retryDelay entries
    maxConsecutiveBatches :=
      ← readEntry? word32Of? "max_consecutive_batches" d.maxConsecutiveBatches entries
    maxRetryAttempts :=
      ← readEntry? (fun v => (word32Of? v).map some) "max_retry_attempts" none entries }

/-- What stands at the path of a settings file. -/
inductive Source where
  | missing
  | directory
  | file (bytes : List UInt8)
deriving DecidableEq, Repr

/-- The text of a source, or why there is none. -/
def Source.text? : Source → Except String String
  | missing => .error "No such file or directory (os error 2)"
  | directory => .error "Is a directory (os error 21)"
  | file bytes =>
    match String.fromUTF8? (ByteArray.mk bytes.toArray) with
    | some text => .ok text
    | none => .error "stream did not contain valid UTF-8"

namespace Settings

/-- The settings that the entries of a document say. -/
def ofDocument? (entries : List (String × Value)) : Option Settings := do
  return {
    shards := ← readEntry? ShardSettings.ofValue? "shards" {} entries
    processors := ← readEntry? ProcessorSettings.ofValue? "processors" {} entries }

/-- The settings that the text of a document says. -/
def ofText (text : String) : Except ConfigError Settings :=
  match (Toml.document? text).bind ofDocument? with
  | some settings => .ok settings
  | none => .error .parse

/-- Settings from a file, overridden by the environment. -/
def load (path : String) (source : Source) (lookup : String → Option String) :
    Except ConfigError Settings :=
  match source.text? with
  | .error reason => .error (.io s!"{path}: {reason}")
  | .ok text => do
    let settings ← ofText text
    let (settings, result) := settings.applyOverrides lookup
    result
    return settings

end Settings

end OutboxCluster
