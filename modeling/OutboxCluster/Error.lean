import OutboxCluster.Text.Span

/-!
# Errors

Everything that can go wrong, as values. An error is a cause with the data of
the cause; its wording is in one function per type, so that a statement about
when an error arises need not mention a text.

Errors of the shared tables and of the settings are types of their own, and
a `CoordinationError` wraps either. The cause behind a wrapped error is listed
by `CoordinationError.sources`, outermost first.

## Main definitions

* `StoreError`: What the shared tables report.
* `ConfigError`: Why settings are refused.
* `SinkError`: Why a consumer of events refused a batch.
* `CoordinationError`: What a node reports to its host.
-/

namespace OutboxCluster

/-- What the shared tables report. -/
inductive StoreError where
  /-- The database refused an operation. -/
  | database
  /-- The tables could not be brought up to date. -/
  | migration (text : String)
  /-- A stored payload cannot be read. -/
  | serialization
  /-- The record with this id is gone. -/
  | notFound (id : Int)
  /-- The tables, or the access to them, were closed. -/
  | closed
  /-- A stored column holds a value outside its domain. -/
  | invalidData (column value : String)
deriving DecidableEq, Repr

/-- Why settings are refused. -/
inductive ConfigError where
  | invalidTotalShardCount (value : Int)
  | invalidShardIndex (index totalCount : Int)
  | missingStaticProperty (name : String)
  | invalidInterval (name : String) (valueMs : Nat)
  | intervalTooLong (name : String) (valueMs maxMs : Nat)
  | invalidPulseInterval (pulseMs pollingMs : Nat)
  | invalidPulseExpiration (expirationMs pulseMs : Nat)
  | invalidCount (name : String) (value : Nat)
  /-- The file cannot be read. -/
  | io (text : String)
  /-- The file is not a settings document. -/
  | parse
  /-- An environment variable does not hold a value of its setting. -/
  | invalidVariable (key value : String)
deriving DecidableEq, Repr

/-- Why a consumer refused a batch: a message, and the messages of the causes
    behind it, outermost first. -/
structure SinkError where
  message : String
  causes : List String := []
deriving DecidableEq, Repr

/-- What a node reports to its host. -/
inductive CoordinationError where
  | config (error : ConfigError)
  | store (error : StoreError)
  | sink (error : SinkError)
  /-- A batch took longer than it may; the span is in nanoseconds. -/
  | transactionTimeout (nanos : Nat)
  /-- A processor gave up on a batch. -/
  | processorHalted (processor : String) (attempts : Nat) (reason : String)
  | missingComponent (what : String)
  | alreadyStarted
  | schedulerFull (capacity : Nat)
  /-- The worker in this slot ended by a fault of its own. -/
  | join (slot : Nat)
  /-- Several processors failed. -/
  | multiple (errors : List CoordinationError)
  /-- Some steps of a shutdown failed. -/
  | shutdown (errors : List CoordinationError)
deriving Repr, Inhabited

namespace StoreError

/-- The wording of an error of the shared tables. -/
def message : StoreError → String
  | database => "Database error"
  | migration text => s!"Migration error: {text}"
  | serialization => "Serialization error"
  | notFound id => s!"Agent not found: {id}"
  | closed => "Store closed"
  | invalidData column value => s!"Invalid data in column {column}: {value}"

end StoreError

namespace ConfigError

/-- The wording of a refusal of settings. -/
def message : ConfigError → String
  | invalidTotalShardCount value =>
    s!"shards.total_count must be a positive integer, got {value}"
  | invalidShardIndex index totalCount =>
    s!"shards.assigned contains {index}, which is outside [0, {totalCount})"
  | missingStaticProperty name =>
    s!"shards.{name} is required when shards.static is true"
  | invalidInterval name valueMs =>
    s!"processors.{name} must be positive, got {valueMs}ms"
  | intervalTooLong name valueMs maxMs =>
    s!"processors.{name} must be at most {maxMs}ms, got {valueMs}ms"
  | invalidPulseInterval pulseMs pollingMs =>
    s!"processors.pulse_interval ({pulseMs}ms) must be greater than or equal to " ++
      s!"processors.polling_interval ({pollingMs}ms)"
  | invalidPulseExpiration expirationMs pulseMs =>
    s!"processors.pulse_expiration ({expirationMs}ms) must be greater than or equal to " ++
      s!"3 * processors.pulse_interval ({pulseMs}ms)"
  | invalidCount name value =>
    s!"processors.{name} must be a positive integer, got {value}"
  | io text => s!"Failed to read configuration file: {text}"
  | parse => "Failed to parse configuration"
  | invalidVariable key value =>
    s!"Invalid value for environment variable {key}: {value}"

end ConfigError

namespace CoordinationError

mutual

/-- The wording of an error of a node. -/
def message : CoordinationError → String
  | config error => s!"Configuration error: {error.message}"
  | store error => s!"Metadata error: {error.message}"
  | sink error => s!"Sink error: {error.message}"
  | transactionTimeout nanos =>
    s!"Batch processing exceeded the transaction timeout of {Text.spanText nanos}"
  | processorHalted processor attempts reason =>
    s!"Processor {processor} halted after {attempts} failed attempts: {reason}"
  | missingComponent what => s!"{what} is required"
  | alreadyStarted => "Coordination already started"
  | schedulerFull capacity => s!"Scheduler is full ({capacity} workers)"
  | join _ => "Join error"
  | multiple errors =>
    s!"{errors.length} processors failed: " ++ "; ".intercalate (messages errors)
  | shutdown errors =>
    s!"{errors.length} errors while stopping: " ++ "; ".intercalate (messages errors)

/-- The wordings of several errors, in order. -/
def messages : List CoordinationError → List String
  | [] => []
  | error :: errors => error.message :: messages errors

end

/-- The wordings of the causes behind an error, outermost first. -/
def sources : CoordinationError → List String
  | config error => [error.message]
  | store error => [error.message]
  | sink error => error.message :: error.causes
  | _ => []

/-- One error stands for itself, several are reported together. -/
def collect : List CoordinationError → Except CoordinationError Unit
  | [] => .ok ()
  | [error] => .error error
  | errors => .error (.multiple errors)

end CoordinationError

end OutboxCluster
