import OutboxCluster.Error
import OutboxCluster.Shard

/-!
# Settings

What a node is configured with, and what is left of it once it has been
checked. `Settings` holds whatever a file and the environment say, machine
words included; `Settings.validate` either refuses it with the first rule it
breaks or returns `Validated`, which the rest of the library works with. A
`Validated` names its sharding mode, holds its intervals as milliseconds and
its retry rule as a policy, so no later code looks at a raw field.

The rules are checked in a fixed order, shards before intervals before
counts, and the error carries the offending value. The product of three pulse
intervals is taken in 64 bits and stops at the largest word.

## Main definitions

* `Settings`: Unchecked settings.
* `Sharding`: How shards are shared out.
* `RetryPolicy`: How often a failing batch is tried.
* `Validated`: Checked settings.
* `Settings.validate`: The check.
* `Validated.assignments`: One entry per agent that a node starts.
-/

namespace OutboxCluster

/-- How shards are shared out, unchecked. -/
structure ShardSettings where
  /-- Shards come from these settings instead of from the live members. -/
  isStatic : Bool := false
  totalCount : Option Int64 := none
  assigned : Option (List Int64) := none
deriving DecidableEq, Repr

/-- How events are processed, unchecked. Intervals are in milliseconds. -/
structure ProcessorSettings where
  /-- Whether the node processes events at all. -/
  enabled : Bool := true
  pollingInterval : UInt64 := 100
  pulseInterval : UInt64 := 2000
  pulseExpiration : UInt64 := 30000
  batchSize : UInt32 := 50
  transactionTimeout : Option UInt64 := none
  retryDelay : UInt64 := 0
  maxConsecutiveBatches : UInt32 := 16
  maxRetryAttempts : Option UInt32 := none
deriving DecidableEq, Repr

/-- Unchecked settings of a node. -/
structure Settings where
  shards : ShardSettings := {}
  processors : ProcessorSettings := {}
deriving DecidableEq, Repr

/-- How shards are shared out. -/
inductive Sharding where
  /-- The live members share the shards out among themselves. -/
  | dynamic
  /-- The node owns fixed indices, distinct and ascending. -/
  | static (total : UInt32) (assigned : List UInt32)
deriving DecidableEq, Repr

/-- How often a failing batch is tried. -/
inductive RetryPolicy where
  | unbounded
  | bounded (maxAttempts : Nat)
deriving DecidableEq, Repr

/-- Whether a batch that has failed `attempts` times is given up. -/
def RetryPolicy.isExhausted : RetryPolicy → Nat → Bool
  | unbounded, _ => false
  | bounded maxAttempts, attempts => maxAttempts ≤ attempts

/-- Checked settings. Intervals are in milliseconds. -/
structure Validated where
  sharding : Sharding
  pollingInterval : Nat
  pulseInterval : Nat
  pulseExpiration : Nat
  batchSize : Nat
  transactionTimeout : Option Nat
  retryDelay : Nat
  maxConsecutiveBatches : Nat
  retryPolicy : RetryPolicy
deriving DecidableEq, Repr

/-- The longest interval that settings may name, one week. -/
def maxIntervalMs : UInt64 := 604800000

/-- An interval may not be longer than a week. -/
def checkBounded (name : String) (value : UInt64) : Except ConfigError Unit :=
  if maxIntervalMs < value then
    .error (.intervalTooLong name value.toNat maxIntervalMs.toNat)
  else
    .ok ()

/-- An interval may be neither zero nor longer than a week. -/
def checkInterval (name : String) (value : UInt64) : Except ConfigError Unit :=
  if value = 0 then .error (.invalidInterval name value.toNat) else checkBounded name value

/-- A count may not be zero. -/
def checkCount (name : String) (value : UInt32) : Except ConfigError Unit :=
  if value = 0 then .error (.invalidCount name value.toNat) else .ok ()

/-- Three times a word, or the largest word if that is less. -/
def tripled (value : UInt64) : UInt64 :=
  UInt64.ofNat (min (3 * value.toNat) 18446744073709551615)

/-- Insert a word into an ascending list, unless it is there. -/
def insertDistinct (x : UInt32) : List UInt32 → List UInt32
  | [] => [x]
  | y :: ys => if x < y then x :: y :: ys else if x = y then y :: ys else y :: insertDistinct x ys

/-- The distinct indices of a list, ascending, or the first one outside
    `[0, total)`. -/
def distinctIndices (total : Int64) : List Int64 → Except ConfigError (List UInt32)
  | [] => .ok []
  | index :: rest =>
    if index < 0 ∨ total ≤ index then
      .error (.invalidShardIndex index.toInt total.toInt)
    else
      (distinctIndices total rest).map (insertDistinct (UInt32.ofNat index.toInt.toNat))

/-- Check how shards are shared out. -/
def ShardSettings.validate (s : ShardSettings) : Except ConfigError Sharding :=
  if !s.isStatic then .ok .dynamic
  else match s.totalCount with
  | none => .error (.missingStaticProperty "total_count")
  | some total =>
    if total ≤ 0 ∨ 4294967295 < total then .error (.invalidTotalShardCount total.toInt)
    else match s.assigned with
    | none | some [] => .error (.missingStaticProperty "assigned")
    | some assigned => do
      let indices ← distinctIndices total assigned
      return .static (UInt32.ofNat total.toInt.toNat) indices

/-- The lower bounds that the intervals set each other: a pulse is not more
    frequent than a poll, and a lease outlasts three pulses. -/
def ProcessorSettings.checkProportions (p : ProcessorSettings) : Except ConfigError Unit :=
  if p.pulseInterval < p.pollingInterval then
    .error (.invalidPulseInterval p.pulseInterval.toNat p.pollingInterval.toNat)
  else if p.pulseExpiration < tripled p.pulseInterval then
    .error (.invalidPulseExpiration p.pulseExpiration.toNat p.pulseInterval.toNat)
  else
    .ok ()

namespace Settings

/-- Check every setting, in a fixed order. -/
def validate (s : Settings) : Except ConfigError Validated := do
  let sharding ← s.shards.validate
  let p := s.processors
  checkInterval "polling_interval" p.pollingInterval
  checkInterval "pulse_interval" p.pulseInterval
  checkInterval "pulse_expiration" p.pulseExpiration
  checkBounded "retry_delay" p.retryDelay
  p.checkProportions
  checkCount "batch_size" p.batchSize
  checkCount "max_consecutive_batches" p.maxConsecutiveBatches
  match p.transactionTimeout with
  | some timeout => checkInterval "transaction_timeout" timeout
  | none => pure ()
  match p.maxRetryAttempts with
  | some attempts => checkCount "max_retry_attempts" attempts
  | none => pure ()
  return {
    sharding
    pollingInterval := p.pollingInterval.toNat
    pulseInterval := p.pulseInterval.toNat
    pulseExpiration := p.pulseExpiration.toNat
    batchSize := p.batchSize.toNat
    transactionTimeout := p.transactionTimeout.map UInt64.toNat
    retryDelay := p.retryDelay.toNat
    maxConsecutiveBatches := p.maxConsecutiveBatches.toNat
    retryPolicy := match p.maxRetryAttempts with
      | some attempts => .bounded attempts.toNat
      | none => .unbounded }

end Settings

namespace Validated

/-- One entry per agent that a node starts: its own shard under static
    sharding, in ascending order, and a single agent without one under dynamic
    sharding. -/
def assignments (v : Validated) : List (Option Assignment) :=
  match v.sharding with
  | .dynamic => [none]
  | .static total assigned => (assigned.filterMap (Assignment.ofNumbers? total)).map some

/-- How long a failed batch rests. No delay means the next polling tick, so
    that a failing batch never spins. -/
def retryWait (v : Validated) : Nat :=
  if v.retryDelay = 0 then v.pollingInterval else v.retryDelay

end Validated

end OutboxCluster
