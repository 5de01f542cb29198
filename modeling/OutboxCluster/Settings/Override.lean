import OutboxCluster.Settings
import OutboxCluster.Text.Blank
import OutboxCluster.Text.Numeral

/-!
# Overrides from the Environment

Every setting has an environment variable, and a variable that is present wins
over the file. The variables are read in the order of `Setting.all`; the first
one that does not hold a value of its setting ends the reading. The settings
before it keep what they were given, and it and the later ones are left as
they were.

Blanks around a value do not matter, but the error quotes the value as it
stands. A list is written with commas, and its empty items are dropped.

## Main definitions

* `Setting`: The settings, as names.
* `Setting.key`: The environment variable of a setting.
* `Setting.assign`: Settings with one of them read from a text.
* `Settings.applyOverrides`: All variables applied in order.
-/

namespace OutboxCluster

/-- The settings that a variable can override. -/
inductive Setting where
  | isStatic
  | totalCount
  | assigned
  | enabled
  | pollingInterval
  | pulseInterval
  | pulseExpiration
  | batchSize
  | transactionTimeout
  | retryDelay
  | maxConsecutiveBatches
  | maxRetryAttempts
deriving DecidableEq, Repr

namespace Setting

/-- The settings in the order in which their variables are read. -/
def all : List Setting :=
  [isStatic, totalCount, assigned, enabled, pollingInterval, pulseInterval, pulseExpiration,
   batchSize, transactionTimeout, retryDelay, maxConsecutiveBatches, maxRetryAttempts]

/-- The environment variable of a setting. -/
def key : Setting → String
  | isStatic => "SHARDLINE_SHARDS_STATIC"
  | totalCount => "SHARDLINE_SHARDS_TOTAL_COUNT"
  | assigned => "SHARDLINE_SHARDS_ASSIGNED"
  | enabled => "SHARDLINE_PROCESSORS_ENABLED"
  | pollingInterval => "SHARDLINE_PROCESSORS_POLLING_INTERVAL"
  | pulseInterval => "SHARDLINE_PROCESSORS_PULSE_INTERVAL"
  | pulseExpiration => "SHARDLINE_PROCESSORS_PULSE_EXPIRATION"
  | batchSize => "SHARDLINE_PROCESSORS_BATCH_SIZE"
  | transactionTimeout => "SHARDLINE_PROCESSORS_TRANSACTION_TIMEOUT"
  | retryDelay => "SHARDLINE_PROCESSORS_RETRY_DELAY"
  | maxConsecutiveBatches => "SHARDLINE_PROCESSORS_MAX_CONSECUTIVE_BATCHES"
  | maxRetryAttempts => "SHARDLINE_PROCESSORS_MAX_RETRY_ATTEMPTS"

/-- What a reader returns, or the text that it refused. -/
def orRefused {α : Type} (text : List Char) : Option α → Except String α
  | some value => .ok value
  | none => .error (String.ofList text)

/-- The texts between the commas of a text. -/
def splitCommas : List Char → List (List Char)
  | [] => [[]]
  | c :: rest =>
    if c = ',' then [] :: splitCommas rest
    else match splitCommas rest with
      | [] => [[c]]
      | item :: items => (c :: item) :: items

/-- The items of a written list: what stands between commas, without the blanks
    around it, unless nothing is left. -/
def items (text : List Char) : List (List Char) :=
  ((splitCommas text).map Text.trim).filter (! ·.isEmpty)

/-- The integers of a written list, or the first item that is none. -/
def integers (text : List Char) : Except String (List Int64) :=
  (items text).mapM fun item => orRefused item (Text.integer64? item)

/-- Settings with one of them read from a text, or the part of the text that
    was refused. -/
def assign (setting : Setting) (text : String) (s : Settings) : Except String Settings :=
  let raw := text.toList
  let word := Text.trim raw
  match setting with
  | isStatic => do
    let value ← orRefused raw (Text.truth? word)
    return { s with shards.isStatic := value }
  | totalCount => do
    let value ← orRefused raw (Text.integer64? word)
    return { s with shards.totalCount := some value }
  | assigned => do
    let value ← integers raw
    return { s with shards.assigned := some value }
  | enabled => do
    let value ← orRefused raw (Text.truth? word)
    return { s with processors.enabled := value }
  | pollingInterval => do
    let value ← orRefused raw (Text.word64? word)
    return { s with processors.pollingInterval := value }
  | pulseInterval => do
    let value ← orRefused raw (Text.word64? word)
    return { s with processors.pulseInterval := value }
  | pulseExpiration => do
    let value ← orRefused raw (Text.word64? word)
    return { s with processors.pulseExpiration := value }
  | batchSize => do
    let value ← orRefused raw (Text.word32? word)
    return { s with processors.batchSize := value }
  | transactionTimeout => do
    let value ← orRefused raw (Text.word64? word)
    return { s with processors.transactionTimeout := some value }
  | retryDelay => do
    let value ← orRefused raw (Text.word64? word)
    return { s with processors.retryDelay := value }
  | maxConsecutiveBatches => do
    let value ← orRefused raw (Text.word32? word)
    return { s with processors.maxConsecutiveBatches := value }
  | maxRetryAttempts => do
    let value ← orRefused raw (Text.word32? word)
    return { s with processors.maxRetryAttempts := some value }

end Setting

namespace Settings

/-- Apply the variables of the listed settings in order, up to the first one
    that does not hold a value of its setting. -/
def applyEach (lookup : String → Option String) :
    List Setting → Settings → Settings × Except ConfigError Unit
  | [], s => (s, .ok ())
  | setting :: rest, s =>
    match lookup setting.key with
    | none => applyEach lookup rest s
    | some text =>
      match setting.assign text s with
      | .ok s => applyEach lookup rest s
      | .error refused => (s, .error (.invalidVariable setting.key refused))

/-- Apply every variable that `lookup` knows. -/
def applyOverrides (s : Settings) (lookup : String → Option String) :
    Settings × Except ConfigError Unit :=
  applyEach lookup Setting.all s

end Settings

end OutboxCluster
