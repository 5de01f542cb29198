/-!
# Notices

What a node reports about itself while it runs. A notice is an event with its
numbers; level, wording and the names of the fields are functions of it, so
the code that reports something only says what happened.

## Main definitions

* `Notice`: Everything that is reported.
* `Notice.level`, `Notice.message`, `Notice.fields`: How it is written.
-/

namespace OutboxCluster

/-- How serious a notice is. -/
inductive Level where
  | info
  | warn
  | error
deriving DecidableEq, Repr

/-- The written form of a level. -/
def Level.text : Level → String
  | info => "INFO"
  | warn => "WARN"
  | error => "ERROR"

/-- The value of a field of a notice. -/
inductive FieldValue where
  | number (n : Int)
  | text (s : String)
deriving DecidableEq, Repr

/-- What a node reports. -/
inductive Notice where
  /-- The own lease was over when the agent looked. -/
  | ownLeaseExpired (agent : Int)
  /-- The record of a peer whose lease is over is removed. -/
  | reclaiming (peer : Int) (agoMs : Int)
  /-- The own record is gone. -/
  | registeringAgain (old : Int)
  | registered (agent : Int)
  /-- A peer stands in the way of a configured shard. -/
  | conflict (agent peer : Int)
  | pulseRecovered (agent : Int) (failures : Nat)
  | stateChanged (agent : Int)
  | pulseFailed (failures : Nat)
  /-- The lease may be lost, because no pulse got through. -/
  | leaseLapsed
  /-- The lease is lost: the record is expired or gone. -/
  | recordLost
  | left (agent : Int)
  | leaveFailed (agent : Int)
  | processorStarted (pollingMs pulseMs : Nat)
  | processorStopped (batches events failures : Nat)
  | pollFailed
  /-- Somebody else deleted some events of a batch first. -/
  | fewerDeleted (applied deleted : Nat)
  /-- The shard was lost while a batch was in hand. -/
  | ownershipLost (events : Nat)
  | batchHalted (attempts : Nat) (first : Option Int)
  | batchRetried (attempts events : Nat)
  /-- The shard is not the one that a kept batch was found for. -/
  | ownershipChanged (events attempts : Nat)
  | eventApplied (event : Int) (bytes : Nat)
  | processingDisabled
  | processingStarted (processors : Nat)
  | draining (processors : Nat)
  | closeFailed (resource : String)
  | stopped
  | stoppedWithErrors
  | schedulerShutDown (capacity : Nat)
deriving DecidableEq, Repr

namespace Notice

/-- How serious a notice is. -/
def level : Notice → Level
  | ownLeaseExpired _ | registeringAgain _ | conflict .. | pulseFailed _ | leaveFailed _
  | pollFailed | fewerDeleted .. | ownershipLost _ | batchRetried .. | ownershipChanged ..
  | closeFailed _ | stoppedWithErrors => .warn
  | leaseLapsed | recordLost | batchHalted .. => .error
  | _ => .info

/-- The wording of a notice. -/
def message : Notice → String
  | ownLeaseExpired _ => "Own lease expired; re-registering"
  | reclaiming .. => "Reclaiming expired agent"
  | registeringAgain _ => "Agent record was reclaimed by a peer; registering again"
  | registered _ => "Registered agent"
  | conflict .. => "Conflicting static shard assignment; waiting"
  | pulseRecovered .. => "Pulse recovered"
  | stateChanged _ => "Agent state changed"
  | pulseFailed _ => "Pulse failed"
  | leaseLapsed => "No successful pulse within the lease expiration; suspending processing"
  | recordLost => "Agent record expired or was reclaimed; suspending processing"
  | left _ => "Agent left the cluster"
  | leaveFailed _ => "Failed to remove agent record; it will expire"
  | processorStarted .. => "Event processor started"
  | processorStopped .. => "Event processor stopped"
  | pollFailed => "Failed to poll outbox events"
  | fewerDeleted .. =>
    "Fewer outbox rows deleted than applied; another node may have consumed them"
  | ownershipLost _ =>
    "Lost shard ownership during a batch; leaving its rows to the next owner"
  | batchHalted .. => "Batch failed too many times; halting processor"
  | batchRetried .. => "Batch failed; retrying the same batch"
  | ownershipChanged .. => "Shard ownership changed; dropping retained batch"
  | eventApplied .. => "Applied outbox event"
  | processingDisabled => "Event processing disabled on this node"
  | processingStarted _ => "Started outbox event processing"
  | draining _ => "Draining event processors"
  | closeFailed _ => "Failed to close resource"
  | stopped => "Coordination stopped"
  | stoppedWithErrors => "Coordination stopped with errors"
  | schedulerShutDown _ => "Processor scheduler shut down"

/-- The fields of a notice, by name. -/
def fields : Notice → List (String × FieldValue)
  | ownLeaseExpired agent | registered agent | stateChanged agent | left agent
  | leaveFailed agent | registeringAgain agent => [("agent_id", .number agent)]
  | reclaiming peer agoMs => [("peer_id", .number peer), ("expired_ms_ago", .number agoMs)]
  | conflict agent peer => [("agent_id", .number agent), ("peer_id", .number peer)]
  | pulseRecovered agent failures =>
    [("agent_id", .number agent), ("failures", .number failures)]
  | pulseFailed failures => [("failure_count", .number failures)]
  | processorStarted pollingMs pulseMs =>
    [("polling_interval_ms", .number pollingMs), ("pulse_interval_ms", .number pulseMs)]
  | processorStopped batches events failures =>
    [("batches", .number batches), ("events", .number events), ("failures", .number failures)]
  | fewerDeleted applied deleted =>
    [("applied", .number applied), ("deleted", .number deleted)]
  | ownershipLost events => [("events", .number events)]
  | batchHalted attempts first =>
    ("attempts", .number attempts) :: (first.map fun id => ("first_event_id", .number id)).toList
  | batchRetried attempts events | ownershipChanged events attempts =>
    [("attempts", .number attempts), ("events", .number events)]
  | eventApplied event bytes => [("event_id", .number event), ("payload_bytes", .number bytes)]
  | processingStarted processors | draining processors => [("processors", .number processors)]
  | closeFailed resource => [("resource", .text resource)]
  | schedulerShutDown capacity => [("capacity", .number capacity)]
  | leaseLapsed | recordLost | pollFailed | processingDisabled | stopped | stoppedWithErrors => []

end Notice

end OutboxCluster
