import OutboxCluster.Cluster.Event
import OutboxCluster.Cluster.Observe
import OutboxCluster.Roster
import OutboxCluster.Scheduler.Timed
import OutboxCluster.Settings.Document
import OutboxCluster.Store
import OutboxCluster.View.Reader
import OutboxCluster.Proofs.Exclusive
import OutboxCluster.Proofs.Lease
import OutboxCluster.Proofs.Ownership
import OutboxCluster.Proofs.Custody
import OutboxCluster.Proofs.Configured
import OutboxCluster.Proofs.Mixed
import OutboxCluster.Proofs.Convergence
import OutboxCluster.Proofs.Deletion
import OutboxCluster.Proofs.Drain
import OutboxCluster.Proofs.Margin
import OutboxCluster.Proofs.Recorded
import OutboxCluster.Proofs.Sharding
import OutboxCluster.Proofs.Overtaking
import OutboxCluster.Proofs.Suspension
import OutboxCluster.Proofs.Departure
import OutboxCluster.Proofs.Cycle
import OutboxCluster.Proofs.Retry
import OutboxCluster.Proofs.Effort
import OutboxCluster.Proofs.Winding
import OutboxCluster.Proofs.Stopping
import OutboxCluster.Proofs.Tiling
import OutboxCluster.Proofs.Partition
import OutboxCluster.Proofs.Rules
import OutboxCluster.Proofs.Override
import OutboxCluster.Proofs.Slots
import OutboxCluster.Proofs.Numbering
import OutboxCluster.Proofs.Horizon
import OutboxCluster.Proofs.Lifecycle
import OutboxCluster.Proofs.Stored
