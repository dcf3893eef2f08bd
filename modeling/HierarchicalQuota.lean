import HierarchicalQuota.BalancedTree
import HierarchicalQuota.CommandLine.Program
import HierarchicalQuota.Field.Description
import HierarchicalQuota.Field.Function
import HierarchicalQuota.Files.Tree
import HierarchicalQuota.Main
import HierarchicalQuota.Proofs.Acceptance
import HierarchicalQuota.Proofs.Balance
import HierarchicalQuota.Proofs.Cancellation
import HierarchicalQuota.Proofs.Chains
import HierarchicalQuota.Proofs.Completion
import HierarchicalQuota.Proofs.Confluence
import HierarchicalQuota.Proofs.Consistency
import HierarchicalQuota.Proofs.Counters
import HierarchicalQuota.Proofs.Counts
import HierarchicalQuota.Proofs.Coverage
import HierarchicalQuota.Proofs.Creation
import HierarchicalQuota.Proofs.Decision
import HierarchicalQuota.Proofs.Depth
import HierarchicalQuota.Proofs.DepthGuard
import HierarchicalQuota.Proofs.Determinism
import HierarchicalQuota.Proofs.Edits
import HierarchicalQuota.Proofs.Ensures
import HierarchicalQuota.Proofs.Events
import HierarchicalQuota.Proofs.Exactness
import HierarchicalQuota.Proofs.Fallbacks
import HierarchicalQuota.Proofs.Hierarchy
import HierarchicalQuota.Proofs.History
import HierarchicalQuota.Proofs.Initialization
import HierarchicalQuota.Proofs.Interruption
import HierarchicalQuota.Proofs.Inventory
import HierarchicalQuota.Proofs.Isolation
import HierarchicalQuota.Proofs.Layout
import HierarchicalQuota.Proofs.Lifecycle
import HierarchicalQuota.Proofs.Limits
import HierarchicalQuota.Proofs.Lockstep
import HierarchicalQuota.Proofs.Measures
import HierarchicalQuota.Proofs.Operations
import HierarchicalQuota.Proofs.Outcome
import HierarchicalQuota.Proofs.Propagation
import HierarchicalQuota.Proofs.Recalculation
import HierarchicalQuota.Proofs.Registered
import HierarchicalQuota.Proofs.Rejection
import HierarchicalQuota.Proofs.Removal
import HierarchicalQuota.Proofs.Renaming
import HierarchicalQuota.Proofs.Resources
import HierarchicalQuota.Proofs.Retracing
import HierarchicalQuota.Proofs.Reversal
import HierarchicalQuota.Proofs.Rollback
import HierarchicalQuota.Proofs.RoundTrip
import HierarchicalQuota.Proofs.Rules
import HierarchicalQuota.Proofs.Selection
import HierarchicalQuota.Proofs.Spreading
import HierarchicalQuota.Proofs.Store.Contract
import HierarchicalQuota.Proofs.Store.Lawful
import HierarchicalQuota.Proofs.Store.Local
import HierarchicalQuota.Proofs.Store.Recorded
import HierarchicalQuota.Proofs.Sums
import HierarchicalQuota.Proofs.Tally
import HierarchicalQuota.Proofs.Updates
import HierarchicalQuota.Proofs.Validation
import HierarchicalQuota.Proofs.Worlds
import HierarchicalQuota.Store.Faulty
import HierarchicalQuota.Store.Memory
import HierarchicalQuota.Proofs.LimitSums
import HierarchicalQuota.Proofs.EagerInitialization
import HierarchicalQuota.Proofs.Accounting
import HierarchicalQuota.Proofs.Prediction
import HierarchicalQuota.Proofs.RelationPaths
import HierarchicalQuota.Proofs.Indexes
import HierarchicalQuota.Proofs.Tree.Shape
import HierarchicalQuota.Proofs.Tree.Hierarchy
import HierarchicalQuota.Proofs.Tree.Growth
import HierarchicalQuota.Proofs.Tree.Updates
import HierarchicalQuota.Proofs.Json.Parse
import HierarchicalQuota.Proofs.Json.Forms
import HierarchicalQuota.Proofs.Store.Honest
import HierarchicalQuota.Proofs.Termination.Runs
import HierarchicalQuota.Proofs.Termination.Worklist
import HierarchicalQuota.Proofs.Termination.Creation
import HierarchicalQuota.Proofs.Termination.Operations
