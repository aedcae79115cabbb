import Adaad.Journal.Equiv.Recovery
import Adaad.Lineage.Equiv.CheckpointChain
import Adaad.Federation.Equiv.Coordination
import Adaad.Federation.Equiv.MutationLock
import Adaad.Federation.Equiv.DualGate
import Adaad.Federation.Equiv.Propagation
import Adaad.Dorkllm.Equiv.QueueRelease
import Adaad.Dorkllm.Equiv.QueueOrder
import Adaad.Dorkllm.Equiv.AmendmentRatified
import Adaad.JobQueue.Equiv.Transitions
import Adaad.JobQueue.Equiv.Backends
import Adaad.JobQueue.Equiv.Shared
import Adaad.OfflineSync.Equiv.Capacity
import Adaad.OfflineSync.Equiv.Backoff
import Adaad.OfflineSync.Equiv.Reopen
import Adaad.Evolution.Equiv.CrossNodeMerge
import Adaad.Evolution.Darwinian
import Adaad.Evolution.Equiv.Governor
import Adaad.Evolution.Equiv.CsapRun
import Adaad.Evolution.Equiv.DagPersistence
import Adaad.Evolution.Equiv.MultiGenLineage
import Adaad.Governance.Equiv.AmendmentIsolation
import Adaad.Governance.Equiv.ApprovalExpiry
import Adaad.Security.Equiv.GovernanceToken
import Adaad.Security.Equiv.PayloadBinding
import Adaad.State.Equiv.BackendParity
import Adaad.Governance.Equiv.GateAgreement
import Adaad.Governance.Equiv.SelfAcceptance
import Adaad.Governance.Equiv.PolicyLifecycle
import Adaad.Innovations.Equiv.ConstitutionalRollback
import Adaad.Innovations.Equiv.CanaryReplay
import Adaad.Innovations.Equiv.CanaryGate
import Adaad.Innovations.Equiv.BankruptcyDischarge
import Adaad.Innovations.Equiv.CoalitionGate
import Adaad.Innovations.Equiv.StakeConservation
import Adaad.Memory.Equiv.Backends
import Adaad.Memory.Equiv.SoulboundTamper
import Adaad.Governance.Equiv.ReviewerReputation
import Adaad.Governance.Equiv.PhaseGate
import Adaad.Security.Equiv.BearerTokens
import Adaad.Dorkllm.Equiv.RollbackRuns
import Adaad.Dorkllm.Equiv.ConsensusRuns
import Adaad.Dorkllm.Equiv.LineageRuns
import Adaad.Autonomy.Equiv.EpochMemory
import Adaad.Tools.Equiv.CommitDurability
import Adaad.Sandbox.EphemeralClone
import Adaad.Evolution.Equiv.DagAncestor
import Adaad.Innovations.Equiv.CoalitionShares
import Adaad.Federation.Equiv.ConsensusLog
import Adaad.Dorkllm.Equiv.ExecutionTamper
import Adaad.Ledger.Equiv.Append
import Adaad.Governance.RateLimiter
import Adaad.Federation.NodeSupervisor
import Adaad.Evolution.ParetoFrontier
import Adaad.Tools.MutationGuard
import Adaad.Governance.ExceptionTokens
import Adaad.Evolution.GoalGraph
import Adaad.Tools.PatchApplicator
import Adaad.Recovery.LedgerGuardian
import Adaad.Evolution.Equiv.ReplayGraph
import Adaad.Tools.Equiv.Rollback
import Adaad.Evolution.Equiv.ReplayGraph
import Adaad.Tools.Equiv.Rollback
