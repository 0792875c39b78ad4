import UniMem.Library.PrefixProof
import UniMem.FrontierProtocol.Values
import UniMem.TransparencyLog.Tree
import UniMem.TransparencyLog.Inclusion
import UniMem.TransparencyLog.Consistency
import UniMem.TransparencyLog.Frontier
import UniMem.FrontierProtocol.Wire
import UniMem.Library.Procedure
import UniMem.MemoryAuthority
import UniMem.FrontierProtocol.Journal
import UniMem.FrontierProtocol.JournalCalls
import UniMem.FrontierProtocol.Reload
import UniMem.FrontierProtocol.History
import UniMem.FrontierProtocol.Checkpoint
import UniMem.Library.Worklist
import UniMem.Python.Collections
import UniMem.MeshCrdt.Convergence
import UniMem.MeshCrdt.Delivery
import UniMem.MeshCrdt.Registers
import UniMem.Capabilities.Policy
import UniMem.Capabilities.Attenuation
import UniMem.PolicyProof.Difference
import UniMem.Oblivious.Recall
import UniMem.Library.Transitions
import UniMem.TeamIsolation.Fencing
import UniMem.TeamIsolation.Isolation
import UniMem.Library.Digraph
import UniMem.Lineage.Attestations
import UniMem.Library.RotatingLog
import UniMem.Library.Grouping
import UniMem.Lineage.Acyclicity
import UniMem.Lineage.Taints
import UniMem.Jobs.Leases
import UniMem.MemoryJournal.Erasure
import UniMem.Robotics.Hazards
import UniMem.MarketSettlement.Payments
import UniMem.NextwaveStore.Closure
import UniMem.CertifiedErasure.Shredding
import UniMem.MemoryAuthority.Laundering
import UniMem.CapabilityIo.Exactness
import UniMem.ChangeStream.Delivery
import UniMem.Tiering.Recovery
import UniMem.KvCapsules.Lifecycle
import UniMem.Library.SlidingWindow
import UniMem.ErasureVerify.Residue
import UniMem.Billing.Ordering
import UniMem.Hub.Idempotency
import UniMem.Hub.Accounting
import UniMem.EProcess.Thresholds
import UniMem.Graph.Exclusive
import UniMem.Graph.History
import UniMem.Graph.Paths
import UniMem.Graph.Intervals
import UniMem.Frontmatter.Locking
import UniMem.Robotics.WorkingMemory
import UniMem.MemoryJournal.Grounding
import UniMem.Robotics.Shield
import UniMem.CapabilityIo.Nonces
import UniMem.CircuitBreaker
import UniMem.ConformalGate
import UniMem.ValueLedger
import UniMem.ChangeStream.Obligations
import UniMem.NextwaveStore.Levels
import UniMem.CorpusBin
import UniMem.ChangeStream.Paging
import UniMem.SignedFiles
import UniMem.Hub.RecordErasure
import UniMem.Hub.RateLimits
import UniMem.RuntimeCache.Safety
import UniMem.ConformalGate.Alarm
import UniMem.Household
import UniMem.EProcess.Expectation
import UniMem.Passport.Verification
import UniMem.MemoryControl.TokenBudget
import UniMem.HoldoutIo.Permanence
import UniMem.Jobs.Retry
import UniMem.EntityResolution
import UniMem.ZkEffect.Privacy
import UniMem.ZkEffect.Radius
import UniMem.MemoryBlocks
import UniMem.Spatial
import UniMem.MemoryIfc
import UniMem.EffectCore
import UniMem.FrontierProtocol.Moments
import UniMem.TransparencyLog.NodeCache
