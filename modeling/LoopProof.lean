import LoopProof.Lib.Fallible
import LoopProof.Lib.Word
import LoopProof.Lib.Merkle
import LoopProof.Lib.MerkleSet
import LoopProof.Lib.OrderedMap
import LoopProof.Lib.Patricia
import LoopProof.Lib.Machine
import LoopProof.Lib.Store
import LoopProof.Lib.Selection
import LoopProof.Lib.Cover
import LoopProof.Lib.GroupCover
import LoopProof.Lib.BinarySearch
import LoopProof.Lib.LimitedSearch
import LoopProof.Lib.Hex
import LoopProof.Lib.Abi
import LoopProof.Lib.JsonString
import LoopProof.Lib.Json
import LoopProof.Core.Foundation
import LoopProof.Core.Receipt
import LoopProof.Core.CanonicalRlp
import LoopProof.Core.State
import LoopProof.Core.Trie
import LoopProof.Predicate.Evidence
import LoopProof.Predicate.Journal
import LoopProof.Predicate.Resolver
import LoopProof.Predicate.Shared
import LoopProof.Predicate.ClosedLoop
import LoopProof.Predicate.Reciprocal
import LoopProof.Predicate.BlockAuthentication
import LoopProof.Predicate.Seller
import LoopProof.Predicate.Exemplar
import LoopProof.Loop.Model
import LoopProof.Loop.Cut
import LoopProof.Loop.Pair
import LoopProof.Loop.Order
import LoopProof.Loop.Cohort
import LoopProof.Planner.ReturnSelection
import LoopProof.Planner.Evidence
import LoopProof.Planner.Returns
import LoopProof.Planner.Selection
import LoopProof.Planner.Plan
import LoopProof.Planner.FixedVolume
import LoopProof.Planner.RelayDiscovery
import LoopProof.Planner.ReturnGraph
import LoopProof.Planner.ClaimBuilder
import LoopProof.Planner.Authentication
import LoopProof.Planner.Bundle
import LoopProof.Planner.Canonical
import LoopProof.Planner.Discovery
import LoopProof.Proving.Prover
import LoopProof.Proving.Canary
import LoopProof.Proving.Batch
import LoopProof.Proving.BlockBudget
import LoopProof.Proving.Quote
import LoopProof.Proving.Queue
import LoopProof.Proving.Refresh
import LoopProof.Proving.Calldata
import LoopProof.Case.Funding
import LoopProof.Host.Rpc
import LoopProof.Host.Materialize
import LoopProof.Correctness.Validation
import LoopProof.Correctness.Resolution
import LoopProof.Correctness.Fundings
import LoopProof.Correctness.Settlements
import LoopProof.Correctness.Returns
import LoopProof.Correctness.Ledgers
import LoopProof.Correctness.ClosedLoop
import LoopProof.Correctness.Cut
import LoopProof.Correctness.Reciprocal
import LoopProof.Correctness.Relocation
import LoopProof.Correctness.LedgerBounds
import LoopProof.Correctness.Evidence
import LoopProof.Correctness.Seller
import LoopProof.Correctness.Chunks
import LoopProof.Correctness.Authentication
import LoopProof.Correctness.Uniqueness
import LoopProof.Correctness.Committed
import LoopProof.Correctness.Receipts
import LoopProof.Correctness.Panics
import LoopProof.Correctness.StateProofs
import LoopProof.Correctness.Share
import LoopProof.Correctness.GenuineProofs
import LoopProof.Correctness.TwoSides
import LoopProof.Correctness.Rearrangement
import LoopProof.Correctness.Canary
import LoopProof.Correctness.Batch
import LoopProof.Correctness.Planned
import LoopProof.Correctness.PlannedEvidence
import LoopProof.Correctness.LedgerSelection
import LoopProof.Correctness.RelayDiscovery
import LoopProof.Correctness.RelayRuns
import LoopProof.Correctness.ReturnSelection
import LoopProof.Correctness.FixedVolume
import LoopProof.Correctness.ReciprocalPlan
import LoopProof.Correctness.BlockBudget
import LoopProof.Correctness.Bundle
import LoopProof.Correctness.ClaimBuilder
import LoopProof.Correctness.ReturnGraph
import LoopProof.Correctness.ReturnChains
import LoopProof.Correctness.ReturnSearch
import LoopProof.Correctness.Queue
import LoopProof.Correctness.Refresh
import LoopProof.Correctness.Approval
import LoopProof.Correctness.Memberships
import LoopProof.Correctness.Identity
import LoopProof.Correctness.Calldata
import LoopProof.Correctness.CaseFundings
import LoopProof.Correctness.Discovery
import LoopProof.Correctness.BlockEvidence
import LoopProof.Correctness.Materialize
import LoopProof.Correctness.PlannedInputs
import LoopProof.Correctness.IndexKeys
import LoopProof.Correctness.Scan
import LoopProof.Correctness.EvidenceOrder
import LoopProof.Correctness.CaseBuild
import LoopProof.Correctness.FundedSettlements
import LoopProof.Correctness.EvidenceCache
import LoopProof.Correctness.ReturnTracer
import LoopProof.Host.Expand
import LoopProof.Correctness.Growth
import LoopProof.Correctness.Expansion
import LoopProof.Lib.JsonText
import LoopProof.Proving.PlanStream
import LoopProof.Correctness.PlanStream
import LoopProof.Correctness.PlanFile
import LoopProof.Correctness.PlanShards
import LoopProof.Correctness.PlanAccounts
import LoopProof.Lib.WorkerPool
import LoopProof.Proving.Concurrency
import LoopProof.Correctness.Concurrency
import LoopProof.Proving.ChunkFile
import LoopProof.Correctness.ChunkFile
import LoopProof.Lib.AbiWords
import LoopProof.Proving.Package
import LoopProof.Correctness.Package
import LoopProof.Proving.SellerEvidence
import LoopProof.Correctness.SellerEvidence
import LoopProof.Proving.CostQuote
import LoopProof.Correctness.CostQuote
