import LoopProof.Predicate.Reciprocal
import LoopProof.Predicate.BlockAuthentication

/-!
# The direct seller proof

The seller verifier runs one predicate, checks the claim it returns against the target
seller, reads the seller's cumulative volume at the period end and commits the block
references of everything it relied on.
-/

namespace LoopProof

instance transOrdB256 : Std.TransOrd B256 := inferInstance

/-- Settled amounts in order of settlement identifier. -/
abbrev SettlementMap := Std.ExtTreeMap B256 U128 compare

/-- Block hashes in order of block number. -/
abbrev BlockRefMap := Std.ExtTreeMap U64 B256 compare

/-- The claim that a proof is about. -/
inductive SellerEvidence where
  | closedLoop (input : ClosedLoopInput)
  | reciprocal (input : ReciprocalInput)
  deriving DecidableEq, Repr

/-- Reads of the protocol's cumulative volume counter at the period boundary. -/
structure TotalVolumeBoundary where
  header : Header
  /-- Proof for the seller's agent id on the staking contract. -/
  agentId : StorageProof
  /-- Proof for the agent's total volume on the channels contract. -/
  totalVolume : StorageProof
  deriving DecidableEq, Repr

/-- What a seller's proof is given: the claim, and the volume of the seller at the end. -/
structure SellerProofInput where
  seller : Address
  periodStartBlock : U64
  periodEndBlock : U64
  totalVolume : TotalVolumeBoundary
  evidence : SellerEvidence
  deriving DecidableEq, Repr

/-- The public values of a proof. -/
structure SellerJournal where
  schemaVersion : U32
  chainId : U64
  periodStartBlock : U64
  periodEndBlock : U64
  seller : Address
  provenWashVolume : U128
  totalSellerVolume : U128
  evidenceDigest : B256
  blockReferenceCount : U32
  blockAuthenticationChunkSize : U32
  blockAuthenticationChunkCount : U32
  blockAuthenticationRoot : B256
  deriving DecidableEq, Repr

/-- The journal of a seller with the blocks that it rests on. -/
structure VerifiedSeller where
  journal : SellerJournal
  blockRefs : List HistoricalBlockRef
  deriving DecidableEq, Repr

/-- The version of the journal. -/
def sellerJournalSchemaVersion : U32 := 1

/-- A seller and a period are given. -/
def validateInput (input : SellerProofInput) : Outcome Unit :=
  ensure (input.seller ≠ 0 ∧ input.periodStartBlock ≠ 0 ∧
    input.periodStartBlock ≤ input.periodEndBlock) (.err "seller proof: invalid input")

/-- Run the predicate of the evidence. -/
def verifyEvidence (lib : Lib) : SellerEvidence → Outcome WashJournal
  | .closedLoop evidence => verifyClosedLoop lib evidence
  | .reciprocal evidence => verifyReciprocal lib evidence

/-- One settlement record of the target subject. -/
def recordStep (state : U128 × SettlementMap) (settlement : SettlementRecord) :
    Outcome (U128 × SettlementMap) := do
  let (claimVolume, settlements) := state
  ensure (settlement.settlementId ≠ 0 ∧ settlement.amount ≠ 0)
    (.err "seller proof: invalid settlement record")
  let claimVolume ← okOr (checkedAdd claimVolume settlement.amount)
    (.err "seller proof: volume overflow")
  ensure (settlement.settlementId ∉ settlements)
    (.err "seller proof: duplicate settlement in evidence")
  return (claimVolume, settlements.insert settlement.settlementId settlement.amount)

/-- One block reference of the claim. -/
def blockRefStep (blockRefs : BlockRefMap) (reference : U64 × B256) : Outcome BlockRefMap := do
  let (number, blockHash) := reference
  ensure (blockHash ≠ 0) (.err "seller proof: zero claim block hash")
  ensure (blockRefs[number]?.all (· = blockHash) = true)
    (.err "seller proof: conflicting claim block hash")
  return blockRefs.insert number blockHash

/-- The claim is about the period and proves the seller once; its settlements and blocks are
recorded. -/
def validateEvidence (journal : WashJournal) (seller : Address)
    (periodStartBlock periodEndBlock : U64) (settlements : SettlementMap)
    (blockRefs : BlockRefMap) : Outcome (SettlementMap × BlockRefMap) := do
  ensure (journal.chainId = baseChainId ∧ journal.periodStartBlock = periodStartBlock ∧
      journal.periodEndBlock = periodEndBlock ∧ journal.sourceClaimId ≠ 0 ∧ journal.claimId ≠ 0)
    (.err "seller proof: claim identity mismatch")
  let subjects := journal.subjects.filter (·.subject = seller)
  let subject ← okOr subjects.head? (.err "seller proof: claim does not prove target seller")
  ensure (subjects.tail = []) (.err "seller proof: duplicate target seller in claim")
  let (claimVolume, settlements) ← subject.settlements.foldlM recordStep (0, settlements)
  ensure (claimVolume ≠ 0 ∧ claimVolume = subject.washVolume)
    (.err "seller proof: claim settlement total mismatch")
  let blockRefs ← journal.blockRefs.foldlM blockRefStep blockRefs
  return (settlements, blockRefs)

/-- What the boundary proves: the agent of the seller and its counter. -/
structure BoundaryReading where
  agentId : U256
  counter : U128

/-- The total volume of a seller at a block, read by the seller's agent. -/
def verifyTotalVolumeBoundary (lib : CoreLib) (boundary : TotalVolumeBoundary)
    (expectedBlock : U64) (seller : Address) : Outcome BoundaryReading := do
  ensure (boundary.header.number = expectedBlock)
    (.err (s!"total volume: boundary at block {boundary.header.number} but the rule requires " ++
      s!"block {expectedBlock}"))
  let agentIdSlot := mappingSlotAddress lib seller stakingSellerAgentIdSlot
  let agentId ← verifyStorageValue lib boundary.header.stateRoot stakingAddress agentIdSlot
    boundary.agentId
  let counterSlot := slotOffset (mappingSlotU256 lib agentId channelsAgentStatsSlot)
    agentStatsTotalVolumeOffset
  let counter ← verifyStorageValue lib boundary.header.stateRoot channelsAddress counterSlot
    boundary.totalVolume
  let counter ← okOr (tryNarrow 128 counter) (.err "total volume: counter overflow")
  return ⟨agentId, counter⟩

/-- Prove the total volume and add the boundary header to the block references. -/
def verifyTotalVolume (lib : CoreLib) (input : SellerProofInput) (blockRefs : BlockRefMap) :
    Outcome (U128 × BlockRefMap) := do
  let finish ← verifyTotalVolumeBoundary lib input.totalVolume input.periodEndBlock input.seller
  ensure (finish.agentId ≠ 0)
    (.err "total volume: seller is not a staked agent at the period end")
  let number := input.totalVolume.header.number
  let hash := lib.hashSlow input.totalVolume.header
  ensure (blockRefs[number]?.all (· = hash) = true)
    (.err "total volume: conflicting boundary block hash")
  return (finish.counter, blockRefs.insert number hash)

/-- The sum of the recorded settlements. -/
def sumSettlements (settlements : SettlementMap) : Outcome U128 :=
  settlements.toList.foldlM (fun total entry => okOr (checkedAdd total entry.2)
    (.err "seller proof: volume overflow")) 0

/-- The ABI parameter encoding of the digest: three static words, then the array. -/
def digestPreimage (seller : Address) (periodStartBlock periodEndBlock : U64)
    (settlements : List (B256 × U128)) : Bytes :=
  abiWords (seller.val :: periodStartBlock.val :: periodEndBlock.val :: 128 ::
    settlements.length :: settlements.flatMap fun entry => [entry.1.val, entry.2.val])

/-- The hash of the seller, the period and the settlements. -/
def evidenceDigest (lib : CoreLib) (seller : Address) (periodStartBlock periodEndBlock : U64)
    (settlements : List (B256 × U128)) : B256 :=
  lib.keccak256 (digestPreimage seller periodStartBlock periodEndBlock settlements)

/-- A container length as a 32-bit word. -/
def lengthU32 (n : ℕ) : Option U32 := if h : n < 2 ^ 32 then some ⟨n, h⟩ else none

/-- The journal of a seller for a claim and a boundary that are both proven. -/
def verifySeller (lib : Lib) (input : SellerProofInput) : Outcome VerifiedSeller := do
  validateInput input
  let journal ← verifyEvidence lib input.evidence
  let (settlements, blockRefs) ← validateEvidence journal input.seller input.periodStartBlock
    input.periodEndBlock ∅ ∅
  let (totalSellerVolume, blockRefs) ← verifyTotalVolume lib.toCoreLib input blockRefs
  let provenWashVolume ← sumSettlements settlements
  ensure (provenWashVolume ≠ 0) (.err "seller proof: zero final volume")
  let blockRefs := blockRefs.toList.map fun (number, hash) => (⟨number, hash⟩ : HistoricalBlockRef)
  let authenticationChunks ← blockAuthenticationChunks lib.toCoreLib blockRefs
  let root ← okOr (blockAuthenticationRoot lib.toCoreLib blockRefs)
    (.err "seller proof: no block references")
  let digest := evidenceDigest lib.toCoreLib input.seller input.periodStartBlock
    input.periodEndBlock settlements.toList
  let referenceCount ← okOr (lengthU32 blockRefs.length)
    (.err "seller proof: too many block references")
  let chunkCount ← okOr (lengthU32 authenticationChunks.length)
    (.err "seller proof: too many block chunks")
  return {
    journal := {
      schemaVersion := sellerJournalSchemaVersion
      chainId := baseChainId
      periodStartBlock := input.periodStartBlock
      periodEndBlock := input.periodEndBlock
      seller := input.seller
      provenWashVolume := provenWashVolume
      totalSellerVolume := totalSellerVolume
      evidenceDigest := digest
      blockReferenceCount := referenceCount
      blockAuthenticationChunkSize := Fin.ofNat (2 ^ 32) blockAuthenticationChunkSize
      blockAuthenticationChunkCount := chunkCount
      blockAuthenticationRoot := root }
    blockRefs := blockRefs }

end LoopProof
