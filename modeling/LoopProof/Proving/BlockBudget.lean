import LoopProof.Lib.Fallible
import LoopProof.Predicate.Evidence
import Mathlib.Data.Finset.Card

/-!
# The blocks of a planned claim

The host flattens the selected evidence of a claim into single records and fetches every block
they lie in. Before a claim is materialized, the generator counts these blocks with a flattening
of its own.
-/

namespace LoopProof.Proving

open Std

/-! ## Planned evidence -/

/-- The types of evidence that a plan selects. -/
inductive PlannedType where
  | settlement
  | reciprocalSettlement
  | totalSettlement
  | usdcFunding
  | nativeFunding
  | directSellerFunder
  | directSellerBuyer
  | relaySellerPayment
  | relayForward
  | relayFunderReceipt
  | relayPath
  deriving DecidableEq, Repr

/-- The name that a plan writes for a type. -/
def PlannedType.name : PlannedType → String
  | settlement => "SETTLEMENT"
  | reciprocalSettlement => "RECIPROCAL_SETTLEMENT"
  | totalSettlement => "TOTAL_SETTLEMENT"
  | usdcFunding => "USDC_FUNDING"
  | nativeFunding => "NATIVE_FUNDING"
  | directSellerFunder => "DIRECT_SELLER_FUNDER"
  | directSellerBuyer => "DIRECT_SELLER_BUYER"
  | relaySellerPayment => "RELAY_SELLER_PAYMENT"
  | relayForward => "RELAY_FORWARD"
  | relayFunderReceipt => "RELAY_FUNDER_RECEIPT"
  | relayPath => "RELAY_PATH"

/-- The position of one record; a plan may leave it out. -/
structure PlannedRecord where
  evidenceType : PlannedType
  blockNumber : Option ℕ
  transactionIndex : Option ℕ
  deriving DecidableEq, Repr

/-- A selected piece of evidence: a record, or a relay path with its records. -/
structure PlannedEvidence extends PlannedRecord where
  sellerPayment : Option PlannedRecord
  relayForward : Option PlannedRecord
  funderReceipt : Option PlannedRecord
  hops : Option (List PlannedRecord)
  deriving DecidableEq, Repr

/-- A claim with the evidence that was selected for it. -/
structure PlannedClaim where
  claimId : ℕ
  selectedEvidence : List PlannedEvidence
  deriving DecidableEq, Repr

/-! ## What the host fetches -/

/-- The transactions of one block that its evidence needs. -/
structure BlockTargets where
  receipts : ExtTreeSet ℕ
  transactions : ExtTreeSet ℕ

/-- Nothing is proven of a block yet. -/
def BlockTargets.default : BlockTargets := ⟨∅, ∅⟩

/-- One block to fetch, with its receipts and its transactions in order. -/
structure Target where
  blockNumber : ℕ
  receipts : List ℕ
  transactions : List ℕ
  deriving DecidableEq, Repr

/-- The fetched blocks, and where the parts of the evidence stand in them. -/
structure MaterializedEvidence where
  blocks : List EvidenceBlock
  blockPositions : ℕ → Option ℕ
  receiptPositions : ℕ × U64 → Option ℕ
  logPositions : ℕ × ℕ → Option ℕ

/-- A field that the evidence must have. -/
def required (value : Option ℕ) (label : String) (entry : PlannedRecord) : Except String ℕ :=
  okOr value s!"{entry.evidenceType.name} evidence missing {label}"

/-- The sender of a funding is proven by its transaction. -/
def requiresTransactionProof (entry : PlannedRecord) : Bool :=
  entry.evidenceType = .usdcFunding

/-- The records of a piece of evidence. -/
def atomicEvidence (entry : PlannedEvidence) : List PlannedRecord :=
  if entry.evidenceType ≠ .relayPath then [entry.toPlannedRecord]
  else match entry.hops with
    | some hops => hops
    | none => [entry.sellerPayment, entry.relayForward, entry.funderReceipt].reduceOption

/-- What is proven of each block. -/
abbrev Targets := ExtTreeMap ℕ BlockTargets

/-- The receipt of a record is proven, and its transaction where that is required. -/
def addTarget (targets : Targets) (entry : PlannedRecord) : Except String Targets := do
  let block ← required entry.blockNumber "block number" entry
  let transaction ← required entry.transactionIndex "transaction index" entry
  let blockTargets := targets.getD block .default
  return targets.insert block {
    receipts := blockTargets.receipts.insert transaction
    transactions :=
      if requiresTransactionProof entry then blockTargets.transactions.insert transaction
      else blockTargets.transactions }

/-- The blocks to fetch, with the last block of the period. -/
def blockTargets (evidence : List PlannedEvidence) (periodEndBlock : ℕ) :
    Except String Targets :=
  (evidence.flatMap atomicEvidence).foldlM addTarget
    (ExtTreeMap.insert ∅ periodEndBlock .default)

/-- The blocks in order, with their receipts and transactions in order. -/
def listTargets (targets : Targets) : List Target :=
  targets.toList.map fun (blockNumber, blockTargets) =>
    ⟨blockNumber, blockTargets.receipts.toList, blockTargets.transactions.toList⟩

/-- One more fetched block, with the positions of its receipts and of the logs located in it. -/
def pushBlock (materialized : MaterializedEvidence)
    (fetched : Target × EvidenceBlock × List (ℕ × ℕ)) : MaterializedEvidence :=
  let (target, block, locatedLogs) := fetched
  { blocks := materialized.blocks ++ [block]
    blockPositions := Function.update materialized.blockPositions target.blockNumber
      (some materialized.blocks.length)
    receiptPositions := block.receipts.zipIdx.foldl
      (fun positions (proof, position) =>
        Function.update positions (target.blockNumber, proof.txIndex) (some position))
      materialized.receiptPositions
    logPositions := locatedLogs.foldl
      (fun positions (blockLogIndex, localIndex) =>
        Function.update positions (target.blockNumber, blockLogIndex) (some localIndex))
      materialized.logPositions }

/-- The evidence of a claim with every block it lies in. A block is read from a cache or an
endpoint, with the logs located in it. -/
def materializeEvidence (blockEvidence : Target → Except String (EvidenceBlock × List (ℕ × ℕ)))
    (evidence : List PlannedEvidence) (periodEndBlock : ℕ) :
    Except String MaterializedEvidence := do
  let targets ← blockTargets evidence periodEndBlock
  let fetched ← (listTargets targets).mapM blockEvidence
  return ((listTargets targets).zip fetched).foldl pushBlock
    ⟨[], fun _ => none, fun _ => none, fun _ => none⟩

/-! ## What the generator counts -/

/-- The number of a record's block, if it has one that the generator counts. -/
def countedBlock (entry : Option PlannedRecord) : Option ℕ :=
  (entry.bind (·.blockNumber)).filter (· ≤ maxSafeInteger)

/-- The records whose blocks are counted. -/
def countedEvidence (evidence : PlannedEvidence) : List (Option PlannedRecord) :=
  if evidence.evidenceType = .relayPath then
    [evidence.sellerPayment, evidence.relayForward, evidence.funderReceipt]
  else [some evidence.toPlannedRecord]

/-- The blocks of the evidence and the end of the period, each once. -/
def countClaimMaterializationBlocks (claim : PlannedClaim) (periodEndBlock : ℕ) : ℕ :=
  (periodEndBlock ::
    (claim.selectedEvidence.flatMap countedEvidence).filterMap countedBlock).dedup.length

/-- The number of blocks that the predicates accept. -/
def maxPredicateBlockRefs : ℕ := 65536

/-- The number of blocks of a claim, which must not exceed a maximum. -/
def validateClaimMaterializationBlocks (claim : PlannedClaim) (periodEndBlock maximum : ℕ) :
    Except String ℕ := do
  let count := countClaimMaterializationBlocks claim periodEndBlock
  ensure (count ≤ maximum) (s!"{claim.claimId}: {count} materialization blocks exceed predicate " ++
    s!"maximum {maximum}")
  return count

end LoopProof.Proving
