import LoopProof.Host.Rpc
import LoopProof.Lib.Store
import LoopProof.Predicate.ClosedLoop

/-!
# Inputs from planned claims

A planned claim names its evidence by block, transaction and log index. The blocks are fetched
once, positions within them are looked up, and the input of a predicate is assembled from
references to these positions.
-/

namespace LoopProof.Host

/-- The types of evidence that the host knows; others are carried along. -/
inductive PlannedType where
  | usdcFunding
  | settlement
  | reciprocalSettlement
  | directSellerFunder
  | directSellerBuyer
  | relayPath
  | other (name : String)
  deriving DecidableEq, Repr

/-- The name that a plan writes for a type. -/
def PlannedType.text : PlannedType → String
  | usdcFunding => "USDC_FUNDING"
  | settlement => "SETTLEMENT"
  | reciprocalSettlement => "RECIPROCAL_SETTLEMENT"
  | directSellerFunder => "DIRECT_SELLER_FUNDER"
  | directSellerBuyer => "DIRECT_SELLER_BUYER"
  | relayPath => "RELAY_PATH"
  | other name => name

/-- A planned log; its log index counts within the block. -/
structure PlannedLog where
  evidenceType : PlannedType
  blockNumber : Option U64
  transactionIndex : Option U64
  logIndex : Option U64
  depositLogIndex : Option U64
  buyer : Option Address
  funder : Option Address
  deriving DecidableEq, Repr

/-- Planned evidence: a log, or a path of logs. -/
structure PlannedEvidence extends PlannedLog where
  sellerPayment : Option PlannedLog
  relayForward : Option PlannedLog
  funderReceipt : Option PlannedLog
  hops : Option (List PlannedLog)
  deriving DecidableEq, Repr

/-- A claim of a plan as the host reads it. -/
structure PlannedClaim where
  /-- The claim id, if it reads as 32 bytes. -/
  claimId : Option B256
  subjects : List Address
  closureType : Option PlannedType
  selectedEvidence : List PlannedEvidence
  deriving DecidableEq, Repr

/-- The logs a piece of evidence is made of. -/
def atomicEvidence (entry : PlannedEvidence) : List PlannedLog :=
  if entry.evidenceType ≠ .relayPath then [entry.toPlannedLog]
  else
    match entry.hops with
    | some hops => hops
    | none => [entry.sellerPayment, entry.relayForward, entry.funderReceipt].reduceOption

/-- A field that the evidence must have. -/
def required {α : Type} (value : Option α) (label : String) (entry : PlannedLog) : Outcome α :=
  okOr value (.err s!"{entry.evidenceType.text} evidence missing {label}")

/-- The sender of a funding is proven by its transaction. -/
def requiresTransactionProof (entry : PlannedLog) : Bool := entry.evidenceType = .usdcFunding

/-- The requested receipts and transactions of a block. -/
structure BlockTargets where
  receipts : List U64
  transactions : List U64

/-- The requests by block. -/
abbrev Targets := Std.ExtTreeMap U64 BlockTargets compare

/-- Request the receipt of a log, and its transaction where a signer is checked. -/
def Targets.request (targets : Targets) (entry : PlannedLog) : Outcome Targets := do
  let block ← required entry.blockNumber "block number" entry
  let transaction ← required entry.transactionIndex "transaction index" entry
  let requested := targets.getD block ⟨[], []⟩
  return targets.insert block
    ⟨requested.receipts ++ [transaction],
      if requiresTransactionProof entry then requested.transactions ++ [transaction]
      else requested.transactions⟩

/-- Blocks with the positions of their receipts and logs. -/
structure MaterializedEvidence where
  blocks : List EvidenceBlock
  blockPositions : U64 → Option Usize
  receiptPositions : U64 × U64 → Option Usize
  logPositions : U64 × U64 → Option Usize

/-- A list with its positions. -/
def positioned {α : Type} (xs : List α) : List (α × Usize) :=
  xs.zipIdx.map fun (x, position) => (x, Fin.ofNat _ position)

/-- The fetched blocks with their positions by number, transaction and log. -/
def MaterializedEvidence.of (fetched : List (U64 × EvidenceBlock × LogPositionMap)) :
    MaterializedEvidence where
  blocks := fetched.map (·.2.1)
  blockPositions := storeAll (positioned (fetched.map Prod.fst))
  receiptPositions := storeAll (fetched.flatMap fun (number, block, _) =>
    (positioned block.receipts).map fun (proof, position) => ((number, proof.txIndex), position))
  logPositions := storeAll (fetched.flatMap fun (number, _, positions) =>
    positions.toList.map fun (logIndex, position) => ((number, logIndex), position))

section Build

variable (lib : HostLib) (node : Node lib.Body)
  (digest : U64 → List U64 → List U64 → B256) (cache : List CacheFile)

/-- The requests for the logs of a claim; the end of the period is always requested. -/
def claimTargets (evidence : List PlannedEvidence) (periodEndBlock : U64) :
    Outcome (List (U64 × List U64 × List U64)) := do
  let targets ← (evidence.flatMap atomicEvidence).foldlM Targets.request
    ((∅ : Targets).insert periodEndBlock ⟨[], []⟩)
  return targets.toList.map fun (number, requested) =>
    (number, sortedSet requested.receipts, sortedSet requested.transactions)

/-- The blocks of a claim with the receipts and transactions that its evidence needs. -/
def materializeEvidence (evidence : List PlannedEvidence) (periodEndBlock : U64) :
    Outcome MaterializedEvidence := do
  let targets ← claimTargets evidence periodEndBlock
  let fetched ← blockEvidenceMany lib node digest cache targets
  return .of ((targets.map Prod.fst).zip fetched)

variable (materialized : MaterializedEvidence)

/-- The position of the receipt of a record. -/
def receiptRef (entry : PlannedLog) : Outcome ReceiptRef := do
  let blockNumber ← required entry.blockNumber "block number" entry
  let transactionIndex ← required entry.transactionIndex "transaction index" entry
  let block ← okOr (materialized.blockPositions blockNumber) (.err "materialized block missing")
  let receipt ← okOr (materialized.receiptPositions (blockNumber, transactionIndex))
    (.err "materialized receipt missing")
  return ⟨block, receipt⟩

/-- The position of a log of a block, by its index in the block. -/
def logRef (entry : PlannedLog) (blockLogIndex : U64) : Outcome LogRef := do
  let receipt ← receiptRef materialized entry
  let blockNumber ← required entry.blockNumber "block number" entry
  let log ← okOr (materialized.logPositions (blockNumber, blockLogIndex))
    (.err "materialized log missing")
  return ⟨receipt.block, receipt.receipt, log⟩

/-- The reference of a log that names its own index. -/
def indexedRef (label : String) (entry : PlannedLog) : Outcome LogRef := do
  let blockLogIndex ← required entry.logIndex label entry
  logRef materialized entry blockLogIndex

/-- The read of a slot at a block that was fetched. -/
def stateRead (blockNumber : U64) (contract : Address) (slot : B256) :
    Outcome (StateRead × U256) := do
  let block ← okOr (materialized.blockPositions blockNumber)
    (.err s!"state block {blockNumber} missing")
  let evidence ← indexAt "materialized.blocks" materialized.blocks block.val
  let (proof, value) ← storageWitness lib node evidence.header contract slot
  return (⟨block, proof⟩, value)

/-- The balance of a buyer, proven at the end of the period. -/
def buyerLedger (buyer : Address) (periodEndBlock : U64) : Outcome BuyerLedger := do
  let (read, _) ← stateRead lib node materialized periodEndBlock depositsAddress
    (balanceSlot lib.toLib buyer)
  return ⟨read⟩

/-- How a record funds its buyer. -/
def fundingEvidence (entry : PlannedLog) : Outcome FundingEvidence := do
  let buyer ← okOr entry.buyer (.err "funding buyer missing")
  ensure (entry.evidenceType = .usdcFunding)
    (.err s!"unsupported funding evidence type {entry.evidenceType.text}")
  match entry.depositLogIndex with
  | some depositLogIndex => do
    let transfer ← indexedRef materialized "funding transfer log index" entry
    let deposited ← logRef materialized entry depositLogIndex
    return ⟨buyer, .protocolDeposit transfer deposited⟩
  | none => do
    let transfer ← indexedRef materialized "funding transfer log index" entry
    return ⟨buyer, .usdc transfer⟩

/-- The path of a piece of evidence, if it is one of a return. -/
def returnPath (entry : PlannedEvidence) : Outcome (Option ReturnPath) :=
  if entry.evidenceType = .directSellerFunder then do
    let transfer ← indexedRef materialized "return log index" entry.toPlannedLog
    return some ⟨[transfer]⟩
  else if entry.evidenceType = .relayPath then do
    let hops ← (atomicEvidence entry).mapM (indexedRef materialized "relay log index")
    return some ⟨hops⟩
  else .ok none

/-- The returns of a claim; a seller who funds itself has none. -/
def buildReturnPaths (claim : PlannedClaim) (seller funder : Address) :
    Outcome (List ReturnPath) :=
  if seller = funder then do
    ensure (claim.selectedEvidence.any (fun entry =>
        entry.evidenceType ∈ [.directSellerFunder, .directSellerBuyer, .relayPath]) = false)
      (.err "self-funded plan must not include return evidence")
    return []
  else do
    ensure (claim.closureType ≠ some .directSellerBuyer ∧
        claim.selectedEvidence.any (fun entry => entry.evidenceType = .directSellerBuyer) = false)
      (.err "DIRECT_SELLER_BUYER is not a seller-to-funder return path")
    let returns ← claim.selectedEvidence.filterMapM (returnPath materialized)
    ensure (returns ≠ []) (.err "closed-loop plan has no seller-to-funder return evidence")
    return returns

/-- The evidence of one type. -/
def PlannedClaim.ofType (claim : PlannedClaim) (type : PlannedType) : List PlannedEvidence :=
  claim.selectedEvidence.filter (·.evidenceType = type)

/-- The input of the closed-loop predicate for a claim. -/
def buildClosedLoop (claim : PlannedClaim) (periodStartBlock periodEndBlock : U64) :
    Outcome ClosedLoopInput := do
  ensure (claim.subjects.length = 1) (.err "closed-loop plan must have exactly one subject")
  let seller ← indexAt "claim.subjects[0]" claim.subjects 0
  let fundingEntries := claim.ofType .usdcFunding
  let funder ← okOr (fundingEntries.head?.bind (·.funder))
    (.err "closed-loop plan has no attributed funding")
  ensure (fundingEntries.any (fun entry => entry.funder ≠ some funder) = false)
    (.err "closed-loop plan mixes funders")
  let fundingBuyers ← fundingEntries.mapM fun entry =>
    okOr entry.buyer (.err "funding buyer missing")
  let buyers := sortedSet fundingBuyers
  let fundings ← fundingEntries.mapM fun entry => fundingEvidence materialized entry.toPlannedLog
  let settlements ← (claim.ofType .settlement).mapM fun entry =>
    indexedRef materialized "settlement log index" entry.toPlannedLog
  let returns ← buildReturnPaths materialized claim seller funder
  let ledgers ← buyers.mapM fun buyer => buyerLedger lib node materialized buyer periodEndBlock
  let sourceClaimId ← okOr claim.claimId (.err "invalid source claim ID")
  return {
    chainId := baseChainId
    periodStartBlock := periodStartBlock
    periodEndBlock := periodEndBlock
    sourceClaimId := sourceClaimId
    seller := seller
    funder := funder
    buyers := buyers
    blocks := materialized.blocks
    -- The sort by buyer leaves the order of one buyer's fundings open; a stable one keeps it.
    fundings := sortBy (compareOn (·.buyer)) fundings
    settlements := settlements
    returns := returns
    ledgers := ledgers }

/-- A deposit of one of the two addresses for one of them. -/
def isPairDeposit (subjects : List Address) (entry : PlannedLog) : Bool :=
  entry.evidenceType = .usdcFunding ∧ entry.depositLogIndex.isSome = true ∧
    entry.buyer.any (· ∈ subjects) = true ∧ entry.funder.any (· ∈ subjects) = true

/-- A deposit of one of the two addresses. -/
def pairDeposit (entry : PlannedLog) : Outcome PairDepositEvidence := do
  let member ← okOr entry.buyer (.err "pair deposit member missing")
  let transfer ← indexedRef materialized "pair deposit transfer log index" entry
  let depositLogIndex ← required entry.depositLogIndex "pair Deposited log index" entry
  let deposited ← logRef materialized entry depositLogIndex
  return ⟨member, transfer, deposited⟩

/-- The input of the reciprocal predicate for a claim. -/
def buildReciprocal (claim : PlannedClaim) (periodStartBlock periodEndBlock : U64) :
    Outcome ReciprocalInput := do
  ensure (claim.subjects.length = 2) (.err "reciprocal plan must have exactly two subjects")
  let subjects := claim.subjects.insertionSort (· ≤ ·)
  let addressA ← indexAt "subjects[0]" subjects 0
  let addressB ← indexAt "subjects[1]" subjects 1
  ensure (addressA ≠ addressB) (.err "reciprocal plan subjects must be distinct")
  let settlements ← (claim.ofType .reciprocalSettlement).mapM fun entry =>
    indexedRef materialized "reciprocal log index" entry.toPlannedLog
  let internalDeposits ←
    (claim.selectedEvidence.filter fun entry => isPairDeposit subjects entry.toPlannedLog).mapM
      fun entry => pairDeposit materialized entry.toPlannedLog
  let sourceClaimId ← okOr claim.claimId (.err "invalid source claim ID")
  let ledgerA ← buyerLedger lib node materialized addressA periodEndBlock
  let ledgerB ← buyerLedger lib node materialized addressB periodEndBlock
  return {
    chainId := baseChainId
    periodStartBlock := periodStartBlock
    periodEndBlock := periodEndBlock
    sourceClaimId := sourceClaimId
    addressA := addressA
    addressB := addressB
    blocks := materialized.blocks
    settlements := settlements
    internalDeposits := internalDeposits
    ledgerA := ledgerA
    ledgerB := ledgerB }

end Build

section Materialize

variable (lib : HostLib) (node : Node lib.Body)
  (digest : U64 → List U64 → List U64 → B256) (cache : List CacheFile)

/-- The input of a planned closed loop. -/
def materializeClosedLoop (claim : PlannedClaim) (periodStartBlock periodEndBlock : U64) :
    Outcome ClosedLoopInput := do
  let materialized ←
    materializeEvidence lib node digest cache claim.selectedEvidence periodEndBlock
  buildClosedLoop lib node materialized claim periodStartBlock periodEndBlock

/-- The input of a planned reciprocal pair. -/
def materializeReciprocal (claim : PlannedClaim) (periodStartBlock periodEndBlock : U64) :
    Outcome ReciprocalInput := do
  let materialized ←
    materializeEvidence lib node digest cache claim.selectedEvidence periodEndBlock
  buildReciprocal lib node materialized claim periodStartBlock periodEndBlock

end Materialize

end LoopProof.Host
