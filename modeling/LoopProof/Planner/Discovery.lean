import LoopProof.Planner.ClaimBuilder
import LoopProof.Planner.FixedVolume

/-!
# Claims of discovered candidates

A scan of the chain names candidate sellers with the relay paths that lead back to their funder.
The fundings and the paths of a candidate bound the volume it can be claimed for: the earliest
settlement and then the largest ones that fit are selected, and what is selected is evaluated as
the predicate would.
-/

namespace LoopProof.Discovery

open Planner

/-- Where a row of a scan stands. -/
structure RowPosition where
  blockNumber : Option ℕ
  transactionHash : B256
  transactionIndex : Option ℕ
  logIndex : Option ℕ
  timestamp : ℕ
  deriving DecidableEq, Repr

/-- A transfer of USDC to a buyer. -/
structure InboundRow extends RowPosition where
  sender : Address
  recipient : Address
  amountRaw : ℕ
  deriving DecidableEq, Repr

/-- A deposit to the protocol. -/
structure DepositRow extends RowPosition where
  funder : Address
  buyer : Address
  amountRaw : ℕ
  deriving DecidableEq, Repr

/-- A settlement of a channel. -/
structure SettlementRow extends RowPosition where
  seller : Address
  buyer : Address
  deltaUsdc : ℕ
  channelId : B256
  deriving DecidableEq, Repr

/-- The inbound transfers found for a buyer. -/
structure BuyerTrace where
  complete : Bool
  inboundUsdc : List InboundRow

/-- The files of a scan. -/
structure Scan where
  protocolDeposits : List DepositRow
  traces : Address → Option BuyerTrace
  settlementVolumes : List SettlementRow

/-- How a buyer was funded: by a transfer, or by a deposit for the buyer. -/
inductive FundingKind where
  | directUsdcTransfer
  | protocolDeposit
  deriving DecidableEq, Repr

/-- A funding of a buyer by the funder. -/
structure FundingDependency extends RowPosition where
  buyer : Address
  funder : Address
  amountRaw : ℕ
  fundingKind : FundingKind
  deriving DecidableEq, Repr

/-- A settlement of a buyer with the seller. -/
structure SettlementDependency extends RowPosition where
  buyer : Address
  seller : Address
  amountRaw : ℕ
  channelId : B256
  deriving DecidableEq, Repr

/-- One transfer of a candidate path. -/
structure PathTransfer where
  tx : B256
  logIndex : Option ℕ
  timestamp : ℕ
  raw : ℕ
  deriving DecidableEq, Repr

/-- A relay path of a candidate; a direct relay has no third transfer. -/
structure CandidatePath where
  relay : Address
  intermediary : Address
  sellerPayment : PathTransfer
  relayForward : PathTransfer
  funderReceipt : Option PathTransfer
  deriving DecidableEq, Repr

/-- What a scan says about a candidate. -/
inductive CandidateState where
  | proofCandidate
  | incomplete
  | other
  deriving DecidableEq, Repr

/-- A candidate with what the report of its seller says. -/
structure Candidate where
  eligible : Bool
  state : CandidateState
  seller : Address
  funder : Address
  paths : List CandidatePath
  cohortBuyers : List Address
  volumeRaw : ℕ

/-- A relay path as a dependency. -/
structure RelayDependency where
  relay : Address
  intermediary : Address
  sellerPayment : Transfer
  relayForward : Transfer
  funderReceipt : Option Transfer
  deriving DecidableEq, Repr

/-- The path as evidence of a return. -/
def RelayDependency.toEvidence (path : RelayDependency) : ReturnEvidence :=
  .relay (some path.sellerPayment) (some path.relayForward) path.funderReceipt

/-- A transfer of a path between two addresses. -/
def PathTransfer.toTransfer (transfer : PathTransfer) (sender recipient : Address) : Transfer :=
  ⟨some sender, some recipient, transfer.raw, .seconds transfer.timestamp, transfer.tx,
    transfer.logIndex, none, none⟩

/-- The transfers of a path with their parties. -/
def relayDependency (path : CandidatePath) (seller funder : Address) : RelayDependency where
  relay := path.relay
  intermediary := path.intermediary
  sellerPayment := path.sellerPayment.toTransfer seller path.relay
  relayForward := path.relayForward.toTransfer path.relay path.intermediary
  funderReceipt := path.funderReceipt.map (·.toTransfer path.intermediary funder)

/-- A candidate whose buyers were funded. -/
structure DiscoveryCase where
  seller : Address
  funder : Address
  sellerVolumeRaw : ℕ
  /-- When a buyer was first funded. -/
  fundingTimes : Address → Option ℕ
  fundingDependencies : List FundingDependency
  closureDependencies : List RelayDependency
  settlementDependencies : List SettlementDependency

/-- What a case rests on. -/
inductive DiscoveryDependency where
  | funding (funding : FundingDependency)
  | path (path : RelayDependency)
  | settlement (settlement : SettlementDependency)
  | totalSettlement (settlement : SettlementDependency)
  deriving DecidableEq, Repr

/-- The order of two rows by time, transaction and log; an unknown log comes first. -/
def compareEvidenceTime : RowPosition → RowPosition → Ordering :=
  compareLex (compareOn (·.timestamp))
    (compareLex (compareOn (·.transactionHash))
      (compareOn fun row => (row.logIndex.map Int.ofNat).getD (-1)))

/-- The order of two fundings by time and transaction. -/
def compareTime : RowPosition → RowPosition → Ordering :=
  compareLex (compareOn (·.timestamp)) (compareOn (·.transactionHash))

/-! ## Cases of a scan -/

section Cases

variable (compareJson : DiscoveryDependency → DiscoveryDependency → Ordering) (scan : Scan)

/-- Dependencies without repetitions, in the order of their JSON texts. -/
def dedupeDependencies (values : List DiscoveryDependency) : List DiscoveryDependency :=
  sortBy compareJson values.dedup

/-- The transfers and deposits that funded a buyer, if its trace is complete. -/
def buyerFundings (funder buyer : Address) : List FundingDependency :=
  match scan.traces buyer with
  | none => []
  | some trace =>
    if trace.complete then
      (trace.inboundUsdc.filter fun entry =>
          entry.sender = funder ∧ entry.recipient = buyer ∧ 0 < entry.amountRaw).map
        (fun entry => ⟨entry.toRowPosition, buyer, funder, entry.amountRaw, .directUsdcTransfer⟩) ++
      (scan.protocolDeposits.filter fun entry =>
          entry.funder = funder ∧ entry.buyer = buyer ∧ 0 < entry.amountRaw).map
        (fun entry => ⟨entry.toRowPosition, buyer, funder, entry.amountRaw, .protocolDeposit⟩)
    else []

/-- The time of the first funding. -/
def earliestFunding (fundings : List FundingDependency) : Option ℕ :=
  ((sortBy (fun left right => compareTime left.toRowPosition right.toRowPosition)
    fundings).head?).map (·.timestamp)

/-- A dependency that is a funding. -/
def fundingOf : DiscoveryDependency → Option FundingDependency
  | .funding funding => some funding
  | _ => none

/-- The case of a candidate before its settlements are read. -/
def candidateCase (candidate : Candidate) : DiscoveryCase where
  seller := candidate.seller
  funder := candidate.funder
  sellerVolumeRaw := candidate.volumeRaw
  fundingTimes buyer :=
    if buyer ∈ candidate.cohortBuyers then
      earliestFunding (buyerFundings scan candidate.funder buyer)
    else none
  fundingDependencies :=
    (dedupeDependencies compareJson
      (((dedupeBy id candidate.cohortBuyers).flatMap (buyerFundings scan candidate.funder)).map
        DiscoveryDependency.funding)).filterMap fundingOf
  closureDependencies :=
    candidate.paths.map (relayDependency · candidate.seller candidate.funder)
  settlementDependencies := []

/-- A row of settlements with its channel. -/
def settlementDependency (row : SettlementRow) : SettlementDependency :=
  ⟨row.toRowPosition, row.buyer, row.seller, row.deltaUsdc, row.channelId⟩

/-- The row settles with the seller of the case after the buyer was funded. -/
def postFunding (entry : DiscoveryCase) (row : SettlementRow) : Bool :=
  row.seller = entry.seller ∧ (entry.fundingTimes row.buyer).any (· < row.timestamp) = true

/-- The case with the settlements that follow the fundings. -/
def withSettlements (entry : DiscoveryCase) : DiscoveryCase :=
  { entry with
    settlementDependencies :=
      (scan.settlementVolumes.filter (postFunding entry)).map settlementDependency }

/-- The cases of all candidates; the last candidate of a seller counts. -/
def discoveryCases (candidates : List Candidate) : List DiscoveryCase :=
  dedupeBy DiscoveryCase.seller
    ((candidates.filter fun candidate =>
        candidate.eligible = true ∧ candidate.state = .proofCandidate).map fun candidate =>
      withSettlements scan (candidateCase compareJson scan candidate))

end Cases

/-! ## Evaluation and selection -/

/-- The quotient, rounded up. -/
def ceilDiv (numerator denominator : ℕ) : ℕ := (numerator + denominator - 1) / denominator

/-- The sum of fundings. -/
def fundingRaw (fundings : List FundingDependency) : ℕ := (fundings.map (·.amountRaw)).sum

/-- The sum of settlements. -/
def settlementRaw (settlements : List SettlementDependency) : ℕ :=
  (settlements.map (·.amountRaw)).sum

/-- What paths return; a path returns as much as the least of its transfers. -/
def returnRaw (paths : List RelayDependency) : ℕ :=
  sumCredits (paths.map RelayDependency.toEvidence)

/-- What a candidate lacks of every rule. -/
structure Deficits where
  positiveVolumeRaw : ℕ
  fundingRaw : ℕ
  returnRaw : ℕ
  deriving DecidableEq, Repr

/-- The volumes of a case with what they miss. -/
structure Evaluation where
  accepted : Bool
  selectedSettlementRaw : ℕ
  retainedFundingRaw : ℕ
  bottleneckReturnRaw : ℕ
  deficits : Deficits
  deriving DecidableEq, Repr

/-- What a total lacks of a share of the volume. -/
def shareDeficit (totalRaw volumeRaw shareBps : ℕ) : ℕ :=
  if volumeRaw * shareBps ≤ totalRaw * 10000 then 0
  else ceilDiv (volumeRaw * shareBps) 10000 - totalRaw

/-- A case is accepted if something was settled and enough of it was funded and returned. -/
def evaluateClosedLoopCandidate (settlements : List SettlementDependency)
    (fundings : List FundingDependency) (paths : List RelayDependency) : Evaluation :=
  let selectedSettlementRaw := settlementRaw settlements
  let retainedFundingRaw := fundingRaw fundings
  let bottleneckReturnRaw := returnRaw paths
  let deficits : Deficits :=
    ⟨if 0 < selectedSettlementRaw then 0 else 1,
      shareDeficit retainedFundingRaw selectedSettlementRaw alphaFundBps,
      shareDeficit bottleneckReturnRaw selectedSettlementRaw alphaReturnBps⟩
  ⟨deficits = ⟨0, 0, 0⟩, selectedSettlementRaw, retainedFundingRaw, bottleneckReturnRaw, deficits⟩

/-- The volume that fundings and returns support. -/
def supportedSettlementCapacity (fundings : List FundingDependency)
    (paths : List RelayDependency) : ℕ :=
  min (fundingRaw fundings * 10000 / alphaFundBps) (returnRaw paths * 10000 / alphaReturnBps)

/-- The order of settlements in time. -/
def compareSettlements (left right : SettlementDependency) : Ordering :=
  compareEvidenceTime left.toRowPosition right.toRowPosition

/-- Larger settlements first, by time where they are equal. -/
def compareLargest (left right : SettlementDependency) : Ordering :=
  (compare right.amountRaw left.amountRaw).then (compareSettlements left right)

/-- The earliest settlement and the largest ones that fit beside it. -/
def selectLargestDeterministicSettlementSet (settlements : List SettlementDependency)
    (capacityRaw : ℕ) : List SettlementDependency :=
  match sortBy compareSettlements settlements with
  | [] => []
  | first :: rest =>
    if capacityRaw < first.amountRaw then []
    else sortBy compareSettlements
      (first :: greedyWithin (·.amountRaw) capacityRaw first.amountRaw (sortBy compareLargest rest))

/-! ## Decision of a case -/

section Decision

variable (entry : DiscoveryCase)

/-- All settlements of a case in order. -/
def allSettlements : List SettlementDependency :=
  sortBy compareSettlements entry.settlementDependencies

/-- The last settlement of a buyer. -/
def latestSettlement (buyer : Address) : Option SettlementDependency :=
  ((allSettlements entry).filter (·.buyer = buyer)).getLast?

/-- The fundings before the last settlement of their buyer. -/
def allRetainedFunding : List FundingDependency :=
  entry.fundingDependencies.filter fun funding =>
    (latestSettlement entry funding.buyer).any (funding.timestamp < ·.timestamp)

/-- What the fundings and returns of a case can support. -/
def settlementCapacityRaw : ℕ :=
  supportedSettlementCapacity (allRetainedFunding entry) entry.closureDependencies

/-- The settlements that are kept for the capacity. -/
def selectedSettlements : List SettlementDependency :=
  selectLargestDeterministicSettlementSet (allSettlements entry) (settlementCapacityRaw entry)

/-- The fundings of the buyers of some settlements. -/
def fundingsOf (settlements : List SettlementDependency) : List FundingDependency :=
  (allRetainedFunding entry).filter fun funding => funding.buyer ∈ settlements.map (·.buyer)

/-- The fundings of the buyers that are kept. -/
def retainedFunding : List FundingDependency := fundingsOf entry (selectedSettlements entry)

/-- What the kept settlements amount to. -/
def evaluation : Evaluation :=
  evaluateClosedLoopCandidate (selectedSettlements entry) (retainedFunding entry)
    entry.closureDependencies

/-- The buyers that are kept, in order. -/
def selectedBuyers : List Address := sortedSet ((selectedSettlements entry).map (·.buyer))

/-- What is reported about a case. -/
structure CaseDiagnostic where
  seller : Address
  accepted : Bool
  buyerCount : ℕ
  sellerVolumeRaw : ℕ
  selectedSettlementRaw : ℕ
  selectedShareBps : ℕ
  retainedFundingRaw : ℕ
  bottleneckReturnRaw : ℕ
  pathCount : ℕ
  destinationCount : ℕ
  deficits : Deficits
  deriving DecidableEq, Repr

/-- What is reported about a case. -/
def diagnostic : CaseDiagnostic where
  seller := entry.seller
  accepted := (evaluation entry).accepted
  buyerCount := (selectedBuyers entry).length
  sellerVolumeRaw := entry.sellerVolumeRaw
  selectedSettlementRaw := (evaluation entry).selectedSettlementRaw
  selectedShareBps := (evaluation entry).selectedSettlementRaw * 10000 / entry.sellerVolumeRaw
  retainedFundingRaw := (evaluation entry).retainedFundingRaw
  bottleneckReturnRaw := (evaluation entry).bottleneckReturnRaw
  pathCount := entry.closureDependencies.length
  destinationCount := (sortedSet (entry.closureDependencies.map (·.intermediary))).length
  deficits := (evaluation entry).deficits

/-- A claim of a discovered seller. -/
structure DiscoveryClaim where
  seller : Address
  approvedBuyers : List Address
  approvedFunders : List Address
  metrics : BuiltMetrics
  period : Period
  dependencies : List DiscoveryDependency
  deriving DecidableEq, Repr

/-- The claim of an accepted case. -/
def discoveryClaim (compareJson : DiscoveryDependency → DiscoveryDependency → Ordering)
    (scan : Scan) (period : Period) : Option DiscoveryClaim :=
  if (evaluation entry).accepted then
    some {
      seller := entry.seller
      approvedBuyers := selectedBuyers entry
      approvedFunders := [entry.funder]
      metrics := ⟨entry.sellerVolumeRaw, (evaluation entry).selectedSettlementRaw,
        (selectedBuyers entry).length⟩
      period := period
      dependencies := dedupeDependencies compareJson
        ((retainedFunding entry).map DiscoveryDependency.funding ++
          entry.closureDependencies.map DiscoveryDependency.path ++
            (selectedSettlements entry).map DiscoveryDependency.settlement ++
              ((scan.settlementVolumes.filter (·.seller = entry.seller)).map fun row =>
                DiscoveryDependency.totalSettlement (settlementDependency row))) }
  else none

end Decision

/-- A candidate is skipped by its state, or its case is decided. -/
inductive Diagnostic where
  | skipped (seller : Address) (state : CandidateState) (reason : String)
  | decided (diagnostic : CaseDiagnostic)
  deriving DecidableEq, Repr

/-- The report about a candidate that is no case. -/
def skipped (candidate : Candidate) : Diagnostic :=
  .skipped candidate.seller candidate.state
    (if candidate.state = .incomplete then "recipient_tracing_incomplete"
    else "no_fragmented_relay_convergence")

/-- The claims of a scan's cases, with what is reported about the candidates. -/
def buildDiscoveryProofBundle
    (compareJson : DiscoveryDependency → DiscoveryDependency → Ordering) (scan : Scan)
    (period : Period) (candidates : List Candidate) : List DiscoveryClaim × List Diagnostic :=
  let cases := discoveryCases compareJson scan candidates
  (cases.filterMap fun entry => discoveryClaim entry compareJson scan period,
    (candidates.filter fun candidate =>
        candidate.eligible = true ∧ candidate.state ≠ .proofCandidate).map skipped ++
      cases.map fun entry => .decided (diagnostic entry))

end LoopProof.Discovery
