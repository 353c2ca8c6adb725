import LoopProof.Planner.Plan
import LoopProof.Planner.RelayDiscovery

/-!
# Closed-loop claims of the unified bundle

Each closed-loop case of a scan becomes a claim: its returns are selected among those that are
known directly and, where these fall short and the funder's trace is complete, among relay paths
found in cached traces. A case whose returns fall short is an error.
-/

namespace LoopProof.Planner

/-- A funding or a settlement at its place in the scan. -/
structure ScanRecord where
  evidenceType : EvidenceType
  blockNumber : Option ℕ
  transactionHash : B256
  transactionIndex : Option ℕ
  logIndex : Option ℕ
  timestamp : Timestamp
  buyer : Address
  seller : Option Address
  funder : Option Address
  amountRaw : ℕ
  deriving DecidableEq, Repr

/-- A case that an analysis approved. -/
structure ClosedCase where
  seller : Address
  funder : Address
  /-- The volume of all of the seller's settlements. -/
  totalVolumeRaw : ℕ
  /-- The volume approved for the funder. -/
  approvedVolumeRaw : ℕ
  evidenceCodes : List String
  approvedBuyers : List Address
  /-- When a buyer was first funded. -/
  fundingTimes : Address → Option ℕ
  fundingDependencies : List ScanRecord
  closureDependencies : List ReturnEvidence
  settlementDependencies : List ScanRecord
  sellerTrace : Trace
  /-- The settled volume that follows the fundings. -/
  selectedVolumeRaw : ℕ
  /-- A seller that funds its buyers itself needs no returns. -/
  selfFunded : seller = funder → closureDependencies = []

/-- What a claim is built from. -/
inductive ClaimDependency where
  | record (record : ScanRecord)
  | returns (evidence : ReturnEvidence)
  deriving DecidableEq, Repr

/-- What the builder takes from its platform: the hash of a dependency, and the order of JSON
texts. -/
structure BuilderLib where
  hashDependency : ClaimDependency → B256
  compareJson : ClaimDependency → ClaimDependency → Ordering

/-- The volumes of a claim. -/
structure BuiltMetrics where
  sellerVolumeRaw : ℕ
  qualifiedVolumeRaw : ℕ
  qualifiedBuyerCount : ℕ
  deriving DecidableEq, Repr

/-- A claim of the bundle, with its dependencies under their ids. -/
structure BuiltClaim where
  type : ClaimType
  subjects : List Address
  approvedBuyers : List Address
  approvedFunders : List Address
  evidenceCodes : List String
  metrics : BuiltMetrics
  period : Period
  dependencies : List (B256 × ClaimDependency)
  deriving DecidableEq, Repr

/-! ## Returns of a case -/

/-- The settlements that follow the funding of their buyer. -/
def fundedSettlements (entry : ClosedCase) : List ScanRecord :=
  entry.settlementDependencies.filter fun item =>
    match item.timestamp.toNumber, entry.fundingTimes item.buyer with
    | some time, some funded => funded < time
    | _, _ => false

/-- The time of the earliest settlement that follows its funding. -/
def earliestSettlementTimestamp (entry : ClosedCase) : Except String ℕ :=
  okOr ((fundedSettlements entry).filterMap (·.timestamp.toNumber)).min?
    "Cannot read properties of undefined (reading 'timestamp')"

/-- When a return starts; relay paths of the scan name their first transfer. -/
def closureStartTimestamp : ReturnEvidence → Option ℕ
  | .direct transfer => transfer.timestamp.toNumber
  | .relay sellerPayment _ _ => sellerPayment.bind (·.timestamp.toNumber)
  | .hops _ => none

/-- The known returns that start after the earliest settlement. -/
def initialClosureDependencies (entry : ClosedCase) (earliest : ℕ) : List ReturnEvidence :=
  entry.closureDependencies.filter fun path =>
    (closureStartTimestamp path).any (earliest < ·)

/-- How returns are selected for a case. -/
def builderOptions (requiredRaw earliest : ℕ) : SelectionOptions :=
  ⟨requiredRaw, some earliest, maxReturnPaths, []⟩

/-- The returns that are selected among those of the case. -/
def initialSelection (entry : ClosedCase) (requiredRaw earliest : ℕ) :
    SelectedReturns ReturnEvidence :=
  selectReturnEvidence atomicReturnEvidence (initialClosureDependencies entry earliest)
    (builderOptions requiredRaw earliest)

/-- A found path as a dependency. -/
def cachedRelayDependency (path : RelayReturn) : ReturnEvidence :=
  .hops (path.hops.map TraceTransfer.toTransfer)

/-- The relay paths found for what a selection lacks. -/
def discoverMissing (entry : ClosedCase) (funderTrace : Trace) (loadTrace : Address → Option Trace)
    (requiredRaw earliest : ℕ) (selection : SelectedReturns ReturnEvidence) :
    DiscoveredReturns :=
  discoverCachedRelayReturns
    { seller := entry.seller
      funder := entry.funder
      sellerTrace := some entry.sellerTrace
      funderTrace := some funderTrace
      loadTrace := loadTrace
      earliestSettlementTimestamp := earliest }
    (requiredRaw - selection.returnedRaw) (maxReturnPaths - selection.evidence.length)
    selection.usedKeys

/-- The selection among the returns selected before and the relay paths found for the rest. -/
def augmentedSelection (entry : ClosedCase) (funderTrace : Trace)
    (loadTrace : Address → Option Trace) (requiredRaw earliest : ℕ)
    (selection : SelectedReturns ReturnEvidence) : SelectedReturns ReturnEvidence :=
  let discovered := discoverMissing entry funderTrace loadTrace requiredRaw earliest selection
  selectReturnEvidence atomicReturnEvidence
    (selection.evidence ++ discovered.paths.map cachedRelayDependency)
    (builderOptions requiredRaw earliest)

/-- The complete trace of the funder, if there is one. -/
def completeTrace (loadTrace : Address → Option Trace) (funder : Address) : Option Trace :=
  (loadTrace funder).filter (·.complete)

/-- The returns selected for a case: the known ones, and where they fall short, found ones. -/
def selectCaseReturns (entry : ClosedCase) (loadTrace : Address → Option Trace)
    (requiredRaw earliest : ℕ) : SelectedReturns ReturnEvidence :=
  let selection := initialSelection entry requiredRaw earliest
  if selection.complete requiredRaw then selection
  else
    match completeTrace loadTrace entry.funder with
    | none => selection
    | some funderTrace =>
      augmentedSelection entry funderTrace loadTrace requiredRaw earliest selection

/-- The returns of a claim. -/
def claimReturns (entry : ClosedCase) (loadTrace : Address → Option Trace) :
    Except String (List ReturnEvidence) :=
  if entry.seller = entry.funder then .ok entry.closureDependencies
  else do
    let earliest ← earliestSettlementTimestamp entry
    let requiredRaw ← requiredReturnRaw entry.approvedVolumeRaw alphaReturnBps
    let selection := selectCaseReturns entry loadTrace requiredRaw earliest
    ensure (selection.complete requiredRaw = true)
      (s!"{entry.seller}: return credit {selection.returnedRaw} below required {requiredRaw} " ++
        s!"for {entry.approvedVolumeRaw} settled volume")
    return selection.evidence

/-! ## Claims of cases -/

section Claims

variable (lib : BuilderLib)

/-- The dependencies of a claim without repetitions, under their ids and in their order. -/
def identifyDependencies (dependencies : List ClaimDependency) :
    List (B256 × ClaimDependency) :=
  sortBy (compareOn Prod.fst)
    ((sortBy lib.compareJson dependencies.dedup).map fun dependency =>
      (lib.hashDependency dependency, dependency))

/-- The claim of a case, with more returns from the traces where its own are not enough. -/
def buildClosedLoopClaim (period : Period) (loadTrace : Address → Option Trace)
    (entry : ClosedCase) : Except String BuiltClaim := do
  ensure (entry.selectedVolumeRaw = entry.approvedVolumeRaw)
    (s!"{entry.seller}: selected volume {entry.selectedVolumeRaw} != approved " ++
      s!"{entry.approvedVolumeRaw}")
  let closureDependencies ← claimReturns entry loadTrace
  return {
    type := .closedLoop
    subjects := [entry.seller]
    approvedBuyers := entry.approvedBuyers.insertionSort (· ≤ ·)
    approvedFunders := [entry.funder]
    evidenceCodes := entry.evidenceCodes
    metrics := ⟨entry.totalVolumeRaw, entry.approvedVolumeRaw, entry.approvedBuyers.length⟩
    period := period
    dependencies := identifyDependencies lib
      (entry.fundingDependencies.map ClaimDependency.record ++
        closureDependencies.map ClaimDependency.returns ++
          entry.settlementDependencies.map ClaimDependency.record) }

end Claims

end LoopProof.Planner
