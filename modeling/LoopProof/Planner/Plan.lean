import LoopProof.Planner.Selection

/-!
# Plans

The planner of one claim: the cohort strategies of every approved funder, the cheapest of them,
and the evidence it selects.
-/

namespace LoopProof.Planner

/-- The types of claims; others are not supported. -/
inductive ClaimType where
  | closedLoop
  | reciprocal
  | other (name : String)
  deriving DecidableEq, Repr

/-- The volumes an analysis approved. -/
structure Metrics where
  qualifiedVolumeRaw : Option ℕ
  qualifiedBuyerCount : Option ℕ
  volumeAToBRaw : Option ℕ
  volumeBToARaw : Option ℕ
  deriving DecidableEq, Repr

/-- A claim over dependencies of the given type. -/
structure Claim (δ : Type) where
  claimId : B256
  type : ClaimType
  subjects : List Address
  walletA : Option Address
  walletB : Option Address
  approvedBuyers : List Address
  approvedFunders : List Address
  metrics : Option Metrics
  dependencyRoot : B256
  leafHash : B256
  dependencies : List δ
  deriving DecidableEq, Repr

/-- What a plan reads of its bundle. -/
structure PlanContext where
  period : Option Period
  reportRoot : B256
  deriving DecidableEq, Repr

/-- How a claim is planned. -/
structure PlanOptions where
  ledgerBalances : Option (Address → Option ℕ)
  allowLedgerSelection : Bool
  returnTargetBps : ℕ
  maximizeVolume : Bool

/-- The options of a call that names none. -/
def PlanOptions.default : PlanOptions := ⟨none, false, alphaReturnBps, false⟩

/-- The fundings of one buyer that a strategy keeps and cuts. -/
structure FundingDiagnostics where
  buyer : Address
  retainedRecords : ℕ
  excludedLateRecords : ℕ
  totalRecords : ℕ
  retainedAmountRaw : ℕ
  excludedLateAmountRaw : ℕ
  totalAmountRaw : ℕ
  deriving DecidableEq, Repr

/-- A way to prove a claim. -/
structure Strategy where
  closure : Closure
  funding : List Entry
  settlements : List Entry
  buyers : List Address
  volumeRaw : ℕ
  fundingDiagnostics : List FundingDiagnostics
  optimizationMode : OptimizationMode
  cost : Cost
  deriving DecidableEq, Repr

/-- Evidence that was not selected, and why a strategy was not. -/
inductive Alternative where
  | evidence (dependencyId : B256)
  | strategy (cost : Cost)
  deriving DecidableEq, Repr

/-- What a closed-loop plan says about its strategy. -/
structure CohortDetails where
  provenBuyerCount : ℕ
  provenVolumeRaw : ℕ
  closureType : ClosureClass
  optimizationMode : OptimizationMode
  fundingDiagnostics : List FundingDiagnostics
  returnTargetBps : ℕ
  maximizeVolume : Bool
  deriving DecidableEq, Repr

/-- The evidence that was selected for a claim, with its blocks and its cost. -/
structure Plan where
  claimId : B256
  type : ClaimType
  subjects : List Address
  reportRoot : B256
  dependencyRoot : B256
  selectedEvidence : List Dependency
  selectedBlocks : List ℕ
  cost : Cost
  rejectedAlternatives : List Alternative
  cohort : Option CohortDetails
  deriving DecidableEq, Repr

/-! ## Strategies -/

section Strategies

/-- The fundings of approved buyers by approved funders. -/
def cohortFundings {δ : Type} (claim : Claim δ) (dependencies : List Dependency) : List Entry :=
  (ofType .usdcFunding dependencies).filter fun entry =>
    entry.buyer.any (· ∈ claim.approvedBuyers) = true ∧
      entry.funder.any (· ∈ claim.approvedFunders) = true

/-- The settlements of approved buyers. -/
def cohortSettlements {δ : Type} (claim : Claim δ) (dependencies : List Dependency) :
    List Entry :=
  (ofType .settlement dependencies).filter fun entry =>
    entry.buyer.any (· ∈ claim.approvedBuyers)

/-- The settlements after the block of their buyer's first funding. -/
def eligibleSettlements (fundings settlements : List Entry) : List Entry :=
  settlements.filter fun entry =>
    (entry.buyer.bind fun buyer => (recordsOf fundings buyer).head?).any
      (·.blockNumber < entry.blockNumber)

/-- The returns a strategy uses: as many as the approved volume requires, or all of them. -/
def strategyClosure (closure : Closure) (approvedVolumeRaw : Option ℕ)
    (returnTargetBps : ℕ) : Except String (Option Closure) :=
  if closure.evidence = [] then .ok (some closure)
  else do
    let targetReturnRaw ← match approvedVolumeRaw with
      | none => .ok (returnedRaw closure.evidence)
      | some volume => requiredReturnRaw volume returnTargetBps
    let selected := selectReturnEvidence Dependency.returnAtoms closure.evidence
      (.ofRequired targetReturnRaw)
    if approvedVolumeRaw.isSome ∧ selected.returnedRaw < targetReturnRaw then return none
    return some { closure with evidence := selected.evidence }

/-- The fundings of a selection: those in a block before the last settlement of their buyer. -/
def retainedFunding (fundings settlements : List Entry) (buyers : List Address) : List Entry :=
  buyers.flatMap fun buyer => (recordsOf fundings buyer).filter fun entry =>
    (latestOf (settlements.filter (·.buyer = some buyer))).any
      (entry.blockNumber < ·.blockNumber)

/-- The fundings of a buyer that are kept and those that come too late. -/
def fundingDiagnostics (fundings funding : List Entry) (buyer : Address) : FundingDiagnostics :=
  let records := recordsOf fundings buyer
  let retained := funding.filter (·.buyer = some buyer)
  let excludedLate := records.filter (· ∉ retained)
  ⟨buyer, retained.length, excludedLate.length, records.length, sumRaw retained,
    sumRaw excludedLate, sumRaw records⟩

/-- The settlements a strategy proves, with the ledger balances where they are known. -/
def selectSettlements (eligible fundings : List Entry) (closureEvidence : List Dependency)
    (approvedVolumeRaw : Option ℕ) (ledgerBalances : Option (Address → Option ℕ))
    (returnTargetBps : ℕ) : Except String (Option Selection) :=
  let fixedBlocks := (closureEvidence.flatMap Dependency.atomicEvidence).map (·.blockNumber)
  let requiredBuyers := (ofType .directSellerBuyer closureEvidence).filterMap (·.buyer)
  let maximumVolumeRaw := returnSettlementCapacity closureEvidence returnTargetBps
  match ledgerBalances with
  | some balances => selectLedgerAwareSettlements eligible (fundingByBuyer fundings) balances
      fixedBlocks requiredBuyers approvedVolumeRaw maximumVolumeRaw
  | none => selectApprovedSettlements eligible (fundingByBuyer fundings) fixedBlocks
      requiredBuyers approvedVolumeRaw maximumVolumeRaw

/-- The returns, if there are any, follow the settlements. -/
def closureFollows (settlements : List Entry) (closureEvidence : List Dependency) :
    Except String Bool :=
  if closureEvidence = [] then .ok true
  else closureOccursAfterSettlements settlements closureEvidence

/-- The strategy of a selection, if its returns and its fundings qualify. -/
def qualifyStrategy (lib : PlannerLib) (fundings : List Entry) (closure : Closure)
    (selection : Selection) (ledgerBalances : Option (Address → Option ℕ))
    (returnTargetBps : ℕ) : Except String (Option Strategy) := do
  let after ← closureFollows selection.settlements closure.evidence
  let funding := retainedFunding fundings selection.settlements selection.buyers
  if after = false then return none
  else if returnCoverageQualifies closure.evidence selection.volumeRaw returnTargetBps = false then
    return none
  else if ledgerBalances.isSome ∧ sumRaw funding * 10000 < selection.volumeRaw * alphaFundBps then
    return none
  else
    let cost ← costTuple lib (closure.evidence ++ funding.map Dependency.entry ++
      selection.settlements.map Dependency.entry)
    return some {
      closure := closure
      funding := funding
      settlements := selection.settlements
      buyers := selection.buyers
      volumeRaw := selection.volumeRaw
      fundingDiagnostics := selection.buyers.map (fundingDiagnostics fundings funding)
      optimizationMode := selection.optimizationMode
      cost := cost }

/-- The strategy of one funder, if it has one. -/
def buildCohortStrategy (lib : PlannerLib) (fundings settlements : List Entry)
    (closure : Closure) (approvedVolumeRaw : Option ℕ)
    (ledgerBalances : Option (Address → Option ℕ)) (returnTargetBps : ℕ) :
    Except String (Option Strategy) := do
  let eligible := eligibleSettlements fundings settlements
  if fundings = [] ∨ eligible = [] then return none
  else
    match ← strategyClosure closure approvedVolumeRaw returnTargetBps with
    | none => return none
    | some closure =>
      match ← selectSettlements eligible fundings closure.evidence approvedVolumeRaw
        ledgerBalances returnTargetBps with
      | none => return none
      | some selection =>
        qualifyStrategy lib fundings closure selection ledgerBalances returnTargetBps

/-- The volume a strategy has to prove; a ledger selection is free to choose it. -/
def approvedVolume {δ : Type} (claim : Claim δ) (allowLedgerSelection : Bool) : Option ℕ :=
  if allowLedgerSelection then none else claim.metrics.bind (·.qualifiedVolumeRaw)

/-- The strategy of every funder that has one. -/
def buildCohortStrategies {δ : Type} (lib : PlannerLib) (claim : Claim δ)
    (dependencies : List Dependency) (period : Option Period) (options : PlanOptions) :
    Except String (List Strategy) :=
  let fundings := cohortFundings claim dependencies
  let settlements := cohortSettlements claim dependencies
  (sortedSet (fundings.filterMap (·.funder))).filterMapM fun funder => do
    match ← selectClosureForFunder lib dependencies funder claim.subjects.head? period with
    | none => return none
    | some closure =>
      buildCohortStrategy lib (fundings.filter (·.funder = some funder)) settlements closure
        (approvedVolume claim options.allowLedgerSelection) options.ledgerBalances
        options.returnTargetBps

end Strategies

/-! ## Plans of a claim -/

section Plans

variable {δ : Type} (lib : PlannerLib)

/-- The volume that one subject settled with the other. -/
def volumeBetween (settlements : List Entry) (buyer seller : Option Address) : ℕ :=
  sumRaw (settlements.filter fun entry =>
    entry.buyer.isSome ∧ entry.buyer = buyer ∧ entry.seller.isSome ∧ entry.seller = seller)

/-- The dependency as a settlement whose volume an analysis approved. -/
def settlement? : Dependency → Option Entry
  | .entry entry =>
    if entry.evidenceType = .settlement ∨ entry.evidenceType = .reciprocalSettlement then
      some entry
    else none
  | .relayPath _ => none

/-- The selected volume must be the approved one. -/
def validateAnalysisVolume (claim : Claim δ) (selected : List Dependency) : Except String Unit :=
  match claim.metrics with
  | none => .ok ()
  | some metrics =>
    let settlements := selected.filterMap settlement?
    if claim.type = .closedLoop then do
      let expected ← okOr metrics.qualifiedVolumeRaw "Cannot convert undefined to a BigInt"
      let actual := sumRaw settlements
      ensure (actual = expected) (s!"{claim.claimId}: selected settlement volume {actual} " ++
        s!"does not equal approved analysis volume {expected}")
    else do
      let subjects := claim.subjects.insertionSort (· ≤ ·)
      let volumeAToB := volumeBetween settlements subjects[0]? subjects[1]?
      let volumeBToA := volumeBetween settlements subjects[1]? subjects[0]?
      let expectedAToB ← okOr metrics.volumeAToBRaw "Cannot convert undefined to a BigInt"
      let expectedBToA ← okOr metrics.volumeBToARaw "Cannot convert undefined to a BigInt"
      ensure (volumeAToB = expectedAToB ∧ volumeBToA = expectedBToA)
        (s!"{claim.claimId}: selected reciprocal volumes {volumeAToB}/{volumeBToA} do not " ++
          s!"equal approved analysis volumes {expectedAToB}/{expectedBToA}")

/-- The plan of selected evidence, whose volumes must be those of the claim. -/
def finalizePlanClaim (claim : Claim δ) (evidence : List Dependency)
    (rejectedAlternatives : List Alternative) (cohort : Option CohortDetails)
    (context : PlanContext) : Except String Plan := do
  let selected := sortBy compareEvidence (dedupe evidence)
  validateAnalysisVolume claim selected
  let cost ← costTuple lib selected
  return {
    claimId := claim.claimId
    type := claim.type
    subjects := claim.subjects
    reportRoot := context.reportRoot
    dependencyRoot := claim.dependencyRoot
    selectedEvidence := selected
    selectedBlocks := sortedSet
      ((selected.flatMap Dependency.atomicEvidence).map (·.blockNumber))
    cost := cost
    rejectedAlternatives := rejectedAlternatives
    cohort := cohort }

/-- Larger volumes first where asked for, then cheaper strategies. -/
def compareStrategies (maximizeVolume : Bool) (left right : Strategy) : Ordering :=
  if maximizeVolume = true ∧ left.volumeRaw ≠ right.volumeRaw then
    compare right.volumeRaw left.volumeRaw
  else compareCost left.cost right.cost

/-- What is reported of a cohort without a plan. -/
def cohortDiagnostics (claim : Claim δ) (dependencies : List Dependency) : String :=
  let settlements := cohortSettlements claim dependencies
  let fundings := cohortFundings claim dependencies
  let fundedBuyers := (fundings.map (·.buyer)).dedup
  let postFundingVolume := sumRaw (settlements.filter fun entry => fundings.any fun funding =>
    funding.buyer = entry.buyer ∧ funding.blockNumber < entry.blockNumber)
  s!"usdcFundings={fundings.length},buyers={fundedBuyers.length}," ++
    s!"postFundingVolumeRaw={postFundingVolume}"

/-- The claim with the volume and the buyers that a ledger selection found. -/
def plannedClaim (claim : Claim δ) (allowLedgerSelection : Bool) (selected : Strategy) :
    Claim δ :=
  if allowLedgerSelection then
    let metrics := claim.metrics.getD ⟨none, none, none, none⟩
    { claim with metrics := some { metrics with
        qualifiedVolumeRaw := some selected.volumeRaw
        qualifiedBuyerCount := some selected.buyers.length } }
  else claim

/-- The evidence of a strategy, with the settlements of the seller's total volume. -/
def strategyEvidence (selected : Strategy) (dependencies : List Dependency) : List Dependency :=
  selected.closure.evidence ++ selected.funding.map Dependency.entry ++
    selected.settlements.map Dependency.entry ++
    (ofType .totalSettlement dependencies).map Dependency.entry

/-- The best strategy of a cohort, with the others as its alternatives. -/
def planCohort (claim : Claim δ) (dependencies : List Dependency) (context : PlanContext)
    (options : PlanOptions) : Except String Plan := do
  let candidates ← buildCohortStrategies lib claim dependencies context.period options
  match sortBy (compareStrategies options.maximizeVolume) candidates with
  | [] => .error (s!"{claim.claimId}: no valid cohort funding strategy; " ++
      cohortDiagnostics claim dependencies)
  | selected :: others =>
    finalizePlanClaim lib (plannedClaim claim options.allowLedgerSelection selected)
      (strategyEvidence selected dependencies)
      (selected.closure.rejected.map Alternative.evidence ++
        others.map fun strategy => Alternative.strategy strategy.cost)
      (some {
        provenBuyerCount := selected.buyers.length
        provenVolumeRaw := selected.volumeRaw
        closureType := selected.closure.evidenceClass
        optimizationMode := selected.optimizationMode
        fundingDiagnostics := selected.fundingDiagnostics
        returnTargetBps := options.returnTargetBps
        maximizeVolume := options.maximizeVolume })
      context

/-- The smaller side of a pair must be at least this share of the larger one, in basis points. -/
def minimumReciprocalVolumeBps : ℕ := 8000

/-- Both sides of a pair settled, and their volumes are close enough. -/
def reciprocalVolumesQualify (volumeAToB volumeBToA : ℕ) : Bool :=
  0 < volumeAToB ∧ 0 < volumeBToA ∧
    max volumeAToB volumeBToA * minimumReciprocalVolumeBps ≤ min volumeAToB volumeBToA * 10000

/-- The fundings of one subject by the other through the deposit contract. -/
def internalDeposits (claim : Claim δ) (dependencies : List Dependency) : List Entry :=
  (ofType .usdcFunding dependencies).filter fun entry =>
    entry.depositLogIndex ≠ none ∧ entry.buyer.any (· ∈ claim.subjects) = true ∧
      entry.funder.any (· ∈ claim.subjects) = true

/-- All settlements of a pair with its deposits and totals. -/
def planReciprocal (claim : Claim δ) (dependencies : List Dependency) (context : PlanContext) :
    Except String Plan := do
  let selected := sortEntries (ofType .reciprocalSettlement dependencies)
  let totals := sortEntries (ofType .totalSettlement dependencies)
  let volumeAToB := sumRaw (selected.filter fun entry =>
    entry.buyer = claim.walletA ∧ entry.seller = claim.walletB)
  let volumeBToA := sumRaw (selected.filter fun entry =>
    entry.buyer = claim.walletB ∧ entry.seller = claim.walletA)
  ensure (reciprocalVolumesQualify volumeAToB volumeBToA = true)
    "reciprocal selection cannot satisfy 80% reciprocity"
  let _ ← costTuple lib (selected.map Dependency.entry)
  finalizePlanClaim lib claim
    ((internalDeposits claim dependencies ++ selected ++ totals).map Dependency.entry) [] none
    context

/-- The plan of a claim by its type. -/
def planClaim (claim : Claim δ) (dependencies : List Dependency) (context : PlanContext)
    (options : PlanOptions) : Except String Plan := do
  let _ ← requiredReturnRaw 0 options.returnTargetBps
  match claim.type with
  | .reciprocal => planReciprocal lib claim dependencies context
  | .closedLoop => planCohort lib claim dependencies context options
  | .other name => .error s!"{claim.claimId}: unsupported claim type {name}"

end Plans

end LoopProof.Planner
