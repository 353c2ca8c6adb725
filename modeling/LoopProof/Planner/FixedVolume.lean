import LoopProof.Planner.ReturnSelection

/-!
# Returns for a fixed volume

The search for returns that cover a fixed volume: the baseline paths with further candidates
beside them, or a selection from scratch, whichever returns more.
-/

namespace LoopProof.Planner

/-- What a search for a fixed volume is given. -/
structure FixedVolumeInput where
  candidates : List ReturnEvidence
  baseline : List ReturnEvidence
  volumeRaw : ℕ
  targetBps : ℕ
  seller : Address
  funder : Address
  earliest : ℕ
  periodEnd : ℕ
  startBlock : ℕ
  endBlock : ℕ

/-- A selected path. -/
structure FixedVolumePath where
  creditRaw : ℕ
  hops : List Transfer
  deriving DecidableEq, Repr

/-- The returns for a fixed volume, and how far they reach. -/
structure FixedVolumeReturns where
  fixedVolumeRaw : ℕ
  targetReturnBps : ℕ
  requiredReturnRaw : ℕ
  baselineReturnRaw : ℕ
  candidateReturnRaw : ℕ
  shortfallRaw : ℕ
  targetMetByCandidates : Bool
  paths : List FixedVolumePath
  deriving DecidableEq, Repr

section Search

variable (input : FixedVolumeInput)

/-- A hop inside the time and the blocks of the search. -/
def hopInPeriod (hop : Transfer) : Bool :=
  hop.timestamp.toNumber.any (fun time =>
      time ≤ maxSafeInteger ∧ input.earliest < time ∧ time ≤ input.periodEnd) = true ∧
    hop.logIndex.getD 0 ≤ maxSafeInteger ∧
    hop.blockNumber.all (fun block => input.startBlock ≤ block ∧ block ≤ input.endBlock) = true

/-- A path of the seller and the funder inside the period. -/
def matchesInput (path : ReturnEvidence) : Bool :=
  let hops := atomicReturnEvidence path
  hops ≠ [] ∧ hops.head?.bind (·.sender) = some input.seller ∧
    hops.getLast?.bind (·.recipient) = some input.funder ∧ hops.all (hopInPeriod input) = true

/-- What identifies a hop here; a log that is `null` counts as the number zero. -/
def hopKey (hop : Transfer) : TransferKey := (hop.transactionHash, hop.logIndex.getD 0)

/-- The credit of several paths. -/
def sumCredits (paths : List ReturnEvidence) : ℕ :=
  (paths.map fun path => returnPathCreditRaw (atomicReturnEvidence path)).sum

/-- The baseline, checked by a selection that may take all of it. -/
def checkedBaseline : SelectedReturns ReturnEvidence :=
  selectReturnEvidence atomicReturnEvidence input.baseline
    ⟨sumCredits input.baseline, some input.earliest, maxReturnPaths, []⟩

/-- The candidates that a selection adds to the baseline. -/
def remainingReturns (requiredRaw : ℕ) : SelectedReturns ReturnEvidence :=
  selectReturnEvidence atomicReturnEvidence (input.candidates.filter (matchesInput input))
    ⟨requiredRaw - sumCredits input.baseline, some input.earliest,
      maxReturnPaths - input.baseline.length,
      (input.baseline.flatMap atomicReturnEvidence).map hopKey⟩

/-- A selection from scratch. -/
def reselectedReturns (requiredRaw : ℕ) : SelectedReturns ReturnEvidence :=
  selectReturnEvidence atomicReturnEvidence
    ((input.baseline ++ input.candidates).filter (matchesInput input))
    ⟨requiredRaw, some input.earliest, maxReturnPaths, []⟩

/-- The larger of the two selections, with its credit. -/
def largerReturns (requiredRaw : ℕ) : List ReturnEvidence × ℕ :=
  let remaining := remainingReturns input requiredRaw
  let reselected := reselectedReturns input requiredRaw
  let augmentedRaw := sumCredits input.baseline + remaining.returnedRaw
  if reselected.returnedRaw ≤ augmentedRaw then
    (input.baseline ++ remaining.evidence, augmentedRaw)
  else (reselected.evidence, reselected.returnedRaw)

/-- The larger of two selections of returns for a volume: one that keeps the baseline, and one
without it. -/
def selectFixedVolumeReturns : Except String FixedVolumeReturns := do
  let requiredRaw ← requiredReturnRaw input.volumeRaw input.targetBps
  ensure (input.baseline.all (matchesInput input) = true)
    "baseline paths do not match seller, funder or period"
  let checked := checkedBaseline input
  ensure (checked.complete (sumCredits input.baseline) = true ∧
      checked.evidence.length = input.baseline.length)
    "baseline contains invalid or overlapping return paths"
  let (evidence, returnedRaw) := largerReturns input requiredRaw
  return {
    fixedVolumeRaw := input.volumeRaw
    targetReturnBps := input.targetBps
    requiredReturnRaw := requiredRaw
    baselineReturnRaw := sumCredits input.baseline
    candidateReturnRaw := returnedRaw
    shortfallRaw := requiredRaw - returnedRaw
    targetMetByCandidates := requiredRaw ≤ returnedRaw
    paths := evidence.map fun path =>
      ⟨returnPathCreditRaw (atomicReturnEvidence path), atomicReturnEvidence path⟩ }

end Search

end LoopProof.Planner
