import LoopProof.Planner.Evidence

/-!
# Return evidence

The checks on the return evidence of one funder, and how far its credit reaches.
-/

namespace LoopProof.Planner

/-- Share of the settled volume that funding must cover, in basis points. -/
def alphaFundBps : ℕ := 9000

/-- Tolerance of the reconciliation of a buyer's ledger, in basis points. -/
def epsilonLedgerBps : ℕ := 500

/-- The blocks a proof covers. -/
structure Period where
  startBlock : ℕ
  endBlockExclusive : ℕ
  deriving DecidableEq, Repr

/-- An absent period admits every block. -/
def inPeriod (period : Option Period) (blockNumber : ℕ) : Bool :=
  period.all fun p => p.startBlock ≤ blockNumber ∧ blockNumber < p.endBlockExclusive

/-! ## The returns of one funder -/

/-- The sender and the recipient differ, where both are known. -/
def nonSelfTransfer (atom : Atom) : Bool :=
  atom.sender = none ∨ atom.recipient = none ∨ atom.sender ≠ atom.recipient

/-- The hops of a relay path from the given one on. -/
def validHopsFrom : Atom → List Atom → Except String Bool
  | _, [] => .ok true
  | previous, hop :: rest =>
    if hop.amountRaw = 0 then .ok false
    else do
      let order ← compareHop previous hop
      let earlier := match hop.timestamp.toNumber, previous.timestamp.toNumber with
        | some time, some previousTime => decide (time < previousTime)
        | _, _ => false
      if order ≠ .lt ∨ earlier = true then return false
      else if hop.amountRaw * 10000 < previous.amountRaw * minRelayRetainedBps then return false
      else validHopsFrom hop rest

/-- The hops of a path lie in the period and in the window, and each forwards enough of the one
before it. -/
def validRelayPath (path : RelayPath) (period : Option Period) : Except String Bool :=
  match path.hops with
  | [] => .ok false
  | first :: rest =>
    if 9 < path.hops.length then .ok false
    else if path.hops.all (fun hop => inPeriod period hop.blockNumber) = false then .ok false
    else if first.amountRaw = 0 then .ok false
    else do
      let valid ← validHopsFrom first rest
      return valid && withinWindow (path.hops.map Atom.toTransfer)

/-- How the funder is paid back. -/
inductive ClosureClass where
  | selfFunded
  | directSellerFunder
  | relayPath
  | directAndRelay
  deriving DecidableEq, Repr

/-- The return evidence of one funder. -/
structure Closure where
  evidence : List Dependency
  evidenceClass : ClosureClass
  rejected : List B256
  deriving DecidableEq, Repr

/-- The direct returns of a funder. -/
def directReturns (dependencies : List Dependency) (funder : Address) (period : Option Period) :
    List Entry :=
  (ofType .directSellerFunder dependencies).filter fun entry =>
    entry.funder = some funder ∧ 0 < entry.amountRaw ∧ nonSelfTransfer entry.toAtom = true ∧
      inPeriod period entry.blockNumber = true

/-- The relay paths that end at a funder. -/
def relayCandidates (dependencies : List Dependency) (funder : Address) : List RelayPath :=
  (dependencies.filterMap Dependency.relayPath?).filter (·.funder = some funder)

/-- The relay paths that pass their checks. -/
def relayReturns (candidates : List RelayPath) (period : Option Period) :
    Except String (List RelayPath) :=
  candidates.filterMapM fun path => do
    if path.hops.all nonSelfTransfer = false then return none
    else
      let valid ← validRelayPath path period
      return if valid = true then some path else none

/-- The relay paths in comparator order; a comparison costs the hops of both paths. -/
def sortRelayPaths (lib : PlannerLib) (relay : List RelayPath) :
    Except String (List RelayPath) := do
  let _ ← (if 2 ≤ relay.length then relay else []).mapM (relayCost lib)
  return sortBy (relayPathOrder lib) relay

/-- The returns to a funder; a funder that is the seller needs none. -/
def selectClosureForFunder (lib : PlannerLib) (dependencies : List Dependency) (funder : Address)
    (seller : Option Address) (period : Option Period) : Except String (Option Closure) :=
  if seller = some funder then .ok (some ⟨[], .selfFunded, []⟩)
  else do
    let direct := directReturns dependencies funder period
    let candidates := relayCandidates dependencies funder
    let valid ← relayReturns candidates period
    let relay ← sortRelayPaths lib valid
    let evidence := direct.map Dependency.entry ++ relay.map Dependency.relayPath
    if evidence = [] then return none
    else
      return some ⟨evidence,
        if direct ≠ [] ∧ relay ≠ [] then .directAndRelay
        else if direct ≠ [] then .directSellerFunder
        else .relayPath,
        (candidates.filter (· ∉ relay)).map (·.dependencyId)⟩

/-- Every return follows the earliest settlement. -/
def closureOccursAfterSettlements (settlements : List Entry) (closureEvidence : List Dependency) :
    Except String Bool :=
  match (sortEntries settlements).head? with
  | none => .ok false
  | some earliest => closureEvidence.allM fun
    | .entry entry => .ok (compareEntries entry earliest = .gt)
    | .relayPath path => path.hops.allM fun hop => do
      let order ← compareHop hop earliest.toAtom
      return order = .gt

/-- The credit of all returns. -/
def returnedRaw (closureEvidence : List Dependency) : ℕ :=
  (closureEvidence.map fun entry => returnPathCreditRaw entry.returnAtoms).sum

/-- Returns carry their share of the volume, where there are any. -/
def returnCoverageQualifies (closureEvidence : List Dependency)
    (settlementVolumeRaw returnTargetBps : ℕ) : Bool :=
  closureEvidence = [] ∨ closureEvidence.length ≤ maxReturnPaths ∧
    settlementVolumeRaw * returnTargetBps ≤ returnedRaw closureEvidence * 10000

/-- The volume that the returns can cover; without returns there is no bound. -/
def returnSettlementCapacity (closureEvidence : List Dependency) (returnTargetBps : ℕ) :
    Option ℕ :=
  if closureEvidence = [] then none
  else if maxReturnPaths < closureEvidence.length then some 0
  else some (returnedRaw closureEvidence * 10000 / returnTargetBps)

end LoopProof.Planner
