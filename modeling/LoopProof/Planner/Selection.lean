import LoopProof.Planner.Returns

/-!
# Selection of settlements

The settlements a strategy proves: all eligible ones, or as many as the period-end balance of
each buyer leaves room for, and no more than the returns cover.
-/

namespace LoopProof.Planner

/-- The settlements that fit a capacity, taken in position order. -/
def selectWithinCapacity (settlements : List Entry) (capacityRaw : ℕ) : List Entry :=
  sortEntries (greedyWithin (·.amountRaw) capacityRaw 0 (sortEntries settlements))

/-- The settlements within an optional bound on their volume. -/
def bounded (maximumVolumeRaw : Option ℕ) (settlements : List Entry) : List Entry :=
  match maximumVolumeRaw with
  | none => settlements
  | some maximum => selectWithinCapacity settlements maximum

/-- The fundings of one buyer in position order. -/
def recordsOf (fundings : List Entry) (buyer : Address) : List Entry :=
  sortEntries (fundings.filter (·.buyer = some buyer))

/-- The buyers of a list of entries. -/
def buyersOf (entries : List Entry) : List Address := sortedSet (entries.filterMap (·.buyer))

/-- The buyers that group a list of entries, as they appear. -/
def groupKeys (entries : List Entry) : List Address := dedupeBy id (entries.filterMap (·.buyer))

/-- The fundings of a list by buyer; a buyer without any has no record. -/
def fundingByBuyer (fundings : List Entry) (buyer : Address) : Option (List Entry) :=
  if recordsOf fundings buyer = [] then none else some (recordsOf fundings buyer)

/-- The buyer of an entry has a record. -/
def isFunded {ρ : Type} (fundingByBuyer : Address → Option ρ) (entry : Entry) : Bool :=
  entry.buyer.any fun buyer => (fundingByBuyer buyer).isSome

/-- Whether settlements are limited by the balances of the buyers. -/
inductive OptimizationMode where
  | exactApprovedEvidence
  | authenticatedLedgerCapacity
  deriving DecidableEq, Repr

/-- The settlements that are kept, with their buyers and volume. -/
structure Selection where
  settlements : List Entry
  buyers : List Address
  volumeRaw : ℕ
  optimizationMode : OptimizationMode
  deriving DecidableEq, Repr

/-- The selection of the given settlements, if its buyers and its volume are the required ones. -/
def selectionOf (settlements : List Entry) (requiredBuyers : List Address)
    (approvedVolumeRaw : Option ℕ) (mode : OptimizationMode) : Option Selection :=
  let buyers := buyersOf settlements
  let volumeRaw := sumRaw settlements
  if settlements = [] then none
  else if requiredBuyers.any (· ∉ buyers) then none
  else if approvedVolumeRaw.any (volumeRaw ≠ ·) then none
  else some ⟨settlements, buyers, volumeRaw, mode⟩

/-- The settlements of funded buyers. -/
def selectApprovedSettlements {ρ : Type} (settlements : List Entry)
    (fundingByBuyer : Address → Option ρ) (fixedBlocks : List ℕ) (requiredBuyers : List Address)
    (approvedVolumeRaw maximumVolumeRaw : Option ℕ) : Except String (Option Selection) := do
  let _ ← fixedBlocks.mapM authenticationGroup
  let eligible := sortEntries (settlements.filter (isFunded fundingByBuyer))
  return selectionOf (bounded maximumVolumeRaw eligible) requiredBuyers approvedVolumeRaw
    .exactApprovedEvidence

/-- The fundings before the last eligible settlement. -/
def fundedRaw (records eligible : List Entry) : ℕ :=
  sumRaw (records.filter fun entry => (latestOf eligible).any (compareEntries entry · = .lt))

/-- What a buyer can have settled, given its fundings and its period-end balance. -/
def availableRaw (records : List Entry) (balanceEnd : ℕ) (eligible : List Entry) : ℕ :=
  fundedRaw records eligible * (10000 + epsilonLedgerBps) / 10000 - balanceEnd

/-- The repeated selection of one buyer's settlements: a settlement that is dropped can shorten
the fundings that count, so what is left is selected from again until it stays. -/
def ledgerPasses (records : List Entry) (balanceEnd fuel : ℕ) (values : List Entry) :
    Option (List Entry) :=
  selectUntilStable (·.dependencyId)
    (fun eligible => selectWithinCapacity eligible (availableRaw records balanceEnd eligible))
    fuel none (sortEntries values)

/-- The settlements of one buyer that its ledger leaves room for. -/
def ledgerSettlements (records : List Entry) (balanceEnd : ℕ) (values : List Entry) :
    Option (List Entry) :=
  ledgerPasses records balanceEnd (values.length + 2) values

/-- The settlements of one buyer, if its period-end balance is known. -/
def buyerSettlements (fundingByBuyer : Address → Option (List Entry))
    (ledgerBalances : Address → Option ℕ) (values : List Entry) (buyer : Address) :
    Except String (List Entry) := do
  let balanceEnd ← okOr (ledgerBalances buyer) s!"missing period-end ledger balance for {buyer}"
  okOr (ledgerSettlements (sortEntries ((fundingByBuyer buyer).getD [])) balanceEnd
    (values.filter (·.buyer = some buyer))) "the selection does not settle"

/-- The settlements of funded buyers, as far as the balance of each supports them. -/
def selectLedgerAwareSettlements (settlements : List Entry)
    (fundingByBuyer : Address → Option (List Entry)) (ledgerBalances : Address → Option ℕ)
    (fixedBlocks : List ℕ) (requiredBuyers : List Address)
    (approvedVolumeRaw maximumVolumeRaw : Option ℕ) : Except String (Option Selection) := do
  let _ ← fixedBlocks.mapM authenticationGroup
  let funded := settlements.filter (isFunded fundingByBuyer)
  let groups ← (groupKeys funded).mapM (buyerSettlements fundingByBuyer ledgerBalances funded)
  let selected := sortEntries groups.flatten
  return selectionOf (bounded maximumVolumeRaw selected) requiredBuyers approvedVolumeRaw
    .authenticatedLedgerCapacity

end LoopProof.Planner
