import LoopProof.Predicate.ClosedLoop

/-!
# The reciprocal predicate

The circular form of the conserved loop: a normalized pair settling with each other in
both directions out of capital it moved into itself.
-/

namespace LoopProof

/-- Directional sums and records of the measurement loop. -/
structure PairMeasure where
  sellsA : U128
  sellsB : U128
  settlementsA : List SettlementRecord
  settlementsB : List SettlementRecord

/-- Nothing was settled yet. -/
def PairMeasure.empty : PairMeasure := ⟨0, 0, [], []⟩

variable (lib : Lib) (input : ReciprocalInput) (resolver : ChainResolver)

/-- Credit one settlement to the direction it belongs to. -/
def PairMeasure.sell (measure : PairMeasure) (buyer seller : Address)
    (record : SettlementRecord) : Outcome PairMeasure :=
  if buyer = input.addressB ∧ seller = input.addressA then do
    let sells ← okOr (checkedAdd measure.sellsA record.amount) (.err "reciprocal: overflow")
    return { measure with sellsA := sells, settlementsA := measure.settlementsA ++ [record] }
  else if buyer = input.addressA ∧ seller = input.addressB then do
    let sells ← okOr (checkedAdd measure.sellsB record.amount) (.err "reciprocal: overflow")
    return { measure with sellsB := sells, settlementsB := measure.settlementsB ++ [record] }
  else .error (.err "reciprocal: settlement outside the exact pair")

/-- One settlement, credited to the side that sold. -/
def pairSettlementStep (state : PairMeasure × UsedLogs) (reference : LogRef) :
    Outcome (PairMeasure × UsedLogs) := do
  let (measure, used) := state
  let key ← resolver.logKey lib reference
  let used ← used.insertNew key "reciprocal: duplicate settlement evidence"
  let (_, buyer, seller, amount, block) ← resolver.settlement lib reference
  ensureEventInPeriod block input.periodStartBlock input.periodEndBlock "reciprocal settlement"
  ensure (amount ≠ 0) (.err "reciprocal: zero settlement")
  let record : SettlementRecord :=
    ⟨settlementId lib.toCoreLib baseChainId key.blockNumber key.txIndex key.logIndex, amount⟩
  let measure ← measure.sell input buyer seller record
  return (measure, used)

/-- One pair deposit, credited to the internal total. -/
def pairDepositStep (state : U128 × UsedLogs) (evidence : PairDepositEvidence) :
    Outcome (U128 × UsedLogs) := do
  let (internalTotal, used) := state
  ensure (evidence.member = input.addressA ∨ evidence.member = input.addressB)
    (.err "reciprocal: deposit credited outside the pair")
  ensure (evidence.transfer.block = evidence.deposited.block ∧
      evidence.transfer.receipt = evidence.deposited.receipt)
    (.err "reciprocal: deposit logs must share one receipt")
  let transferKey ← resolver.logKey lib evidence.transfer
  let depositedKey ← resolver.logKey lib evidence.deposited
  ensure (transferKey < depositedKey) (.err "reciprocal: transfer must precede its Deposited log")
  let used ← used.insertNew transferKey "reciprocal: duplicate deposit evidence"
  let used ← used.insertNew depositedKey "reciprocal: duplicate deposit evidence"
  let (sender, recipient, transferred, block) ← resolver.usdcTransfer lib evidence.transfer
  ensureEventInPeriod block input.periodStartBlock input.periodEndBlock "pair deposit"
  let (depositBuyer, depositedAmount, _) ← resolver.protocolDeposit lib evidence.deposited
  ensure (recipient = depositsAddress ∧ depositBuyer = evidence.member ∧
      transferred = depositedAmount ∧ depositedAmount ≠ 0 ∧
      (sender = input.addressA ∨ sender = input.addressB))
    (.err "reciprocal: invalid pair deposit")
  resolver.requireSigner lib sender evidence.transfer
  let internalTotal ← okOr (checkedAdd internalTotal depositedAmount) (.err "reciprocal: overflow")
  return (internalTotal, used)

/-- The reciprocal verifier. -/
def verifyReciprocal (lib : Lib) (input : ReciprocalInput) : Outcome WashJournal := do
  validateChain input.chainId
  ensure (input.periodStartBlock ≠ 0 ∧ input.periodStartBlock ≤ input.periodEndBlock)
    (.err "reciprocal: invalid period")
  ensure (input.addressA ≠ 0 ∧ input.addressB ≠ 0 ∧ input.addressA < input.addressB)
    (.err "reciprocal: pair must be nonzero and normalized")
  let blockRefs ← authenticateBlocks lib.toCoreLib input.blocks input.periodStartBlock
    input.periodEndBlock
  let resolver : ChainResolver := ⟨input.blocks⟩
  ensure (input.settlements ≠ []) (.err "reciprocal: no settlements referenced")
  let (measure, used) ← input.settlements.foldlM (pairSettlementStep lib input resolver)
    (PairMeasure.empty, ∅)
  let total ← okOr (checkedAdd measure.sellsA measure.sellsB) (.err "reciprocal: overflow")
  let low := min measure.sellsA measure.sellsB
  let high := max measure.sellsA measure.sellsB
  ensure (meetsRatio low high betaReciprocalBps = true)
    (.err "reciprocal: directional volumes are not reciprocal")
  let (internalTotal, _) ← input.internalDeposits.foldlM (pairDepositStep lib input resolver)
    (0, used)
  let endA ← endBalance lib resolver input.periodEndBlock input.addressA input.ledgerA
  let endB ← endBalance lib resolver input.periodEndBlock input.addressB input.ledgerB
  let lhs := (endA + endB + widen bits128_le_256 total) * 10000
  let rhs : U256 := widen bits128_le_256 internalTotal * 10000 +
    widen bits128_le_256 total * widen bits64_le_256 (10000 - alphaSelfBps)
  ensure (lhs ≤ rhs) (.err "reciprocal: pair volume financed by external capital")
  let evidenceHash ← canonicalEvidenceHash lib.toCoreLib (lib.reciprocalJson input)
  return {
    predicateId := reciprocalPredicateId
    chainId := baseChainId
    periodStartBlock := input.periodStartBlock
    periodEndBlock := input.periodEndBlock
    sourceClaimId := input.sourceClaimId
    claimId := reciprocalClaimId lib.toCoreLib input.periodStartBlock input.periodEndBlock
      input.addressA input.addressB evidenceHash
    subjects := [⟨input.addressA, measure.sellsA, measure.settlementsA⟩,
      ⟨input.addressB, measure.sellsB, measure.settlementsB⟩]
    blockRefs := blockRefs }

end LoopProof
