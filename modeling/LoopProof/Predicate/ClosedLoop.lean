import LoopProof.Predicate.Shared
import Std.Data.ExtTreeMap

/-!
# The closed-loop predicate

The four stages of the closed-loop verifier over one shared set of consumed logs:
funding, settlement, ledger reconciliation and return paths.
-/

namespace LoopProof

/-- An ordered map keyed by address. -/
abbrev AddressMap (ν : Type) := Std.ExtTreeMap Address ν compare

/-- Funding totals of the cohort. -/
structure FundingSummary where
  usdcPerBuyer : AddressMap U128
  totalUsdc : U128
  /-- Earliest funding time of each buyer. -/
  earliestTime : AddressMap U64

/-- Nothing was funded. -/
def FundingSummary.empty : FundingSummary := ⟨∅, 0, ∅⟩

/-- Whether the evidence is the legacy native shape. -/
def FundingKind.isNative : FundingKind → Bool
  | .native .. => true
  | _ => false

section Fundings

variable (lib : Lib) (input : ClosedLoopInput) (resolver : ChainResolver)

/-- Validate one funding event and consume its logs; returns amount and time. -/
def checkFunding (used : UsedLogs) (evidence : FundingEvidence) :
    Outcome (U128 × U64 × UsedLogs) :=
  match evidence.kind with
  | .usdc transfer => do
    let key ← resolver.logKey lib transfer
    let used ← used.insertNew key "funding: duplicate evidence"
    let (sender, recipient, amount, block) ← resolver.usdcTransfer lib transfer
    ensureEventInPeriod block input.periodStartBlock input.periodEndBlock "funding transfer"
    ensure (sender = input.funder ∧ recipient = evidence.buyer ∧ amount ≠ 0)
      (.err "funding: invalid direct USDC funding")
    let time ← resolver.timestamp transfer
    return (amount, time, used)
  | .protocolDeposit transfer deposited => do
    ensure (transfer.block = deposited.block ∧ transfer.receipt = deposited.receipt)
      (.err "funding: deposit logs must share one receipt")
    let transferKey ← resolver.logKey lib transfer
    let depositedKey ← resolver.logKey lib deposited
    ensure (transferKey < depositedKey) (.err "funding: transfer must precede its Deposited log")
    let used ← used.insertNew transferKey "funding: duplicate evidence"
    let used ← used.insertNew depositedKey "funding: duplicate evidence"
    let (sender, recipient, transferred, block) ← resolver.usdcTransfer lib transfer
    ensureEventInPeriod block input.periodStartBlock input.periodEndBlock "funding deposit"
    let (depositBuyer, depositedAmount, _) ← resolver.protocolDeposit lib deposited
    ensure (sender = input.funder ∧ recipient = depositsAddress ∧ depositBuyer = evidence.buyer ∧
        transferred = depositedAmount ∧ depositedAmount ≠ 0)
      (.err "funding: invalid protocol-deposit funding")
    resolver.requireSigner lib input.funder transfer
    let time ← resolver.timestamp transfer
    return (depositedAmount, time, used)
  | .native .. => .error (.err "funding: native funding is not supported")

/-- Credit one funding amount to its buyer and to the total. -/
def FundingSummary.credit (summary : FundingSummary) (buyer : Address) (amount : U128) :
    Outcome FundingSummary :=
  if 0 < amount then do
    let per ← okOr (checkedAdd (summary.usdcPerBuyer.getD buyer 0) amount)
      (.err "funding: overflow")
    let total ← okOr (checkedAdd summary.totalUsdc amount) (.err "funding: overflow")
    return { summary with
      usdcPerBuyer := summary.usdcPerBuyer.insert buyer per, totalUsdc := total }
  else .ok summary

/-- Keep the earlier of the recorded and the given funding time. -/
def FundingSummary.observe (summary : FundingSummary) (buyer : Address) (time : U64) :
    FundingSummary :=
  { summary with
    earliestTime := summary.earliestTime.insert buyer
      (match summary.earliestTime[buyer]? with
        | some t => min t time
        | none => time) }

/-- One pass of the funding loop. -/
def fundingStep (state : FundingSummary × UsedLogs) (evidence : FundingEvidence) :
    Outcome (FundingSummary × UsedLogs) := do
  let (summary, used) := state
  ensure (evidence.buyer ∈ input.buyers) (.err "funding: buyer outside the cohort")
  let (amount, time, used) ← checkFunding lib input resolver used evidence
  let summary ← summary.credit evidence.buyer amount
  return (summary.observe evidence.buyer time, used)

/-- Every funding is by the funder, and every buyer of the cohort has one. -/
def verifyFundings (used : UsedLogs) : Outcome (FundingSummary × UsedLogs) := do
  ensure (input.fundings.any (·.kind.isNative) = false)
    (.err "funding: native funding is not supported")
  let (summary, used) ← input.fundings.foldlM (fundingStep lib input resolver)
    (FundingSummary.empty, used)
  ensure (input.buyers.all (summary.earliestTime.contains ·) = true)
    (.err "funding: every buyer in the cohort must be funded")
  return (summary, used)

end Fundings

/-- Settled totals and the settlement records the journal carries. -/
structure SettleSummary where
  total : U128
  perBuyer : AddressMap U128
  earliestTime : U64
  settlements : List SettlementRecord

/-- The summary before any settlement: the earliest time starts at the maximum. -/
def SettleSummary.empty : SettleSummary := ⟨0, ∅, maxWord 64, []⟩

section Settlements

variable (lib : Lib) (input : ClosedLoopInput) (resolver : ChainResolver)

/-- One pass of the settlement loop. -/
def settlementStep (funding : FundingSummary) (state : SettleSummary × UsedLogs)
    (reference : LogRef) : Outcome (SettleSummary × UsedLogs) := do
  let (summary, used) := state
  let key ← resolver.logKey lib reference
  let used ← used.insertNew key "settlements: duplicate evidence"
  let (_, buyer, seller, amount, block) ← resolver.settlement lib reference
  ensureEventInPeriod block input.periodStartBlock input.periodEndBlock "settlement"
  ensure (seller = input.seller ∧ buyer ∈ input.buyers ∧ amount ≠ 0)
    (.err "settlements: subject or amount mismatch")
  let time ← resolver.timestamp reference
  let funded ← okOr funding.earliestTime[buyer]? (.panic "funding.earliest_time[&buyer]")
  ensure (funded < time) (.err "settlements: settlement is not after its buyer's funding")
  let total ← okOr (checkedAdd summary.total amount) (.err "settlements: overflow")
  let record : SettlementRecord :=
    ⟨settlementId lib.toCoreLib baseChainId key.blockNumber key.txIndex key.logIndex, amount⟩
  let per ← okOr (checkedAdd (summary.perBuyer.getD buyer 0) amount)
    (.err "settlements: overflow")
  return ({ total := total
            perBuyer := summary.perBuyer.insert buyer per
            earliestTime := min summary.earliestTime time
            settlements := summary.settlements ++ [record] }, used)

/-- Every settlement is of a funded buyer with the seller. -/
def verifySettlements (funding : FundingSummary) (used : UsedLogs) :
    Outcome (SettleSummary × UsedLogs) := do
  ensure (input.settlements ≠ []) (.err "settlements: none referenced")
  input.settlements.foldlM (settlementStep lib input resolver funding)
    (SettleSummary.empty, used)

/-- The storage slot of one buyer's protocol balance. -/
def balanceSlot (buyer : Address) : B256 :=
  slotOffset (mappingSlotAddress lib.toCoreLib buyer depositsBuyersSlot) buyerAccountBalanceOffset

/-- The proven period-end protocol balance of one buyer. -/
def endBalance (periodEndBlock : U64) (buyer : Address) (ledger : BuyerLedger) : Outcome U256 :=
  resolver.storageValue lib ledger.finish periodEndBlock depositsAddress (balanceSlot lib buyer)

/-- Reconcile one buyer: `(balance_end + settled) * 10_000 <= funded * 10_500`, with the
wrapping operators of the 256-bit type. -/
def verifyLedger (funding : FundingSummary) (settle : SettleSummary)
    (witness : Address × BuyerLedger) : Outcome Unit := do
  let (buyer, ledger) := witness
  let balanceEnd ← endBalance lib resolver input.periodEndBlock buyer ledger
  let settled := settle.perBuyer.getD buyer 0
  let funded := funding.usdcPerBuyer.getD buyer 0
  let lhs := (balanceEnd + widen bits128_le_256 settled) * 10000
  let rhs : U256 := widen bits128_le_256 funded * widen bits64_le_256 (10000 + epsilonLedgerBps)
  ensure (lhs ≤ rhs)
    (.err "ledger: buyer inflow exceeds funder-attributed capital beyond tolerance")

/-- Every buyer has a ledger that covers what it settled. -/
def verifyLedgers (funding : FundingSummary) (settle : SettleSummary) : Outcome Unit := do
  ensure (input.ledgers.length = input.buyers.length)
    (.err "ledger: exactly one witness per buyer required")
  (input.buyers.zip input.ledgers).forM (verifyLedger lib input resolver funding settle)

end Settlements

/-- The state of the walk along one return path. -/
structure PathState where
  used : UsedLogs
  expectedFrom : Address
  previousAmount : Option U128
  previousKey : Option LogKey
  firstTime : U64
  pathCredit : U128

section Returns

variable (lib : Lib) (input : ClosedLoopInput) (resolver : ChainResolver)

/-- The time check of a hop: the first one opens the window, the others must fall into it. -/
def pathFirstTime (earliestSettlement : U64) (position : ℕ) (firstTime time : U64) : Outcome U64 :=
  if position = 0 then do
    ensure (earliestSettlement < time)
      (.err "return: path begins before the settlements it closes")
    return time
  else do
    ensure (saturatingSub time firstTime ≤ tPathSeconds)
      (.err "return: path exceeds the end-to-end window")
    return firstTime

/-- One hop of a return path at the given position. -/
def hopStep (earliestSettlement : U64) (state : PathState) (hop : LogRef × ℕ) :
    Outcome PathState := do
  let (reference, position) := hop
  let key ← resolver.logKey lib reference
  let used ← state.used.insertNew key "return: duplicate evidence"
  let (sender, recipient, amount, block) ← resolver.usdcTransfer lib reference
  ensureEventInPeriod block input.periodStartBlock input.periodEndBlock "return transfer"
  let time ← resolver.timestamp reference
  ensure (sender = state.expectedFrom ∧ sender ≠ recipient ∧ amount ≠ 0)
    (.err "return: broken path")
  ensure (state.previousKey.all (· < key) = true) (.err "return: path is not time-ordered")
  ensure (state.previousAmount.all (meetsRatio amount · rhoHopBps) = true)
    (.err "return: hop retains more than the permitted share")
  let firstTime ← pathFirstTime earliestSettlement position state.firstTime time
  return ⟨used, recipient, some amount, some key, firstTime, min state.pathCredit amount⟩

/-- One return path: credit the smallest hop. -/
def pathStep (earliestSettlement : U64) (state : U128 × UsedLogs) (path : ReturnPath) :
    Outcome (U128 × UsedLogs) := do
  let (returned, used) := state
  ensure (path.transfers ≠ [] ∧ path.transfers.length ≤ hMaxIntermediateHops + 1)
    (.err "return: path length outside witness bounds")
  let walked ← path.transfers.zipIdx.foldlM (hopStep lib input resolver earliestSettlement)
    ⟨used, input.seller, none, none, 0, maxWord 128⟩
  ensure (walked.expectedFrom = input.funder)
    (.err "return: path does not terminate at the funder")
  let returned ← okOr (checkedAdd returned walked.pathCredit) (.err "return: overflow")
  return (returned, walked.used)

/-- The returns to the funder are a share of what was settled; a seller who funds itself has none.
-/
def verifyReturns (settle : SettleSummary) (used : UsedLogs) : Outcome Unit := do
  if input.seller = input.funder then
    ensure (input.returns = []) (.err "return: self-funded loop must not carry return paths")
  else
    ensure (input.returns.length ≤ maxReturnPaths) (.err "return: too many paths")
    let (returned, _) ← input.returns.foldlM (pathStep lib input resolver settle.earliestTime)
      (0, used)
    ensure (meetsRatio returned settle.total alphaReturnBps = true)
      (.err "return: value reaching the funder below the coverage fraction")

end Returns

/-- The closed-loop verifier. Membership stands for the binary search over `buyers`, which
runs after the list has been checked to be strictly increasing. -/
def verifyClosedLoop (lib : Lib) (input : ClosedLoopInput) : Outcome WashJournal := do
  validateChain input.chainId
  ensure (input.periodStartBlock ≠ 0 ∧ input.periodStartBlock ≤ input.periodEndBlock)
    (.err "closed loop: invalid period")
  ensure (input.seller ≠ 0 ∧ input.funder ≠ 0) (.err "closed loop: zero seller or funder")
  validateSortedUniqueAddresses input.buyers 1 maxBuyers "buyers"
  ensure (input.funder ∉ input.buyers) (.err "closed loop: funder cannot be its own buyer")
  let blockRefs ← authenticateBlocks lib.toCoreLib input.blocks input.periodStartBlock
    input.periodEndBlock
  let resolver : ChainResolver := ⟨input.blocks⟩
  let (funding, used) ← verifyFundings lib input resolver ∅
  let (settle, used) ← verifySettlements lib input resolver funding used
  ensure (meetsRatio funding.totalUsdc settle.total alphaFundBps = true)
    (.err "closed loop: funding below the coverage fraction")
  verifyLedgers lib input resolver funding settle
  verifyReturns lib input resolver settle used
  let evidenceHash ← canonicalEvidenceHash lib.toCoreLib (lib.closedLoopJson input)
  return {
    predicateId := closedLoopPredicateId
    chainId := baseChainId
    periodStartBlock := input.periodStartBlock
    periodEndBlock := input.periodEndBlock
    sourceClaimId := input.sourceClaimId
    claimId := closedLoopClaimId lib.toCoreLib input.periodStartBlock input.periodEndBlock
      input.seller input.funder (cohortHash lib.toCoreLib input.buyers) evidenceHash
    subjects := [⟨input.seller, settle.total, settle.settlements⟩]
    blockRefs := blockRefs }

end LoopProof
