import LoopProof.Case.Build
import LoopProof.Host.Materialize

/-!
# Fetching a case

The host looks for the logs that a case names by their transactions, hands over the settlements of
every buyer from its earliest funding on, and assembles the input of the closed-loop predicate.
-/

namespace LoopProof.Host

open Case (CaseFile FileFunding)

/-- The first block of the period. -/
def periodStartBlock : U64 := 44471575

/-- The last block of the period. -/
def periodEndBlock : U64 := 49936172

/-- The receipt of a transaction as a node returns it. -/
structure TransactionReceipt where
  blockNumber : U64
  transactionIndex : U64
  logs : List ParsedLog
  deriving DecidableEq, Repr

/-- The calls by which the host finds logs. -/
structure LogNode (β : Type) extends Node β where
  getTransactionReceipt : B256 → Outcome (Option TransactionReceipt)
  getLogs : LogFilter → ℕ → ℕ → Outcome (List MinedLog)

/-- The place of a log: its block, its transaction, and its index within the receipt. -/
structure LogLoc where
  block : U64
  transaction : U64
  log : Usize
  deriving DecidableEq, Repr

/-! ## The case -/

/-- A funding of a case, by its transaction. -/
inductive CaseFunding where
  /-- A direct transfer from the funder to the buyer. -/
  | usdc (buyer : Address) (tx : B256)
  /-- A deposit for the buyer. -/
  | deposit (buyer : Address) (tx : B256)
  deriving DecidableEq, Repr

/-- A case as the host reads it. -/
structure CaseInput where
  seller : Address
  funder : Address
  buyers : List Address
  fundings : List CaseFunding
  returns : List (List B256)
  maxSettlementsPerBuyer : Usize
  deriving DecidableEq, Repr

/-- The settlements taken for each buyer where a case does not say. -/
def defaultMaxSettlements : ℕ := 64

/-- A funding by the name of its kind. -/
def readFunding (funding : FileFunding) : Outcome CaseFunding :=
  if funding.kind = "usdc" then .ok (.usdc funding.buyer funding.tx)
  else if funding.kind = "deposit" then .ok (.deposit funding.buyer funding.tx)
  else .error (.err s!"unknown variant `{funding.kind}`")

/-- A case from its file. -/
def readCase (file : CaseFile) : Outcome CaseInput := do
  let fundings ← file.fundings.mapM readFunding
  let max := file.maxSettlementsPerBuyer.getD defaultMaxSettlements
  ensure (max < 2 ^ 64) (.err "invalid value")
  return ⟨file.seller, file.funder, file.buyers, fundings, file.returns.getD [], Fin.ofNat _ max⟩

/-! ## Finding logs -/

/-- The log is one of the contract with these topics; a missing topic matches any. -/
def matchesLog (address : Address) (topic0 : B256) (topic1 topic2 : Option B256)
    (log : ParsedLog) : Bool :=
  log.address = address ∧ log.topics[0]? = some topic0 ∧
    (topic1 = none ∨ log.topics[1]? = topic1) ∧ (topic2 = none ∨ log.topics[2]? = topic2)

section Find

variable (lib : HostLib) (node : LogNode lib.Body)

/-- The first log of a transaction that matches. -/
def findLogInTx (tx : B256) (address : Address) (topic0 : B256) (topic1 topic2 : Option B256) :
    Outcome LogLoc := do
  let found ← node.getTransactionReceipt tx
  let receipt ← okOr found (.err s!"receipt not found for {lib.showB256 tx}")
  let position ← okOr (receipt.logs.findIdx? (matchesLog address topic0 topic1 topic2))
    (.err s!"no matching log in {lib.showB256 tx}")
  return ⟨receipt.blockNumber, receipt.transactionIndex, Fin.ofNat _ position⟩

/-- Where a funding of the case was found; a deposit comes with its own log. -/
structure FundingLoc where
  buyer : Address
  transfer : LogLoc
  deposited : Option LogLoc
  deriving DecidableEq, Repr

/-- The logs of a funding in its transaction. -/
def locateFunding (funder : Address) : CaseFunding → Outcome FundingLoc
  | .usdc buyer tx => do
    let transfer ← findLogInTx lib node tx usdcAddress transferTopic (some (addrTopic funder))
      (some (addrTopic buyer))
    return ⟨buyer, transfer, none⟩
  | .deposit buyer tx => do
    let transfer ← findLogInTx lib node tx usdcAddress transferTopic (some (addrTopic funder))
      (some (addrTopic depositsAddress))
    let deposited ← findLogInTx lib node tx depositsAddress depositedTopic
      (some (addrTopic buyer)) none
    return ⟨buyer, transfer, some deposited⟩

/-- A settlement before its place in the receipt is known. -/
structure RawSettlement where
  block : U64
  transaction : U64
  blockLogIndex : U64
  deriving DecidableEq, Repr

/-- Read on from a block, a hundred thousand blocks at a time, up to the limit. -/
def scanSettlements (filter : LogFilter) (toBlock limit : ℕ) :
    ℕ → ℕ → List RawSettlement → Outcome (List RawSettlement)
  | 0, _, _ => .error .outOfFuel
  | fuel + 1, b, out =>
    if b ≤ toBlock ∧ out.length < limit then do
      let finish := min (b + 99999) toBlock
      let logs ← node.getLogs filter b finish
      let read := (logs.take (limit - out.length)).map fun found =>
        ⟨found.blockNumber, found.transactionIndex, found.logIndex⟩
      scanSettlements filter toBlock limit fuel (finish + 1) (out ++ read)
    else .ok out

/-- The settlements of a buyer with a seller between two blocks, up to a limit. -/
def findSettlementLogs (channels buyer seller : Address) (fromBlock toBlock limit : ℕ) :
    Outcome (List RawSettlement) :=
  scanSettlements lib node
    ⟨channels, [some channelSettledTopic, none, some (addrTopic buyer), some (addrTopic seller)]⟩
    toBlock limit (toBlock + 2 - fromBlock) fromBlock []

/-- Follow a path of transactions: in each, the first transfer of whoever received the last. -/
def locateHops : Address → List B256 → Outcome (List LogLoc)
  | _, [] => .ok []
  | sender, tx :: rest => do
    let loc ← findLogInTx lib node tx usdcAddress transferTopic (some (addrTopic sender)) none
    let found ← node.getTransactionReceipt tx
    let receipt ← okOr found (.err "logs")
    let log ← okOr receipt.logs[loc.log.val]? (.err "topics")
    let word ← okOr log.topics[2]? (.err "hop to")
    let hops ← locateHops (topicAddress word) rest
    return loc :: hops

end Find

/-- The earliest block in which a buyer was funded. -/
def earliestFundingBlock (locs : List FundingLoc) (buyer : Address) : Option U64 :=
  ((locs.filter fun loc => loc.buyer = buyer).map fun loc => loc.transfer.block).min?

/-! ## Requests -/

/-- A target behind the others, unless it is one of them. -/
def pushNew (targets : List U64) (target : U64) : List U64 :=
  if target ∈ targets then targets else targets ++ [target]

/-- Request a receipt. -/
def Targets.receipt (targets : Targets) (block transaction : U64) : Targets :=
  let requested := targets.getD block ⟨[], []⟩
  targets.insert block ⟨pushNew requested.receipts transaction, requested.transactions⟩

/-- Request a transaction with its receipt. -/
def Targets.transaction (targets : Targets) (block transaction : U64) : Targets :=
  let targets := targets.receipt block transaction
  let requested := targets.getD block ⟨[], []⟩
  targets.insert block ⟨requested.receipts, pushNew requested.transactions transaction⟩

/-- Everything a case needs: its fundings with their transactions, then the receipts of its
settlements and hops. -/
def caseTargets (fundings : List FundingLoc) (settlements : List RawSettlement)
    (hops : List (List LogLoc)) : Targets :=
  let funded := fundings.foldl
    (fun targets loc => targets.transaction loc.transfer.block loc.transfer.transaction)
    (∅ : Targets)
  let settled := settlements.foldl
    (fun targets raw => targets.receipt raw.block raw.transaction) funded
  hops.flatten.foldl (fun targets loc => targets.receipt loc.block loc.transaction) settled

/-! ## Assembly -/

section Assemble

variable (materialized : MaterializedEvidence)

/-- The place of a settlement within its receipt. -/
def settlementLoc (raw : RawSettlement) : Outcome LogLoc := do
  let position ← okOr (materialized.logPositions (raw.block, raw.blockLogIndex))
    (.err (s!"settlement log resolution failed: block {raw.block} " ++
      s!"logIndex {raw.blockLogIndex}"))
  return ⟨raw.block, raw.transaction, position⟩

/-- The position of a log among the blocks. -/
def toRef (loc : LogLoc) : Outcome LogRef := do
  let block ← okOr (materialized.blockPositions loc.block) (.panic "block_index[&loc.0]")
  let receipt ← okOr (materialized.receiptPositions (loc.block, loc.transaction))
    (.panic "receipt_pos[&(loc.0, loc.1)]")
  return ⟨block, receipt, loc.log⟩

/-- The evidence of a funding. -/
def fundingOf (loc : FundingLoc) : Outcome FundingEvidence := do
  let transfer ← toRef materialized loc.transfer
  match loc.deposited with
  | none => return ⟨loc.buyer, .usdc transfer⟩
  | some deposited => do
    let deposited ← toRef materialized deposited
    return ⟨loc.buyer, .protocolDeposit transfer deposited⟩

end Assemble

section Fetch

variable (lib : HostLib) (node : LogNode lib.Body)
  (digest : U64 → List U64 → List U64 → B256) (cache : List CacheFile)

/-- The settlements of one buyer, from its earliest funding on. -/
def buyerSettlements (case : CaseInput) (fundings : List FundingLoc) (buyer : Address) :
    Outcome (List RawSettlement) :=
  findSettlementLogs lib node channelsAddress buyer case.seller
    ((earliestFundingBlock fundings buyer).getD periodStartBlock).val periodEndBlock.val
    case.maxSettlementsPerBuyer.val

/-- The witness of one buyer's balance at the end of the period. -/
def endLedger (endHeader : Header) (endIndex : Usize) (buyer : Address) : Outcome BuyerLedger := do
  let (proof, _) ← storageWitness lib node.toNode endHeader depositsAddress
    (balanceSlot lib.toLib buyer)
  return ⟨⟨endIndex, proof⟩⟩

/-- The input that the host hands to the predicate. -/
def fetchInput (caseBytes : Bytes) (file : CaseFile) : Outcome ClosedLoopInput := do
  let case ← readCase file
  let fundingLocs ← case.fundings.mapM (locateFunding lib node case.funder)
  let settlementRaw ← case.buyers.mapM (buyerSettlements lib node case fundingLocs)
  let settlementRaw := settlementRaw.flatten
  let returnLocs ← case.returns.mapM (locateHops lib node case.seller)
  let blockTargets := (caseTargets fundingLocs settlementRaw returnLocs).toList.map
    fun (number, requested) => (number, requested.receipts, requested.transactions)
  let evidence ← blockEvidenceMany lib node.toNode digest cache blockTargets
  let materialized := MaterializedEvidence.of ((blockTargets.map Prod.fst).zip evidence)
  let settlementLocs ← settlementRaw.mapM (settlementLoc materialized)
  let endHeader ← header lib node.toNode periodEndBlock
  let ledgers ← case.buyers.mapM
    (endLedger lib node endHeader (Fin.ofNat _ materialized.blocks.length))
  let settlements ← settlementLocs.mapM (toRef materialized)
  let fundings ← fundingLocs.mapM (fundingOf materialized)
  let returns ← returnLocs.mapM fun hops => do
    let transfers ← hops.mapM (toRef materialized)
    return (⟨transfers⟩ : ReturnPath)
  return {
    chainId := baseChainId
    periodStartBlock := periodStartBlock
    periodEndBlock := periodEndBlock
    sourceClaimId := lib.keccak256 caseBytes
    seller := case.seller
    funder := case.funder
    buyers := case.buyers
    blocks := materialized.blocks ++ [⟨endHeader, [], []⟩]
    fundings := fundings
    settlements := settlements
    returns := returns
    ledgers := ledgers }

/-- The fixture that is written, unless the verdict is not the expected one. -/
def fetch (caseBytes : Bytes) (file : CaseFile) (expectReject : Bool) :
    Outcome ClosedLoopInput := do
  let input ← fetchInput lib node digest cache caseBytes file
  match verifyClosedLoop lib.toLib input with
  | .ok _ => do
    ensure (expectReject = false)
      (.err "predicate unexpectedly SATISFIED — this evidence proves a loop")
    return input
  | .error failure =>
    match failure with
    | .err _ =>
      if expectReject then return input
      else .error (failure.mapErr fun e => s!"predicate: {e}")
    | _ => .error failure

end Fetch

end LoopProof.Host
