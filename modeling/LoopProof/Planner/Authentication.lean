import LoopProof.Planner.Plan
import LoopProof.Predicate.Evidence

/-!
# Authentication of dependencies

The dependencies of a draft claim name their transactions; the planner looks them up over RPC,
finds the log each one stands for and takes its position from the receipt. What cannot be
resolved is rejected with a reason, and only an endpoint that cannot be reached stops the claim.
-/

namespace LoopProof.Planner

/-! ## Answers of an endpoint -/

/-- A log as the node answers it. -/
structure Log where
  address : Address
  topics : List B256
  data : Bytes
  logIndex : ℕ
  deriving DecidableEq, Repr

/-- A receipt as the node answers it. -/
structure Receipt where
  status : Option ℕ
  blockNumber : ℕ
  blockHash : B256
  transactionIndex : ℕ
  logs : List Log
  deriving DecidableEq, Repr

/-- A block as the node answers it. -/
structure Block where
  number : ℕ
  hash : B256
  timestamp : ℕ
  deriving DecidableEq, Repr

/-- A transaction as the node answers it. -/
structure Transaction where
  type : Option ℕ
  sender : Option Address
  recipient : Option Address
  value : ℕ
  deriving DecidableEq, Repr

/-- Why a dependency was not resolved: the endpoint was not reached, or the evidence is not what
the dependency says. -/
inductive ResolveError where
  | transport (message : String)
  | rejected (reason : String)
  deriving DecidableEq, Repr

/-- What an endpoint answers; the same question has one answer. -/
structure Rpc where
  getTransactionReceipt : B256 → Except ResolveError (Option Receipt)
  getBlockByNumber : ℕ → Except ResolveError (Option Block)
  getTransactionByHash : B256 → Except ResolveError (Option Transaction)
  /-- The account of a buyer in the deposit contract, at the end of a block. -/
  callBuyers : Address → Address → ℕ → Except ResolveError Bytes

/-- The contracts whose logs are read. -/
structure Contracts where
  usdc : Address
  deposits : Address
  channels : Address
  deriving DecidableEq, Repr

/-! ## Draft dependencies -/

/-- One log of a draft, by its transaction and what it must say. -/
structure Locator where
  evidenceType : EvidenceType
  transactionHash : Option B256
  logIndex : Option ℕ
  timestamp : Timestamp
  seller : Option Address
  buyer : Option Address
  funder : Option Address
  sender : Option Address
  recipient : Option Address
  amountRaw : ℕ
  amountWei : Option ℕ
  depositLogIndex : Option ℕ
  deriving DecidableEq, Repr

/-- A return through relays, by its hops or by its named transfers. -/
structure DraftPath where
  dependencyId : B256
  seller : Option Address
  funder : Option Address
  hops : Option (List Locator)
  sellerPayment : Option Locator
  relayForward : Option Locator
  funderReceipt : Option Locator
  deriving DecidableEq, Repr

/-- A dependency that is not authenticated yet. -/
inductive DraftDependency where
  | locator (dependencyId : B256) (record : Locator)
  | relayPath (path : DraftPath)
  deriving DecidableEq, Repr

/-! ## Logs -/

/-- A number that the script represents exactly. -/
def hexNumber (value : ℕ) : Except ResolveError ℕ := do
  ensure (value ≤ maxSafeInteger)
    (.rejected s!"unsafe numeric RPC value 0x{String.ofList (Nat.toDigits 16 value)}")
  return value

/-- The address in the low bytes of a topic. -/
def topicAddress (topic : Option B256) : Option Address :=
  topic.map fun word => Fin.ofNat _ word.val

/-- One argument word of log data; the last one may be cut short, but not empty. -/
def dataWord (data : Bytes) (index : ℕ) : Except ResolveError ℕ :=
  let word := (data.drop (32 * index)).take 32
  if word = [] then .error (.rejected "Cannot convert 0x to a BigInt") else .ok (beNat word)

/-- The types that are settlements. -/
def EvidenceType.isSettlement (type : EvidenceType) : Bool :=
  type ∈ [settlement, reciprocalSettlement, totalSettlement]

/-- The types that are transfers. -/
def EvidenceType.isTransfer (type : EvidenceType) : Bool :=
  type ∈ [usdcFunding, directSellerFunder, directSellerBuyer, relaySellerPayment, relayForward,
    relayFunderReceipt]

/-- The amount in one word of the log is the amount of the dependency. -/
def amountMatches (log : Log) (index amountRaw : ℕ) : Except ResolveError Bool := do
  let amount ← dataWord log.data index
  return amount = amountRaw

/-- A party that the dependency names is the one of the log. -/
def partyMatches (named party : Option Address) : Bool := named.all (party = some ·)

/-- A funding goes from its funder to its buyer or to the deposit contract. -/
def fundingMatches (dependency : Locator) (contracts : Contracts)
    (sender recipient : Option Address) : Bool :=
  match dependency.funder, dependency.buyer with
  | some funder, some buyer => sender = some funder ∧
      (recipient = some buyer ∨ recipient = some contracts.deposits)
  | _, _ => true

/-- A log is what a locator says. -/
def logMatches (log : Log) (dependency : Locator) (contracts : Contracts) :
    Except ResolveError Bool :=
  if dependency.evidenceType.isSettlement then
    if log.address = contracts.channels ∧ log.topics[0]? = some channelSettledTopic ∧
        topicAddress log.topics[2]? = dependency.buyer ∧
        topicAddress log.topics[3]? = dependency.seller then
      amountMatches log 1 dependency.amountRaw
    else .ok false
  else if dependency.evidenceType.isTransfer then
    let sender := topicAddress log.topics[1]?
    let recipient := topicAddress log.topics[2]?
    if log.address = contracts.usdc ∧ log.topics[0]? = some transferTopic ∧
        partyMatches dependency.sender sender = true ∧
        partyMatches dependency.recipient recipient = true ∧
        fundingMatches dependency contracts sender recipient = true then
      amountMatches log 0 dependency.amountRaw
    else .ok false
  else .ok false

/-- The first log with the given index. -/
def findLog (logIndex : ℕ) : List Log → Except ResolveError (Option Log)
  | [] => .ok none
  | log :: logs => do
    let number ← hexNumber log.logIndex
    if number = logIndex then return some log else findLog logIndex logs

/-- The logs that satisfy a test; a test that fails stops the search. -/
def filterLogs (test : Log → Except ResolveError Bool) (logs : List Log) :
    Except ResolveError (List Log) :=
  logs.filterMapM fun log => do
    let matched ← test log
    return if matched then some log else none

/-- The only log that matches. -/
def uniqueLog (label : String) (logs : List Log) (dependency : Locator) (contracts : Contracts) :
    Except ResolveError Log := do
  let found ← filterLogs (fun log => logMatches log dependency contracts) logs
  match found with
  | [log] => return log
  | others => .error (.rejected
      s!"{label}: expected one matching log, found {others.length}")

/-- The log at the position of a locator, or the only one that matches it. -/
def locateLog (label : String) (logs : List Log) (dependency : Locator) (contracts : Contracts) :
    Except ResolveError Log :=
  match dependency.logIndex with
  | none => uniqueLog label logs dependency contracts
  | some logIndex => do
    match ← findLog logIndex logs with
    | some log => return log
    | none => uniqueLog label logs dependency contracts

/-- The log must match. -/
def validateLog (label : String) (log : Log) (dependency : Locator) (contracts : Contracts) :
    Except ResolveError Unit := do
  let matched ← logMatches log dependency contracts
  ensure (matched = true) (.rejected s!"{label}: authenticated log mismatch")

/-- The log of a deposit for the buyer of a funding. -/
def depositMatches (dependency : Locator) (contracts : Contracts) (log : Log) :
    Except ResolveError Bool :=
  if log.address = contracts.deposits ∧ log.topics[0]? = some depositedTopic ∧
      topicAddress log.topics[1]? = dependency.buyer then
    amountMatches log 0 dependency.amountRaw
  else .ok false

/-! ## Resolution

Errors call a record by its dependency id; the hops of a path have none.
-/

section Resolution

variable (rpc : Rpc) (period : Period) (contracts : Contracts) (label : String)

/-- The receipt of a successful transaction. -/
def successfulReceipt (dependency : Locator) : Except ResolveError (B256 × Receipt) := do
  let transactionHash ← okOr dependency.transactionHash
    (.rejected s!"{label}: missing transaction hash")
  let answer ← rpc.getTransactionReceipt transactionHash
  let receipt ← okOr answer (.rejected s!"{label}: receipt not found")
  ensure (receipt.status = some 1) (.rejected s!"{label}: receipt reverted")
  return (transactionHash, receipt)

/-- The time of the block, for a dependency that has one. -/
def authenticatedTimestamp (dependency : Locator) (receipt : Receipt) (blockNumber : ℕ) :
    Except ResolveError Timestamp :=
  match dependency.timestamp with
  | .seconds _ => do
    let answer ← rpc.getBlockByNumber receipt.blockNumber
    let block ← okOr answer
      (.rejected s!"{label}: receipt block identity mismatch")
    let number ← hexNumber block.number
    ensure (number = blockNumber ∧ block.hash = receipt.blockHash)
      (.rejected s!"{label}: receipt block identity mismatch")
    let time ← hexNumber block.timestamp
    return .seconds time
  | other => .ok other

/-- A native transfer by its transaction; it has no log. -/
def resolveNative (dependency : Locator) (transactionHash : B256) : Except ResolveError Unit := do
  let answer ← rpc.getTransactionByHash transactionHash
  let transaction ← okOr answer (.rejected s!"{label}: transaction not found")
  let type ← hexNumber (transaction.type.getD 0)
  ensure (type ∈ [0, 1, 2])
    (.rejected s!"{label}: unsupported transaction type {type}")
  ensure (transaction.sender = dependency.funder ∧ transaction.recipient = dependency.buyer ∧
      0 < transaction.value ∧ dependency.amountWei = some transaction.value)
    (.rejected s!"{label}: native funding parties/value mismatch")

/-- A funding is positive, and where it names the log of a deposit, its funder signed it. -/
def checkFunding (dependency : Locator) (transactionHash : B256) : Except ResolveError Unit :=
  if dependency.evidenceType = .usdcFunding then do
    ensure (0 < dependency.amountRaw)
      (.rejected s!"{label}: USDC funding must be positive")
    if dependency.depositLogIndex.isSome then
      let answer ← rpc.getTransactionByHash transactionHash
      ensure (answer.any (fun transaction => transaction.sender = dependency.funder) = true)
        (.rejected s!"{label}: funding transaction signer mismatch")
    else return ()
  else .ok ()

/-- The log of the deposit that a funding makes when it pays the deposit contract. -/
def resolveDeposit (dependency : Locator) (receipt : Receipt) (log : Log) (logIndex : ℕ) :
    Except ResolveError (Option ℕ) :=
  if dependency.evidenceType = .usdcFunding ∧
      topicAddress log.topics[2]? = some contracts.deposits then do
    let deposited ← filterLogs (depositMatches dependency contracts) receipt.logs
    match deposited with
    | [deposit] =>
      let depositLogIndex ← hexNumber deposit.logIndex
      ensure (logIndex < depositLogIndex)
        (.rejected s!"{label}: Deposited log must follow the funding transfer")
      return some depositLogIndex
    | others => .error (.rejected
        s!"{label}: expected one matching Deposited log, found {others.length}")
  else .ok dependency.depositLogIndex

/-- The record with the position of its transaction, the given log, and the given time. -/
def Locator.resolvedAt (dependency : Locator) (transactionHash : B256)
    (blockNumber transactionIndex logIndex : ℕ) (timestamp : Timestamp)
    (depositLogIndex : Option ℕ) : Atom :=
  { evidenceType := dependency.evidenceType
    transactionHash, blockNumber, transactionIndex, logIndex, timestamp
    seller := dependency.seller
    buyer := dependency.buyer
    funder := dependency.funder
    sender := dependency.sender
    recipient := dependency.recipient
    amountRaw := dependency.amountRaw
    depositLogIndex }

/-- One record at its position on the chain. -/
def resolveRecord (dependency : Locator) : Except ResolveError Atom := do
  let (transactionHash, receipt) ← successfulReceipt rpc label dependency
  let blockNumber ← hexNumber receipt.blockNumber
  ensure (dependency.evidenceType.isSettlement = true →
      inPeriod (some period) blockNumber = true)
    (.rejected s!"{label}: block {blockNumber} outside approved period")
  let _ ← (authenticationGroup blockNumber).mapError .rejected
  let transactionIndex ← hexNumber receipt.transactionIndex
  let timestamp ← authenticatedTimestamp rpc label dependency receipt blockNumber
  if dependency.evidenceType = .nativeFunding then
    resolveNative rpc label dependency transactionHash
    return dependency.resolvedAt transactionHash blockNumber transactionIndex 0 timestamp
      dependency.depositLogIndex
  else
    let log ← locateLog label receipt.logs dependency contracts
    validateLog label log dependency contracts
    let logIndex ← hexNumber log.logIndex
    checkFunding rpc label dependency transactionHash
    let depositLogIndex ← resolveDeposit contracts label dependency receipt log logIndex
    return dependency.resolvedAt transactionHash blockNumber transactionIndex logIndex timestamp
      depositLogIndex

/-- The hops of a path, or its named transfers: the first two are required. -/
def DraftPath.records (path : DraftPath) : Except ResolveError (List Locator) :=
  let missing := ResolveError.rejected
    "Cannot read properties of undefined (reading 'evidenceType')"
  match path.hops with
  | some hops => .ok hops
  | none => do
    let sellerPayment ← okOr path.sellerPayment missing
    let relayForward ← okOr path.relayForward missing
    return [sellerPayment, relayForward] ++ path.funderReceipt.toList

/-- A dependency with what the node answers for its records. -/
def resolveDependency : DraftDependency → Except ResolveError Dependency
  | .locator dependencyId record => do
    let atom ← resolveRecord rpc period contracts s!"{dependencyId}" record
    return .entry { toAtom := atom, dependencyId }
  | .relayPath path => do
    let records ← path.records
    let hops ← records.mapM (resolveRecord rpc period contracts "undefined")
    return .relayPath ⟨path.dependencyId, path.seller, path.funder, hops⟩

end Resolution

/-! ## Claims -/

section Claims

variable (rpc : Rpc) (period : Period) (contracts : Contracts)

/-- A dependency that was not resolved. -/
structure Rejection where
  dependencyId : B256
  /-- None for a relay path. -/
  evidenceType : Option EvidenceType
  reason : String
  deriving DecidableEq, Repr

/-- A dependency that is left out, with the reason. -/
def DraftDependency.reject (reason : String) : DraftDependency → Rejection
  | .locator dependencyId record => ⟨dependencyId, some record.evidenceType, reason⟩
  | .relayPath path => ⟨path.dependencyId, none, reason⟩

/-- The dependencies of a claim after they were looked up, and the balances of its buyers. -/
structure Authenticated where
  resolved : List Dependency
  rejected : List Rejection
  ledgerBalances : Option (Address → Option ℕ)

/-- A dependency that is resolved or rejected; an endpoint that was not reached is an error. -/
def authenticateDependency (dependency : DraftDependency) :
    Except String (Dependency ⊕ Rejection) :=
  match resolveDependency rpc period contracts dependency with
  | .ok resolved => .ok (.inl resolved)
  | .error (.rejected reason) => .ok (.inr (dependency.reject reason))
  | .error (.transport message) => .error message

/-- The text of an error. -/
def ResolveError.message : ResolveError → String
  | transport message => message
  | rejected reason => reason

/-- The balance of one buyer at the end of the period. -/
def ledgerBalance (claimId : B256) (buyer : Address) : Except String ℕ := do
  let result ← (rpc.callBuyers contracts.deposits buyer (period.endBlockExclusive - 1)).mapError
    ResolveError.message
  ensure (32 ≤ result.length)
    s!"{claimId}: invalid period-end ledger response for {buyer}"
  return beNat (result.take 32)

/-- The balances of all buyers of a claim at the end of the period. -/
def loadClaimLedgerBalances {δ : Type} (claim : Claim δ) :
    Except String (Address → Option ℕ) := do
  let balances ← claim.approvedBuyers.mapM (ledgerBalance rpc period contracts claim.claimId)
  return fun buyer => (claim.approvedBuyers.zip balances).lookup buyer

/-- The dependencies of a claim that the node confirms, those that it does not, and the balances of
a closed-loop claim. -/
def authenticateClaim (claim : Claim DraftDependency) : Except String Authenticated := do
  let entries ← claim.dependencies.mapM (authenticateDependency rpc period contracts)
  let ledgerBalances ←
    if claim.type = .closedLoop then
      (loadClaimLedgerBalances rpc period contracts claim).map some
    else .ok none
  return ⟨entries.filterMap Sum.getLeft?, entries.filterMap Sum.getRight?, ledgerBalances⟩

end Claims

end LoopProof.Planner
