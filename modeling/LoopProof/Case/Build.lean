import LoopProof.Case.Funding
import LoopProof.Case.Scan
import LoopProof.Predicate.Resolver

/-!
# Building a case

The case builder scans a seller's settlements, the capital that reached its buyers and their end
balances, and writes the fundings it chose into a case file. A funding is written with its
transaction only.
-/

namespace LoopProof.Case

/-- The first block of the period. -/
def periodStart : ℕ := 44471575

/-- The last block of the period. -/
def periodEnd : ℕ := 49936172

/-- The smallest span a scan falls back to. -/
def minChunk : ℕ := 10000

/-- The span a scan starts from. -/
def maxChunk : ℕ := 2000000

/-- What ends the builder early. -/
inductive Stop where
  /-- A message and an exit. -/
  | exited (message : String)
  | raised (error : ValueError)
  | indexError
  | rpc (error : RpcError)
  | outOfFuel
  deriving DecidableEq, Repr

/-- The calls the builder makes. -/
structure BuilderRpc where
  /-- The logs that a filter selects within a range of blocks. -/
  getLogs : LogFilter → ℕ → ℕ → Except RpcError (List MinedLog)
  /-- The `buyers` call of the deposits contract at the end of the period. -/
  callBuyers : Address → Except RpcError Bytes

/-- The logs a scan returned, or what stopped it. -/
def scanResult (scanned : Scanned) : Except Stop (List MinedLog) :=
  match scanned.outcome with
  | none => .error .outOfFuel
  | some result => result.mapError .rpc

/-- All logs between two blocks, scanned in chunks. -/
def getLogs (rpc : BuilderRpc) (filter : LogFilter) (fromBlock toBlock : ℕ) :
    Except Stop (List MinedLog) :=
  scanResult (scanRange (fun _ => rpc.getLogs) filter minChunk maxChunk toBlock fromBlock)

/-- A topic of a log. -/
def topicAt (log : ParsedLog) (index : ℕ) : Except Stop B256 :=
  okOr log.topics[index]? .indexError

/-- The word of the data at an index, as far as it is there. -/
def dataWord (data : Bytes) (index : ℕ) : Except Stop ℕ := do
  let word := (data.drop (32 * index)).take 32
  ensure (word ≠ []) (Stop.raised ⟨"invalid literal for int() with base 16: ''"⟩)
  return beNat word

/-- The entry of a log. -/
def entryOf (found : MinedLog) (amount : ℕ) : Entry :=
  ⟨found.transactionHash, amount, found.blockNumber.val⟩

/-- What was found for one buyer, in order. -/
def entriesOf (found : List (Address × Entry)) (buyer : Address) : List Entry :=
  (found.filter fun entry => entry.1 = buyer).map Prod.snd

/-- Capital that reached a buyer. -/
structure Inflow where
  sender : Address
  buyer : Address
  entry : Entry
  deriving DecidableEq, Repr

section Discovery

variable (rpc : BuilderRpc)

/-- The settlements of a seller with their buyers. -/
def findSettlements (seller : Address) : Except Stop (List (Address × Entry)) := do
  let logs ← getLogs rpc
    ⟨channelsAddress, [some channelSettledTopic, none, none, some (addrTopic seller)]⟩
    periodStart periodEnd
  logs.mapM fun found => do
    let buyer ← topicAt found.log 2
    let amount ← dataWord found.log.data 1
    return (topicAddress buyer, entryOf found amount)

/-- The inflows to one buyer, up to the block of its first settlement. -/
def inflowsTo (targetFunder : Option Address) (settlements : List (Address × Entry))
    (buyer : Address) : Except Stop (List Inflow) := do
  let firstSettled ← okOr ((entriesOf settlements buyer).map Entry.block).min?
    (.raised ⟨"min() iterable argument is empty"⟩)
  let searchStart := max periodStart (firstSettled - 2000000)
  let logs ← getLogs rpc
    ⟨usdcAddress, [some transferTopic, targetFunder.map addrTopic, some (addrTopic buyer)]⟩
    searchStart firstSettled
  logs.mapM fun found => do
    let sender ← topicAt found.log 1
    let amount ← dataWord found.log.data 0
    return ⟨topicAddress sender, buyer, entryOf found amount⟩

/-- How many buyers a sender reached. -/
def reachedBuyers (inflows : List Inflow) (sender : Address) : ℕ :=
  (sortedSet ((inflows.filter (·.sender = sender)).map Inflow.buyer)).length

/-- The sender that reached the most buyers, the first of several, and its inflows. -/
def findFunder (targetFunder : Option Address) (settlements : List (Address × Entry)) :
    Except Stop (Address × List (Address × Entry)) := do
  let inflows ← (sortedSet (settlements.map Prod.fst)).mapM
    (inflowsTo rpc targetFunder settlements)
  let inflows := inflows.flatten
  let ranked := sortBy (fun left right =>
      compare (reachedBuyers inflows right) (reachedBuyers inflows left))
    (inflows.map Inflow.sender).eraseDups
  let topFunder ← okOr ranked.head? (.exited "ERROR: No funding sources found")
  return (topFunder, (inflows.filter (·.sender = topFunder)).map fun inflow =>
    (inflow.buyer, inflow.entry))

/-- The deposits of transactions in which the seller paid the deposits contract. -/
def findSelfFundings (seller : Address) : Except Stop (List (Address × Entry)) := do
  let transfers ← getLogs rpc
    ⟨usdcAddress, [some transferTopic, some (addrTopic seller), some (addrTopic depositsAddress)]⟩
    periodStart periodEnd
  let paidTxs := transfers.map MinedLog.transactionHash
  let _ ← transfers.mapM fun found => dataWord found.log.data 0
  if paidTxs = [] then return []
  else
    let deposits ← getLogs rpc ⟨depositsAddress, [some depositedTopic]⟩ periodStart periodEnd
    (deposits.filter (·.transactionHash ∈ paidTxs)).mapM fun found => do
      let buyer ← topicAt found.log 1
      let amount ← dataWord found.log.data 0
      return (topicAddress buyer, entryOf found amount)

/-- The balance of a buyer at the end of the period. -/
def findBuyerEndBalance (buyer : Address) : Except Stop (Address × ℕ) := do
  let data ← (rpc.callBuyers buyer).mapError .rpc
  ensure (32 ≤ data.length) (Stop.raised
    ⟨s!"buyers({addressText buyer}) returned malformed data at block {periodEnd}"⟩)
  return (buyer, beNat (data.take 32))

end Discovery

/-- Buyers that were both funded and settled, without the funder itself. -/
def cohort (buyerFundings buyerSettlements : List (Address × Entry)) (funder : Address) :
    List Address :=
  sortedSet (((buyerFundings.map Prod.fst).filter (· ∈ buyerSettlements.map Prod.fst)).filter
    (· ≠ funder))

/-- A funding as a case file names it. -/
structure FileFunding where
  kind : String
  buyer : Address
  tx : B256
  deriving DecidableEq, Repr

/-- The content of a case file; the last two may be missing. -/
structure CaseFile where
  seller : Address
  funder : Address
  buyers : List Address
  fundings : List FileFunding
  returns : Option (List (List B256))
  maxSettlementsPerBuyer : Option ℕ
  deriving DecidableEq, Repr

/-- A case file with the fundings it names and the settlements they were sized for. -/
structure Built where
  file : CaseFile
  caseFundings : List CaseFunding
  selectedSettlements : Address → List Entry

/-- The file of a case, with the fundings that cover its settlements. -/
def buildCase (seller funder : Address) (buyerSettlements buyerFundings : List (Address × Entry))
    (buyerEndBalances : Address → ℕ) (returnPaths : List (List B256))
    (maxSettlementsPerBuyer : ℕ) (kind : String) : Except Stop Built := do
  let fundedBuyers := cohort buyerFundings buyerSettlements funder
  ensure (fundedBuyers ≠ []) (.exited "ERROR: No funded buyers with settlements")
  let selectedSettlements := fun buyer =>
    (entriesOf buyerSettlements buyer).take maxSettlementsPerBuyer
  ensure (settledTotal selectedSettlements fundedBuyers ≠ 0)
    (.exited "ERROR: funded buyers settled no volume; there is no loop to prove")
  let caseFundings ← (selectCaseFundings selectedSettlements (entriesOf buyerFundings)
    buyerEndBalances kind fundedBuyers).mapError .raised
  return {
    file := {
      seller := seller
      funder := funder
      buyers := fundedBuyers
      fundings := caseFundings.map fun entry => ⟨entry.kind, entry.buyer, entry.tx⟩
      returns := some returnPaths
      maxSettlementsPerBuyer := some maxSettlementsPerBuyer }
    caseFundings := caseFundings
    selectedSettlements := selectedSettlements }

/-- The arguments of the builder. The return paths stand for the result of their search. -/
structure Arguments where
  seller : Address
  funder : Option Address
  selfFund : Bool
  returnPaths : List (List B256)
  maxSettlementsPerBuyer : ℕ

/-- The funder with the capital it gave the buyers, and the kind of that evidence. -/
def findFundings (rpc : BuilderRpc) (args : Arguments) (settlements : List (Address × Entry)) :
    Except Stop (Address × List (Address × Entry) × String) :=
  if args.selfFund then do
    let fundings ← findSelfFundings rpc args.seller
    ensure (fundings ≠ []) (.exited "No protocol deposits paid by this seller")
    return (args.seller, fundings, "deposit")
  else do
    let (funder, fundings) ← findFunder rpc args.funder settlements
    return (funder, fundings, "usdc")

/-- The case of a seller, with its settlements, fundings and balances. -/
def main (rpc : BuilderRpc) (args : Arguments) : Except Stop Built := do
  let settlements ← findSettlements rpc args.seller
  ensure (settlements ≠ []) (.exited "No settlements found for this seller")
  let (funder, fundings, kind) ← findFundings rpc args settlements
  let balances ← (cohort fundings settlements funder).mapM (findBuyerEndBalance rpc)
  let returnPaths := if args.selfFund then [] else args.returnPaths
  buildCase args.seller funder settlements fundings (fun buyer => (balances.lookup buyer).getD 0)
    returnPaths args.maxSettlementsPerBuyer kind

end LoopProof.Case
