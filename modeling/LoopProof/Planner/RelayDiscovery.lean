import LoopProof.Planner.ReturnSelection

/-!
# Discovery of relay returns

Relay paths found in cached traces: two transfers from the seller through a relay, and where the
second one does not reach the funder, the best transfer that does.
-/

namespace LoopProof.Planner

/-- A transfer of a trace, with its numbers read. -/
structure TraceTransfer where
  sender : Address
  recipient : Address
  amountRaw : ℕ
  timestamp : ℕ
  transactionHash : B256
  logIndex : ℕ
  blockNumber : Option ℕ
  transactionIndex : Option ℕ
  deriving DecidableEq, Repr

namespace TraceTransfer

/-- A traced transfer as a hop of a return. -/
def toTransfer (entry : TraceTransfer) : Transfer :=
  ⟨some entry.sender, some entry.recipient, entry.amountRaw, .seconds entry.timestamp,
    entry.transactionHash, some entry.logIndex, entry.blockNumber, entry.transactionIndex⟩

/-- The transfer that a trace entry is about. -/
def key (entry : TraceTransfer) : TransferKey := transferKey entry.toTransfer

/-- What a found path keeps of a transfer. -/
def serializeTransfer (entry : TraceTransfer) : TraceTransfer :=
  { entry with blockNumber := none, transactionIndex := none }

end TraceTransfer

/-- The comparator of a sort, which takes an undefined order for a tie. -/
def compareTraceTransfer (left right : TraceTransfer) : Ordering :=
  (compareTransfer left.toTransfer right.toTransfer).getD .eq

/-- The cached transfers of one address. -/
structure Trace where
  complete : Bool
  inboundUsdc : List TraceTransfer
  outboundUsdc : List TraceTransfer
  deriving DecidableEq, Repr

/-- Where relay paths are looked for. -/
structure RelaySearch where
  seller : Address
  funder : Address
  sellerTrace : Option Trace
  funderTrace : Option Trace
  loadTrace : Address → Option Trace
  earliestSettlementTimestamp : ℕ

/-- The first two transfers of a path. -/
structure RelayPrefix where
  first : TraceTransfer
  second : TraceTransfer
  relay : Address
  prefixCreditRaw : ℕ
  deriving DecidableEq, Repr

/-- A path that was found. -/
structure RelayReturn where
  seller : Address
  funder : Address
  relay : Address
  intermediary : Option Address
  hops : List TraceTransfer
  deriving DecidableEq, Repr

/-- The paths found so far, their credit, and the transfers in use. -/
structure DiscoveredReturns where
  paths : List RelayReturn
  returnedRaw : ℕ
  usedKeys : List TransferKey
  deriving DecidableEq, Repr

/-! ## Prefixes -/

/-- The seller's transfers to relays. -/
def firstHops (search : RelaySearch) : List TraceTransfer :=
  (search.sellerTrace.elim [] Trace.outboundUsdc).filter fun entry =>
    entry.sender = search.seller ∧ entry.recipient ≠ search.seller ∧
      entry.recipient ≠ search.funder ∧ 0 < entry.amountRaw ∧
      search.earliestSettlementTimestamp < entry.timestamp

/-- The transfers that a relay made, in order. -/
def relayOutbound (relay : Address) (trace : Trace) : List TraceTransfer :=
  sortBy compareTraceTransfer
    (trace.outboundUsdc.filter fun entry => entry.sender = relay ∧ 0 < entry.amountRaw)

/-- The transfers that can follow the first one, up to the end of its window. -/
def secondHops (first : TraceTransfer) : List TraceTransfer → List TraceTransfer
  | [] => []
  | second :: rest =>
    if second.timestamp ≤ first.timestamp then secondHops first rest
    else if retains second.amountRaw first.amountRaw = false then secondHops first rest
    else if maxRelaySeconds < second.timestamp - first.timestamp then []
    else second :: secondHops first rest

/-- The prefixes through one relay; an incomplete trace gives none. -/
def relayPrefixes (search : RelaySearch) (relay : Address) : List RelayPrefix :=
  match search.loadTrace relay with
  | none => []
  | some trace =>
    if trace.complete = false then []
    else ((firstHops search).filter (·.recipient = relay)).flatMap fun first =>
      (secondHops first (relayOutbound relay trace)).map fun second =>
        ⟨first, second, relay, min first.amountRaw second.amountRaw⟩

/-- Larger credits first, then earlier transfers. -/
def compareRelayPrefix : RelayPrefix → RelayPrefix → Ordering :=
  compareLex (fun left right => compare right.prefixCreditRaw left.prefixCreditRaw)
    (compareLex (fun left right => compareTraceTransfer left.first right.first)
      fun left right => compareTraceTransfer left.second right.second)

/-- All prefixes, in the order in which they are tried. -/
def sortedPrefixes (search : RelaySearch) : List RelayPrefix :=
  sortBy compareRelayPrefix
    ((sortedSet ((firstHops search).map (·.recipient))).flatMap (relayPrefixes search))

/-! ## Paths -/

/-- The transfers that one sender made to the funder, in order. -/
def funderInbound (search : RelaySearch) (sender : Address) : List TraceTransfer :=
  sortBy compareTraceTransfer
    ((search.funderTrace.elim [] Trace.inboundUsdc).filter fun entry =>
      entry.recipient = search.funder ∧ 0 < entry.amountRaw ∧ entry.sender = sender)

section Finish

variable (start : RelayPrefix) (used : List TransferKey)

/-- What a path is credited with if it ends with the given transfer. -/
def finishCreditRaw (entry : TraceTransfer) : ℕ := min start.prefixCreditRaw entry.amountRaw

/-- A transfer that is better than the best one so far. -/
def improvesFinish (best : Option TraceTransfer) (entry : TraceTransfer) : Bool :=
  match best with
  | none => 0 < finishCreditRaw start entry
  | some best => finishCreditRaw start best < finishCreditRaw start entry ∨
      finishCreditRaw start entry = finishCreditRaw start best ∧
        compareTraceTransfer entry best = .lt

/-- The best unused transfer that completes a path within its window. -/
def bestAvailableFinish : List TraceTransfer → Option TraceTransfer → Option TraceTransfer
  | [], best => best
  | entry :: rest, best =>
    if entry.timestamp ≤ start.second.timestamp then bestAvailableFinish rest best
    else if maxRelaySeconds < entry.timestamp - start.first.timestamp then best
    else if entry.key ∈ used ∨ retains entry.amountRaw start.second.amountRaw = false then
      bestAvailableFinish rest best
    else if improvesFinish start best entry = true then bestAvailableFinish rest (some entry)
    else bestAvailableFinish rest best

end Finish

/-- The hops of the path that a prefix starts, with their credit, if it can be completed. -/
def completePath (search : RelaySearch) (used : List TransferKey) (start : RelayPrefix) :
    Option (List TraceTransfer × ℕ) :=
  if start.first.key ∈ used ∨ start.second.key ∈ used then none
  else if start.second.recipient = search.funder then
    some ([start.first, start.second], start.prefixCreditRaw)
  else
    (bestAvailableFinish start used (funderInbound search start.second.recipient) none).map
      fun finish => ([start.first, start.second, finish], finishCreditRaw start finish)

/-- The path of a prefix, added to the ones found. -/
def DiscoveredReturns.push (search : RelaySearch) (found : DiscoveredReturns)
    (start : RelayPrefix) (hops : List TraceTransfer) (creditRaw : ℕ) : DiscoveredReturns :=
  ⟨found.paths ++ [{
      seller := search.seller
      funder := search.funder
      relay := start.relay
      intermediary := if hops.length = 3 then some start.second.recipient else none
      hops := hops.map TraceTransfer.serializeTransfer }],
    found.returnedRaw + creditRaw, found.usedKeys ++ hops.map TraceTransfer.key⟩

/-- Complete the prefixes in order until there are enough paths. -/
def discoverPaths (search : RelaySearch) (maxPaths required : ℕ) :
    List RelayPrefix → DiscoveredReturns → DiscoveredReturns
  | [], found => found
  | start :: rest, found =>
    if maxPaths ≤ found.paths.length ∨ required ≤ found.returnedRaw then found
    else
      match completePath search found.usedKeys start with
      | none => discoverPaths search maxPaths required rest found
      | some (hops, creditRaw) =>
        if (hops.map TraceTransfer.key).any (· ∈ found.usedKeys) then
          discoverPaths search maxPaths required rest found
        else discoverPaths search maxPaths required rest (found.push search start hops creditRaw)

/-- The found paths reach what was asked for. -/
def DiscoveredReturns.complete (found : DiscoveredReturns) (requiredRaw : ℕ) : Bool :=
  requiredRaw ≤ found.returnedRaw

/-- Paths to the funder, found one after the other until enough is returned. -/
def discoverCachedRelayReturns (search : RelaySearch) (requiredRaw maxPaths : ℕ)
    (reservedKeys : List TransferKey) : DiscoveredReturns :=
  discoverPaths search maxPaths requiredRaw (sortedPrefixes search) ⟨[], 0, reservedKeys⟩

end LoopProof.Planner
