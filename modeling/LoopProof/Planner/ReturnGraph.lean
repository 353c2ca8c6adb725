import LoopProof.Lib.BinarySearch
import LoopProof.Planner.RelayDiscovery

/-!
# Expanded return graph

Return chains of up to nine transfers from the seller to the funder. A graph is loaded from traces
two rounds outward from the seller; a depth-first search walks it, kept to chains that can still
reach the funder, up to a number of chains and of steps.
-/

namespace LoopProof.Planner

/-- Where return chains are looked for. -/
structure GraphSearch where
  seller : Address
  funder : Address
  loadTrace : Address → Option Trace
  earliest : ℤ
  endTime : ℤ
  maxPaths : ℕ
  maxSteps : ℕ

/-- The transfers loaded so far, the addresses whose traces were asked for, and those whose traces
were not complete. -/
structure ReturnGraph where
  edges : List TraceTransfer
  loaded : List Address
  missing : List Address
  deriving DecidableEq, Repr

/-! ## Loading -/

/-- A transfer of the period that moves an amount to another address. -/
def admitsEdge (search : GraphSearch) (hop : TraceTransfer) : Bool :=
  search.earliest < hop.timestamp ∧ hop.timestamp ≤ search.endTime ∧
    hop.sender ≠ hop.recipient ∧ 0 < hop.amountRaw

namespace ReturnGraph

/-- A transfer is added once. -/
def add (search : GraphSearch) (graph : ReturnGraph) (hop : TraceTransfer) : ReturnGraph :=
  if admitsEdge search hop = false then graph
  else if hop.key ∈ graph.edges.map TraceTransfer.key then graph
  else { graph with edges := graph.edges ++ [hop] }

/-- The trace of an address is asked for once. -/
def load (search : GraphSearch) (graph : ReturnGraph) (address : Address) : ReturnGraph :=
  if address ∈ graph.loaded then graph
  else
    let trace := search.loadTrace address
    (trace.elim [] Trace.outboundUsdc).foldl (add search)
      { graph with
        loaded := graph.loaded ++ [address]
        missing := if trace.any Trace.complete = true then graph.missing
          else graph.missing ++ [address] }

/-- The transfers of one sender, as they were added. -/
def sentBy (graph : ReturnGraph) (address : Address) : List TraceTransfer :=
  graph.edges.filter (·.sender = address)

end ReturnGraph

/-- The transfers that the funder's trace lists as received. -/
def loadTerminal (search : GraphSearch) : ReturnGraph :=
  let terminalTrace := search.loadTrace search.funder
  (terminalTrace.elim [] Trace.inboundUsdc).foldl (ReturnGraph.add search)
    ⟨[], [], if terminalTrace.any Trace.complete = true then [] else [search.funder]⟩

/-- Load the addresses of a frontier, and collect the addresses that they send to. -/
def loadFrontier (search : GraphSearch) :
    List Address → ReturnGraph → List Address → ReturnGraph × List Address
  | [], graph, next => (graph, next)
  | address :: rest, graph, next =>
    if address = search.funder ∨ address = search.seller then loadFrontier search rest graph next
    else
      let graph := graph.load search address
      loadFrontier search rest graph (next ++ (graph.sentBy address).map (·.recipient))

/-- One round outward. -/
def expandFrontier (search : GraphSearch) (state : ReturnGraph × List Address) :
    ReturnGraph × List Address :=
  loadFrontier search (sortedSet state.2) state.1 []

/-- The traces of the funder, the seller and the addresses within reach of the seller. -/
def loadReturnGraph (search : GraphSearch) : ReturnGraph :=
  let graph := (loadTerminal search).load search search.seller
  (expandFrontier search (expandFrontier search
    (graph, (graph.sentBy search.seller).map (·.recipient)))).1

/-! ## Distance to the funder -/

/-- How many transfers an address is away from the funder, where that is known. -/
abbrev Distance := Address → Option ℕ

/-- The distances found so far, and the addresses found last. -/
structure Reached where
  distance : Distance
  next : List Address

/-- An address without a distance gets the depth. -/
def Reached.visit (depth : ℕ) (reached : Reached) (previous : Address) : Reached :=
  if (reached.distance previous).isSome = true then reached
  else ⟨Function.update reached.distance previous (some depth), reached.next ++ [previous]⟩

/-- The senders of the transfers to an address. -/
def reverseOf (edges : List TraceTransfer) (address : Address) : List Address :=
  ((edges.filter (·.recipient = address)).map (·.sender)).eraseDups

/-- The addresses one transfer further away. -/
def reachLevel (edges : List TraceTransfer) (depth : ℕ) (reachable : List Address)
    (distance : Distance) : Reached :=
  (reachable.flatMap (reverseOf edges)).foldl (Reached.visit depth) ⟨distance, []⟩

/-- Level after level, for the given number of levels. -/
def reachLevels (edges : List TraceTransfer) : ℕ → ℕ → Reached → Reached
  | 0, _, reached => reached
  | levels + 1, depth, reached =>
    reachLevels edges levels (depth + 1) (reachLevel edges depth reached.next reached.distance)

/-- How many transfers an address is away from the funder. -/
def distanceTo (edges : List TraceTransfer) (funder : Address) : Distance :=
  (reachLevels edges 9 1
    ⟨fun address => if address = funder then some 0 else none, [funder]⟩).distance

/-! ## Search -/

/-- Order of transfers by time and log. -/
def hopOrder : TraceTransfer → TraceTransfer → Ordering :=
  compareLex (compareOn (·.timestamp)) (compareOn (·.logIndex))

/-- The transfers of one sender, in order. -/
def outgoing (edges : List TraceTransfer) (address : Address) : List TraceTransfer :=
  sortBy hopOrder (edges.filter (·.sender = address))

/-- The addresses that one sender sends to. -/
def destinations (edges : List TraceTransfer) (address : Address) : List Address :=
  ((outgoing edges address).map (·.recipient)).eraseDups

/-- Whether the funder can be reached over unvisited addresses within the remaining transfers,
whatever their times and amounts. -/
def canFinish (edges : List TraceTransfer) (funder : Address) :
    ℕ → Address → List Address → Bool
  | 0, address, _ => address = funder
  | remaining + 1, address, visited =>
    if address = funder then true
    else if (distanceTo edges funder address).isSome = false then false
    else (destinations edges address).any fun next =>
      next ∉ visited ∧ canFinish edges funder remaining next (next :: visited) = true

/-- A chain of transfers that was found, with its credit. -/
structure FoundChain where
  hops : List TraceTransfer
  creditRaw : ℕ
  deriving DecidableEq, Repr

/-- What the search passes along. -/
structure WalkState where
  paths : List FoundChain
  steps : ℕ
  truncated : Bool
  deriving DecidableEq, Repr

/-- A limit of the search is reached. -/
def limited (search : GraphSearch) (state : WalkState) : Bool :=
  search.maxPaths ≤ state.paths.length ∨ search.maxSteps ≤ state.steps

section Walk

variable (search : GraphSearch) (edges : List TraceTransfer)

/-- Try the transfers that may follow in order, up to the end of the window. -/
def explore (descend : TraceTransfer → WalkState → Option WalkState)
    (first previous : TraceTransfer) (visited : List Address) (remaining : ℕ) :
    List TraceTransfer → WalkState → Option WalkState
  | [], state => some state
  | hop :: rest, state =>
    let state := { state with steps := state.steps + 1 }
    if search.maxSteps ≤ state.steps then some { state with truncated := true }
    else if maxRelaySeconds < hop.timestamp - first.timestamp then some state
    else if hopOrder previous hop ≠ .lt ∨ hop.recipient ∈ visited ∨
        retains hop.amountRaw previous.amountRaw = false ∨
        canFinish edges search.funder remaining hop.recipient
          (hop.recipient :: visited) = false then
      explore descend first previous visited remaining rest state
    else do
      let next ← descend hop state
      if limited search next = true then some next
      else explore descend first previous visited remaining rest next

/-- Search on from the address that the transfers selected so far lead to. The first of them is
kept apart from the later ones. -/
def walk : ℕ → Address → TraceTransfer → List TraceTransfer → ℕ → List Address →
    WalkState → Option WalkState
  | 0, _, _, _, _, _, _ => none
  | fuel + 1, address, first, later, credit, visited, state =>
    if limited search state = true then some { state with truncated := true }
    else if address = search.funder then
      some { state with paths := state.paths ++ [⟨first :: later, credit⟩] }
    else if 9 < (first :: later).length + (distanceTo edges search.funder address).getD 10 then
      some state
    else
      let previous := later.getLastD first
      let hops := outgoing edges address
      let lower := lowerBound (fun hop => (hopOrder previous hop).isGE) hops
      explore search edges
        (fun hop => walk fuel hop.recipient first (later ++ [hop]) (min credit hop.amountRaw)
          (hop.recipient :: visited))
        first previous visited (8 - (first :: later).length) (hops.drop lower) state

/-- Search from each transfer of the seller. -/
def walkStarts (fuel : ℕ) : List TraceTransfer → WalkState → Option WalkState
  | [], state => some state
  | hop :: rest, state => do
    let next ← walk search edges fuel hop.recipient hop [] hop.amountRaw
      [hop.recipient, search.seller] state
    if limited search next = true then some { next with truncated := true }
    else walkStarts fuel rest next

end Walk

/-- Larger amounts first, then earlier transfers. -/
def compareStarts : TraceTransfer → TraceTransfer → Ordering :=
  compareLex (fun left right => compare right.amountRaw left.amountRaw) hopOrder

/-- The chains that were found, and how much of the graph was searched. -/
structure GraphResult where
  paths : List FoundChain
  edgeCount : ℕ
  loadedTraceCount : ℕ
  missingTraces : List Address
  truncated : Bool
  steps : ℕ
  maxPaths : ℕ
  maxSteps : ℕ
  exhaustive : Bool
  deriving DecidableEq, Repr

/-- A limit is a positive integer that a number holds exactly. -/
def validLimit (limit : ℕ) : Bool := 0 < limit ∧ limit ≤ maxSafeInteger

/-- The search; `none` stands for a recursion deeper than the fuel. -/
def discoverExpandedReturnGraph (fuel : ℕ) (search : GraphSearch) :
    Option (Except String GraphResult) :=
  if validLimit search.maxPaths = false ∨ validLimit search.maxSteps = false then
    some (.error "invalid return graph limits")
  else do
    let graph := loadReturnGraph search
    let starts := sortBy compareStarts (outgoing graph.edges search.seller)
    let state ← walkStarts search graph.edges fuel starts ⟨[], 0, false⟩
    return .ok ⟨state.paths, graph.edges.length, graph.loaded.length, sortedSet graph.missing,
      state.truncated, state.steps, search.maxPaths, search.maxSteps, false⟩

end LoopProof.Planner
