import LoopProof.Planner.ReturnSelection

/-!
# Resolved dependencies

The dependencies of a claim as the planner sees them after they were resolved: single logs with
their position, and relay paths made of several transfers. They are ordered by position, costed
by the blocks they touch, and kept apart by their dependency ids.
-/

namespace LoopProof.Planner

/-- What a single dependency stands for. -/
inductive EvidenceType where
  | settlement
  | reciprocalSettlement
  | totalSettlement
  | usdcFunding
  | nativeFunding
  | directSellerFunder
  | directSellerBuyer
  | relaySellerPayment
  | relayForward
  | relayFunderReceipt
  deriving DecidableEq, Repr

/-- One resolved log: its position, and the fields its kind carries. -/
structure Atom where
  evidenceType : EvidenceType
  transactionHash : B256
  blockNumber : ℕ
  transactionIndex : ℕ
  logIndex : ℕ
  timestamp : Timestamp
  seller : Option Address
  buyer : Option Address
  funder : Option Address
  sender : Option Address
  recipient : Option Address
  amountRaw : ℕ
  depositLogIndex : Option ℕ
  deriving DecidableEq, Repr

/-- What return selection sees of a resolved log. -/
def Atom.toTransfer (atom : Atom) : Transfer :=
  ⟨atom.sender, atom.recipient, atom.amountRaw, atom.timestamp, atom.transactionHash,
    some atom.logIndex, some atom.blockNumber, some atom.transactionIndex⟩

/-- A log that is a dependency of its own. -/
structure Entry extends Atom where
  dependencyId : B256
  deriving DecidableEq, Repr

/-- A return through relays; its hops carry no ids of their own. -/
structure RelayPath where
  dependencyId : B256
  seller : Option Address
  funder : Option Address
  hops : List Atom
  deriving DecidableEq, Repr

/-- A record or a path of several records. -/
inductive Dependency where
  | entry (entry : Entry)
  | relayPath (path : RelayPath)
  deriving DecidableEq, Repr

/-- What the planner takes from its platform: the lengths of JSON texts, and the collation of the
texts of hops. -/
structure PlannerLib where
  jsonLength : Dependency → ℕ
  hopJsonLength : Atom → ℕ
  compareHopTexts : List Atom → List Atom → Ordering

namespace Dependency

/-- The id of a dependency. -/
def dependencyId : Dependency → B256
  | .entry e => e.dependencyId
  | .relayPath p => p.dependencyId

/-- The dependency as a single log of the given type. -/
def ofType? (type : EvidenceType) : Dependency → Option Entry
  | .entry e => if e.evidenceType = type then some e else none
  | .relayPath _ => none

/-- A dependency that is a path. -/
def relayPath? : Dependency → Option RelayPath
  | .entry _ => none
  | .relayPath p => some p

/-- The logs a dependency is made of. -/
def atomicEvidence : Dependency → List Atom
  | .entry e => [e.toAtom]
  | .relayPath p => p.hops

/-- The transfers of a dependency, as return selection sees them. -/
def returnAtoms (evidence : Dependency) : List Transfer :=
  evidence.atomicEvidence.map Atom.toTransfer

end Dependency

/-- The dependencies that are single logs of one type. -/
def ofType (type : EvidenceType) (dependencies : List Dependency) : List Entry :=
  dependencies.filterMap (Dependency.ofType? type)

/-- The sum of raw amounts. -/
def sumRaw (entries : List Entry) : ℕ := (entries.map (·.amountRaw)).sum

/-! ## Order -/

/-- Position order of single logs: block, transaction, log. -/
def comparePositions : Atom → Atom → Ordering :=
  compareLex (compareOn (·.blockNumber))
    (compareLex (compareOn (·.transactionIndex)) (compareOn (·.logIndex)))

/-- Position order of entries, with the dependency id as the last resort. -/
def compareEntries : Entry → Entry → Ordering :=
  compareLex (fun left right => comparePositions left.toAtom right.toAtom)
    (compareOn (·.dependencyId))

/-- Order of dependencies; relay paths have no position and compare by id. -/
def compareEvidence : Dependency → Dependency → Ordering
  | .entry left, .entry right => compareEntries left right
  | left, right => compare left.dependencyId right.dependencyId

/-- Order of a hop against an entry or another hop: a hop has no id to break a tie. -/
def compareHop (left right : Atom) : Except String Ordering :=
  match comparePositions left right with
  | .eq => .error "Cannot read properties of undefined (reading 'localeCompare')"
  | order => .ok order

/-- Entries in the order of the chain. -/
def sortEntries (entries : List Entry) : List Entry := sortBy compareEntries entries

/-- The last entry in position order. -/
def latestOf : List Entry → Option Entry
  | [] => none
  | first :: rest => some <| rest.foldl
      (fun latest entry => if compareEntries latest entry = .lt then entry else latest) first

/-! ## Cost -/

/-- The first block of the history. -/
def historicalStartBlock : ℕ := 44469557

/-- The block an authentication proof covers. -/
def authenticationGroup (blockNumber : ℕ) : Except String ℕ := do
  ensure (historicalStartBlock ≤ blockNumber)
    s!"block {blockNumber} predates supported historical state coverage"
  return blockNumber

/-- Blocks, logs and bytes of a selection, and the ids that make it canonical. -/
structure Cost where
  windows : ℕ
  atoms : ℕ
  witnessBytes : ℕ
  canonical : List B256
  deriving DecidableEq, Repr

section Cost

variable (lib : PlannerLib)

/-- What evidence costs: the groups of its blocks, its records, its bytes and its ids. -/
def costTuple (evidence : List Dependency) : Except String Cost := do
  let atomic := evidence.flatMap Dependency.atomicEvidence
  let groups ← atomic.mapM fun atom => authenticationGroup atom.blockNumber
  return ⟨groups.dedup.length, atomic.length, (evidence.map lib.jsonLength).sum,
    (evidence.map Dependency.dependencyId).insertionSort (· ≤ ·)⟩

/-- The cheaper selection first. -/
def compareCost : Cost → Cost → Ordering :=
  compareLex (compareOn (·.windows)) (compareLex (compareOn (·.atoms))
    (compareLex (compareOn (·.witnessBytes))
      fun left right => List.compareLex compare left.canonical right.canonical))

/-- The numbers of a cost that relay paths are ordered by. -/
def relayCost (path : RelayPath) : Except String (ℕ × ℕ × ℕ) := do
  let groups ← path.hops.mapM fun hop => authenticationGroup hop.blockNumber
  return (groups.dedup.length, path.hops.length, (path.hops.map lib.hopJsonLength).sum)

/-- The first number of the left cost that differs from that of the right one. -/
def firstDiffering (left right : ℕ × ℕ × ℕ) : Option ℕ :=
  if left.1 ≠ right.1 then some left.1
  else if left.2.1 ≠ right.2.1 then some left.2.1
  else if left.2.2 ≠ right.2.2 then some left.2.2
  else none

/-- The comparator returns a number of the left path, not a difference: paths of different cost
are greater than each other. -/
def compareRelayPath (left right : RelayPath) : Except String Ordering := do
  let leftCost ← relayCost lib left
  let rightCost ← relayCost lib right
  match firstDiffering leftCost rightCost with
  | some value => return compare value 0
  | none => return lib.compareHopTexts left.hops right.hops

/-- The order of relay paths that are all costed. -/
def relayPathOrder (left right : RelayPath) : Ordering :=
  (compareRelayPath lib left right).toOption.getD .eq

end Cost

/-- The values by dependency id, the last one of an id at the place of the first. -/
def dedupe (values : List Dependency) : List Dependency :=
  dedupeBy Dependency.dependencyId values

end LoopProof.Planner
