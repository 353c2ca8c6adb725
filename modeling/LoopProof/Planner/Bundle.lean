import LoopProof.Lib.Merkle
import LoopProof.Lib.Store
import LoopProof.Planner.Authentication

/-!
# Bundles

A bundle of claims is planned in two stages. Each closed-loop claim is first authenticated and
planned with the ledger balances of its buyers, and finalized to the evidence it selected; its
records are stored under the type and the subjects of the claim. Then every claim is planned from
the records stored under its key, or from dependencies looked up for it.
-/

namespace LoopProof.Planner

/-- What a bundle takes from its platform: hashes of canonical JSON texts, and their order. -/
structure HashLib where
  /-- The hash of a dependency without its id. -/
  hashDependency : Dependency → B256
  /-- The hash of a claim without its id, its leaf and its dependencies. -/
  hashClaimId : Claim Unit → B256
  hashClaimLeaf : Claim Unit → B256
  compareJson : Dependency → Dependency → Ordering
  /-- The hash of two nodes of a tree. -/
  node : B256 → B256 → B256
  /-- The hash that stands for no leaves. -/
  emptyRoot : B256

/-- The claims that are planned together. -/
structure Bundle where
  version : ℕ
  chainId : ℕ
  reportRoot : B256
  period : Period
  contracts : Contracts
  claims : List (Claim DraftDependency)
  deriving DecidableEq, Repr

/-- What the plans of all claims share. -/
def Bundle.context (bundle : Bundle) : PlanContext := ⟨some bundle.period, bundle.reportRoot⟩

/-- The bundle without its other claims. -/
def Bundle.only (bundle : Bundle) (claim : Claim DraftDependency) : Bundle :=
  { bundle with claims := [claim] }

/-! ## Hash trees -/

section Trees

variable (lib : HashLib)

/-- Nodes are paired until one is left. -/
def merkleRootLoop : ℕ → List B256 → B256
  | 0, level => level.headD lib.emptyRoot
  | fuel + 1, level =>
    if 1 < level.length then merkleRootLoop fuel (Merkle.nextLevel lib.node level)
    else level.headD lib.emptyRoot

/-- The root over sorted hashes, or that of no hashes. -/
def merkleRoot (hashes : List B256) : B256 :=
  if hashes = [] then lib.emptyRoot
  else merkleRootLoop lib hashes.length (hashes.insertionSort (· ≤ ·))

/-- A sibling, and the side that it stands on. -/
structure MerkleStep where
  sibling : B256
  siblingOnLeft : Bool
  deriving DecidableEq, Repr

/-- The levels from the leaves to the root. -/
def merkleLevels : ℕ → List B256 → List (List B256)
  | 0, level => [level]
  | fuel + 1, level =>
    if 1 < level.length then level :: merkleLevels fuel (Merkle.nextLevel lib.node level)
    else [level]

/-- The siblings of a position, one for each level. -/
def merkleSteps : List (List B256) → ℕ → List MerkleStep
  | [], _ => []
  | level :: levels, index =>
    let siblingIndex := if index % 2 = 0 then min (index + 1) (level.length - 1) else index - 1
    ⟨level.getD siblingIndex lib.emptyRoot, siblingIndex < index⟩ ::
      merkleSteps levels (index / 2)

/-- The siblings on the way of a hash to the root. -/
def merkleMembership (hashes : List B256) (targetHash : B256) :
    Except String (List MerkleStep) := do
  let leaves := hashes.insertionSort (· ≤ ·)
  let index ← okOr (storeAll leaves.zipIdx targetHash) s!"Merkle target {targetHash} not found"
  return merkleSteps lib (merkleLevels lib leaves.length leaves).dropLast index

/-- The siblings of a position, computed with the levels. -/
def legacySteps : ℕ → List B256 → ℕ → List MerkleStep
  | 0, _, _ => []
  | fuel + 1, level, index =>
    if 1 < level.length then
      let siblingIndex := if index % 2 = 0 then min (index + 1) (level.length - 1) else index - 1
      ⟨level.getD siblingIndex lib.emptyRoot, siblingIndex < index⟩ ::
        legacySteps fuel (Merkle.nextLevel lib.node level) (index / 2)
    else []

/-- The earlier membership, made level by level. -/
def legacyMerkleMembership (hashes : List B256) (targetHash : B256) :
    Except String (List MerkleStep) := do
  let leaves := hashes.insertionSort (· ≤ ·)
  let index ← okOr (leaves.findIdx? (· == targetHash)) s!"Merkle target {targetHash} not found"
  return legacySteps lib leaves.length leaves index

end Trees

/-! ## Finalized claims -/

section Finalized

variable (lib : HashLib)

/-- A dependency with another id. -/
def Dependency.withId (dependencyId : B256) : Dependency → Dependency
  | .entry e => .entry { e with dependencyId }
  | .relayPath p => .relayPath { p with dependencyId }

/-- A dependency as it is hashed. -/
def stripDependencyId (dependency : Dependency) : Dependency := dependency.withId 0

/-- A claim with its dependencies replaced. -/
def Claim.mapDependencies {δ δ' : Type} (f : δ → δ') (claim : Claim δ) : Claim δ' :=
  ⟨claim.claimId, claim.type, claim.subjects, claim.walletA, claim.walletB, claim.approvedBuyers,
    claim.approvedFunders, claim.metrics, claim.dependencyRoot, claim.leafHash,
    claim.dependencies.map f⟩

/-- A claim without its dependencies. -/
def Claim.leaf {δ : Type} (claim : Claim δ) : Claim Unit :=
  { claim.mapDependencies (fun _ => ()) with dependencies := [], leafHash := 0 }

/-- A claim without its dependencies and its id. -/
def Claim.body {δ : Type} (claim : Claim δ) : Claim Unit := { claim.leaf with claimId := 0 }

/-- Each dependency once, in the order of their texts. -/
def dedupeDependencies (values : List Dependency) : List Dependency :=
  sortBy lib.compareJson values.dedup

/-- The claim with hashed dependencies in the order of their ids, and its own hashes. -/
def finalizeClaim (claim : Claim Dependency) : Claim Dependency :=
  let dependencies := sortBy (compareOn Dependency.dependencyId)
    ((dedupeDependencies lib claim.dependencies).map fun dependency =>
      dependency.withId (lib.hashDependency dependency))
  let rooted := { claim with
    dependencyRoot := merkleRoot lib (dependencies.map Dependency.dependencyId) }
  let identified := { rooted with claimId := lib.hashClaimId rooted.body }
  { identified with leafHash := lib.hashClaimLeaf identified.leaf, dependencies }

/-- A hop or a log as a draft that names it. -/
def Atom.toLocator (atom : Atom) : Locator :=
  { evidenceType := atom.evidenceType
    transactionHash := some atom.transactionHash
    logIndex := some atom.logIndex
    timestamp := atom.timestamp
    seller := atom.seller
    buyer := atom.buyer
    funder := atom.funder
    sender := atom.sender
    recipient := atom.recipient
    amountRaw := atom.amountRaw
    amountWei := none
    depositLogIndex := atom.depositLogIndex }

/-- A resolved dependency as one of a bundle. -/
def Dependency.toDraft : Dependency → DraftDependency
  | .entry e => .locator e.dependencyId e.toLocator
  | .relayPath p => .relayPath ⟨p.dependencyId, p.seller, p.funder,
      some (p.hops.map Atom.toLocator), none, none, none⟩

/-- The id of a draft. -/
def DraftDependency.dependencyId : DraftDependency → B256
  | .locator dependencyId _ => dependencyId
  | .relayPath path => path.dependencyId

/-- The bundle with its claims in the order of their ids; claims come with their leaves. -/
def finalizeBundle (bundle : Bundle) : Bundle :=
  let claims := sortBy (compareOn (·.claimId)) bundle.claims
  { bundle with claims, reportRoot := merkleRoot lib (claims.map (·.leafHash)) }

end Finalized

/-! ## Ledger-aware finalization -/

section Finalization

variable (lib : PlannerLib) (hashes : HashLib) (rpc : Rpc)

/-- What the records of a claim are stored under: its type and its subjects. -/
abbrev AuthenticationKey := ClaimType × List Address

/-- What the authenticated records of a claim are stored under. -/
def claimAuthenticationKey {δ : Type} (claim : Claim δ) : AuthenticationKey :=
  (claim.type, claim.subjects)

/-- The dependencies that make up a seller's total volume must all be resolved. -/
def requireTotals (authenticated : Authenticated) (error : String) : Except String Unit :=
  ensure (∀ rejection ∈ authenticated.rejected,
    rejection.evidenceType ≠ some .totalSettlement) error

/-- The claim with the volume, the buyers and the evidence of its plan. -/
def finalizedClaim (claim : Claim DraftDependency) (planned : Plan) : Claim Dependency :=
  let selectedSettlements := ofType .settlement planned.selectedEvidence
  let selectedBuyers := sortedSet (selectedSettlements.filterMap (·.buyer))
  let metrics := claim.metrics.getD ⟨none, none, none, none⟩
  finalizeClaim hashes {
    claimId := 0
    type := claim.type
    subjects := claim.subjects
    walletA := claim.walletA
    walletB := claim.walletB
    approvedBuyers := selectedBuyers
    approvedFunders := claim.approvedFunders
    metrics := some { metrics with
      qualifiedVolumeRaw := some (sumRaw selectedSettlements)
      qualifiedBuyerCount := some selectedBuyers.length }
    dependencyRoot := 0
    leafHash := 0
    dependencies := planned.selectedEvidence.map stripDependencyId }

/-- A closed-loop claim planned with its ledger balances, and the records stored for it. -/
def finalizeClosedLoop (bundle : Bundle) (claim : Claim DraftDependency) :
    Except String (Claim Dependency × Authenticated) := do
  let authenticated ← authenticateClaim rpc bundle.period bundle.contracts claim
  requireTotals authenticated (s!"{claim.claimId}: incomplete total-settlement authentication " ++
    "during ledger finalization")
  let planned ← planClaim lib claim authenticated.resolved bundle.context
    { PlanOptions.default with
      ledgerBalances := authenticated.ledgerBalances
      allowLedgerSelection := true }
  let finalized := finalizedClaim hashes claim planned
  return (finalized, { authenticated with resolved := finalized.dependencies })

/-- A claim as it stands in the finalized bundle, with the records to store. A claim finalized
before is read back from its checkpoint, without its balances. -/
def finalizeLedgerClaim (checkpoint : B256 → Option (Claim Dependency)) (bundle : Bundle)
    (claim : Claim DraftDependency) :
    Except String (Claim DraftDependency × Option (AuthenticationKey × Authenticated)) :=
  if claim.type = .closedLoop then
    match checkpoint claim.claimId with
    | some finalized => .ok (finalized.mapDependencies Dependency.toDraft,
        some (claimAuthenticationKey finalized, ⟨finalized.dependencies, [], none⟩))
    | none => do
      let (finalized, authenticated) ← finalizeClosedLoop lib hashes rpc bundle claim
      return (finalized.mapDependencies Dependency.toDraft,
        some (claimAuthenticationKey finalized, authenticated))
  else .ok (claim, none)

/-- The claims of a bundle with what was authenticated for them. -/
def finalizeLedgerAwareBundle (checkpoint : B256 → Option (Claim Dependency)) (bundle : Bundle) :
    Except String (Bundle × (AuthenticationKey → Option Authenticated)) := do
  let entries ← bundle.claims.mapM (finalizeLedgerClaim lib hashes rpc checkpoint bundle)
  return (finalizeBundle hashes { bundle with claims := entries.map Prod.fst },
    storeAll (entries.filterMap Prod.snd))

end Finalization

/-! ## Plans of a bundle -/

section Plans

variable (lib : PlannerLib) (hashes : HashLib) (rpc : Rpc)

/-- A selected dependency, with the one of the report that it resolves. -/
structure AttachedEvidence where
  evidence : Dependency
  dependencyLeaf : DraftDependency
  dependencyMembership : List MerkleStep
  deriving DecidableEq, Repr

/-- A plan with its place in the report. -/
structure AttachedPlan where
  plan : Plan
  rejected : List Rejection
  claimLeaf : Claim DraftDependency
  claimMembership : List MerkleStep
  selectedEvidence : List AttachedEvidence
  deriving DecidableEq, Repr

/-- The evidence with the dependency of the claim that has its id. -/
def attachEvidence (claim : Claim DraftDependency) (entry : Dependency) :
    Except String AttachedEvidence := do
  let originalById := storeAll (claim.dependencies.map fun original =>
    (original.dependencyId, original))
  let original ← okOr (originalById entry.dependencyId)
    s!"{claim.claimId}: selected evidence lacks a report dependency"
  let membership ← merkleMembership hashes
    (claim.dependencies.map DraftDependency.dependencyId) entry.dependencyId
  return ⟨entry, original, membership⟩

/-- A plan with the proofs that its claim and its evidence are members of their roots. -/
def attachMemberships (plan : Plan) (rejected : List Rejection) (claim : Claim DraftDependency)
    (allClaims : List (Claim DraftDependency)) : Except String AttachedPlan := do
  let claimMembership ← merkleMembership hashes (allClaims.map (·.leafHash)) claim.leafHash
  let selectedEvidence ← plan.selectedEvidence.mapM (attachEvidence hashes claim)
  return ⟨plan, rejected, { claim with leafHash := 0, dependencies := [] }, claimMembership,
    selectedEvidence⟩

/-- How many dependencies were rejected for each reason, as JSON. -/
def rejectionCounts (rejected : List Rejection) : String :=
  let reasons := (rejected.map (·.reason)).reverse.dedup.reverse
  let counts := reasons.map fun reason =>
    s!"{reason.quote}:{(rejected.filter (·.reason = reason)).length}"
  "\x7b" ++ ",".intercalate counts ++ "\x7d"

/-- The records stored under the key of a claim, or else looked up for it. -/
def authenticatedFor (bundle : Bundle)
    (authenticatedClaims : AuthenticationKey → Option Authenticated)
    (claim : Claim DraftDependency) : Except String Authenticated :=
  match authenticatedClaims (claimAuthenticationKey claim) with
  | some authenticated => .ok authenticated
  | none => authenticateClaim rpc bundle.period bundle.contracts claim

/-- The plan of one claim of a finalized bundle from the given records. -/
def planAuthenticated (bundle : Bundle) (claim : Claim DraftDependency)
    (authenticated : Authenticated) : Except String AttachedPlan := do
  let required := authenticated.rejected.filter (·.evidenceType = some .totalSettlement)
  requireTotals authenticated (s!"{claim.claimId}: incomplete total-settlement authentication; " ++
    s!"rejected={required.length}; rejectionCounts={rejectionCounts required}")
  let planned ← (planClaim lib claim authenticated.resolved bundle.context
    { PlanOptions.default with ledgerBalances := authenticated.ledgerBalances }).mapError
      fun message => message ++ s!"; authenticated={authenticated.resolved.length}; " ++
        s!"rejected={authenticated.rejected.length}; " ++
        s!"rejectionCounts={rejectionCounts authenticated.rejected}"
  attachMemberships hashes planned authenticated.rejected claim bundle.claims

/-- The plan of one claim of a bundle. -/
def planBundleClaim (bundle : Bundle)
    (authenticatedClaims : AuthenticationKey → Option Authenticated)
    (claim : Claim DraftDependency) : Except String AttachedPlan := do
  let authenticated ← authenticatedFor rpc bundle authenticatedClaims claim
  planAuthenticated lib hashes bundle claim authenticated

/-- The plans of all claims with the blocks that they need. -/
structure BundlePlan where
  bundleVersion : ℕ
  chainId : ℕ
  reportRoot : B256
  period : Period
  claims : List AttachedPlan
  materializationBlockNumbers : List ℕ
  deriving DecidableEq, Repr

/-- The one version and chain of bundles. -/
def validateBundle (bundle : Bundle) : Except String Unit :=
  ensure (bundle.version = 1 ∧ bundle.chainId = 8453) "unsupported proof bundle"

/-- The plans of all claims of a finalized bundle. -/
def planFinalizedBundle (bundle : Bundle)
    (authenticatedClaims : AuthenticationKey → Option Authenticated) :
    Except String BundlePlan := do
  ensure (bundle.claims ≠ []) "no requested claims found in proof bundle"
  let claims ← bundle.claims.mapM (planBundleClaim lib hashes rpc bundle authenticatedClaims)
  return {
    bundleVersion := bundle.version
    chainId := bundle.chainId
    reportRoot := bundle.reportRoot
    period := bundle.period
    claims := claims
    materializationBlockNumbers := sortedSet (claims.flatMap (·.plan.selectedBlocks)) }

/-- The plans of a draft bundle, with no checkpoints. -/
def planProofBundle (bundle : Bundle) : Except String BundlePlan := do
  validateBundle bundle
  let (finalized, authenticatedClaims) ←
    finalizeLedgerAwareBundle lib hashes rpc (fun _ => none) bundle
  planFinalizedBundle lib hashes rpc finalized authenticatedClaims

end Plans

end LoopProof.Planner
