import LoopProof.Lib.JsonText
import LoopProof.Planner.Canonical
import LoopProof.Planner.Plan
import LoopProof.Proving.BlockBudget

/-!
# Plan files

A plan is written with its claims behind its other fields. Its file is read in chunks that end
anywhere: a reader waits for the start of the claims, reads the fields in front of them as a plan
without claims, and takes one claim after the other out of the text. The generator checks every
claim against its bundle as it comes by and writes it as a plan of its own.
-/

namespace LoopProof.Proving

open Canonical (key natJson)
open Planner (ClaimType Period)

/-! ## Writing -/

/-- The key of the claims. -/
def claimsKey : JsString := key "claims"

/-- The text that the claims of a plan start behind. -/
def claimsMarker : List Char := "\"claims\":[".toList

/-- The claims of a plan with commas in between. -/
def writeClaims (claims : List Json) : List Char :=
  claims.zipIdx.flatMap fun entry => (if 0 < entry.2 then [','] else []) ++ entry.1.stringify

/-- The fields of a plan, its claims, and what is written behind them. -/
def writePlan (metadata : List (JsString × Json)) (claims : List Json) (rest : List Char) :
    List Char :=
  (Json.object metadata).stringify.dropLast ++ ',' :: (claimsMarker ++ writeClaims claims ++ rest)

/-- The file of a plan has nothing behind its claims. -/
def writePlanFile (metadata : List (JsString × Json)) (claims : List Json) : List Char :=
  writePlan metadata claims "]\x7d\n".toList

/-- The file of a reconstructed plan has its selection of blocks behind the claims. -/
def writeReconstructedPlan (metadata : List (JsString × Json)) (claims : List Json)
    (evidenceBlockSelection : Json) : List Char :=
  writePlan metadata claims
    ("],\"evidenceBlockSelection\":".toList ++ evidenceBlockSelection.stringify ++
      "\x7d\n".toList)

/-! ## Reading in chunks -/

/-- What a reader knows of the claims between two chunks. -/
structure ClaimScan (σ : Type) where
  claimChunks : List (List Char)
  claimDepth : ℕ
  inString : Bool
  escaped : Bool
  claimsEnded : Bool
  accounts : σ

/-- A reader within a chunk. -/
structure Cursor (σ : Type) extends ClaimScan σ where
  claimStart : Option ℕ
  consumed : ℕ

/-- What a reader knows between two chunks: the text it still waits in, and the fields in front of
the claims once it has them. -/
structure PlanStream (μ σ : Type) extends ClaimScan σ where
  pending : List Char
  metadata : Option μ

/-- The part of a text between two positions. -/
def slice (text : List Char) (start stop : ℕ) : List Char := (text.take stop).drop start

section Reader

variable {μ σ : Type}

/-- Nothing was read yet. -/
def PlanStream.initial (accounts : σ) : PlanStream μ σ :=
  ⟨⟨[], 0, false, false, false, accounts⟩, [], none⟩

/-- One character of the claims. -/
def readCharacter (accept : σ → List Char → Except String σ) (pending : List Char)
    (cursor : Cursor σ) (entry : Char × ℕ) : Except String (Cursor σ) :=
  let (character, index) := entry
  let cursor := { cursor with consumed := index + 1 }
  if cursor.claimsEnded then .ok cursor
  else if cursor.claimDepth = 0 then
    if character = '{' then
      .ok { cursor with
        claimDepth := 1, claimStart := some index, inString := false, escaped := false }
    else if character = ']' then .ok { cursor with claimsEnded := true }
    else .ok cursor
  else if cursor.inString then
    if cursor.escaped then .ok { cursor with escaped := false }
    else if character = '\\' then .ok { cursor with escaped := true }
    else if character = '"' then .ok { cursor with inString := false }
    else .ok cursor
  else if character = '"' then .ok { cursor with inString := true }
  else if character = '{' then .ok { cursor with claimDepth := cursor.claimDepth + 1 }
  else if character = '}' then
    if cursor.claimDepth = 1 then do
      let claimText :=
        (cursor.claimChunks ++ [slice pending (cursor.claimStart.getD 0) (index + 1)]).flatten
      let accounts ← accept cursor.accounts claimText
      return { cursor with claimDepth := 0, claimChunks := [], claimStart := none, accounts }
    else .ok { cursor with claimDepth := cursor.claimDepth - 1 }
  else .ok cursor

/-- The reader at the start of a chunk. -/
def ClaimScan.enter (s : ClaimScan σ) : Cursor σ :=
  ⟨s, if 0 < s.claimDepth then some 0 else none, 0⟩

/-- What is kept of a chunk: the text of a claim that stays open. -/
def Cursor.leave (cursor : Cursor σ) (pending : List Char) : ClaimScan σ :=
  { cursor.toClaimScan with
    claimChunks := match cursor.claimStart.filter fun _ => 0 < cursor.claimDepth with
      | some claimStart => cursor.claimChunks ++ [pending.drop claimStart]
      | none => cursor.claimChunks }

/-- The claims in what is pending, for the plan of the given fields. -/
def readPending (accept : σ → List Char → Except String σ) (metadata : μ) (s : ClaimScan σ)
    (pending : List Char) : Except String (PlanStream μ σ) := do
  let cursor ← pending.zipIdx.foldlM (readCharacter accept pending) s.enter
  return ⟨cursor.leave pending, pending.drop cursor.consumed, some metadata⟩

variable (start : List Char → Except String μ) (accept : μ → σ → List Char → Except String σ)

/-- The claims that end in a chunk; the fields of the plan are read as soon as the claims start. -/
def readChunk (s : PlanStream μ σ) (chunk : List Char) : Except String (PlanStream μ σ) := do
  let pending := s.pending ++ chunk
  match s.metadata with
  | some metadata => readPending (accept metadata) metadata s.toClaimScan pending
  | none =>
    match indexOf claimsMarker pending with
    | none => return { s with pending }
    | some markerIndex =>
      let metadata ← start (pending.take markerIndex ++ "\"claims\":[]\x7d".toList)
      readPending (accept metadata) metadata s.toClaimScan
        (pending.drop (markerIndex + claimsMarker.length))

/-- Read every chunk of a file. -/
def readChunks (s : PlanStream μ σ) (chunks : List (List Char)) : Except String (PlanStream μ σ) :=
  chunks.foldlM (readChunk start accept) s

/-- Read no chunk behind the end of the claims. -/
def readUntilEnd (s : PlanStream μ σ) : List (List Char) → Except String (PlanStream μ σ)
  | [] => .ok s
  | chunk :: chunks => do
    let s ← readChunk start accept s chunk
    if s.claimsEnded then return s else readUntilEnd s chunks

end Reader

/-! ## Approved claims and planned claims -/

/-- What a plan says apart from its claims. -/
structure PlanMetadata where
  version : ℕ
  kind : String
  chainId : ℕ
  reportRoot : B256
  period : Period
  claimCount : Option ℕ
  deriving DecidableEq, Repr

/-- What a piece of evidence, or the leaf it was taken from, says of its settlement. -/
structure SettlementSource where
  transactionHash : Option B256
  logIndex : Option ℤ
  amountRaw : Option ℤ
  deriving DecidableEq, Repr

/-- A selected piece of evidence with its settlement. -/
structure BatchEvidence extends PlannedEvidence where
  dependencyLeaf : Option (List Char)
  receiptLogIndex : Option ℤ
  source : SettlementSource
  deriving DecidableEq, Repr

/-- A planned claim as a batch reads it. -/
structure BatchClaim where
  claimId : B256
  type : ClaimType
  selectedEvidence : Option (List BatchEvidence)
  deriving DecidableEq, Repr

/-- A plan that is read as a whole. -/
structure BatchPlan where
  metadata : PlanMetadata
  claims : List BatchClaim
  deriving DecidableEq, Repr

/-- The bundle whose claims were approved. -/
structure ApprovedBundle where
  version : ℕ
  kind : String
  chainId : ℕ
  reportRoot : B256
  period : Period
  claims : List (Planner.Claim Unit)
  deriving DecidableEq, Repr

/-- The texts that the platform reads as JSON. -/
structure PlanParser where
  metadata : List Char → Except String PlanMetadata
  claim : List Char → Except String BatchClaim
  leaf : List Char → Except String SettlementSource

/-- The approved claim of an id; of several the last. -/
def approvedClaim (bundle : ApprovedBundle) (claimId : B256) : Option (Planner.Claim Unit) :=
  bundle.claims.reverse.find? fun claim => claim.claimId = claimId

/-! ## The accounts of a batch -/

/-- The volumes of the claims so far, and the settlements they are taken from. -/
structure BatchAccumulator where
  uniqueSettlements : List ((B256 × ℤ) × ℤ)
  closedLoopVolume : ℤ
  reciprocalVolume : ℤ
  deriving DecidableEq, Repr

/-- What a batch of approved claims amounts to. -/
structure BatchSummary where
  reportRoot : B256
  period : Period
  approvedClaimCount : ℕ
  approvedSellerCount : ℕ
  closedLoopVolumeRaw : ℤ
  reciprocalVolumeRaw : ℤ
  uniqueSettlementVolumeRaw : ℤ
  uniqueSettlementCount : ℕ
  deriving DecidableEq, Repr

/-- No claim was read yet. -/
def createBatchAccumulator : BatchAccumulator := ⟨[], 0, 0⟩

/-- The transaction and the log of a settlement. -/
def settlementIdentity (source : SettlementSource) (receiptLogIndex : Option ℤ) :
    Option (B256 × ℤ) := do
  let transactionHash ← source.transactionHash
  let logIndex ← receiptLogIndex <|> source.logIndex
  if 0 ≤ logIndex ∧ logIndex ≤ maxSafeInteger then some (transactionHash, logIndex) else none

section Accounts

variable (parser : PlanParser)

/-- One piece of evidence, with the unique settlements and the selected volume so far. -/
def accumulateEvidence (claimId : B256) (accounts : List ((B256 × ℤ) × ℤ) × ℤ)
    (evidence : BatchEvidence) : Except String (List ((B256 × ℤ) × ℤ) × ℤ) :=
  if evidence.evidenceType ∉ [.settlement, .reciprocalSettlement] then .ok accounts
  else do
    let (uniqueSettlements, selectedVolume) := accounts
    let source ← match evidence.dependencyLeaf.filter (· ≠ []) with
      | some dependencyLeaf => parser.leaf dependencyLeaf
      | none => .ok evidence.source
    let identity ← okOr (settlementIdentity source evidence.receiptLogIndex)
      s!"{claimId}: settlement identity is incomplete"
    let amount ← okOr source.amountRaw "Cannot convert the amount to a BigInt"
    let existing := uniqueSettlements.lookup identity
    ensure (existing.all (· = amount))
      s!"{claimId}: settlement {identity.1}:{identity.2} has conflicting amounts"
    -- a known settlement stays in its place
    let uniqueSettlements :=
      if existing = none then uniqueSettlements ++ [(identity, amount)] else uniqueSettlements
    return (uniqueSettlements, selectedVolume + amount)

/-- The volume that a claim was approved with. -/
def approvedVolume (approved : Planner.Claim Unit) : Except String ℤ := do
  let metrics ← okOr approved.metrics "Cannot read properties of undefined"
  let volume (raw : Option ℕ) : Except String ℤ :=
    (okOr raw "Cannot convert undefined to a BigInt").map Nat.cast
  if approved.type = .reciprocal then do
    let volumeAToB ← volume metrics.volumeAToBRaw
    let volumeBToA ← volume metrics.volumeBToARaw
    return volumeAToB + volumeBToA
  else volume metrics.qualifiedVolumeRaw

/-- One planned claim with its evidence. -/
def accumulateClaim (accumulator : BatchAccumulator) (approved : Planner.Claim Unit)
    (claimId : B256) (selectedEvidence : List BatchEvidence) : Except String BatchAccumulator := do
  let (uniqueSettlements, selectedVolume) ←
    selectedEvidence.foldlM (accumulateEvidence parser claimId) (accumulator.uniqueSettlements, 0)
  let approvedVolume ← approvedVolume approved
  ensure (selectedVolume = approvedVolume)
    s!"{claimId}: selected volume {selectedVolume} differs from approved volume {approvedVolume}"
  if approved.type = .reciprocal then
    return ⟨uniqueSettlements, accumulator.closedLoopVolume,
      accumulator.reciprocalVolume + selectedVolume⟩
  else
    return ⟨uniqueSettlements, accumulator.closedLoopVolume + selectedVolume,
      accumulator.reciprocalVolume⟩

/-- The totals of all claims; a settlement that several claims share counts once. -/
def finishBatchAccumulator (bundle : ApprovedBundle) (accumulator : BatchAccumulator) :
    BatchSummary where
  reportRoot := bundle.reportRoot
  period := bundle.period
  approvedClaimCount := bundle.claims.length
  approvedSellerCount := (bundle.claims.flatMap (·.subjects)).dedup.length
  closedLoopVolumeRaw := accumulator.closedLoopVolume
  reciprocalVolumeRaw := accumulator.reciprocalVolume
  uniqueSettlementVolumeRaw := (accumulator.uniqueSettlements.map Prod.snd).sum
  uniqueSettlementCount := accumulator.uniqueSettlements.length

/-! ## The whole plan at once -/

/-- The plan was made for the bundle. -/
def validatePlanMetadata (bundle : ApprovedBundle) (plan : PlanMetadata) : Except String Unit := do
  ensure (plan.version = 2 ∧ plan.kind = "antseed-wash-trading-proof-plan")
    "invalid approved proof plan"
  ensure (bundle.chainId = 8453 ∧ plan.chainId = bundle.chainId ∧
    plan.reportRoot = bundle.reportRoot) "bundle and plan identity mismatch"
  ensure (plan.period = bundle.period) "bundle and plan periods differ"

/-- A plan has exactly the approved claims, each once. -/
def validateApprovedSet (bundle : ApprovedBundle) (plan : BatchPlan) : Except String Unit := do
  ensure (bundle.version = 1 ∧ bundle.kind = "antseed-wash-trading-proof-bundle")
    "invalid approved proof bundle"
  ensure (plan.metadata.version = 2 ∧ plan.metadata.kind = "antseed-wash-trading-proof-plan")
    "invalid approved proof plan"
  ensure (bundle.chainId = 8453 ∧ plan.metadata.chainId = bundle.chainId ∧
    plan.metadata.reportRoot = bundle.reportRoot) "bundle and plan identity mismatch"
  ensure (plan.metadata.claimCount = some plan.claims.length ∧
      plan.claims.length = bundle.claims.length)
    (s!"partial proof plan: expected {bundle.claims.length} claims, received " ++
      s!"{plan.claims.length}")
  let approvedIds := (bundle.claims.map (·.claimId)).insertionSort (· ≤ ·)
  let plannedIds := (plan.claims.map (·.claimId)).insertionSort (· ≤ ·)
  ensure (approvedIds.dedup.length = approvedIds.length ∧
    plannedIds.dedup.length = plannedIds.length) "bundle or plan contains duplicate claim IDs"
  ensure (approvedIds.zipIdx.all fun entry => plannedIds[entry.2]? = some entry.1)
    "proof plan does not contain the complete approved claim set"
  ensure (plan.metadata.period = bundle.period) "bundle and plan periods differ"

/-- One planned claim of the whole plan. -/
def batchClaim (bundle : ApprovedBundle) (accumulator : BatchAccumulator) (planned : BatchClaim) :
    Except String BatchAccumulator := do
  let approved ← okOr (approvedClaim bundle planned.claimId) "Cannot read properties of undefined"
  let selectedEvidence ← okOr planned.selectedEvidence "planned.selectedEvidence is not iterable"
  accumulateClaim parser accumulator approved planned.claimId selectedEvidence

/-- The totals of a plan that is read as a whole. -/
def buildApprovedBatchSummary (bundle : ApprovedBundle) (plan : BatchPlan) :
    Except String BatchSummary := do
  validateApprovedSet bundle plan
  let accumulator ← plan.claims.foldlM (batchClaim parser bundle) createBatchAccumulator
  return finishBatchAccumulator bundle accumulator

/-! ## Claim by claim -/

/-- A claim that was written as a plan of its own. -/
structure PlanShard where
  claimId : B256
  type : ClaimType
  shardPath : List Char
  text : List Char
  deriving DecidableEq, Repr

/-- The shards that were written so far, with the totals of their claims. -/
structure ShardState where
  entries : List PlanShard
  seenIds : List B256
  accumulator : BatchAccumulator
  deriving DecidableEq, Repr

/-- The shards of a plan, with the totals of its claims. -/
structure PlanShards where
  entries : List PlanShard
  period : Period
  approved : BatchSummary
  deriving DecidableEq, Repr

/-- The planned claim whose blocks are counted. -/
def BatchClaim.toPlannedClaim (claim : BatchClaim) : PlannedClaim :=
  ⟨claim.claimId.val, (claim.selectedEvidence.getD []).map BatchEvidence.toPlannedEvidence⟩

/-- The file of a shard, by its position and its claim. -/
def shardPath (index : ℕ) (claimId : B256) : List Char :=
  (Nat.toDigits 10 index).leftpad 3 '0' ++ '-' :: ((hexDigits 64 claimId.val).take 16 ++
    ".plan.json".toList)

/-- A period as it is written. -/
def periodJson (period : Period) : Json :=
  .object [(key "startBlock", natJson period.startBlock),
    (key "endBlockExclusive", natJson period.endBlockExclusive)]

/-- The fields that a shard takes over from its plan. -/
def shardFields (metadata : PlanMetadata) : List (JsString × Json) :=
  [(key "version", natJson metadata.version),
    (key "kind", .string (Canonical.jsText metadata.kind.toList)),
    (key "chainId", natJson metadata.chainId), (key "period", periodJson metadata.period)]

/-- The file of one claim: a plan with this claim alone. -/
def shardText (metadata : PlanMetadata) (claimText : List Char) : List Char :=
  (Json.object (shardFields metadata)).stringify.dropLast ++ ",\"claims\":[".toList ++
    claimText ++ "]\x7d\n".toList

/-- The fields in front of the claims, which must be those of a plan for the bundle. -/
def shardMetadata (bundle : ApprovedBundle) (text : List Char) : Except String PlanMetadata := do
  let metadata ← parser.metadata text
  validatePlanMetadata bundle metadata
  return metadata

/-- One claim out of the file. -/
def shardClaim (bundle : ApprovedBundle) (metadata : PlanMetadata) (s : ShardState)
    (claimText : List Char) : Except String ShardState := do
  let claim ← parser.claim claimText
  let unexpected := s!"unexpected or duplicate planned claim {claim.claimId}"
  let approved ← okOr (approvedClaim bundle claim.claimId) unexpected
  ensure (claim.claimId ∉ s.seenIds) unexpected
  let accumulator ← accumulateClaim parser s.accumulator approved claim.claimId
    (claim.selectedEvidence.getD [])
  let _ ← validateClaimMaterializationBlocks claim.toPlannedClaim
    (metadata.period.endBlockExclusive - 1) maxPredicateBlockRefs
  return {
    entries := s.entries ++ [{
      claimId := claim.claimId
      type := claim.type
      shardPath := shardPath s.entries.length claim.claimId
      text := shardText metadata claimText }]
    seenIds := s.seenIds ++ [claim.claimId]
    accumulator }

/-- The shards of a file whose claims are complete. -/
def finishShards (bundle : ApprovedBundle) (s : PlanStream PlanMetadata ShardState) :
    Except String PlanShards := do
  let metadata ← okOr s.metadata "incomplete proof plan JSON"
  ensure (s.claimsEnded = true ∧ s.claimDepth = 0) "incomplete proof plan JSON"
  let entries := s.accounts.entries
  ensure (entries.length = bundle.claims.length ∧
      s.accounts.seenIds.dedup.length = bundle.claims.length)
    s!"partial proof plan: expected {bundle.claims.length} claims, received {entries.length}"
  ensure (metadata.claimCount = some entries.length) "proof plan claim count mismatch"
  return ⟨entries, metadata.period, finishBatchAccumulator bundle s.accounts.accumulator⟩

/-- Write the claims of a plan file as plans of their own. -/
def shardProofPlan (bundle : ApprovedBundle) (chunks : List (List Char)) :
    Except String PlanShards := do
  let s ← readChunks (shardMetadata parser bundle) (shardClaim parser bundle)
    (.initial ⟨[], [], createBatchAccumulator⟩) chunks
  finishShards bundle s

/-! ## The summary of a plan -/

/-- The fields of a plan and the ids of its claims. -/
structure PlanSummary where
  metadata : PlanMetadata
  claims : List B256
  deriving DecidableEq, Repr

/-- The id of a claim behind those before it. -/
def summaryClaim (claims : List B256) (claimText : List Char) : Except String (List B256) := do
  let claim ← parser.claim claimText
  return claims ++ [claim.claimId]

/-- The claims are counted where the plan does not count them. -/
def finishSummary (s : PlanStream PlanMetadata (List B256)) : Except String PlanSummary := do
  let metadata ← okOr s.metadata "proof plan is incomplete"
  ensure (s.claimsEnded = true) "proof plan is incomplete"
  let claims := s.accounts
  return ⟨{ metadata with claimCount := some (metadata.claimCount.getD claims.length) }, claims⟩

/-- The fields of a plan file with the ids of its claims. -/
def readProofPlanSummary (chunks : List (List Char)) : Except String PlanSummary := do
  let s ← readUntilEnd parser.metadata (fun _ => summaryClaim parser) (.initial []) chunks
  finishSummary s

end Accounts

end LoopProof.Proving
