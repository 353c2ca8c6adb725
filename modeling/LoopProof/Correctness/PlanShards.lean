import LoopProof.Correctness.PlanFile

/-!
# The shards of a plan

Claim by claim the generator accepts exactly the plans that are accepted at once, and its shards
are the claims of the plan in order.
-/

namespace LoopProof.Proving

open Canonical (key natJson optionalField textValue)
open Planner (ClaimType)

/-! ## The plan at once and claim by claim -/

/-- The platform reads the document as the plan. -/
structure Describes (parser : PlanParser) (document : PlanDocument) (plan : BatchPlan) : Prop where
  metadata : parser.metadata document.bare.stringify = .ok plan.metadata
  claims : List.Forall₂ (fun json claim => parser.claim json.stringify = .ok claim)
    document.claims plan.claims

section Accounts

variable {parser : PlanParser} {bundle : ApprovedBundle}

/-- The shard of a claim is a plan file of its own. -/
def planShard (metadata : PlanMetadata) (index : ℕ) (json : Json) (claim : BatchClaim) :
    PlanShard where
  claimId := claim.claimId
  type := claim.type
  shardPath := shardPath index claim.claimId
  text := writePlanFile (shardFields metadata) [json]

/-- The shards of a plan, in the order of its claims. -/
def planShards (metadata : PlanMetadata) : ℕ → List Json → List BatchClaim → List PlanShard
  | index, json :: documents, claim :: claims =>
    planShard metadata index json claim :: planShards metadata (index + 1) documents claims
  | _, _, _ => []

/-- A shard is the file of a plan with one claim. -/
theorem shardText_eq (metadata : PlanMetadata) (json : Json) :
    shardText metadata json.stringify = writePlanFile (shardFields metadata) [json] := by
  have hclaims : writeClaims [json] = json.stringify := by simp [writeClaims]
  have hmarker : ",\"claims\":[".toList = ',' :: claimsMarker := by decide
  rw [shardText, writePlanFile, writePlan, hclaims, hmarker]
  simp only [List.cons_append, List.append_assoc]

/-- The claim can be materialized, and has evidence. -/
structure Admissible (metadata : PlanMetadata) (claim : BatchClaim) : Prop where
  selected : claim.selectedEvidence ≠ none
  blocks : countClaimMaterializationBlocks claim.toPlannedClaim
    (metadata.period.endBlockExclusive - 1) ≤ maxPredicateBlockRefs

/-- A claim is sharded exactly if it is new and its accounts are right. -/
theorem shardClaim_eq_ok {metadata : PlanMetadata} {s s' : ShardState} {json : Json}
    {claim : BatchClaim} (hparse : parser.claim json.stringify = .ok claim)
    (hadmissible : Admissible metadata claim) :
    shardClaim parser bundle metadata s json.stringify = .ok s' ↔
      claim.claimId ∉ s.seenIds ∧ ∃ accumulator,
        batchClaim parser bundle s.accumulator claim = .ok accumulator ∧
        s' = ⟨s.entries ++ [planShard metadata s.entries.length json claim],
          s.seenIds ++ [claim.claimId], accumulator⟩ := by
  obtain ⟨evidence, hevidence⟩ := Option.ne_none_iff_exists'.mp hadmissible.selected
  have hblocks : validateClaimMaterializationBlocks claim.toPlannedClaim
      (metadata.period.endBlockExclusive - 1) maxPredicateBlockRefs =
        .ok (countClaimMaterializationBlocks claim.toPlannedClaim
          (metadata.period.endBlockExclusive - 1)) := by
    rw [validateClaimMaterializationBlocks, ensure, if_pos hadmissible.blocks]
    rfl
  simp only [shardClaim, batchClaim, hparse, ok_bind, hevidence, Option.getD_some, hblocks,
    shardText_eq]
  constructor
  · intro h
    obtain ⟨approved, happroved, h⟩ := bind_eq_ok.mp h
    obtain ⟨_, hnew, h⟩ := bind_eq_ok.mp h
    obtain ⟨accumulator, haccumulate, h⟩ := bind_eq_ok.mp h
    refine ⟨ensure_eq_ok.mp hnew, accumulator, ?_, (Except.ok.inj h).symm⟩
    rw [okOr_eq_ok.mp happroved]
    exact haccumulate
  · rintro ⟨hnew, accumulator, hbatch, rfl⟩
    obtain ⟨approved, happroved, h⟩ := bind_eq_ok.mp hbatch
    have hfound := okOr_eq_ok.mp happroved
    rw [hfound, show ensure (claim.claimId ∉ s.seenIds) _ = .ok () from ensure_eq_ok.mpr hnew]
    change accumulateClaim parser s.accumulator approved claim.claimId evidence >>= _ = _
    have haccumulate : accumulateClaim parser s.accumulator approved claim.claimId evidence =
        .ok accumulator := h
    rw [haccumulate]
    rfl

/-- Claims are sharded one after the other exactly if none repeats and their accounts are right. -/
theorem shardClaims_eq_ok {metadata : PlanMetadata} {documents : List Json}
    {claims : List BatchClaim}
    (hparse : List.Forall₂ (fun json claim => parser.claim json.stringify = .ok claim)
      documents claims)
    (hadmissible : ∀ claim ∈ claims, Admissible metadata claim) {s s' : ShardState} :
    documents.foldlM (fun s json => shardClaim parser bundle metadata s json.stringify) s =
        .ok s' ↔
      (claims.map (·.claimId)).Nodup ∧ (∀ claim ∈ claims, claim.claimId ∉ s.seenIds) ∧
        ∃ accumulator,
          claims.foldlM (batchClaim parser bundle) s.accumulator = .ok accumulator ∧
          s' = ⟨s.entries ++ planShards metadata s.entries.length documents claims,
            s.seenIds ++ claims.map (·.claimId), accumulator⟩ := by
  induction hparse generalizing s with
  | nil =>
    simp only [List.foldlM_nil, List.map_nil, List.nodup_nil, List.not_mem_nil, false_implies,
      implies_true, true_and, planShards, List.append_nil, pure_eq_ok]
    constructor
    · rintro rfl
      exact ⟨s.accumulator, rfl, rfl⟩
    · rintro ⟨accumulator, rfl, rfl⟩
      rfl
  | @cons json claim documents claims hfirst hrest ih =>
    obtain ⟨hclaim, hclaims⟩ := List.forall_mem_cons.mp hadmissible
    rw [List.foldlM_cons, List.foldlM_cons, bind_eq_ok, List.map_cons, List.nodup_cons]
    constructor
    · rintro ⟨middle, hmiddle, hfold⟩
      obtain ⟨hnew, accumulator, hbatch, rfl⟩ := (shardClaim_eq_ok hfirst hclaim).mp hmiddle
      obtain ⟨hnodup, hunseen, accumulator', haccumulator, rfl⟩ := (ih hclaims).mp hfold
      have hfresh : claim.claimId ∉ claims.map (·.claimId) := by
        intro hmem
        obtain ⟨other, hother, hsame⟩ := List.mem_map.mp hmem
        apply hunseen other hother
        simp [hsame]
      refine ⟨⟨hfresh, hnodup⟩, ?_, accumulator', ?_, ?_⟩
      · refine List.forall_mem_cons.mpr ⟨hnew, ?_⟩
        intro other hother hseen
        exact hunseen other hother (List.mem_append_left _ hseen)
      · rw [hbatch, ok_bind, haccumulator]
      · simp [planShards]
    · rintro ⟨⟨hfresh, hnodup⟩, hunseen, accumulator, haccumulator, rfl⟩
      obtain ⟨hnew, hunseen⟩ := List.forall_mem_cons.mp hunseen
      obtain ⟨middle, hbatch, hfold⟩ := bind_eq_ok.mp haccumulator
      refine ⟨_, (shardClaim_eq_ok hfirst hclaim).mpr ⟨hnew, middle, hbatch, rfl⟩, ?_⟩
      refine (ih hclaims).mpr ⟨hnodup, ?_, accumulator, hfold, ?_⟩
      · intro other hother hseen
        rcases List.mem_append.mp hseen with hseen | hseen
        · exact hunseen other hother hseen
        · apply hfresh
          rw [← List.mem_singleton.mp hseen]
          exact List.mem_map_of_mem hother
      · simp [planShards]

private theorem dedup_length_iff {α : Type} [DecidableEq α] {xs : List α} :
    xs.dedup.length = xs.length ↔ xs.Nodup := by
  rw [← List.dedup_eq_self]
  exact ⟨(List.dedup_sublist xs).eq_of_length, congrArg List.length⟩

private theorem all_zipIdx_iff {α : Type} [DecidableEq α] {xs ys : List α}
    (hlength : ys.length = xs.length) :
    (xs.zipIdx.all fun entry => ys[entry.2]? = some entry.1) = true ↔ ys = xs := by
  rw [List.all_eq_true]
  constructor
  · intro h
    apply List.ext_getElem hlength
    intro i hi hi'
    have hentry := h (xs[i], i) (List.mem_zipIdx_iff_getElem?.mpr (List.getElem?_eq_getElem hi'))
    rw [decide_eq_true_eq, List.getElem?_eq_getElem hi] at hentry
    exact Option.some.inj hentry
  · rintro rfl entry hentry
    rw [decide_eq_true_eq]
    exact List.mem_zipIdx_iff_getElem?.mp hentry

/-- The ids of the planned claims are those of the approved ones, each once. -/
structure Complete (bundle : ApprovedBundle) (plan : BatchPlan) : Prop where
  count : plan.metadata.claimCount = some plan.claims.length
  nodup : (plan.claims.map (·.claimId)).Nodup
  perm : (plan.claims.map (·.claimId)).Perm (bundle.claims.map (·.claimId))

/-- A plan is accepted if it was made for the bundle and has exactly its claims. -/
theorem validateApprovedSet_eq_ok {plan : BatchPlan} {u : Unit} :
    validateApprovedSet bundle plan = .ok u ↔
      (bundle.version = 1 ∧ bundle.kind = "antseed-wash-trading-proof-bundle") ∧
        validatePlanMetadata bundle plan.metadata = .ok u ∧ Complete bundle plan := by
  have hsort {ids : List B256} : (ids.insertionSort (· ≤ ·)).Nodup ↔ ids.Nodup :=
    (List.perm_insertionSort (· ≤ ·) ids).nodup_iff
  simp only [validateApprovedSet, validatePlanMetadata, bind_eq_ok, ensure_eq_ok, exists_const,
    dedup_length_iff, hsort]
  constructor
  · rintro ⟨hbundle, hplan, hidentity, ⟨hcount, hlength⟩, ⟨happroved, hplanned⟩, hids, hperiod⟩
    refine ⟨hbundle, ⟨hplan, hidentity, hperiod⟩, hcount, hplanned, ?_⟩
    rw [all_zipIdx_iff (by simpa using hlength)] at hids
    have hperm := List.perm_insertionSort (· ≤ ·) (plan.claims.map (·.claimId))
    rw [hids] at hperm
    exact hperm.symm.trans (List.perm_insertionSort _ _)
  · rintro ⟨hbundle, ⟨hplan, hidentity, hperiod⟩, hcount, hnodup, hperm⟩
    have hlength : plan.claims.length = bundle.claims.length := by
      simpa using hperm.length_eq
    refine ⟨hbundle, hplan, hidentity, ⟨hcount, hlength⟩, ⟨hperm.nodup_iff.mp hnodup, hnodup⟩, ?_,
      hperiod⟩
    rw [all_zipIdx_iff (by simpa using hlength)]
    exact Merkle.insertionSort_perm hperm

/-- A claim with accounts is approved. -/
theorem mem_of_batchClaim {accumulator accumulator' : BatchAccumulator} {planned : BatchClaim}
    (h : batchClaim parser bundle accumulator planned = .ok accumulator') :
    planned.claimId ∈ bundle.claims.map (·.claimId) := by
  obtain ⟨approved, happroved, _⟩ := bind_eq_ok.mp h
  have hfind := okOr_eq_ok.mp happroved
  have hid := List.find?_some hfind
  have hmem := List.mem_reverse.mp (List.mem_of_find?_eq_some hfind)
  rw [decide_eq_true_eq] at hid
  rw [← hid]
  exact List.mem_map_of_mem hmem

/-- Claims that were added up are claims of the bundle. -/
theorem mem_of_batchClaims {accumulator accumulator' : BatchAccumulator} {claims : List BatchClaim}
    (h : claims.foldlM (batchClaim parser bundle) accumulator = .ok accumulator') :
    claims.map (·.claimId) ⊆ bundle.claims.map (·.claimId) := by
  induction claims generalizing accumulator with
  | nil => exact List.nil_subset _
  | cons claim claims ih =>
    rw [List.foldlM_cons, bind_eq_ok] at h
    obtain ⟨middle, hclaim, hclaims⟩ := h
    rw [List.map_cons]
    exact List.cons_subset.mpr ⟨mem_of_batchClaim hclaim, ih hclaims⟩

/-- There is one shard for each claim. -/
theorem length_planShards (metadata : PlanMetadata) {documents : List Json}
    {claims : List BatchClaim} (h : documents.length = claims.length) (index : ℕ) :
    (planShards metadata index documents claims).length = claims.length := by
  induction documents generalizing claims index with
  | nil =>
    rw [List.eq_nil_of_length_eq_zero h.symm]
    rfl
  | cons json documents ih =>
    cases claims with
    | nil => cases h
    | cons claim claims =>
      rw [planShards, List.length_cons, List.length_cons, ih (Nat.succ.inj h)]

/-- A plan for a bundle has its period. -/
theorem period_eq {metadata : PlanMetadata} {u : Unit}
    (h : validatePlanMetadata bundle metadata = .ok u) : metadata.period = bundle.period := by
  simp only [validatePlanMetadata, bind_eq_ok, ensure_eq_ok, exists_const] at h
  exact h.2.2

/-- What is in the text of a whole plan is sharded exactly if no claim is missing. -/
theorem finishFound_eq_ok {metadata : PlanMetadata} {s : ShardState} {shards : PlanShards} :
    finishFound bundle (some (metadata, .complete s)) = .ok shards ↔
      (s.entries.length = bundle.claims.length ∧ s.seenIds.dedup.length = bundle.claims.length) ∧
        metadata.claimCount = some s.entries.length ∧
        shards = ⟨s.entries, metadata.period, finishBatchAccumulator bundle s.accumulator⟩ := by
  simp only [finishFound, okOr, ok_bind, ObjectScan.complete, bind_eq_ok, ensure_eq_ok,
    exists_const, true_and, pure_eq_ok, and_self]
  constructor
  · rintro ⟨hlength, hcount, rfl⟩
    exact ⟨hlength, hcount, rfl⟩
  · rintro ⟨hlength, hcount, rfl⟩
    exact ⟨hlength, hcount, rfl⟩

/-- The fields of a plan are read in front of its claims. -/
theorem shardMetadata_bare {document : PlanDocument} {plan : BatchPlan}
    (hdescribes : Describes parser document plan) {metadata : PlanMetadata} :
    shardMetadata parser bundle document.bare.stringify = .ok metadata ↔
      metadata = plan.metadata ∧ validatePlanMetadata bundle plan.metadata = .ok () := by
  rw [shardMetadata, hdescribes.metadata, ok_bind]
  constructor
  · intro h
    obtain ⟨_, hvalid, hmetadata⟩ := bind_eq_ok.mp h
    exact ⟨(Except.ok.inj hmetadata).symm, hvalid⟩
  · rintro ⟨rfl, hvalid⟩
    rw [hvalid]
    rfl

section Written

variable {document : PlanDocument} {plan : BatchPlan} {chunks : List (List Char)}
  {rest : List Char} {shards : PlanShards} (hdescribes : Describes parser document plan)
  (hadmissible : ∀ claim ∈ plan.claims, Admissible plan.metadata claim)
  (hchunks : chunks.flatten = writePlan document.fields document.claims (']' :: rest))

include hdescribes hadmissible hchunks

/-- The claims of a plan with right accounts are sharded in order. -/
theorem shardProofPlan_of_summary
    (hsummary : buildApprovedBatchSummary parser bundle plan = .ok shards.approved)
    (hperiod : shards.period = bundle.period)
    (hentries : shards.entries = planShards plan.metadata 0 document.claims plan.claims) :
    shardProofPlan parser bundle chunks = .ok shards := by
  have hlength := length_planShards plan.metadata hdescribes.claims.length_eq 0
  obtain ⟨u, hset, hsummary⟩ := bind_eq_ok.mp hsummary
  obtain ⟨accumulator, haccumulator, hfinish⟩ := bind_eq_ok.mp hsummary
  obtain ⟨-, hvalid, hcomplete⟩ := validateApprovedSet_eq_ok.mp hset
  have hfold : document.claims.foldlM
      (fun s json => shardClaim parser bundle plan.metadata s json.stringify)
      ⟨[], [], createBatchAccumulator⟩ = .ok _ :=
    (shardClaims_eq_ok hdescribes.claims hadmissible).mpr
      ⟨hcomplete.nodup, by simp, accumulator, haccumulator, rfl⟩
  rw [shardProofPlan_eq, hchunks, PlanDocument.readText_writePlan,
    (shardMetadata_bare hdescribes).mpr ⟨rfl, hvalid⟩, ok_bind, hfold]
  apply finishFound_eq_ok.mpr
  have hcount : plan.claims.length = bundle.claims.length := by
    simpa using hcomplete.perm.length_eq
  have hids : (plan.claims.map (·.claimId)).dedup.length = bundle.claims.length := by
    rw [List.dedup_eq_self.mpr hcomplete.nodup, List.length_map, hcount]
  simp only [List.nil_append, List.length_nil, hlength]
  refine ⟨⟨hcount, hids⟩, hcomplete.count, ?_⟩
  rcases shards with ⟨entries, period, approved⟩
  simp only at hperiod hentries hfinish
  rw [hperiod, hentries, period_eq hvalid, ← Except.ok.inj hfinish]

/-- The shards of a plan are its claims, and its accounts are theirs. -/
theorem summary_of_shardProofPlan
    (hbundle : bundle.version = 1 ∧ bundle.kind = "antseed-wash-trading-proof-bundle")
    (h : shardProofPlan parser bundle chunks = .ok shards) :
    buildApprovedBatchSummary parser bundle plan = .ok shards.approved ∧
      shards.period = bundle.period ∧
      shards.entries = planShards plan.metadata 0 document.claims plan.claims := by
  have hlength := length_planShards plan.metadata hdescribes.claims.length_eq 0
  rw [shardProofPlan_eq, hchunks, PlanDocument.readText_writePlan] at h
  obtain ⟨found, hfound, hfinish⟩ := bind_eq_ok.mp h
  obtain ⟨metadata, hmetadata, hfound⟩ := bind_eq_ok.mp hfound
  obtain ⟨rfl, hvalid⟩ := (shardMetadata_bare hdescribes).mp hmetadata
  obtain ⟨accounts, hfold, hfound⟩ := bind_eq_ok.mp hfound
  obtain rfl := Except.ok.inj hfound
  obtain ⟨hnodup, -, accumulator, haccumulator, rfl⟩ :=
    (shardClaims_eq_ok hdescribes.claims hadmissible).mp hfold
  obtain ⟨⟨hentries, _⟩, hcount, rfl⟩ := finishFound_eq_ok.mp hfinish
  simp only [List.nil_append, List.length_nil, hlength] at hentries hcount
  have hperm : (plan.claims.map (·.claimId)).Perm (bundle.claims.map (·.claimId)) := by
    apply (hnodup.subperm (mem_of_batchClaims haccumulator)).perm_of_length_le
    simp [hentries]
  have hset := validateApprovedSet_eq_ok.mpr ⟨hbundle, hvalid, hcount, hnodup, hperm⟩
  refine ⟨?_, period_eq hvalid, rfl⟩
  rw [buildApprovedBatchSummary, hset, ok_bind, haccumulator]
  rfl

/-- A written plan with complete claims is sharded exactly if the accounts of the whole plan are
right, wherever the chunks of its file end; the shards are its claims in order, and their accounts
are those of the plan. -/
theorem shardProofPlan_eq_ok
    (hbundle : bundle.version = 1 ∧ bundle.kind = "antseed-wash-trading-proof-bundle") :
    shardProofPlan parser bundle chunks = .ok shards ↔
      buildApprovedBatchSummary parser bundle plan = .ok shards.approved ∧
        shards.period = bundle.period ∧
        shards.entries = planShards plan.metadata 0 document.claims plan.claims := by
  constructor
  · exact summary_of_shardProofPlan hdescribes hadmissible hchunks hbundle
  · rintro ⟨hsummary, hperiod, hentries⟩
    exact shardProofPlan_of_summary hdescribes hadmissible hchunks hsummary hperiod hentries

end Written

private theorem summaryClaims_eq {documents : List Json} {claims : List BatchClaim}
    (h : List.Forall₂ (fun json claim => parser.claim json.stringify = .ok claim) documents claims)
    (ids : List B256) :
    documents.foldlM (fun ids json => summaryClaim parser ids json.stringify) ids =
      .ok (ids ++ claims.map (·.claimId)) := by
  induction h generalizing ids with
  | nil =>
    rw [List.map_nil, List.append_nil]
    rfl
  | @cons json claim documents claims hfirst _ ih =>
    have hclaim : summaryClaim parser ids json.stringify = .ok (ids ++ [claim.claimId]) := by
      rw [summaryClaim, hfirst]
      rfl
    rw [List.foldlM_cons, hclaim, ok_bind, ih, List.map_cons, List.append_assoc,
      List.singleton_append]

/-- The summary of a written plan has its fields and the ids of its claims, wherever the chunks of
its file end and whatever stands behind the claims. -/
theorem readProofPlanSummary_writePlan {document : PlanDocument} {plan : BatchPlan}
    (hdescribes : Describes parser document plan) {chunks : List (List Char)} {rest : List Char}
    (hchunks : chunks.flatten = writePlan document.fields document.claims (']' :: rest)) :
    readProofPlanSummary parser chunks = .ok
      ⟨{ plan.metadata with
        claimCount := some (plan.metadata.claimCount.getD plan.claims.length) },
        plan.claims.map (·.claimId)⟩ := by
  rw [readProofPlanSummary_eq, hchunks, PlanDocument.readText_writePlan, hdescribes.metadata,
    ok_bind, summaryClaims_eq hdescribes.claims]
  have hlength : (plan.claims.map (·.claimId)).length = plan.claims.length := List.length_map ..
  rw [← hlength]
  rfl

end Accounts

/-! ## Two claims with one settlement in common -/

section Texts

/-! The texts that the planner writes, as far as its readers read them; all numbers are natural. -/

/-- The fields of a settlement that its leaf is made of. -/
def sourceFields (source : SettlementSource) : List (JsString × Json) :=
  optionalField "transactionHash" source.transactionHash Canonical.hashValue ++
    optionalField "logIndex" source.logIndex (fun log => natJson log.toNat) ++
      optionalField "amountRaw" source.amountRaw fun amount =>
        textValue (Nat.toDigits 10 amount.toNat)

/-- The canonical text of the leaf that a settlement was taken from. -/
def leafText (source : SettlementSource) : List Char :=
  (Json.object (sourceFields source)).canonicalJson

/-- A record of evidence as a plan has it. -/
def evidenceJson (evidence : BatchEvidence) : Json :=
  .object ((key "evidenceType", textValue evidence.evidenceType.name.toList) ::
    optionalField "blockNumber" evidence.blockNumber natJson ++
      optionalField "transactionIndex" evidence.transactionIndex natJson ++
      optionalField "receiptLogIndex" evidence.receiptLogIndex (fun log => natJson log.toNat) ++
      sourceFields evidence.source ++
      optionalField "dependencyLeaf" evidence.dependencyLeaf textValue)

/-- The name that a claim has for its type. -/
def claimTypeText : ClaimType → String
  | .closedLoop => "P0_CLOSED_LOOP"
  | .reciprocal => "P0_RECIPROCAL"
  | .other name => name

/-- The fields of a claim that its readers read. -/
def claimFields (claim : BatchClaim) : List (JsString × Json) :=
  [(key "claimId", Canonical.hashValue claim.claimId),
    (key "type", textValue (claimTypeText claim.type).toList)] ++
      optionalField "selectedEvidence" claim.selectedEvidence fun selectedEvidence =>
        .array (selectedEvidence.map evidenceJson)

/-- The fields in front of the claims. -/
def metadataFields (metadata : PlanMetadata) : List (JsString × Json) :=
  [(key "version", natJson metadata.version), (key "kind", textValue metadata.kind.toList),
    (key "chainId", natJson metadata.chainId),
    (key "reportRoot", Canonical.hashValue metadata.reportRoot),
    (key "period", periodJson metadata.period)] ++
      optionalField "claimCount" metadata.claimCount natJson

instance (other : JsString) : Decidable (Json.Apart claimsKey other) :=
  inferInstanceAs (Decidable (¬ _))

/-- What holds of a field wherever it has a value holds of it where it may be left out. -/
theorem forall_optionalField {α : Type} {name : String} {value : Option α} {toJson : α → Json}
    {p : JsString × Json → Prop} (h : ∀ value, p (key name, toJson value)) :
    ∀ field ∈ optionalField name value toJson, p field := by
  intro field hfield
  rw [optionalField, Option.mem_toList] at hfield
  obtain ⟨found, -, rfl⟩ := Option.map_eq_some_iff.mp hfield
  exact h found

/-- No field of a plan in front of its claims goes under their key. -/
theorem metadataFields_apart (metadata : PlanMetadata) :
    Json.KeysApart claimsKey (.object (metadataFields metadata)) := by
  have hperiod : Json.KeysApart claimsKey (periodJson metadata.period) := by
    apply Json.KeysApart.object
    · simp only [List.forall_mem_cons, List.not_mem_nil, false_implies, implies_true, and_true]
      exact ⟨by decide, by decide⟩
    · simp only [List.forall_mem_cons, List.not_mem_nil, false_implies, implies_true, and_true]
      exact ⟨.number _, .number _⟩
  have hcount : Json.Apart claimsKey (key "claimCount") := by decide
  apply Json.KeysApart.object
  · simp only [metadataFields, List.forall_mem_append, List.forall_mem_cons, List.not_mem_nil,
      false_implies, implies_true, and_true]
    exact ⟨⟨by decide, by decide, by decide, by decide, by decide⟩,
      forall_optionalField fun _ => hcount⟩
  · simp only [metadataFields, List.forall_mem_append, List.forall_mem_cons, List.not_mem_nil,
      false_implies, implies_true, and_true]
    exact ⟨⟨.number _, .string _, .number _, .string _, hperiod⟩,
      forall_optionalField fun _ => .number _⟩

/-- A plan as the planner writes it. -/
def BatchPlan.document (plan : BatchPlan) : PlanDocument where
  fields := metadataFields plan.metadata
  claims := plan.claims.map fun claim => .object (claimFields claim)
  nonempty := List.cons_ne_nil _ _
  keys := metadataFields_apart plan.metadata
  objects := by
    intro json hjson
    obtain ⟨claim, _, rfl⟩ := List.mem_map.mp hjson
    exact ⟨_, rfl⟩

end Texts

/-- The fields of a plan for two claims. -/
def pairMetadata : PlanMetadata :=
  ⟨2, "antseed-wash-trading-proof-plan", 8453, 9, ⟨100, 200⟩, some 2⟩

/-- A settlement of 50 in the first log of a receipt. -/
def pairSource : SettlementSource := ⟨some 8, none, some 50⟩

/-- The settlement that both claims have. -/
def sharedSource : SettlementSource := ⟨some 7, none, some 100⟩

/-- A record of evidence with its leaf. -/
def pairEvidence (evidenceType : PlannedType) (source : SettlementSource) : BatchEvidence :=
  ⟨⟨⟨evidenceType, some 150, some 0⟩, none, none, none, none⟩, some (leafText source), some 0,
    source⟩

/-- A closed-loop claim with the shared settlement. -/
def pairLoop : BatchClaim := ⟨1, .closedLoop, some [pairEvidence .settlement sharedSource]⟩

/-- A reciprocal claim with the shared settlement and one of its own. -/
def pairReciprocal : BatchClaim :=
  ⟨2, .reciprocal, some [pairEvidence .reciprocalSettlement sharedSource,
    pairEvidence .reciprocalSettlement pairSource]⟩

/-- The plan of both claims. -/
def pairPlan : BatchPlan := ⟨pairMetadata, [pairLoop, pairReciprocal]⟩

/-- The bundle in which both claims are approved, in the other order. -/
def pairBundle : ApprovedBundle :=
  ⟨1, "antseed-wash-trading-proof-bundle", 8453, 9, ⟨100, 200⟩,
    [⟨2, .reciprocal, [21, 22], some 21, some 22, [], [], some ⟨none, none, some 100, some 50⟩,
        0, 0, []⟩,
      ⟨1, .closedLoop, [11], none, none, [], [], some ⟨some 100, none, none, none⟩, 0, 0, []⟩]⟩

/-- The platform reads the texts of the plan as what they were written from. -/
def pairParser : PlanParser where
  metadata text :=
    if text = pairPlan.document.bare.stringify then .ok pairMetadata else .error "JSON"
  claim text :=
    okOr (pairPlan.claims.find? fun claim => (Json.object (claimFields claim)).stringify = text)
      "JSON"
  leaf text := okOr ([sharedSource, pairSource].find? fun source => leafText source = text) "JSON"

/-- The reader reads what the file of the plan says. -/
theorem pairPlan_describes : Describes pairParser pairPlan.document pairPlan where
  metadata := by simp only [pairParser, pairPlan, if_true]
  claims := by
    refine .cons ?_ (.cons ?_ .nil)
    · decide +kernel
    · decide +kernel

/-- The file of the plan, in chunks of one character each. -/
def pairChunks : List (List Char) :=
  (writePlanFile pairPlan.document.fields pairPlan.document.claims).map fun char => [char]

/-- The chunks are those of the file. -/
theorem pairChunks_flatten :
    pairChunks.flatten =
      writePlan pairPlan.document.fields pairPlan.document.claims (']' :: "\x7d\n".toList) := by
  rw [pairChunks, ← List.flatMap_def, List.flatMap_singleton']
  rfl

/-- The shards that are written for the plan. -/
def pairShards : PlanShards :=
  ⟨planShards pairMetadata 0 pairPlan.document.claims pairPlan.claims, ⟨100, 200⟩,
    ⟨9, ⟨100, 200⟩, 2, 3, 100, 150, 150, 2⟩⟩

/-- Every claim of the plan may be written. -/
theorem pairPlan_admissible : ∀ claim ∈ pairPlan.claims, Admissible pairPlan.metadata claim := by
  intro claim hclaim
  simp only [pairPlan, List.mem_cons, List.not_mem_nil, or_false] at hclaim
  rcases hclaim with rfl | rfl <;> exact ⟨Option.some_ne_none _, by decide⟩

/-- The totals of the plan that is read as a whole. -/
theorem pairPlan_summary :
    buildApprovedBatchSummary pairParser pairBundle pairPlan = .ok pairShards.approved := by
  rfl

/-- The two claims are sharded character by character; the settlement they share is counted once. -/
theorem pair_sharded : shardProofPlan pairParser pairBundle pairChunks = .ok pairShards :=
  (shardProofPlan_eq_ok pairPlan_describes pairPlan_admissible pairChunks_flatten
    ⟨rfl, rfl⟩).mpr ⟨pairPlan_summary, rfl, rfl⟩

/-- The summary of its file, read in pieces of one character, has the ids of both claims. -/
theorem pair_summary : readProofPlanSummary pairParser pairChunks = .ok ⟨pairMetadata, [1, 2]⟩ :=
  readProofPlanSummary_writePlan pairPlan_describes pairChunks_flatten

/-- A file that stops within the text of its first claim is refused. -/
theorem pair_refused :
    (∃ error, shardProofPlan pairParser pairBundle
      [(writePlan pairPlan.document.fields pairPlan.document.claims []).take 60] = .error error) ∧
    ∃ error, readProofPlanSummary pairParser
      [(writePlan pairPlan.document.fields pairPlan.document.claims []).take 60] = .error error :=
  readers_refuse_cut pairParser pairBundle pairPlan.document (by
    rw [List.flatten_singleton]
    exact List.take_prefix 60 _)

end LoopProof.Proving
