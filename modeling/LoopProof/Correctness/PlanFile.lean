import LoopProof.Correctness.PlanStream

/-!
# Written plan files

The marker of the claims stands once in front of them, so both readers find the fields and the
claims of a written plan. What they say depends on the text of the file alone, and a file that
stops in front of the end of its claims is refused.
-/

namespace LoopProof.Proving

open Canonical (key)

variable {μ σ : Type}

/-! ## Written plans -/

/-- A plan as it is written: it has fields in front of its claims, none of their keys is taken for
that of the claims, and every claim is an object. -/
structure PlanDocument where
  fields : List (JsString × Json)
  claims : List Json
  nonempty : fields ≠ []
  keys : Json.KeysApart claimsKey (.object fields)
  objects : ∀ claim ∈ claims, ∃ entries, claim = .object entries

/-- The marker is that of the key of the claims. -/
theorem claimsMarker_eq : claimsMarker = Json.arrayMarker claimsKey := rfl

/-- The key of the claims leads its marker. -/
theorem leads_claimsKey : Json.Leads claimsKey := by
  have hhead : (JsString.quoteUnits claimsKey ++ ['"']).head? = some 'c' := rfl
  intro char hchar
  rw [hhead]
  simp only [List.mem_cons, List.not_mem_nil, or_false] at hchar
  rcases hchar with rfl | rfl | rfl | rfl <;> simp

/-- The text of an object without its closing brace. -/
theorem dropLast_object (entries : List (JsString × Json)) :
    (Json.object entries).stringify.dropLast =
      '{' :: Json.commaJoin (entries.map Json.stringifyEntry) := by
  rw [Json.stringify_object, ← List.cons_append, List.dropLast_concat]

private theorem writeClaims_tail (claims : List Json) (k : ℕ) :
    ((claims.zipIdx (k + 1)).flatMap fun entry =>
      (if 0 < entry.2 then [','] else []) ++ entry.1.stringify) =
        (claims.map Json.stringify).flatMap (',' :: ·) := by
  induction claims generalizing k with
  | nil => rfl
  | cons claim claims ih =>
    rw [List.zipIdx_cons, List.flatMap_cons, ih, List.map_cons, List.flatMap_cons,
      if_pos (Nat.succ_pos k)]
    rfl

/-- The claims are written with commas in between. -/
theorem writeClaims_eq (claims : List Json) :
    writeClaims claims = Json.commaJoin (claims.map Json.stringify) := by
  cases claims with
  | nil => rfl
  | cons claim claims =>
    rw [writeClaims, List.zipIdx_cons, List.flatMap_cons, writeClaims_tail]
    rfl

/-- The text of an object with one more entry. -/
theorem stringify_object_concat {entries : List (JsString × Json)} (h : entries ≠ [])
    (entry : JsString × Json) :
    (Json.object (entries ++ [entry])).stringify =
      (Json.object entries).stringify.dropLast ++ ',' :: (Json.stringifyEntry entry ++ ['}']) := by
  have hmap : entries.map Json.stringifyEntry ≠ [] := by simpa using h
  rw [dropLast_object, Json.stringify_object, List.map_append, Json.commaJoin_append hmap]
  simp

namespace PlanDocument

variable (document : PlanDocument)

/-- What stands in front of the claims. -/
def head : List Char := '{' :: (Json.commaJoin (document.fields.map Json.stringifyEntry) ++ [','])

/-- The plan without its claims, as a reader reads it. -/
def bare : Json := .object (document.fields ++ [(claimsKey, .array [])])

/-- A plan is its head, the marker, its claims and the rest. -/
theorem writePlan_eq (rest : List Char) :
    writePlan document.fields document.claims rest =
      document.head ++ (claimsMarker ++
        (Json.commaJoin (document.claims.map Json.stringify) ++ rest)) := by
  rw [writePlan, dropLast_object, writeClaims_eq, head]
  simp only [List.cons_append, List.append_assoc, List.nil_append]

/-- The head with no claims is the plan without its claims. -/
theorem head_bare : document.head ++ "\"claims\":[]\x7d".toList = document.bare.stringify := by
  rw [bare, stringify_object_concat document.nonempty, dropLast_object, head]
  have hentry : Json.stringifyEntry (claimsKey, .array []) ++ ['}'] =
      "\"claims\":[]\x7d".toList := by decide
  rw [hentry]
  simp only [List.cons_append, List.append_assoc, List.nil_append]

/-- The marker is found right behind the head. -/
theorem indexOf_writePlan (rest : List Char) :
    indexOf claimsMarker (document.head ++ (claimsMarker ++ rest)) = some document.head.length := by
  rw [claimsMarker_eq]
  exact Json.indexOf_arrayMarker leads_claimsKey document.keys rest

variable {start : List Char → Except String μ} {accept : μ → σ → List Char → Except String σ}
  {accounts : σ}

/-- What is read of a text that goes on behind the start of the claims. -/
theorem readText_head (rest : List Char) :
    readText start accept accounts (document.head ++ (claimsMarker ++ rest)) = do
      let metadata ← start document.bare.stringify
      let scan ← ObjectScan.readAll (accept metadata) (.start accounts) rest
      return some (metadata, scan) := by
  have htake : (document.head ++ (claimsMarker ++ rest)).take document.head.length =
      document.head := List.take_left
  have hdrop : (document.head ++ (claimsMarker ++ rest)).drop
      (document.head.length + claimsMarker.length) = rest := by
    rw [← List.append_assoc, ← List.length_append, List.drop_left]
  rw [readText, indexOf_writePlan]
  simp only [htake, hdrop, head_bare]

/-- Reading a written plan is reading its fields and then its claims in order. -/
theorem readText_writePlan (rest : List Char) :
    readText start accept accounts (writePlan document.fields document.claims (']' :: rest)) = do
      let metadata ← start document.bare.stringify
      let accounts ← document.claims.foldlM
        (fun accounts claim => accept metadata accounts claim.stringify) accounts
      return some (metadata, .complete accounts) := by
  rw [writePlan_eq, readText_head]
  cases start document.bare.stringify with
  | error error => rfl
  | ok metadata =>
    rw [ok_bind, ok_bind, ObjectScan.readAll_array document.claims document.objects]
    cases document.claims.foldlM
      (fun accounts claim => accept metadata accounts claim.stringify) accounts <;> rfl

/-- No text that stops in front of the closing bracket has its claims complete. -/
theorem not_ended_of_cut {cut : List Char}
    (hcut : cut <+: writePlan document.fields document.claims []) {metadata : μ}
    {scan : ObjectScan σ} (h : readText start accept accounts cut = .ok (some (metadata, scan))) :
    scan.ended = false := by
  obtain ⟨more, hmore⟩ := hcut
  rw [writePlan_eq, List.append_nil] at hmore
  cases hindex : indexOf claimsMarker cut with
  | none =>
    rw [readText, hindex] at h
    cases h
  | some markerIndex =>
    have hwhole := indexOf_append hindex more
    rw [hmore, indexOf_writePlan] at hwhole
    obtain ⟨rest, hrest, hle⟩ := indexOf_eq_some hindex
    have hhead : cut.take markerIndex = document.head := by
      have htake := congrArg (List.take markerIndex) hmore
      rw [List.take_append_of_le_length hle, ← Option.some.inj hwhole, List.take_left] at htake
      rw [← Option.some.inj hwhole]
      exact htake
    rw [hhead] at hrest
    rw [hrest, List.append_assoc, List.append_assoc, List.append_cancel_left_eq,
      List.append_cancel_left_eq] at hmore
    rw [hrest, readText_head] at h
    obtain ⟨metadata', _, h⟩ := bind_eq_ok.mp h
    obtain ⟨scan', hscan, h⟩ := bind_eq_ok.mp h
    obtain ⟨-, rfl⟩ := Prod.mk.inj (Option.some.inj (Except.ok.inj h))
    exact ObjectScan.not_ended_of_prefix document.claims document.objects ⟨more, hmore⟩ hscan

end PlanDocument

/-- Both writers close the claims with a bracket. -/
theorem writers_close (fields : List (JsString × Json)) (claims : List Json) (selection : Json) :
    (∃ rest, writePlanFile fields claims = writePlan fields claims (']' :: rest)) ∧
      ∃ rest, writeReconstructedPlan fields claims selection =
        writePlan fields claims (']' :: rest) :=
  ⟨⟨"\x7d\n".toList, rfl⟩, ⟨",\"evidenceBlockSelection\":".toList ++ selection.stringify ++
    "\x7d\n".toList, rfl⟩⟩

/-! ## The two readers -/

section Readers

variable (parser : PlanParser) (bundle : ApprovedBundle)

/-- The shards of what is in a text. -/
def finishFound (found : Option (PlanMetadata × ObjectScan ShardState)) :
    Except String PlanShards := do
  let (metadata, scan) ← okOr found "incomplete proof plan JSON"
  ensure (scan.ended = true ∧ scan.depth = 0) "incomplete proof plan JSON"
  let entries := scan.state.entries
  ensure (entries.length = bundle.claims.length ∧
      scan.state.seenIds.dedup.length = bundle.claims.length)
    s!"partial proof plan: expected {bundle.claims.length} claims, received {entries.length}"
  ensure (metadata.claimCount = some entries.length) "proof plan claim count mismatch"
  return ⟨entries, metadata.period, finishBatchAccumulator bundle scan.state.accumulator⟩

/-- The summary of what is in a text. -/
def summaryFound (found : Option (PlanMetadata × ObjectScan (List B256))) :
    Except String PlanSummary := do
  let (metadata, scan) ← okOr found "proof plan is incomplete"
  ensure (scan.ended = true) "proof plan is incomplete"
  return ⟨{ metadata with claimCount := some (metadata.claimCount.getD scan.state.length) },
    scan.state⟩

/-- The shards depend on what was found alone. -/
theorem finishShards_eq (s : PlanStream PlanMetadata ShardState) :
    finishShards bundle s = finishFound bundle s.found := by
  rcases s with ⟨scan, pending, _ | metadata⟩ <;> rfl

/-- The summary depends on what was found alone. -/
theorem finishSummary_eq (s : PlanStream PlanMetadata (List B256)) :
    finishSummary s = summaryFound s.found := by
  rcases s with ⟨scan, pending, _ | metadata⟩ <;> rfl

/-- The shards depend on the text alone. -/
theorem shardProofPlan_eq (chunks : List (List Char)) :
    shardProofPlan parser bundle chunks =
      readText (shardMetadata parser bundle) (shardClaim parser bundle)
        ⟨[], [], createBatchAccumulator⟩ chunks.flatten >>= finishFound bundle := by
  have hfound := readChunks_found (read_initial (shardMetadata parser bundle)
    (shardClaim parser bundle) ⟨[], [], createBatchAccumulator⟩) chunks
  rw [List.nil_append] at hfound
  rw [← hfound, shardProofPlan]
  cases readChunks (shardMetadata parser bundle) (shardClaim parser bundle)
    (.initial ⟨[], [], createBatchAccumulator⟩) chunks with
  | error error => rfl
  | ok s => exact finishShards_eq bundle s

/-- The summary depends on the text alone. -/
theorem readProofPlanSummary_eq (chunks : List (List Char)) :
    readProofPlanSummary parser chunks =
      readText parser.metadata (fun _ => summaryClaim parser) [] chunks.flatten >>=
        summaryFound := by
  have hfound := readUntilEnd_found
    (read_initial parser.metadata (fun _ => summaryClaim parser) []) chunks
  rw [List.nil_append] at hfound
  rw [← hfound, readProofPlanSummary]
  cases readUntilEnd parser.metadata (fun _ => summaryClaim parser) (.initial []) chunks with
  | error error => rfl
  | ok s => exact finishSummary_eq s

/-- Wherever the chunks of a file end, its readers say what they say of the whole file, of any text
and with the same error. -/
theorem readers_whole_file (chunks : List (List Char)) :
    shardProofPlan parser bundle chunks = shardProofPlan parser bundle [chunks.flatten] ∧
      readProofPlanSummary parser chunks = readProofPlanSummary parser [chunks.flatten] := by
  simp only [shardProofPlan_eq, readProofPlanSummary_eq, List.flatten_singleton, and_self]

/-- A plan file that stops anywhere in front of the closing bracket of its claims is refused, for
every bundle and however it is read. -/
theorem readers_refuse_cut (document : PlanDocument) {chunks : List (List Char)}
    (hcut : chunks.flatten <+: writePlan document.fields document.claims []) :
    (∃ error, shardProofPlan parser bundle chunks = .error error) ∧
      ∃ error, readProofPlanSummary parser chunks = .error error := by
  rw [shardProofPlan_eq, readProofPlanSummary_eq]
  constructor
  · cases hread : readText (shardMetadata parser bundle) (shardClaim parser bundle)
      ⟨[], [], createBatchAccumulator⟩ chunks.flatten with
    | error error => exact ⟨error, rfl⟩
    | ok found =>
      cases found with
      | none => exact ⟨_, rfl⟩
      | some read =>
        have hended := document.not_ended_of_cut hcut hread
        refine ⟨"incomplete proof plan JSON", ?_⟩
        simp [finishFound, okOr, hended, ensure, Except.bind, bind]
  · cases hread : readText parser.metadata (fun _ => summaryClaim parser) [] chunks.flatten with
    | error error => exact ⟨error, rfl⟩
    | ok found =>
      cases found with
      | none => exact ⟨_, rfl⟩
      | some read =>
        have hended := document.not_ended_of_cut hcut hread
        refine ⟨"proof plan is incomplete", ?_⟩
        simp [summaryFound, okOr, hended, ensure, Except.bind, bind]

end Readers

end LoopProof.Proving
