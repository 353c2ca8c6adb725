import LoopProof.Proving.BlockBudget
import Mathlib.Data.List.ReduceOption

/-!
# The block budget of a planned claim

The host puts the last block of the period and the block of every record into a witness. The
generator counts the same blocks except those of the hops of relay paths, so its count is that of
the witness exactly where the hops add no block of their own.
-/

namespace LoopProof.Proving

/-! ## Records of a claim -/

section Records

variable {evidence : PlannedEvidence}

/-- The hops of a relay path that lists them. -/
def PlannedEvidence.hopRecords (evidence : PlannedEvidence) : List PlannedRecord :=
  if evidence.evidenceType = .relayPath then evidence.hops.getD [] else []

/-- The record itself, or the named parts of a relay path. -/
def PlannedEvidence.namedRecords (evidence : PlannedEvidence) : List PlannedRecord :=
  (countedEvidence evidence).reduceOption

/-- Evidence as the planner selects it. -/
structure PlannedEvidence.WellFormed (evidence : PlannedEvidence) : Prop where
  /-- A relay path lists its hops or names its parts. -/
  oneForm : evidence.evidenceType = .relayPath → evidence.hops ≠ none →
    evidence.sellerPayment = none ∧ evidence.relayForward = none ∧ evidence.funderReceipt = none
  /-- Block numbers come from RPC answers, which are refused when they are unsafe. -/
  safe : ∀ entry ∈ atomicEvidence evidence, ∀ block, entry.blockNumber = some block →
    block ≤ maxSafeInteger

/-- The atomic evidence is made of the hops and the named records. -/
theorem mem_atomicEvidence (h : evidence.WellFormed) {entry : PlannedRecord} :
    entry ∈ atomicEvidence evidence ↔
      entry ∈ evidence.hopRecords ∨ entry ∈ evidence.namedRecords := by
  unfold atomicEvidence PlannedEvidence.hopRecords PlannedEvidence.namedRecords countedEvidence
  by_cases hpath : evidence.evidenceType = .relayPath
  · rw [if_neg (not_not.mpr hpath), if_pos hpath, if_pos hpath]
    cases hhops : evidence.hops with
    | none => simp
    | some hops =>
      have hnone := h.oneForm hpath (by simp [hhops])
      simp [hnone.1, hnone.2.1, hnone.2.2]
  · rw [if_pos hpath, if_neg hpath, if_neg hpath]
    simp

end Records

/-! ## The blocks of a witness -/

section Targets

variable {targets targets' : Targets} {entry : PlannedRecord} {block : ℕ}

/-- One record adds its block, and no other one. -/
theorem mem_addTarget (h : addTarget targets entry = .ok targets') :
    block ∈ targets' ↔ block ∈ targets ∨ entry.blockNumber = some block := by
  simp only [addTarget, required, bind_eq_ok, okOr_eq_ok, pure_eq_ok] at h
  obtain ⟨number, hnumber, _, _, rfl⟩ := h
  rw [Std.ExtTreeMap.mem_insert, compare_eq_iff_eq, hnumber, Option.some_inj, or_comm]

/-- The targets of several records have their blocks. -/
theorem mem_foldlM_addTarget {entries : List PlannedRecord}
    (h : entries.foldlM addTarget targets = .ok targets') :
    block ∈ targets' ↔ block ∈ targets ∨ ∃ entry ∈ entries, entry.blockNumber = some block := by
  induction entries generalizing targets with
  | nil =>
    rw [List.foldlM_nil, pure_eq_ok] at h
    simp [h]
  | cons entry entries ih =>
    rw [List.foldlM_cons, bind_eq_ok] at h
    obtain ⟨next, hnext, hrest⟩ := h
    rw [ih hrest, mem_addTarget hnext, List.exists_mem_cons_iff, or_assoc]

/-- The blocks that are materialized. -/
theorem mem_blockTargets {evidence : List PlannedEvidence} {periodEndBlock : ℕ}
    (h : blockTargets evidence periodEndBlock = .ok targets) :
    block ∈ targets ↔ block = periodEndBlock ∨
      ∃ entry ∈ evidence.flatMap atomicEvidence, entry.blockNumber = some block := by
  rw [mem_foldlM_addTarget h, Std.ExtTreeMap.mem_insert, compare_eq_iff_eq]
  simp [eq_comm]

end Targets

section Witness

variable {blockEvidence : Target → Except String (EvidenceBlock × List (ℕ × ℕ))}
  {evidence : List PlannedEvidence} {periodEndBlock : ℕ} {witness : MaterializedEvidence}

private theorem length_foldl_pushBlock (materialized : MaterializedEvidence)
    (fetched : List (Target × EvidenceBlock × List (ℕ × ℕ))) :
    (fetched.foldl pushBlock materialized).blocks.length =
      materialized.blocks.length + fetched.length := by
  induction fetched generalizing materialized with
  | nil => rfl
  | cons first rest ih =>
    rw [List.foldl_cons, ih, List.length_cons]
    simp only [pushBlock, List.length_append, List.length_singleton]
    omega

/-- A witness has each block that its evidence needs once. -/
theorem length_blocks
    (h : materializeEvidence blockEvidence evidence periodEndBlock = .ok witness) :
    witness.blocks.length = (insert periodEndBlock
      ((evidence.flatMap atomicEvidence).filterMap (·.blockNumber)).toFinset).card := by
  simp only [materializeEvidence, bind_eq_ok, pure_eq_ok] at h
  obtain ⟨targets, htargets, fetched, hfetched, rfl⟩ := h
  have hlength := (mapM_eq_ok.mp hfetched).length_eq
  have hkeys : targets.keys.toFinset = insert periodEndBlock
      ((evidence.flatMap atomicEvidence).filterMap (·.blockNumber)).toFinset := by
    ext block
    rw [List.mem_toFinset, Std.ExtTreeMap.mem_keys, mem_blockTargets htargets]
    simp
  have hnodup : targets.keys.Nodup := Std.ExtTreeMap.nodup_keys
  rw [length_foldl_pushBlock, List.length_zip, ← hlength, min_self, ← hkeys,
    List.toFinset_card_of_nodup hnodup, Std.ExtTreeMap.length_keys]
  simp [listTargets]

end Witness

/-! ## The count -/

section Count

variable {claim : PlannedClaim} {periodEndBlock : ℕ}

/-- The last block of the period, and the blocks of the records that are not hops. -/
def namedBlocks (claim : PlannedClaim) (periodEndBlock : ℕ) : Finset ℕ :=
  insert periodEndBlock ((claim.selectedEvidence.flatMap
    PlannedEvidence.namedRecords).filterMap (·.blockNumber)).toFinset

private theorem mem_insert_blocks {records : List PlannedRecord} {block : ℕ} :
    block ∈ insert periodEndBlock (records.filterMap (·.blockNumber)).toFinset ↔
      block = periodEndBlock ∨ ∃ record ∈ records, record.blockNumber = some block := by
  rw [Finset.mem_insert, List.mem_toFinset, List.mem_filterMap]

/-- The records of a claim are its hops and the records that are not hops. -/
private theorem exists_atomicEvidence_iff
    (h : ∀ evidence ∈ claim.selectedEvidence, evidence.WellFormed) {block : ℕ} :
    (∃ entry ∈ claim.selectedEvidence.flatMap atomicEvidence, entry.blockNumber = some block) ↔
      (∃ hop ∈ claim.selectedEvidence.flatMap PlannedEvidence.hopRecords,
          hop.blockNumber = some block) ∨
        ∃ entry ∈ claim.selectedEvidence.flatMap PlannedEvidence.namedRecords,
          entry.blockNumber = some block := by
  simp only [List.mem_flatMap]
  constructor
  · rintro ⟨entry, ⟨evidence, hevidence, hentry⟩, hblock⟩
    rcases (mem_atomicEvidence (h evidence hevidence)).mp hentry with hhop | hnamed
    · exact .inl ⟨entry, ⟨evidence, hevidence, hhop⟩, hblock⟩
    · exact .inr ⟨entry, ⟨evidence, hevidence, hnamed⟩, hblock⟩
  · rintro (⟨entry, ⟨evidence, hevidence, hhop⟩, hblock⟩ |
      ⟨entry, ⟨evidence, hevidence, hnamed⟩, hblock⟩)
    · exact ⟨entry, ⟨evidence, hevidence,
        (mem_atomicEvidence (h evidence hevidence)).mpr (.inl hhop)⟩, hblock⟩
    · exact ⟨entry, ⟨evidence, hevidence,
        (mem_atomicEvidence (h evidence hevidence)).mpr (.inr hnamed)⟩, hblock⟩

/-- The records whose blocks are counted are those that are not hops. -/
theorem exists_countedBlock_iff (h : ∀ evidence ∈ claim.selectedEvidence, evidence.WellFormed)
    {block : ℕ} :
    (∃ entry ∈ claim.selectedEvidence.flatMap countedEvidence, countedBlock entry = some block) ↔
      ∃ entry ∈ claim.selectedEvidence.flatMap PlannedEvidence.namedRecords,
        entry.blockNumber = some block := by
  simp only [List.mem_flatMap, PlannedEvidence.namedRecords, List.reduceOption_mem_iff,
    countedBlock, Option.filter_eq_some_iff, Option.bind_eq_some_iff, decide_eq_true_eq]
  constructor
  · rintro ⟨_, hmem, ⟨entry, rfl, hblock⟩, _⟩
    exact ⟨entry, hmem, hblock⟩
  · rintro ⟨entry, ⟨evidence, hevidence, hentry⟩, hblock⟩
    have hsafe : block ≤ maxSafeInteger := by
      apply (h evidence hevidence).safe entry _ block hblock
      rw [mem_atomicEvidence (h evidence hevidence)]
      exact .inr (List.reduceOption_mem_iff.mpr hentry)
    exact ⟨some entry, ⟨evidence, hevidence, hentry⟩, ⟨entry, rfl, hblock⟩, hsafe⟩

/-- The script counts the named blocks. -/
theorem count_eq_card (h : ∀ evidence ∈ claim.selectedEvidence, evidence.WellFormed) :
    countClaimMaterializationBlocks claim periodEndBlock =
      (namedBlocks claim periodEndBlock).card := by
  rw [countClaimMaterializationBlocks, ← List.card_toFinset, List.toFinset_cons, namedBlocks]
  congr 2
  ext block
  simp only [List.mem_toFinset, List.mem_filterMap]
  exact exists_countedBlock_iff h

/-- Every hop lies in the last block of the period or in a block of a record that is no hop. -/
def HopsShareBlocks (claim : PlannedClaim) (periodEndBlock : ℕ) : Prop :=
  ∀ hop ∈ claim.selectedEvidence.flatMap PlannedEvidence.hopRecords, ∀ block,
    hop.blockNumber = some block → block ∈ namedBlocks claim periodEndBlock

/-- The generator counts the blocks of the witness, and refuses the claims whose witness has more
than the guest takes. -/
structure CountsWitness (claim : PlannedClaim) (periodEndBlock : ℕ)
    (witness : MaterializedEvidence) : Prop where
  count : countClaimMaterializationBlocks claim periodEndBlock = witness.blocks.length
  rejects : (∃ error, validateClaimMaterializationBlocks claim periodEndBlock
    maxPredicateBlockRefs = .error error) ↔ maxBlockRefs < witness.blocks.length

/-- A claim is refused if it has too many blocks. -/
theorem validate_error_iff {maximum : ℕ} :
    (∃ error, validateClaimMaterializationBlocks claim periodEndBlock maximum = .error error) ↔
      maximum < countClaimMaterializationBlocks claim periodEndBlock := by
  simp only [validateClaimMaterializationBlocks, bind_eq_error, ensure_eq_error]
  constructor
  · rintro ⟨_, ⟨hlt, _⟩ | ⟨_, _, hok⟩⟩
    · exact not_le.mp hlt
    · cases hok
  · intro hlt
    exact ⟨_, .inl ⟨not_le.mpr hlt, rfl⟩⟩

/-- The generator counts the blocks of the witness if and only if no hop adds a block. -/
theorem countsWitness_iff
    {blockEvidence : Target → Except String (EvidenceBlock × List (ℕ × ℕ))}
    {witness : MaterializedEvidence}
    (hclaim : ∀ evidence ∈ claim.selectedEvidence, evidence.WellFormed)
    (hwitness : materializeEvidence blockEvidence claim.selectedEvidence periodEndBlock =
      .ok witness) :
    CountsWitness claim periodEndBlock witness ↔ HopsShareBlocks claim periodEndBlock := by
  have hlength : witness.blocks.length = _ := length_blocks hwitness
  generalize hmaterialized : insert periodEndBlock ((claim.selectedEvidence.flatMap
    atomicEvidence).filterMap (·.blockNumber)).toFinset = materialized at hlength
  have hmem {block : ℕ} : block ∈ materialized ↔ block ∈ namedBlocks claim periodEndBlock ∨
      ∃ hop ∈ claim.selectedEvidence.flatMap PlannedEvidence.hopRecords,
        hop.blockNumber = some block := by
    rw [← hmaterialized, mem_insert_blocks, exists_atomicEvidence_iff hclaim, namedBlocks,
      mem_insert_blocks, or_assoc, or_comm (a := ∃ hop ∈ _, _)]
  have hsubset : namedBlocks claim periodEndBlock ⊆ materialized := by
    intro block hblock
    exact hmem.mpr (.inl hblock)
  constructor
  · intro hcounts hop hhop block hblock
    have heq : namedBlocks claim periodEndBlock = materialized := by
      apply Finset.eq_of_subset_of_card_le hsubset
      rw [← hlength, ← hcounts.count, count_eq_card hclaim]
    rw [heq]
    exact hmem.mpr (.inr ⟨hop, hhop, hblock⟩)
  · intro hshare
    have heq : namedBlocks claim periodEndBlock = materialized := by
      apply hsubset.antisymm
      intro block hblock
      rcases hmem.mp hblock with hblock | ⟨hop, hhop, hblock⟩
      · exact hblock
      · exact hshare hop hhop block hblock
    have hcount : countClaimMaterializationBlocks claim periodEndBlock =
        witness.blocks.length := by
      rw [count_eq_card hclaim, heq, hlength]
    constructor
    · exact hcount
    · rw [validate_error_iff, hcount]
      rfl

end Count

section Example

private def record (evidenceType : PlannedType) (blockNumber : ℕ) : PlannedRecord :=
  ⟨evidenceType, some blockNumber, some 0⟩

/-- A settlement in block 10, and a return through a relay in the two given blocks. -/
private def returnClaim (payment receipt : ℕ) : PlannedClaim :=
  ⟨1, [⟨record .settlement 10, none, none, none, none⟩,
    ⟨⟨.relayPath, none, none⟩, none, none, none,
      some [record .relaySellerPayment payment, record .relayFunderReceipt receipt]⟩]⟩

/-- An endpoint that serves every block empty. -/
private def emptyBlock (target : Target) : Except String (EvidenceBlock × List (ℕ × ℕ)) :=
  .ok (⟨⟨Fin.ofNat _ target.blockNumber, 0, 0, 0, 0, []⟩, [], []⟩, [])

private theorem materializes (payment receipt : ℕ) :
    ∃ witness, materializeEvidence emptyBlock (returnClaim payment receipt).selectedEvidence 19 =
      .ok witness := by
  simp only [materializeEvidence, bind_eq_ok, pure_eq_ok, mapM_eq_ok]
  obtain ⟨fetched, hfetched⟩ :=
    @exists_forall₂ _ _ (fun target block => emptyBlock target = .ok block)
    _ fun target _ => ⟨_, rfl⟩
  exact ⟨_, _, rfl, fetched, hfetched, rfl⟩

private theorem returnClaim_wellFormed {payment receipt : ℕ} (hpayment : payment ≤ maxSafeInteger)
    (hreceipt : receipt ≤ maxSafeInteger) :
    ∀ evidence ∈ (returnClaim payment receipt).selectedEvidence, evidence.WellFormed := by
  intro evidence hevidence
  simp only [returnClaim, List.mem_cons, List.not_mem_nil, or_false] at hevidence
  rcases hevidence with rfl | rfl
  · constructor
    · intro hpath
      cases hpath
    · simp [atomicEvidence, record, maxSafeInteger]
  · constructor
    · intro _ _
      exact ⟨rfl, rfl, rfl⟩
    · simp [atomicEvidence, record, hpayment, hreceipt]

/-- Hops in two blocks of their own are two blocks that are not counted. -/
theorem ownBlocks_not_countsWitness :
    ∃ witness, materializeEvidence emptyBlock (returnClaim 11 12).selectedEvidence 19 =
      .ok witness ∧ countClaimMaterializationBlocks (returnClaim 11 12) 19 = 2 ∧
        ¬ CountsWitness (returnClaim 11 12) 19 witness := by
  obtain ⟨witness, hwitness⟩ := materializes 11 12
  refine ⟨witness, hwitness, by decide, fun hcounts => ?_⟩
  have hcount := hcounts.count
  rw [length_blocks hwitness] at hcount
  exact absurd hcount (by decide)

/-- Hops in the block of the settlement and in the last block are counted. -/
theorem sharedBlocks_countsWitness :
    ∃ witness, materializeEvidence emptyBlock (returnClaim 10 19).selectedEvidence 19 =
      .ok witness ∧ CountsWitness (returnClaim 10 19) 19 witness := by
  obtain ⟨witness, hwitness⟩ := materializes 10 19
  refine ⟨witness, hwitness, ?_⟩
  rw [countsWitness_iff (returnClaim_wellFormed (by decide) (by decide)) hwitness]
  simp [HopsShareBlocks, namedBlocks, PlannedEvidence.hopRecords, PlannedEvidence.namedRecords,
    countedEvidence, returnClaim, record, List.reduceOption]

end Example

end LoopProof.Proving
