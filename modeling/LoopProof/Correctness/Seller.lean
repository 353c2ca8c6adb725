import LoopProof.Correctness.Authentication
import LoopProof.Correctness.Evidence
import LoopProof.Lib.OrderedMap

/-!
# The seller verifier

The loops over the claim fill two ordered maps. Each map holds exactly the entries it was
given, so the result of the verifier is a function of the two sets of entries.
-/

namespace LoopProof

/-! ## Settlement records -/

section Records

/-- The unbounded sum of the recorded amounts. -/
def recordedTotal (records : List SettlementRecord) : ℕ := (records.map (·.amount.val)).sum

/-- The entry a record leaves in the map. -/
def SettlementRecord.entry (r : SettlementRecord) : B256 × U128 := (r.settlementId, r.amount)

/-- Records the loop can have accepted together. -/
structure RecordsOk (records : List SettlementRecord) : Prop where
  distinct : (records.map (·.settlementId)).Nodup
  nonzero : ∀ r ∈ records, r.settlementId ≠ 0 ∧ r.amount ≠ 0
  fits : recordedTotal records < 2 ^ 128

/-- The loop state holds the sum and the entries of the records. -/
structure RecordState (state : U128 × SettlementMap) (records : List SettlementRecord) : Prop where
  total : state.1.val = recordedTotal records
  held : Holds state.2 (records.map (·.entry))

/-- A further record adds to the total. -/
theorem recordedTotal_concat (records : List SettlementRecord) (r : SettlementRecord) :
    recordedTotal (records ++ [r]) = recordedTotal records + r.amount.val := by
  rw [recordedTotal, List.map_append, List.sum_append, List.map_singleton, List.sum_singleton]
  rfl

/-- A further record must be new, positive and within the range. -/
theorem recordsOk_concat {records : List SettlementRecord} {r : SettlementRecord} :
    RecordsOk (records ++ [r]) ↔ RecordsOk records ∧
      r.settlementId ∉ records.map (·.settlementId) ∧ (r.settlementId ≠ 0 ∧ r.amount ≠ 0) ∧
      recordedTotal records + r.amount.val < 2 ^ 128 := by
  constructor
  · rintro ⟨hd, hn, hf⟩
    rw [nodup_map_concat] at hd
    rw [List.forall_mem_append, List.forall_mem_singleton] at hn
    rw [recordedTotal_concat] at hf
    exact ⟨⟨hd.1, hn.1, by omega⟩, hd.2, hn.2, hf⟩
  · rintro ⟨⟨hd, hn, _⟩, hnew, hr, hf⟩
    refine ⟨?_, ?_, ?_⟩
    · exact nodup_map_concat.mpr ⟨hd, hnew⟩
    · rw [List.forall_mem_append, List.forall_mem_singleton]
      exact ⟨hn, hr⟩
    · rwa [recordedTotal_concat]

/-- An identifier is a key of the map exactly when some record carries it. -/
theorem RecordState.mem_iff {total : U128} {map : SettlementMap} {records : List SettlementRecord}
    (h : RecordState (total, map) records) {id : B256} :
    id ∈ map ↔ id ∈ records.map (·.settlementId) := by
  rw [h.held.mem_iff]
  simp only [List.mem_map, SettlementRecord.entry, Prod.mk.injEq]
  constructor
  · rintro ⟨_, r, hr, rfl, rfl⟩
    exact ⟨r, hr, rfl⟩
  · rintro ⟨r, hr, rfl⟩
    exact ⟨r.amount, r, hr, rfl, rfl⟩

/-- The record loop refines the growing list of records. -/
theorem recordStep_refines :
    StepRefines recordStep Eq RecordsOk RecordState where
  sound := by
    rintro ⟨total, map⟩ done r s' hok hstate hstep
    simp only [recordStep, bind_eq_ok, ensure_eq_ok, okOr_eq_ok, checkedAdd_eq_some,
      pure_eq_ok] at hstep
    obtain ⟨_, hr, total', htotal, _, hnew, rfl⟩ := hstep
    have hsum : total'.val = recordedTotal done + r.amount.val := by rw [htotal, hstate.total]
    rw [hstate.mem_iff] at hnew
    refine ⟨r, rfl, recordsOk_concat.mpr ⟨hok, hnew, hr, hsum ▸ total'.isLt⟩, ?_, ?_⟩
    · rw [recordedTotal_concat]
      exact hsum
    · rw [List.map_append, List.map_singleton]
      refine hstate.held.insert fun amount hmem => ?_
      obtain ⟨r', hr', heq⟩ := List.mem_map.mp hmem
      exact absurd (List.mem_map.mpr ⟨r', hr', congrArg Prod.fst heq⟩) hnew
  complete := by
    rintro ⟨total, map⟩ done r _ hstate rfl hok
    obtain ⟨_, hnew, hr, hfits⟩ := recordsOk_concat.mp hok
    obtain ⟨total', htotal⟩ : ∃ total' : U128, total'.val = total.val + r.amount.val := by
      have hval : total.val = recordedTotal done := hstate.total
      exact ⟨⟨total.val + r.amount.val, by rw [hval]; exact hfits⟩, rfl⟩
    refine ⟨(total', map.insert r.settlementId r.amount), ?_, ?_, ?_⟩
    · simp only [recordStep, bind_eq_ok, ensure_eq_ok, okOr_eq_ok, checkedAdd_eq_some, pure_eq_ok]
      exact ⟨(), hr, total', htotal, (), by rw [hstate.mem_iff]; exact hnew, rfl⟩
    · rw [recordedTotal_concat, ← hstate.total]
      exact htotal
    · rw [List.map_append, List.map_singleton]
      refine hstate.held.insert fun amount hmem => ?_
      obtain ⟨r', hr', heq⟩ := List.mem_map.mp hmem
      exact absurd (List.mem_map.mpr ⟨r', hr', congrArg Prod.fst heq⟩) hnew
  prefix_closed := fun h => (recordsOk_concat.mp h).1

end Records

/-! ## Block references -/

section References

/-- References the loop can have accepted together: nonzero and consistent. -/
structure RefsOk (refs : List (U64 × B256)) : Prop where
  nonzero : ∀ r ∈ refs, r.2 ≠ 0
  agree : ∀ r ∈ refs, ∀ r' ∈ refs, r.1 = r'.1 → r.2 = r'.2

/-- A further reference must agree with those before it. -/
theorem refsOk_concat {refs : List (U64 × B256)} {r : U64 × B256} :
    RefsOk (refs ++ [r]) ↔ RefsOk refs ∧ r.2 ≠ 0 ∧ ∀ r' ∈ refs, r'.1 = r.1 → r'.2 = r.2 := by
  constructor
  · rintro ⟨hn, ha⟩
    simp only [List.forall_mem_append, List.forall_mem_singleton] at hn ha
    exact ⟨⟨hn.1, fun x hx => (ha.1 x hx).1⟩, hn.2, fun x hx => (ha.1 x hx).2⟩
  · rintro ⟨⟨hn, ha⟩, hr, hra⟩
    refine ⟨?_, ?_⟩
    · simp only [List.forall_mem_append, List.forall_mem_singleton]
      exact ⟨hn, hr⟩
    · simp only [List.forall_mem_append, List.forall_mem_singleton]
      exact ⟨fun x hx => ⟨ha x hx, hra x hx⟩, fun x hx heq => (hra x hx heq.symm).symm,
        fun _ => trivial⟩

/-- The held hash of a number, if any, is the given one. -/
theorem Holds.all_eq_iff {map : BlockRefMap} {refs : List (U64 × B256)} (h : Holds map refs)
    {number : U64} {hash : B256} :
    map[number]?.all (· = hash) = true ↔ ∀ r ∈ refs, r.1 = number → r.2 = hash := by
  rw [Option.all_eq_true]
  constructor
  · rintro hall ⟨_, hash'⟩ hmem rfl
    exact of_decide_eq_true (hall hash' ((h _ _).mpr hmem))
  · intro hall hash' hget
    exact decide_eq_true (hall (number, hash') ((h _ _).mp hget) rfl)

/-- The reference loop refines the growing list of references. -/
theorem blockRefStep_refines : StepRefines blockRefStep Eq RefsOk Holds where
  sound := by
    rintro map done ⟨number, hash⟩ s' hok hheld hstep
    simp only [blockRefStep, bind_eq_ok, ensure_eq_ok, pure_eq_ok, hheld.all_eq_iff] at hstep
    obtain ⟨_, hzero, _, hall, rfl⟩ := hstep
    exact ⟨(number, hash), rfl, refsOk_concat.mpr ⟨hok, hzero, hall⟩,
      hheld.insert fun hash' hmem => hall _ hmem rfl⟩
  complete := by
    rintro map done ⟨number, hash⟩ _ hheld rfl hok
    obtain ⟨_, hzero, hall⟩ := refsOk_concat.mp hok
    refine ⟨map.insert number hash, ?_, hheld.insert fun hash' hmem => hall _ hmem rfl⟩
    simp only [blockRefStep, bind_eq_ok, ensure_eq_ok, pure_eq_ok, hheld.all_eq_iff]
    exact ⟨(), hzero, (), hall, trivial⟩
  prefix_closed := fun h => (refsOk_concat.mp h).1

end References

/-! ## The claim of the target -/

section Claim

/-- The claim proves the target in one subject, and its records and references are usable. -/
structure ClaimFor (journal : WashJournal) (seller : Address) (periodStart periodEnd : U64)
    (subject : SubjectRecord) : Prop where
  chain : journal.chainId = baseChainId
  period : journal.periodStartBlock = periodStart ∧ journal.periodEndBlock = periodEnd
  identified : journal.sourceClaimId ≠ 0 ∧ journal.claimId ≠ 0
  only : journal.subjects.filter (·.subject = seller) = [subject]
  records : RecordsOk subject.settlements
  volume : recordedTotal subject.settlements = subject.washVolume.val
  nonzero : subject.washVolume ≠ 0
  refs : RefsOk journal.blockRefs

variable {journal : WashJournal} {seller : Address} {periodStart periodEnd : U64}
  {settlements : SettlementMap} {refs : BlockRefMap}

private theorem filter_eq_singleton {subjects : List SubjectRecord} {subject : SubjectRecord} :
    subjects.head? = some subject ∧ subjects.tail = [] ↔ subjects = [subject] := by
  cases subjects with
  | nil => simp
  | cons s rest => simp

/-- The claim check accepts exactly the claims of the target and fills the maps with the
records of its subject and the references of the claim. -/
theorem validateEvidence_eq_ok :
    validateEvidence journal seller periodStart periodEnd ∅ ∅ = .ok (settlements, refs) ↔
      ∃ subject, ClaimFor journal seller periodStart periodEnd subject ∧
        Holds settlements (subject.settlements.map (·.entry)) ∧ Holds refs journal.blockRefs := by
  simp only [validateEvidence, bind_eq_ok, ensure_eq_ok, okOr_eq_ok, pure_eq_ok, Prod.exists,
    Prod.mk.injEq]
  constructor
  · rintro ⟨_, ⟨hchain, hstart, hend, hsource, hclaim⟩, subject, hhead, _, htail, total, map,
      hrecords, _, ⟨hnonzero, htotal⟩, blockRefs, hrefs, rfl, rfl⟩
    obtain ⟨records, hall, hok, hstate⟩ := recordStep_refines.run_sound_nil
      (s := (0, ∅)) ⟨rfl, holds_empty⟩ ⟨List.nodup_nil, by simp, by decide⟩ hrecords
    obtain rfl := List.forall₂_eq_eq_eq ▸ hall
    obtain ⟨entries, hall', hok', hheld⟩ := blockRefStep_refines.run_sound_nil
      holds_empty ⟨by simp, by simp⟩ hrefs
    obtain rfl := List.forall₂_eq_eq_eq ▸ hall'
    exact ⟨subject, ⟨hchain, ⟨hstart, hend⟩, ⟨hsource, hclaim⟩,
      filter_eq_singleton.mp ⟨hhead, htail⟩, hok, by rw [← hstate.total, htotal],
      htotal ▸ hnonzero, hok'⟩, hstate.held, hheld⟩
  · rintro ⟨subject, ⟨hchain, ⟨hstart, hend⟩, ⟨hsource, hclaim⟩, honly, hok, htotal, hnonzero,
      hrefs⟩, hsettlements, hheld⟩
    obtain ⟨⟨total, map⟩, hrecords, hstate⟩ := recordStep_refines.run_complete_nil
      (List.forall₂_same.mpr fun _ _ => rfl) (s := (0, ∅)) ⟨rfl, holds_empty⟩ hok
    obtain ⟨blockRefs, hblocks, hentries⟩ := blockRefStep_refines.run_complete_nil
      (List.forall₂_same.mpr fun _ _ => rfl) (s := ∅) holds_empty hrefs
    have hsum : total = subject.washVolume := Fin.ext (hstate.total.trans htotal)
    obtain ⟨hhead, htail⟩ := filter_eq_singleton.mpr honly
    exact ⟨(), ⟨hchain, hstart, hend, hsource, hclaim⟩, subject, hhead, (), htail, total, map,
      hrecords, (), ⟨hsum ▸ hnonzero, hsum⟩, blockRefs, hblocks,
      hstate.held.map_eq hsettlements fun _ => Iff.rfl, hentries.map_eq hheld fun _ => Iff.rfl⟩

/-- Summing amounts succeeds when the unbounded sum fits. -/
private theorem sumAmounts {entries : List (B256 × U128)} {start : U128}
    (hfits : start.val + (entries.map (·.2.val)).sum < 2 ^ 128) :
    ∃ total : U128, total.val = start.val + (entries.map (·.2.val)).sum ∧
      entries.foldlM (fun total entry => okOr (checkedAdd total entry.2)
        (.err "seller proof: volume overflow" : Failure)) start = .ok total := by
  induction entries generalizing start with
  | nil => exact ⟨start, by simp, rfl⟩
  | cons entry entries ih =>
    rw [List.map_cons, List.sum_cons, ← Nat.add_assoc] at hfits
    obtain ⟨next, hnext⟩ : ∃ next : U128, next.val = start.val + entry.2.val :=
      ⟨⟨start.val + entry.2.val, by omega⟩, rfl⟩
    obtain ⟨total, htotal, hrun⟩ := @ih next (by rw [hnext]; exact hfits)
    refine ⟨total, ?_, ?_⟩
    · rw [htotal, hnext, List.map_cons, List.sum_cons, Nat.add_assoc]
    · rw [List.foldlM_cons, bind_eq_ok]
      exact ⟨next, okOr_eq_ok.mpr (checkedAdd_eq_some.mpr hnext), hrun⟩

/-- The map of an accepted subject sums to its volume. -/
theorem sumSettlements_eq {subject : SubjectRecord} (hrecords : RecordsOk subject.settlements)
    (hvolume : recordedTotal subject.settlements = subject.washVolume.val)
    (hheld : Holds settlements (subject.settlements.map (·.entry))) :
    sumSettlements settlements = .ok subject.washVolume := by
  have hnodup : (subject.settlements.map (·.entry)).Nodup := by
    refine List.Nodup.of_map Prod.fst ?_
    rw [List.map_map]
    exact hrecords.distinct
  have hsum : (settlements.toList.map (·.2.val)).sum = recordedTotal subject.settlements := by
    rw [((hheld.toList_perm hnodup).map (·.2.val)).sum_eq, List.map_map]
    rfl
  have hfits : (0 : U128).val + (settlements.toList.map (·.2.val)).sum < 2 ^ 128 := by
    rw [hsum, Fin.val_zero, Nat.zero_add]
    exact hrecords.fits
  obtain ⟨total, htotal, hrun⟩ := sumAmounts hfits
  rw [sumSettlements, hrun]
  refine congrArg Except.ok (Fin.ext ?_)
  rw [htotal, hsum, hvolume, Fin.val_zero, Nat.zero_add]

end Claim

/-! ## The committed references -/

section Committed

/-- The references a map of block hashes commits to, in order of number. -/
def committedRefs (refs : BlockRefMap) : List HistoricalBlockRef :=
  refs.toList.map fun (number, hash) => ⟨number, hash⟩

/-- The reference of the boundary header. -/
def SellerProofInput.boundaryRef (lib : CoreLib) (input : SellerProofInput) : U64 × B256 :=
  (input.totalVolume.header.number, lib.hashSlow input.totalVolume.header)

variable {refs : BlockRefMap} {entries : List (U64 × B256)}

/-- The committed references are those that were recorded. -/
theorem mem_committedRefs (h : Holds refs entries) {r : HistoricalBlockRef} :
    r ∈ committedRefs refs ↔ (r.number, r.blockHash) ∈ entries := by
  rw [committedRefs, List.mem_map]
  constructor
  · rintro ⟨entry, hentry, rfl⟩
    exact h.mem_toList.mp hentry
  · intro hmem
    exact ⟨(r.number, r.blockHash), h.mem_toList.mpr hmem, rfl⟩

/-- No more references are committed than were recorded. -/
theorem length_committedRefs_le (h : Holds refs entries) :
    (committedRefs refs).length ≤ entries.length := by
  rw [committedRefs, List.length_map]
  exact ((nodup_toList refs).subperm fun _ hentry => h.mem_toList.mp hentry).length_le

/-- Nonempty, nonzero entries are committed as valid references. -/
theorem validRefs_committedRefs (h : Holds refs entries) (hne : entries ≠ [])
    (hzero : ∀ r ∈ entries, r.2 ≠ 0) : ValidRefs (committedRefs refs) := by
  refine ⟨?_, fun r hr => hzero _ ((mem_committedRefs h).mp hr), ?_⟩
  · obtain ⟨entry, hentry⟩ := List.exists_mem_of_ne_nil _ hne
    exact List.ne_nil_of_mem ((mem_committedRefs h (r := ⟨entry.1, entry.2⟩)).mpr hentry)
  · rw [committedRefs, List.pairwise_map]
    exact toList_sorted refs

end Committed

/-! ## The verifier -/

section Verifier

variable {lib : Lib} {input : SellerProofInput}

/-- The boundary reading is valid and its header agrees with the claim's references. -/
structure BoundaryOk (lib : CoreLib) (input : SellerProofInput) (entries : List (U64 × B256))
    (counter : U128) : Prop where
  reading : ∃ agentId, agentId ≠ 0 ∧ verifyTotalVolumeBoundary lib input.totalVolume
    input.periodEndBlock input.seller = .ok ⟨agentId, counter⟩
  agrees : ∀ r ∈ entries, r.1 = (input.boundaryRef lib).1 → r.2 = (input.boundaryRef lib).2
  nonzero : (input.boundaryRef lib).2 ≠ 0

/-- The journal of an accepted proof. -/
def sellerJournal (lib : CoreLib) (input : SellerProofInput) (volume counter : U128)
    (settlements : SettlementMap) (refs : List HistoricalBlockRef) (root : B256) :
    SellerJournal where
  schemaVersion := sellerJournalSchemaVersion
  chainId := baseChainId
  periodStartBlock := input.periodStartBlock
  periodEndBlock := input.periodEndBlock
  seller := input.seller
  provenWashVolume := volume
  totalSellerVolume := counter
  evidenceDigest := evidenceDigest lib input.seller input.periodStartBlock input.periodEndBlock
    settlements.toList
  blockReferenceCount := Fin.ofNat (2 ^ 32) refs.length
  blockAuthenticationChunkSize := Fin.ofNat (2 ^ 32) blockAuthenticationChunkSize
  blockAuthenticationChunkCount := Fin.ofNat (2 ^ 32) (chunkCount refs)
  blockAuthenticationRoot := root

/-- What an accepted proof consists of, with the two maps it fills. -/
structure SellerAccepts (lib : Lib) (input : SellerProofInput) (journal : WashJournal)
    (subject : SubjectRecord) (counter : U128) (settlements : SettlementMap)
    (refs : BlockRefMap) (root : B256) : Prop where
  evidence : verifyEvidence lib input.evidence = .ok journal
  claim : ClaimFor journal input.seller input.periodStartBlock input.periodEndBlock subject
  boundary : BoundaryOk lib.toCoreLib input journal.blockRefs counter
  sales : Holds settlements (subject.settlements.map (·.entry))
  references : Holds refs (journal.blockRefs ++ [input.boundaryRef lib.toCoreLib])
  root : blockAuthenticationRoot lib.toCoreLib (committedRefs refs) = some root

/-- The total volume is read at the boundary, whose block is recorded. -/
theorem verifyTotalVolume_eq_ok {core : CoreLib} {refs refs' : BlockRefMap}
    {entries : List (U64 × B256)} {counter : U128} (hheld : Holds refs entries) :
    verifyTotalVolume core input refs = .ok (counter, refs') ↔
      (∃ agentId, agentId ≠ 0 ∧ verifyTotalVolumeBoundary core input.totalVolume
        input.periodEndBlock input.seller = .ok ⟨agentId, counter⟩) ∧
      (∀ r ∈ entries, r.1 = (input.boundaryRef core).1 → r.2 = (input.boundaryRef core).2) ∧
      refs.insert (input.boundaryRef core).1 (input.boundaryRef core).2 = refs' := by
  simp only [verifyTotalVolume, bind_eq_ok, ensure_eq_ok, pure_eq_ok, Prod.mk.injEq,
    hheld.all_eq_iff, SellerProofInput.boundaryRef]
  constructor
  · rintro ⟨⟨agentId, _⟩, hread, _, hagent, _, hall, rfl, rfl⟩
    exact ⟨⟨agentId, hagent, hread⟩, hall, rfl⟩
  · rintro ⟨⟨agentId, hagent, hread⟩, hall, rfl⟩
    exact ⟨⟨agentId, counter⟩, hread, (), hagent, (), hall, rfl, rfl⟩

/-- A length of 32 bits is kept. -/
theorem lengthU32_eq_some {n : ℕ} {word : U32} :
    lengthU32 n = some word ↔ n < 2 ^ 32 ∧ word = Fin.ofNat (2 ^ 32) n := by
  unfold lengthU32
  split
  · rename_i h
    rw [Option.some.injEq, eq_comm]
    refine ⟨fun heq => ⟨h, heq.trans (Fin.ext (Nat.mod_eq_of_lt h).symm)⟩, fun ⟨_, heq⟩ => ?_⟩
    exact heq.trans (Fin.ext (Nat.mod_eq_of_lt h))
  · rename_i h
    exact ⟨nofun, fun hlt => absurd hlt.1 h⟩

/-- Both predicates report at most the admitted number of references. -/
theorem verifyEvidence_refs_le {evidence : SellerEvidence} {journal : WashJournal}
    (h : verifyEvidence lib evidence = .ok journal) : journal.blockRefs.length ≤ maxBlockRefs := by
  obtain ⟨ss, haccepted⟩ := verifyEvidence_accepted h
  rw [haccepted.blockRefs, sortedReferences, List.length_insertionSort, List.length_map]
  exact haccepted.blocks.count

/-- There are no more chunks than references. -/
theorem chunkCount_le_length (refs : List HistoricalBlockRef) : chunkCount refs ≤ refs.length := by
  unfold chunkCount blockAuthenticationChunkSize
  omega

/-- The verifier accepts exactly the valid inputs whose evidence claims the target seller and
whose boundary reading is valid, and its result is determined by the two maps. -/
theorem verifySeller_eq_ok {verified : VerifiedSeller} :
    verifySeller lib input = .ok verified ↔
      (input.seller ≠ 0 ∧ input.periodStartBlock ≠ 0 ∧
        input.periodStartBlock ≤ input.periodEndBlock) ∧
      ∃ journal subject counter settlements refs root,
        SellerAccepts lib input journal subject counter settlements refs root ∧
        verified = ⟨sellerJournal lib.toCoreLib input subject.washVolume counter settlements
          (committedRefs refs) root, committedRefs refs⟩ := by
  constructor
  · intro h
    simp only [verifySeller, validateInput, bind_eq_ok, ensure_eq_ok, okOr_eq_ok, pure_eq_ok,
      Prod.exists, lengthU32_eq_some] at h
    obtain ⟨_, hinput, journal, hevidence, settlements, claimRefs, hclaim, counter, refs, hvolume,
      volume, hsum, _, hnonzero, chunks, hchunks, root, hroot, count, ⟨_, rfl⟩, chunkWord,
      ⟨_, rfl⟩, rfl⟩ := h
    obtain ⟨subject, hfor, hsettlements, hclaimRefs⟩ := validateEvidence_eq_ok.mp hclaim
    obtain ⟨hreading, hagrees, hinsert⟩ := (verifyTotalVolume_eq_ok hclaimRefs).mp hvolume
    have hrefs := hclaimRefs.insert (v := (input.boundaryRef lib.toCoreLib).2)
      fun hash hmem => hagrees _ hmem rfl
    rw [hinsert] at hrefs
    rw [sumSettlements_eq hfor.records hfor.volume hsettlements] at hsum
    obtain rfl := Except.ok.inj hsum
    have hvalid : ValidRefs (committedRefs refs) := by
      unfold blockAuthenticationChunks at hchunks
      simp only [bind_eq_ok, ensure_eq_ok] at hchunks
      obtain ⟨_, hne, _, ⟨hzero, hsorted⟩, _⟩ := hchunks
      exact ⟨hne, anyZero_eq_false.mp hzero, outOfOrder_eq_false.mp hsorted⟩
    obtain ⟨built, hbuilt, hlen, _⟩ := blockAuthenticationChunks_spec lib.toCoreLib hvalid
    obtain rfl : chunks = built := Except.ok.inj (hchunks.symm.trans hbuilt)
    have hboundary : (input.boundaryRef lib.toCoreLib).2 ≠ 0 :=
      hvalid.hashes ⟨_, _⟩ ((mem_committedRefs hrefs).mpr
        (List.mem_append_right _ (List.mem_singleton_self _)))
    refine ⟨hinput, journal, subject, counter, settlements, refs, root,
      ⟨hevidence, hfor, ⟨hreading, hagrees, hboundary⟩, hsettlements, hrefs, hroot⟩, ?_⟩
    rw [sellerJournal, ← hlen]
    rfl
  · rintro ⟨hinput, journal, subject, counter, settlements, refs, root,
      ⟨hevidence, hfor, ⟨hreading, hagrees, hzero⟩, hsettlements, hrefs, hroot⟩, rfl⟩
    obtain ⟨claimRefs, hclaimRefs⟩ :
        ∃ claimRefs : BlockRefMap, Holds claimRefs journal.blockRefs := by
      obtain ⟨claimRefs, _, h⟩ := blockRefStep_refines.run_complete_nil
        (List.forall₂_same.mpr fun _ _ => rfl) (s := ∅) holds_empty hfor.refs
      exact ⟨claimRefs, h⟩
    have hclaim := validateEvidence_eq_ok.mpr ⟨subject, hfor, hsettlements, hclaimRefs⟩
    have hinsert : claimRefs.insert (input.boundaryRef lib.toCoreLib).1
        (input.boundaryRef lib.toCoreLib).2 = refs :=
      (hclaimRefs.insert fun hash hmem => hagrees _ hmem rfl).map_eq hrefs fun _ => Iff.rfl
    have hvalid : ValidRefs (committedRefs refs) := by
      refine validRefs_committedRefs hrefs (by simp) ?_
      rw [List.forall_mem_append, List.forall_mem_singleton]
      exact ⟨hfor.refs.nonzero, hzero⟩
    obtain ⟨built, hbuilt, hlen, _⟩ := blockAuthenticationChunks_spec lib.toCoreLib hvalid
    have hcount : (committedRefs refs).length < 2 ^ 32 := by
      have hle := length_committedRefs_le hrefs
      have hmax := verifyEvidence_refs_le hevidence
      rw [List.length_append, List.length_singleton] at hle
      unfold maxBlockRefs at hmax
      omega
    have hchunks : built.length < 2 ^ 32 := by
      rw [hlen]
      exact (chunkCount_le_length _).trans_lt hcount
    simp only [verifySeller, validateInput, bind_eq_ok, ensure_eq_ok, okOr_eq_ok, pure_eq_ok,
      Prod.exists, lengthU32_eq_some]
    refine ⟨(), hinput, journal, hevidence, settlements, claimRefs, hclaim, counter, refs,
      (verifyTotalVolume_eq_ok hclaimRefs).mpr ⟨hreading, hagrees, hinsert⟩, subject.washVolume,
      sumSettlements_eq hfor.records hfor.volume hsettlements, (), hfor.nonzero, built, hbuilt,
      root, hroot, _, ⟨hcount, rfl⟩, _, ⟨hchunks, rfl⟩, ?_⟩
    rw [sellerJournal, ← hlen]
    rfl

/-- The maps and the root of a claim always exist, so acceptance is a matter of the input, the
claim and the boundary reading. -/
theorem verifySeller_isOk :
    (∃ verified, verifySeller lib input = .ok verified) ↔
      (input.seller ≠ 0 ∧ input.periodStartBlock ≠ 0 ∧
        input.periodStartBlock ≤ input.periodEndBlock) ∧
      ∃ journal subject counter, verifyEvidence lib input.evidence = .ok journal ∧
        ClaimFor journal input.seller input.periodStartBlock input.periodEndBlock subject ∧
        BoundaryOk lib.toCoreLib input journal.blockRefs counter := by
  constructor
  · intro h
    obtain ⟨verified, hverified⟩ := h
    obtain ⟨hinput, journal, subject, counter, _, _, _, haccepts, _⟩ :=
      verifySeller_eq_ok.mp hverified
    exact ⟨hinput, journal, subject, counter, haccepts.evidence, haccepts.claim,
      haccepts.boundary⟩
  · intro h
    obtain ⟨hinput, journal, subject, counter, hevidence, hclaim, hboundary⟩ := h
    obtain ⟨⟨_, settlements⟩, _, hstate⟩ := recordStep_refines.run_complete_nil
      (List.forall₂_same.mpr fun _ _ => rfl) (s := (0, ∅)) ⟨rfl, holds_empty⟩ hclaim.records
    obtain ⟨claimRefs, _, hheld⟩ := blockRefStep_refines.run_complete_nil
      (List.forall₂_same.mpr fun _ _ => rfl) (s := ∅) holds_empty hclaim.refs
    have hrefs := hheld.insert (v := (input.boundaryRef lib.toCoreLib).2)
      fun hash hmem => hboundary.agrees _ hmem rfl
    have hne : committedRefs (claimRefs.insert (input.boundaryRef lib.toCoreLib).1
        (input.boundaryRef lib.toCoreLib).2) ≠ [] := by
      apply List.ne_nil_of_mem
      exact (mem_committedRefs hrefs (r := ⟨_, _⟩)).mpr
        (List.mem_append_right _ (List.mem_singleton_self _))
    obtain ⟨_, root, _, _, hroot⟩ := blockAuthenticationRoot_climbs lib.toCoreLib hne
    exact ⟨_, verifySeller_eq_ok.mpr ⟨hinput, journal, subject, counter, settlements, _, root,
      ⟨hevidence, hclaim, hboundary, hstate.held, hrefs, hroot⟩, rfl⟩⟩

end Verifier

end LoopProof
