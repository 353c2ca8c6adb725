import LoopProof.Correctness.Seller
import Mathlib.Algebra.BigOperators.Group.Finset.Basic

/-!
# No log is counted twice

Every role of accepted evidence consumes its own position. With a hash that does not
collide on those positions the settlement identifiers are distinct, so the record checks of
the seller verifier never fire and its volume is a sum over a set of logs.
-/

namespace LoopProof

variable {lib : Lib} {evidence : SellerEvidence} {journal : WashJournal}
  {ss : List (Loop.Settlement Address LogKey)} {seller : Address}

/-! ## The subject of the target -/

/-- A member is proven in exactly one subject. -/
theorem AcceptedEvidence.subject_of_mem (h : AcceptedEvidence lib evidence journal ss)
    (hseller : seller ∈ evidence.members) :
    journal.subjects.filter (·.subject = seller) = [subjectOf lib.toCoreLib ss seller] := by
  have hsubject : ∀ m, (subjectOf lib.toCoreLib ss m).subject = m := fun _ => rfl
  rw [h.subjects, List.filter_map]
  simp only [Function.comp_def, hsubject]
  have hfilter : evidence.members.filter (fun m => decide (m = seller)) = [seller] := by
    rw [List.filter_eq, List.count_eq_one_of_mem h.members.1 hseller]
    rfl
  rw [hfilter, List.map_singleton]

/-- A subject of the journal is a member of the evidence. -/
theorem AcceptedEvidence.mem_of_subject (h : AcceptedEvidence lib evidence journal ss)
    {subject : SubjectRecord} (hsubject : subject ∈ journal.subjects) :
    subject.subject ∈ evidence.members ∧
      subject = subjectOf lib.toCoreLib ss subject.subject := by
  rw [h.subjects, List.mem_map] at hsubject
  obtain ⟨m, hm, rfl⟩ := hsubject
  exact ⟨hm, rfl⟩

/-! ## Identifiers -/

/-- The bytes hashed to name a settlement. -/
def salePreimage (s : Loop.Settlement Address LogKey) : Bytes :=
  settlementPreimage baseChainId s.position.blockNumber s.position.txIndex s.position.logIndex

/-- The bytes hashed to name the settlements the evidence refers to. -/
def settlementPreimages (lib : Lib) (evidence : SellerEvidence) : Set Bytes :=
  {bytes | ∃ ref ∈ evidence.settlements, ∃ key,
    ChainResolver.logKey lib ⟨evidence.blocks⟩ ref = .ok key ∧
    bytes = settlementPreimage baseChainId key.blockNumber key.txIndex key.logIndex}

theorem AcceptedEvidence.salePreimage_mem (h : AcceptedEvidence lib evidence journal ss)
    {s : Loop.Settlement Address LogKey} (hs : s ∈ ss) :
    salePreimage s ∈ settlementPreimages lib evidence := by
  obtain ⟨ref, href, hat⟩ := forall₂_exists_left h.settlements hs
  exact ⟨ref, href, s.position, hat.key, rfl⟩

theorem salePreimage_injective {s s' : Loop.Settlement Address LogKey}
    (h : salePreimage s = salePreimage s') : s.position = s'.position := by
  obtain ⟨_, hn, ht, hl⟩ := settlementPreimage_injective h
  cases hs : s.position
  cases hs' : s'.position
  simp_all

/-- The recorded settlements have distinct identifiers. -/
theorem AcceptedEvidence.ids_nodup (h : AcceptedEvidence lib evidence journal ss)
    (hash : CollisionFree lib.keccak256 (settlementPreimages lib evidence)) :
    (ss.map fun s => (recordOf lib.toCoreLib s).settlementId).Nodup := by
  have hpositions : ss.Nodup := List.Nodup.of_map _ h.distinct
  refine hpositions.map_on fun s hs s' hs' heq => ?_
  have hposition := salePreimage_injective
    (hash.injective (h.salePreimage_mem hs) (h.salePreimage_mem hs') heq)
  exact List.inj_on_of_nodup_map h.distinct hs hs' hposition

/-- The identifiers of all subjects together are distinct. -/
theorem AcceptedEvidence.journal_ids_nodup (h : AcceptedEvidence lib evidence journal ss)
    (hash : CollisionFree lib.keccak256 (settlementPreimages lib evidence)) :
    (journal.subjects.flatMap fun subject => subject.settlements.map (·.settlementId)).Nodup := by
  have hids := h.ids_nodup hash
  rw [h.subjects, List.flatMap_map, List.nodup_flatMap]
  refine ⟨fun m _ => ?_, h.members.1.imp fun {m m'} hne => ?_⟩
  · rw [subjectOf, List.map_map]
    exact hids.sublist (List.filter_sublist.map _)
  · intro id hid hid'
    simp only [subjectOf, List.map_map, List.mem_map, Function.comp_apply] at hid hid'
    obtain ⟨s, hs, rfl⟩ := hid
    obtain ⟨s', hs', heq⟩ := hid'
    obtain ⟨hs, hm⟩ := List.mem_filter.mp hs
    obtain ⟨hs', hm'⟩ := List.mem_filter.mp hs'
    obtain rfl := List.inj_on_of_nodup_map hids hs' hs heq
    exact hne ((of_decide_eq_true hm).symm.trans (of_decide_eq_true hm'))

theorem recordOf_amount {core : CoreLib} {s : Loop.Settlement Address LogKey}
    (h : s.amount < 2 ^ 128) : (recordOf core s).amount.val = s.amount :=
  Nat.mod_eq_of_lt h

theorem AcceptedEvidence.amount_lt (h : AcceptedEvidence lib evidence journal ss)
    {s : Loop.Settlement Address LogKey} (hs : s ∈ ss) : s.amount < 2 ^ 128 := by
  obtain ⟨_, _, hat⟩ := forall₂_exists_left h.settlements hs
  exact hat.amount_lt

/-- The recorded amounts of a seller add up to what the seller sold. -/
theorem AcceptedEvidence.recordedTotal_eq (h : AcceptedEvidence lib evidence journal ss)
    (seller : Address) :
    recordedTotal (subjectOf lib.toCoreLib ss seller).settlements = Loop.soldBy ss seller := by
  rw [recordedTotal, subjectOf, Loop.soldBy, Loop.settledTotal, List.map_map]
  refine congrArg List.sum (List.map_congr_left fun s hs => ?_)
  exact recordOf_amount (h.amount_lt (List.mem_of_mem_filter hs))

theorem AcceptedEvidence.washVolume_eq (h : AcceptedEvidence lib evidence journal ss)
    (hseller : seller ∈ evidence.members) :
    (subjectOf lib.toCoreLib ss seller).washVolume.val = Loop.soldBy ss seller :=
  Nat.mod_eq_of_lt (h.shares seller hseller).2

/-- The records of a member pass every check of the record loop. -/
theorem AcceptedEvidence.recordsOk (h : AcceptedEvidence lib evidence journal ss)
    (hash : CollisionFree lib.keccak256 (settlementPreimages lib evidence))
    (hseller : seller ∈ evidence.members) :
    RecordsOk (subjectOf lib.toCoreLib ss seller).settlements := by
  refine ⟨?_, ?_, ?_⟩
  · rw [subjectOf, List.map_map]
    exact (h.ids_nodup hash).sublist (List.filter_sublist.map _)
  · intro r hr
    obtain ⟨s, hs, rfl⟩ := List.mem_map.mp hr
    have hs := List.mem_of_mem_filter hs
    refine ⟨hash.nonzero _ (h.salePreimage_mem hs), ?_⟩
    intro hzero
    have hval := congrArg Fin.val hzero
    rw [recordOf_amount (h.amount_lt hs), Fin.val_zero] at hval
    exact (h.sold s hs).1.ne' hval
  · rw [h.recordedTotal_eq]
    exact (h.shares seller hseller).2

/-! ## The claim check -/

/-- References of distinct blocks agree. -/
theorem AcceptedEvidence.refsOk_iff (h : AcceptedEvidence lib evidence journal ss) :
    RefsOk journal.blockRefs ↔ ∀ b ∈ evidence.blocks, lib.hashSlow b.header ≠ 0 := by
  rw [h.blockRefs]
  constructor
  · exact fun hok b hb => hok.nonzero _ (mem_sortedReferences.mpr ⟨b, hb, rfl⟩)
  · intro hzero
    refine ⟨?_, ?_⟩
    · intro r hr
      obtain ⟨b, hb, rfl⟩ := mem_sortedReferences.mp hr
      exact hzero b hb
    · intro r hr r' hr' heq
      obtain ⟨b, hb, rfl⟩ := mem_sortedReferences.mp hr
      obtain ⟨b', hb', rfl⟩ := mem_sortedReferences.mp hr'
      rw [List.inj_on_of_nodup_map h.blocks.numbers hb hb' heq]

/-- What the claim check of the seller verifier asks of accepted evidence. -/
theorem AcceptedEvidence.claimFor_iff (h : AcceptedEvidence lib evidence journal ss)
    {periodStart periodEnd : U64} {subject : SubjectRecord} :
    ClaimFor journal seller periodStart periodEnd subject ↔
      seller ∈ evidence.members ∧ subject = subjectOf lib.toCoreLib ss seller ∧
      (evidence.periodStartBlock = periodStart ∧ evidence.periodEndBlock = periodEnd) ∧
      (evidence.sourceClaimId ≠ 0 ∧ journal.claimId ≠ 0) ∧
      RecordsOk (subjectOf lib.toCoreLib ss seller).settlements ∧
      ∀ b ∈ evidence.blocks, lib.hashSlow b.header ≠ 0 := by
  obtain ⟨hchain, hstart, hend, hsource⟩ := h.identity
  constructor
  · rintro ⟨_, ⟨hs, he⟩, ⟨hsrc, hid⟩, honly, hrecords, _, _, hrefs⟩
    have hmem : subject ∈ journal.subjects.filter (·.subject = seller) :=
      honly ▸ List.mem_singleton_self subject
    obtain ⟨hsubject, hname⟩ := List.mem_filter.mp hmem
    obtain ⟨hmember, heq⟩ := h.mem_of_subject hsubject
    obtain rfl := of_decide_eq_true hname
    exact ⟨hmember, heq, ⟨hstart ▸ hs, hend ▸ he⟩, ⟨hsource ▸ hsrc, hid⟩, heq ▸ hrecords,
      h.refsOk_iff.mp hrefs⟩
  · rintro ⟨hmember, rfl, ⟨hs, he⟩, ⟨hsrc, hid⟩, hrecords, hrefs⟩
    have hvolume := h.washVolume_eq hmember
    refine ⟨hchain, ⟨hstart.trans hs, hend.trans he⟩, ⟨hsource ▸ hsrc, hid⟩,
      h.subject_of_mem hmember, hrecords, ?_, ?_, h.refsOk_iff.mpr hrefs⟩
    · rw [h.recordedTotal_eq, hvolume]
    · intro hzero
      rw [hzero, Fin.val_zero] at hvolume
      exact (h.shares seller hmember).1.ne hvolume

/-- The record loop accepts the records of a member, and its total is the recorded volume. -/
theorem AcceptedEvidence.recordLoop (h : AcceptedEvidence lib evidence journal ss)
    (hash : CollisionFree lib.keccak256 (settlementPreimages lib evidence))
    (hseller : seller ∈ evidence.members) :
    ∃ map, (subjectOf lib.toCoreLib ss seller).settlements.foldlM recordStep (0, ∅) =
        .ok ((subjectOf lib.toCoreLib ss seller).washVolume, map) ∧
      (subjectOf lib.toCoreLib ss seller).washVolume ≠ 0 := by
  obtain ⟨⟨total, map⟩, hrun, hstate⟩ := recordStep_refines.run_complete_nil
    (List.forall₂_same.mpr fun _ _ => rfl) (s := (0, ∅)) ⟨rfl, holds_empty⟩
    (h.recordsOk hash hseller)
  have hvolume := h.washVolume_eq hseller
  have htotal : total = (subjectOf lib.toCoreLib ss seller).washVolume := by
    refine Fin.ext ?_
    rw [hvolume, ← h.recordedTotal_eq]
    exact hstate.total
  refine ⟨map, by rw [hrun, htotal], fun hzero => ?_⟩
  rw [hzero, Fin.val_zero] at hvolume
  exact (h.shares seller hseller).1.ne hvolume

/-- The errors that would mean a settlement was recorded twice, empty or miscounted. -/
def settlementErrors : List Failure :=
  [.err "seller proof: duplicate settlement in evidence",
    .err "seller proof: invalid settlement record",
    .err "seller proof: claim settlement total mismatch"]

theorem blockRefStep_error {refs : BlockRefMap} {reference : U64 × B256} {failure : Failure}
    (h : blockRefStep refs reference = .error failure) : failure ∉ settlementErrors := by
  simp only [blockRefStep, bind_eq_error, ensure_eq_error, ensure_eq_ok] at h
  rcases h with ⟨_, rfl⟩ | ⟨_, _, ⟨_, rfl⟩ | ⟨_, _, h⟩⟩
  · simp [settlementErrors]
  · simp [settlementErrors]
  · cases h

/-- The claim check of a subject never fails on its settlements. -/
theorem AcceptedEvidence.no_settlementError (h : AcceptedEvidence lib evidence journal ss)
    (hash : CollisionFree lib.keccak256 (settlementPreimages lib evidence))
    (hseller : seller ∈ evidence.members) {periodStart periodEnd : U64} {failure : Failure}
    (hfail : validateEvidence journal seller periodStart periodEnd ∅ ∅ = .error failure) :
    failure ∉ settlementErrors := by
  obtain ⟨map, hrun, hnonzero⟩ := h.recordLoop hash hseller
  simp only [validateEvidence, bind_eq_error, ensure_eq_ok, ensure_eq_error,
    h.subject_of_mem hseller, List.head?_cons, List.tail_cons, okOr, reduceCtorEq,
    not_true_eq_false, false_and, false_or, Except.ok.injEq, exists_eq_left', hrun] at hfail
  rcases hfail with ⟨_, rfl⟩ | ⟨_, _, _, _, ⟨hbad, rfl⟩ | ⟨_, _, hloop | ⟨_, _, hdone⟩⟩⟩
  · simp [settlementErrors]
  · exact absurd ⟨hnonzero, trivial⟩ hbad
  · obtain ⟨_, _, _, hstep⟩ := foldlM_eq_error hloop
    exact blockRefStep_error hstep
  · cases hdone

/-! ## Counting -/

/-- The distinct `ChannelSettled` logs the evidence refers to for one seller, as a set. -/
structure IsSales (lib : Lib) (evidence : SellerEvidence) (seller : Address)
    (sales : Finset (Loop.Settlement Address LogKey)) : Prop where
  mem : ∀ s, s ∈ sales ↔
    (∃ ref ∈ evidence.settlements, SettlementAt lib ⟨evidence.blocks⟩ ref s) ∧ s.seller = seller
  positions : Set.InjOn (·.position) (sales : Set (Loop.Settlement Address LogKey))

/-- A settlement the evidence refers to is one of the resolved settlements. -/
theorem AcceptedEvidence.mem_iff (h : AcceptedEvidence lib evidence journal ss)
    {s : Loop.Settlement Address LogKey} :
    (∃ ref ∈ evidence.settlements, SettlementAt lib ⟨evidence.blocks⟩ ref s) ↔ s ∈ ss := by
  constructor
  · rintro ⟨ref, href, hat⟩
    obtain ⟨s', hs', hat'⟩ := forall₂_exists_right h.settlements href
    exact hat.unique hat' ▸ hs'
  · exact fun hs => forall₂_exists_left h.settlements hs

/-- A seller's volume is the sum over the set of the seller's settlement logs. -/
theorem AcceptedEvidence.exists_sales (h : AcceptedEvidence lib evidence journal ss)
    (seller : Address) :
    ∃ sales, IsSales lib evidence seller sales ∧ Loop.soldBy ss seller = ∑ s ∈ sales, s.amount := by
  have hnodup : (Loop.salesOf ss seller).Nodup :=
    (List.Nodup.of_map _ h.distinct).sublist List.filter_sublist
  refine ⟨⟨Loop.salesOf ss seller, Multiset.coe_nodup.mpr hnodup⟩, ⟨fun s => ?_, ?_⟩, ?_⟩
  · rw [h.mem_iff, Finset.mem_mk, Multiset.mem_coe, Loop.salesOf, List.mem_filter,
      decide_eq_true_eq]
  · intro s hs s' hs' heq
    exact List.inj_on_of_nodup_map h.distinct (List.mem_of_mem_filter hs)
      (List.mem_of_mem_filter hs') heq
  · rfl

/-- No log is counted twice: the role slots of accepted evidence lie at distinct positions.
With a hash that is ideal on the settlement positions, the recorded identifiers are distinct,
the claim check never fails on the settlements of a subject, the accepted volume is never
zero, and the proven volume is the sum over the set of the seller's settlement logs. -/
theorem no_log_counted_twice (h : verifyEvidence lib evidence = .ok journal) :
    (∃ keys, keys.Nodup ∧ List.Forall₂
      (fun ref key => ChainResolver.logKey lib ⟨evidence.blocks⟩ ref = .ok key)
      evidence.roleSlots keys) ∧
    (CollisionFree lib.keccak256 (settlementPreimages lib evidence) →
      (journal.subjects.flatMap fun subject =>
        subject.settlements.map (·.settlementId)).Nodup ∧
      ∀ seller ∈ journal.subjects.map (·.subject), ∀ periodStart periodEnd,
        (∀ failure, validateEvidence journal seller periodStart periodEnd ∅ ∅ = .error failure →
          failure ∉ settlementErrors) ∧
        ∀ settlements refs,
          validateEvidence journal seller periodStart periodEnd ∅ ∅ = .ok (settlements, refs) →
          ∃ volume, sumSettlements settlements = .ok volume ∧ volume ≠ 0) ∧
    ∀ input verified, input.evidence = evidence → verifySeller lib input = .ok verified →
      ∃ sales, IsSales lib evidence input.seller sales ∧
        verified.journal.provenWashVolume.val = ∑ s ∈ sales, s.amount := by
  obtain ⟨ss, haccepted⟩ := verifyEvidence_accepted h
  refine ⟨haccepted.slots, fun hash => ⟨haccepted.journal_ids_nodup hash, ?_⟩, ?_⟩
  · intro seller hseller periodStart periodEnd
    obtain ⟨subject, hsubject, rfl⟩ := List.mem_map.mp hseller
    have hmember := (haccepted.mem_of_subject hsubject).1
    refine ⟨fun failure hfail => haccepted.no_settlementError hash hmember hfail, ?_⟩
    intro settlements refs hok
    obtain ⟨claimed, hfor, hheld, _⟩ := validateEvidence_eq_ok.mp hok
    exact ⟨claimed.washVolume, sumSettlements_eq hfor.records hfor.volume hheld, hfor.nonzero⟩
  · rintro input verified rfl hverified
    obtain ⟨_, journal', subject, counter, settlements, refs, root, haccepts, rfl⟩ :=
      verifySeller_eq_ok.mp hverified
    obtain rfl : journal = journal' := Except.ok.inj (h.symm.trans haccepts.evidence)
    obtain ⟨hmember, rfl, _⟩ := haccepted.claimFor_iff.mp haccepts.claim
    obtain ⟨sales, hsales, hsum⟩ := haccepted.exists_sales input.seller
    exact ⟨sales, hsales, (haccepted.washVolume_eq hmember).trans hsum⟩

/-- The exemplary circuit proves a volume of 100 from its one settlement log. -/
theorem circuit_counted_once : ∃ journal verified sales,
    verifyEvidence (circuitExemplar none).lib (.closedLoop (circuitInput none)) = .ok journal ∧
      (journal.subjects.flatMap fun subject => subject.settlements.map (·.settlementId)).Nodup ∧
      verifySeller (circuitExemplar none).lib (circuitSeller none) = .ok verified ∧
      IsSales (circuitExemplar none).lib (.closedLoop (circuitInput none)) 11 sales ∧
      ∑ s ∈ sales, s.amount = 100 := by
  obtain ⟨verified, hverified, hvolume⟩ := toOption_map_eq_some.mp circuitSeller_volume
  obtain ⟨_, journal, _, _, _, _, _, haccepts, _⟩ := verifySeller_eq_ok.mp hverified
  obtain ⟨_, hids, hsales⟩ := no_log_counted_twice haccepts.evidence
  have hash : CollisionFree (circuitExemplar none).lib.keccak256
      (settlementPreimages (circuitExemplar none).lib (.closedLoop (circuitInput none))) := by
    refine ⟨?_, fun bytes _ => exemplarHash_ne_zero bytes⟩
    rintro _ ⟨ref, href, key, hkey, rfl⟩ _ ⟨ref', href', key', hkey', rfl⟩ _
    obtain rfl := List.mem_singleton.mp href
    obtain rfl := List.mem_singleton.mp href'
    rw [Except.ok.inj (hkey.symm.trans hkey')]
  obtain ⟨sales, his, hsum⟩ := hsales (circuitSeller none) verified rfl hverified
  exact ⟨journal, verified, sales, haccepts.evidence, (hids hash).1, hverified, his,
    by rw [← hsum, hvolume]; rfl⟩

end LoopProof
