import LoopProof.Correctness.Uniqueness

/-!
# Both sides of an exchange

One reciprocal bundle carries two seller proofs. The runs share the predicate and the claim;
each keeps the records of its own direction, and the records of the two directions partition
the settlements the bundle refers to.
-/

namespace LoopProof

variable {lib : Lib} {evidence : SellerEvidence} {journal : WashJournal}
  {ss : List (Loop.Settlement Address LogKey)} {input : SellerProofInput}

/-! ## The settlements behind a journal -/

/-- The settlement logs an accepted seller proof counts: its digest names exactly these, and
its volume is their sum. -/
structure SalesBehind (lib : Lib) (input : SellerProofInput) (verified : VerifiedSeller)
    (sales : Finset (Loop.Settlement Address LogKey)) : Prop where
  sold : IsSales lib input.evidence input.seller sales
  digest : ∃ map : SettlementMap, verified.journal.evidenceDigest =
      evidenceDigest lib.toCoreLib input.seller input.periodStartBlock input.periodEndBlock
        map.toList ∧
    ∀ entry, entry ∈ map.toList ↔ ∃ s ∈ sales, (recordOf lib.toCoreLib s).entry = entry
  volume : verified.journal.provenWashVolume.val = ∑ s ∈ sales, s.amount
  positive : 0 < verified.journal.provenWashVolume

/-- The settlement logs of one seller form one set. -/
theorem IsSales.unique {seller : Address} {sales sales' : Finset (Loop.Settlement Address LogKey)}
    (h : IsSales lib evidence seller sales) (h' : IsSales lib evidence seller sales') :
    sales = sales' := by
  ext s
  rw [h.mem, h'.mem]

/-- Every accepted seller proof has the set of settlements behind it. -/
theorem exists_salesBehind {verified : VerifiedSeller}
    (h : verifySeller lib input = .ok verified) :
    ∃ sales, SalesBehind lib input verified sales := by
  obtain ⟨_, journal, subject, counter, settlements, refs, root, haccepts, rfl⟩ :=
    verifySeller_eq_ok.mp h
  obtain ⟨ss, haccepted⟩ := verifyEvidence_accepted haccepts.evidence
  obtain ⟨hmember, rfl, _⟩ := haccepted.claimFor_iff.mp haccepts.claim
  obtain ⟨sales, hsales, hsum⟩ := haccepted.exists_sales input.seller
  refine ⟨sales, hsales, ⟨settlements, rfl, ?_⟩, ?_, ?_⟩
  · intro entry
    rw [haccepts.sales.mem_toList, subjectOf, List.map_map, List.mem_map]
    apply exists_congr
    intro s
    rw [hsales.mem, haccepted.mem_iff, Loop.salesOf, List.mem_filter, decide_eq_true_eq]
    rfl
  · exact (haccepted.washVolume_eq hmember).trans hsum
  · exact Fin.pos_iff_ne_zero.mpr haccepts.claim.nonzero

/-! ## Acceptance of one side -/

/-- The proofs and the header of a seller's total volume are valid and agree with the headers
of the evidence. -/
def ValidVolumeWitness (lib : Lib) (input : SellerProofInput) : Prop :=
  ∃ counter, BoundaryOk lib.toCoreLib input
    (sortedReferences lib.toCoreLib input.evidence.blocks) counter

/-- With a valid total-volume witness, what is left to check does not name the seller, except
that the evidence measures its sales. -/
theorem verifySeller_isOk_iff (hash : CollisionFree lib.keccak256
      (settlementPreimages lib input.evidence)) (hwitness : ValidVolumeWitness lib input) :
    (∃ verified, verifySeller lib input = .ok verified) ↔
      ∃ journal, verifyEvidence lib input.evidence = .ok journal ∧
        input.seller ∈ input.evidence.members ∧
        (input.evidence.periodStartBlock = input.periodStartBlock ∧
          input.evidence.periodEndBlock = input.periodEndBlock) ∧
        (input.evidence.sourceClaimId ≠ 0 ∧ journal.claimId ≠ 0) ∧
        ∀ b ∈ input.evidence.blocks, lib.hashSlow b.header ≠ 0 := by
  rw [verifySeller_isOk]
  constructor
  · intro h
    obtain ⟨_, journal, subject, counter, hevidence, hclaim, _⟩ := h
    obtain ⟨ss, haccepted⟩ := verifyEvidence_accepted hevidence
    obtain ⟨hmember, _, hperiod, hids, _, hblocks⟩ := haccepted.claimFor_iff.mp hclaim
    exact ⟨journal, hevidence, hmember, hperiod, hids, hblocks⟩
  · intro h
    obtain ⟨journal, hevidence, hmember, hperiod, hids, hblocks⟩ := h
    obtain ⟨ss, haccepted⟩ := verifyEvidence_accepted hevidence
    obtain ⟨counter, hboundary⟩ := hwitness
    refine ⟨⟨haccepted.members.2 _ hmember, ?_, ?_⟩, journal, _, counter, hevidence,
      haccepted.claimFor_iff.mpr ⟨hmember, rfl, hperiod, hids,
        haccepted.recordsOk hash hmember, hblocks⟩, ?_⟩
    · rw [← hperiod.1]
      exact haccepted.period.1
    · rw [← hperiod.1, ← hperiod.2]
      exact haccepted.period.2
    · rw [haccepted.blockRefs]
      exact hboundary

/-- An accepted seller is one of those the evidence measures. -/
theorem seller_mem_of_verifySeller {verified : VerifiedSeller}
    (h : verifySeller lib input = .ok verified) : input.seller ∈ input.evidence.members := by
  obtain ⟨_, journal, subject, _, _, _, _, haccepts, _⟩ := verifySeller_eq_ok.mp h
  obtain ⟨ss, haccepted⟩ := verifyEvidence_accepted haccepts.evidence
  exact (haccepted.claimFor_iff.mp haccepts.claim).1

/-! ## The two sides -/

/-- A reciprocal bundle yields two disjoint seller proofs: the settlements behind the two
journals are those the bundle refers to, split by direction; with valid total-volume witnesses
one side is accepted exactly when the other is; and nobody else is accepted. -/
theorem reciprocal_two_sides {evidence : ReciprocalInput} {inputA inputB : SellerProofInput}
    (hash : CollisionFree lib.keccak256 (settlementPreimages lib (.reciprocal evidence)))
    (hA : inputA.evidence = .reciprocal evidence ∧ inputA.seller = evidence.addressA)
    (hB : inputB.evidence = .reciprocal evidence ∧ inputB.seller = evidence.addressB)
    (hperiod : inputA.periodStartBlock = inputB.periodStartBlock ∧
      inputA.periodEndBlock = inputB.periodEndBlock) :
    (∀ verifiedA verifiedB, verifySeller lib inputA = .ok verifiedA →
      verifySeller lib inputB = .ok verifiedB →
      ∃ salesA salesB, SalesBehind lib inputA verifiedA salesA ∧
        SalesBehind lib inputB verifiedB salesB ∧ Disjoint salesA salesB ∧
        (∀ s, s ∈ salesA ∪ salesB ↔
          ∃ ref ∈ evidence.settlements, SettlementAt lib ⟨evidence.blocks⟩ ref s) ∧
        verifiedA.journal.provenWashVolume.val + verifiedB.journal.provenWashVolume.val =
          ∑ s ∈ salesA ∪ salesB, s.amount) ∧
    (ValidVolumeWitness lib inputA → ValidVolumeWitness lib inputB →
      ((∃ verified, verifySeller lib inputA = .ok verified) ↔
        ∃ verified, verifySeller lib inputB = .ok verified)) ∧
    ∀ input verified, input.evidence = .reciprocal evidence →
      verifySeller lib input = .ok verified →
      input.seller = evidence.addressA ∨ input.seller = evidence.addressB := by
  refine ⟨?_, ?_, ?_⟩
  · intro verifiedA verifiedB hverifiedA hverifiedB
    obtain ⟨salesA, hsalesA⟩ := exists_salesBehind hverifiedA
    obtain ⟨salesB, hsalesB⟩ := exists_salesBehind hverifiedB
    obtain ⟨_, journal, _, _, _, _, _, haccepts, _⟩ := verifySeller_eq_ok.mp hverifiedA
    have hevidence := haccepts.evidence
    rw [hA.1] at hevidence
    obtain ⟨ss, haccepted⟩ := verifyEvidence_accepted hevidence
    have hmemA := hsalesA.sold.mem
    have hmemB := hsalesB.sold.mem
    rw [hA.1, hA.2] at hmemA
    rw [hB.1, hB.2] at hmemB
    have hne : evidence.addressA ≠ evidence.addressB := by
      simpa [SellerEvidence.members] using haccepted.members.1
    have hdisjoint : Disjoint salesA salesB := by
      rw [Finset.disjoint_left]
      intro s hs hs'
      exact hne (((hmemA s).mp hs).2.symm.trans ((hmemB s).mp hs').2)
    refine ⟨salesA, salesB, hsalesA, hsalesB, hdisjoint, ?_, ?_⟩
    · intro s
      rw [Finset.mem_union, hmemA, hmemB, ← and_or_left]
      apply and_iff_left_of_imp
      intro href
      have hseller := (haccepted.sold s (haccepted.mem_iff.mp href)).2
      simpa [SellerEvidence.members] using hseller
    · rw [Finset.sum_union hdisjoint, hsalesA.volume, hsalesB.volume]
  · intro hwitnessA hwitnessB
    rw [verifySeller_isOk_iff (by rw [hA.1]; exact hash) hwitnessA,
      verifySeller_isOk_iff (by rw [hB.1]; exact hash) hwitnessB, hA.1, hB.1, hA.2, hB.2,
      hperiod.1, hperiod.2]
    simp [SellerEvidence.members]
  · intro input verified hinput hverified
    have hmember := seller_mem_of_verifySeller hverified
    rw [hinput] at hmember
    simpa [SellerEvidence.members] using hmember

/-- The exemplary hash separates the two settlements of the exchange. -/
private theorem exchange_collisionFree : CollisionFree (exchangeExemplar none).lib.keccak256
    (settlementPreimages (exchangeExemplar none).lib (.reciprocal (exchangeInput none))) := by
  have hfirst : ChainResolver.logKey (exchangeExemplar none).lib
      ⟨(SellerEvidence.reciprocal (exchangeInput none)).blocks⟩ ⟨1, 0, 0⟩ = .ok ⟨101, 0, 0⟩ := by
    decide +kernel
  have hsecond : ChainResolver.logKey (exchangeExemplar none).lib
      ⟨(SellerEvidence.reciprocal (exchangeInput none)).blocks⟩ ⟨1, 1, 0⟩ = .ok ⟨101, 1, 0⟩ := by
    decide +kernel
  have hapart : exemplarHash (settlementPreimage baseChainId 101 0 0) ≠
      exemplarHash (settlementPreimage baseChainId 101 1 0) := by
    decide +kernel
  have hbytes : ∀ bytes ∈ settlementPreimages (exchangeExemplar none).lib
      (.reciprocal (exchangeInput none)), bytes = settlementPreimage baseChainId 101 0 0 ∨
        bytes = settlementPreimage baseChainId 101 1 0 := by
    intro bytes hmem
    obtain ⟨ref, href, key, hkey, hpreimage⟩ := hmem
    rcases List.mem_pair.mp href with heq | heq
    · rw [heq, hfirst] at hkey
      cases hkey
      exact .inl hpreimage
    · rw [heq, hsecond] at hkey
      cases hkey
      exact .inr hpreimage
  refine ⟨?_, fun bytes _ => exemplarHash_ne_zero bytes⟩
  intro bytes hmem bytes' hmem' heq
  rcases hbytes bytes hmem with h | h <;> rcases hbytes bytes' hmem' with h' | h'
  · rw [h, h']
  · exact absurd (h ▸ h' ▸ heq) hapart
  · exact absurd (h ▸ h' ▸ heq.symm) hapart
  · rw [h, h']

/-- Both members of the exemplary exchange are accepted, with 50 each. -/
theorem exchange_two_sides : ∃ verifiedA verifiedB salesA salesB,
    verifySeller (exchangeExemplar none).lib (exchangeSeller none 21) = .ok verifiedA ∧
      verifySeller (exchangeExemplar none).lib (exchangeSeller none 22) = .ok verifiedB ∧
      SalesBehind (exchangeExemplar none).lib (exchangeSeller none 21) verifiedA salesA ∧
      SalesBehind (exchangeExemplar none).lib (exchangeSeller none 22) verifiedB salesB ∧
      Disjoint salesA salesB ∧ ∑ s ∈ salesA ∪ salesB, s.amount = 100 := by
  obtain ⟨verifiedA, hA, hvolumeA⟩ := toOption_map_eq_some.mp
    (@exchangeSeller_volume 21 (.inl rfl))
  obtain ⟨verifiedB, hB, hvolumeB⟩ := toOption_map_eq_some.mp
    (@exchangeSeller_volume 22 (.inr rfl))
  have hsides := @reciprocal_two_sides (exchangeExemplar none).lib (exchangeInput none)
    (exchangeSeller none 21) (exchangeSeller none 22) exchange_collisionFree ⟨rfl, rfl⟩
    ⟨rfl, rfl⟩ ⟨rfl, rfl⟩
  obtain ⟨salesA, salesB, hsalesA, hsalesB, hdisjoint, _, hsum⟩ :=
    hsides.1 verifiedA verifiedB hA hB
  exact ⟨verifiedA, verifiedB, salesA, salesB, hA, hB, hsalesA, hsalesB, hdisjoint,
    by rw [← hsum, hvolumeA, hvolumeB]; rfl⟩

end LoopProof
