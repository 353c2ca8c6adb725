import LoopProof.Correctness.Relocation
import LoopProof.Correctness.Uniqueness

/-!
# Committed headers

The references of an accepted seller proof are those of the evidence blocks and of the
boundary header, once each. Everything the verifier reads is proven against a root of one
of these headers.
-/

namespace LoopProof

variable {lib : Lib}

/-! ## Reads -/

/-- The transfers whose transaction signer is checked. -/
def FundingKind.signedSlots : FundingKind → List LogRef
  | .usdc _ => []
  | .protocolDeposit transfer _ => [transfer]
  | .native .. => []

/-- The transfers of the evidence whose transaction signer is checked. -/
def SellerEvidence.signedSlots : SellerEvidence → List LogRef
  | .closedLoop input => input.fundings.flatMap (·.kind.signedSlots)
  | .reciprocal input => input.internalDeposits.map (·.transfer)

/-- The balance reads of the evidence, each with its account. -/
def SellerEvidence.balanceReads : SellerEvidence → List (Address × BuyerLedger)
  | .closedLoop input => input.buyers.zip input.ledgers
  | .reciprocal input => [(input.addressA, input.ledgerA), (input.addressB, input.ledgerB)]

/-- Every signed transfer of accepted evidence passed the signer check of some payer. -/
theorem verifyEvidence_signers {evidence : SellerEvidence} {journal : WashJournal}
    (h : verifyEvidence lib evidence = .ok journal) {ref : LogRef}
    (href : ref ∈ evidence.signedSlots) :
    ∃ payer, ChainResolver.requireSigner lib ⟨evidence.blocks⟩ payer ref = .ok () := by
  cases evidence with
  | closedLoop input =>
    obtain ⟨_, e, hres, _⟩ := verifyClosedLoop_eq_ok.mp h
    obtain ⟨funding, hfunding, hslot⟩ := List.mem_flatMap.mp href
    obtain ⟨f, _, hat⟩ := forall₂_exists_right hres.fundings hfunding
    cases hat with
    | usdc transfer _ _ _ => cases hslot
    | protocolDeposit deposit =>
      obtain rfl := List.mem_singleton.mp hslot
      exact ⟨input.funder, deposit.signer⟩
  | reciprocal input =>
    obtain ⟨_, e, hres, _⟩ := verifyReciprocal_eq_ok.mp h
    obtain ⟨evidence, hevidence, rfl⟩ := List.mem_map.mp href
    obtain ⟨d, _, _, t, key, _, hdeposit, _⟩ := forall₂_exists_right hres.deposits hevidence
    exact ⟨t.sender, hdeposit.signer⟩

/-- Every balance read of accepted evidence succeeded at the period end. -/
theorem verifyEvidence_balances {evidence : SellerEvidence} {journal : WashJournal}
    (h : verifyEvidence lib evidence = .ok journal) {w : Address × BuyerLedger}
    (hw : w ∈ evidence.balanceReads) :
    ∃ balance, endBalance lib ⟨evidence.blocks⟩ evidence.periodEndBlock w.1 w.2 = .ok balance := by
  cases evidence with
  | closedLoop input =>
    obtain ⟨_, e, _, _, hledgers, _⟩ := verifyClosedLoop_eq_ok.mp h
    obtain ⟨balance, hread, _⟩ := hledgers.reconciled w hw
    exact ⟨balance, hread⟩
  | reciprocal input =>
    obtain ⟨_, e, _, _, ⟨endA, endB, hA, hB, _⟩, _⟩ := verifyReciprocal_eq_ok.mp h
    rcases List.mem_pair.mp hw with rfl | rfl
    · exact ⟨endA, hA⟩
    · exact ⟨endB, hB⟩

/-- A passed signer check names one authenticated transaction of the block. -/
theorem requireSigner_transaction {blocks : List EvidenceBlock} {payer : Address} {ref : LogRef}
    (h : ChainResolver.requireSigner lib ⟨blocks⟩ payer ref = .ok ()) :
    ∃ block, ChainResolver.block ⟨blocks⟩ ref.block = .ok block ∧
      ∃ transaction ∈ block.transactions, signedBy lib payer transaction = .ok () := by
  cases hb : ChainResolver.block ⟨blocks⟩ ref.block with
  | error failure =>
    simp only [ChainResolver.requireSigner, ChainResolver.transactionForLog, ChainResolver.log,
      ChainResolver.receipt, hb, error_bind, reduceCtorEq] at h
  | ok block =>
    rw [requireSigner_eq hb, bind_eq_ok] at h
    obtain ⟨⟨_, receipt, _⟩, _, hsole⟩ := h
    obtain ⟨transaction, hcandidates, hsigned⟩ := soleSigner_eq_ok.mp hsole
    have hmem : transaction ∈ block.transactions :=
      List.mem_of_mem_filter (hcandidates ▸ List.mem_singleton_self _)
    exact ⟨block, rfl, transaction, hmem, hsigned⟩

/-- The boundary reading proves both words against the state root of the boundary header. -/
theorem verifyTotalVolumeBoundary_eq_ok {core : CoreLib} {boundary : TotalVolumeBoundary}
    {expected : U64} {seller : Address} {reading : BoundaryReading}
    (h : verifyTotalVolumeBoundary core boundary expected seller = .ok reading) :
    boundary.header.number = expected ∧
      verifyStorageValue core boundary.header.stateRoot stakingAddress
        (mappingSlotAddress core seller stakingSellerAgentIdSlot) boundary.agentId =
          .ok reading.agentId ∧
      ∃ counter : U256, counter.val = reading.counter.val ∧
        verifyStorageValue core boundary.header.stateRoot channelsAddress
          (slotOffset (mappingSlotU256 core reading.agentId channelsAgentStatsSlot)
            agentStatsTotalVolumeOffset) boundary.totalVolume = .ok counter := by
  simp only [verifyTotalVolumeBoundary, bind_eq_ok, ensure_eq_ok, okOr_eq_ok, tryNarrow_eq_some,
    pure_eq_ok] at h
  obtain ⟨_, hnumber, agentId, hagent, word, hword, counter, hcounter, rfl⟩ := h
  exact ⟨hnumber, hagent, word, hcounter.symm, hword⟩

/-! ## Commitment -/

/-- The list commits to the header: it holds its number and hash. -/
def Commits (core : CoreLib) (refs : List HistoricalBlockRef) (header : Header) : Prop :=
  (⟨header.number, core.hashSlow header⟩ : HistoricalBlockRef) ∈ refs

/-- Everything the verifier read is proven against a root of a committed header. -/
structure ReadsCommitted (lib : Lib) (input : SellerProofInput) (refs : List HistoricalBlockRef)
    (counter : U128) : Prop where
  /-- Every log of every role, in its receipt. -/
  logs : ∀ ref ∈ input.evidence.roleSlots, ∃ (log : ParsedLog) (receipt : ReceiptProof)
    (block : EvidenceBlock),
    ChainResolver.log lib ⟨input.evidence.blocks⟩ ref = .ok (log, receipt, block) ∧
    Commits lib.toCoreLib refs block.header ∧
    verifyReceiptInclusion lib.toCoreLib block.header receipt = .ok ()
  /-- Every transaction whose signer was checked. -/
  signers : ∀ ref ∈ input.evidence.signedSlots, ∃ (payer : Address) (block : EvidenceBlock)
    (transaction : TransactionProof),
    ChainResolver.requireSigner lib ⟨input.evidence.blocks⟩ payer ref = .ok () ∧
    ChainResolver.block ⟨input.evidence.blocks⟩ ref.block = .ok block ∧
    transaction ∈ block.transactions ∧ signedBy lib payer transaction = .ok () ∧
    Commits lib.toCoreLib refs block.header ∧
    verifyTransactionInclusion lib.toCoreLib block.header transaction = .ok ()
  /-- Every end balance. -/
  balances : ∀ w ∈ input.evidence.balanceReads, ∃ (block : EvidenceBlock) (balance : U256),
    endBalance lib ⟨input.evidence.blocks⟩ input.periodEndBlock w.1 w.2 = .ok balance ∧
    ChainResolver.block ⟨input.evidence.blocks⟩ w.2.finish.block = .ok block ∧
    Commits lib.toCoreLib refs block.header ∧ block.header.number = input.periodEndBlock ∧
    verifyStorageValue lib.toCoreLib block.header.stateRoot depositsAddress
      (balanceSlot lib w.1) w.2.finish.proof = .ok balance
  /-- The agent id and the volume counter. -/
  boundary : Commits lib.toCoreLib refs input.totalVolume.header ∧
    ∃ agentId counterWord : U256, agentId ≠ 0 ∧ counterWord.val = counter.val ∧
    verifyStorageValue lib.toCoreLib input.totalVolume.header.stateRoot stakingAddress
      (mappingSlotAddress lib.toCoreLib input.seller stakingSellerAgentIdSlot)
      input.totalVolume.agentId = .ok agentId ∧
    verifyStorageValue lib.toCoreLib input.totalVolume.header.stateRoot channelsAddress
      (slotOffset (mappingSlotU256 lib.toCoreLib agentId channelsAgentStatsSlot)
        agentStatsTotalVolumeOffset) input.totalVolume.totalVolume = .ok counterWord

/-- The list holds the references of all headers of the input, once each and in order. -/
structure CommitsHeaders (lib : Lib) (input : SellerProofInput) (refs : List HistoricalBlockRef) :
    Prop where
  mem : ∀ r, r ∈ refs ↔
    (∃ b ∈ input.evidence.blocks, r = ⟨b.header.number, lib.hashSlow b.header⟩) ∨
      r = ⟨input.totalVolume.header.number, lib.hashSlow input.totalVolume.header⟩
  sorted : refs.Pairwise fun a b => a.number < b.number
  window : ∀ r ∈ refs, input.periodStartBlock.val - 1 ≤ r.number.val ∧
    r.number ≤ input.periodEndBlock

/-- The headers the input carries. -/
def SellerProofInput.headers (input : SellerProofInput) : Set Header :=
  {header | (∃ b ∈ input.evidence.blocks, header = b.header) ∨ header = input.totalVolume.header}

section Verifier

variable {input : SellerProofInput} {journal : WashJournal} {subject : SubjectRecord}
  {counter : U128} {settlements : SettlementMap} {refs : BlockRefMap} {root : B256}
  {ss : List (Loop.Settlement Address LogKey)}

/-- The committed list is the one of the carried headers. -/
theorem SellerAccepts.commitsHeaders
    (h : SellerAccepts lib input journal subject counter settlements refs root)
    (haccepted : AcceptedEvidence lib input.evidence journal ss) :
    CommitsHeaders lib input (committedRefs refs) := by
  obtain ⟨_, _, ⟨hstart, hend⟩, _⟩ := haccepted.claimFor_iff.mp h.claim
  have hmem : ∀ r, r ∈ committedRefs refs ↔
      (∃ b ∈ input.evidence.blocks, r = ⟨b.header.number, lib.hashSlow b.header⟩) ∨
        r = ⟨input.totalVolume.header.number, lib.hashSlow input.totalVolume.header⟩ := by
    rintro ⟨number, hash⟩
    rw [mem_committedRefs h.references, List.mem_append, List.mem_singleton, haccepted.blockRefs,
      mem_sortedReferences]
    simp only [EvidenceBlock.reference, SellerProofInput.boundaryRef, Prod.mk.injEq,
      HistoricalBlockRef.mk.injEq, eq_comm]
  have hnumber : input.totalVolume.header.number = input.periodEndBlock := by
    obtain ⟨agentId, _, hread⟩ := h.boundary.reading
    exact (verifyTotalVolumeBoundary_eq_ok hread).1
  refine ⟨hmem, ?_, fun r hr => ?_⟩
  · rw [committedRefs, List.pairwise_map]
    exact toList_sorted refs
  · have horder : input.periodStartBlock ≤ input.periodEndBlock :=
      hstart ▸ hend ▸ haccepted.period.2
    rcases (hmem r).mp hr with ⟨b, hb, rfl⟩ | rfl
    · have hwindow := haccepted.blocks.window b hb
      rw [hstart, hend] at hwindow
      exact hwindow
    · refine ⟨?_, hnumber.le⟩
      rw [hnumber]
      exact (Nat.sub_le _ _).trans horder

/-- Every block of the evidence is committed. -/
theorem CommitsHeaders.block (h : CommitsHeaders lib input (committedRefs refs))
    {block : EvidenceBlock} (hblock : block ∈ input.evidence.blocks) :
    Commits lib.toCoreLib (committedRefs refs) block.header :=
  (h.mem _).mpr (.inl ⟨block, hblock, rfl⟩)

/-- The reads of an accepted proof are committed. -/
theorem SellerAccepts.readsCommitted
    (h : SellerAccepts lib input journal subject counter settlements refs root)
    (haccepted : AcceptedEvidence lib input.evidence journal ss) :
    ReadsCommitted lib input (committedRefs refs) counter := by
  have hcommits := h.commitsHeaders haccepted
  obtain ⟨_, _, ⟨_, hend⟩, _⟩ := haccepted.claimFor_iff.mp h.claim
  refine ⟨fun ref href => ?_, fun ref href => ?_, fun w hw => ?_, ?_, ?_⟩
  · obtain ⟨keys, _, hkeys⟩ := haccepted.slots
    obtain ⟨key, _, hkey⟩ := forall₂_exists_right hkeys href
    obtain ⟨log, receipt, block, hlog, _⟩ := ChainResolver.logKey_eq_ok.mp hkey
    obtain ⟨hblock, hreceipt, _⟩ := ChainResolver.log_eq_ok.mp hlog
    have hmem := List.mem_of_getElem? hblock
    exact ⟨log, receipt, block, hlog, hcommits.block hmem,
      (haccepted.blocks.authentic block hmem).receipts receipt (List.mem_of_getElem? hreceipt)⟩
  · obtain ⟨payer, hsigner⟩ := verifyEvidence_signers h.evidence href
    obtain ⟨block, hblock, transaction, htransaction, hsigned⟩ := requireSigner_transaction hsigner
    have hmem : block ∈ input.evidence.blocks := List.mem_of_getElem? (okOr_eq_ok.mp hblock)
    exact ⟨payer, block, transaction, hsigner, hblock, htransaction, hsigned, hcommits.block hmem,
      (haccepted.blocks.authentic block hmem).transactions transaction htransaction⟩
  · obtain ⟨balance, hread⟩ := verifyEvidence_balances h.evidence hw
    rw [hend] at hread
    have hvalue := hread
    simp only [endBalance, ChainResolver.storageValue, bind_eq_ok, ensure_eq_ok] at hvalue
    obtain ⟨block, hblock, _, hnumber, hstorage⟩ := hvalue
    have hmem : block ∈ input.evidence.blocks := List.mem_of_getElem? (okOr_eq_ok.mp hblock)
    exact ⟨block, balance, hread, hblock, hcommits.block hmem, hnumber, hstorage⟩
  · exact (hcommits.mem _).mpr (.inr rfl)
  · obtain ⟨agentId, hagent, hread⟩ := h.boundary.reading
    obtain ⟨_, hagentRead, word, hword, hcounter⟩ := verifyTotalVolumeBoundary_eq_ok hread
    exact ⟨agentId, word, hagent, hword, hagentRead, hcounter⟩

/-- Carried headers of one number have one hash. -/
theorem CommitsHeaders.hash_eq {list : List HistoricalBlockRef}
    (h : CommitsHeaders lib input list) {header header' : Header}
    (hheader : header ∈ input.headers) (hheader' : header' ∈ input.headers)
    (hnumber : header.number = header'.number) : lib.hashSlow header = lib.hashSlow header' := by
  have hcommitted : ∀ x ∈ input.headers, Commits lib.toCoreLib list x := by
    rintro x (⟨b, hb, rfl⟩ | rfl)
    · exact (h.mem _).mpr (.inl ⟨b, hb, rfl⟩)
    · exact (h.mem _).mpr (.inr rfl)
  have hnumbers : (list.map (·.number)).Nodup :=
    List.pairwise_map.mpr (h.sorted.imp fun hab => hab.ne)
  exact congrArg HistoricalBlockRef.blockHash (List.inj_on_of_nodup_map hnumbers
    (hcommitted header hheader) (hcommitted header' hheader') hnumber)

/-- Every header the verdict relies on is committed exactly once: the returned references are
those of the evidence blocks and the boundary header, in strictly increasing order inside the
witness window, all reads are proven under them, and the journal counts, chunks and roots
exactly this list. Under an injective header hash a number has one header. -/
theorem headers_committed {verified : VerifiedSeller} (h : verifySeller lib input = .ok verified) :
    CommitsHeaders lib input verified.blockRefs ∧
    ReadsCommitted lib input verified.blockRefs verified.journal.totalSellerVolume ∧
    verified.journal.blockReferenceCount.val = verified.blockRefs.length ∧
    verified.journal.blockAuthenticationChunkCount.val = (verified.blockRefs.length + 99) / 100 ∧
    blockAuthenticationRoot lib.toCoreLib verified.blockRefs =
      some verified.journal.blockAuthenticationRoot ∧
    (∀ header ∈ input.headers, ∀ header' ∈ input.headers, header.number = header'.number →
      lib.hashSlow header = lib.hashSlow header') ∧
    (Set.InjOn lib.hashSlow input.headers →
      ∀ header ∈ input.headers, ∀ header' ∈ input.headers, header.number = header'.number →
        header = header') := by
  obtain ⟨_, journal, subject, counter, settlements, refs, root, haccepts, rfl⟩ :=
    verifySeller_eq_ok.mp h
  obtain ⟨ss, haccepted⟩ := verifyEvidence_accepted haccepts.evidence
  have hcommits := haccepts.commitsHeaders haccepted
  have hlength : (committedRefs refs).length < 2 ^ 32 := by
    have hle := length_committedRefs_le haccepts.references
    have hmax := verifyEvidence_refs_le haccepts.evidence
    rw [List.length_append, List.length_singleton] at hle
    unfold maxBlockRefs at hmax
    omega
  refine ⟨hcommits, haccepts.readsCommitted haccepted, ofNat_val hlength,
    ofNat_val ((chunkCount_le_length _).trans_lt hlength), haccepts.root,
    fun _ hx _ hy hnumber => hcommits.hash_eq hx hy hnumber,
    fun hinj _ hx _ hy hnumber => hinj hx hy (hcommits.hash_eq hx hy hnumber)⟩

end Verifier

/-- The exemplary seller proof commits to its three headers. -/
theorem circuit_headers_committed : ∃ verified,
    verifySeller (circuitExemplar none).lib (circuitSeller none) = .ok verified ∧
      CommitsHeaders (circuitExemplar none).lib (circuitSeller none) verified.blockRefs := by
  obtain ⟨verified, hverified, _⟩ := toOption_map_eq_some.mp circuitSeller_volume
  exact ⟨verified, hverified, (headers_committed hverified).1⟩

end LoopProof
