import LoopProof.Correctness.Relocation
import LoopProof.Correctness.Uniqueness

/-!
# Rearranged evidence

Two seller inputs carry the same evidence in different orders: the lists of roles, the blocks
and the contents of each block are permuted, and every index is renumbered. The claim
identifier hashes the serialized order and may differ; the verdict and the journal do not.
-/

namespace LoopProof

variable {lib : Lib}

/-! ## Renumbering -/

/-- Where blocks, and receipts of each block, are stored after a rearrangement. -/
structure Renumbering where
  block : Equiv.Perm Usize
  receipt : Usize → Equiv.Perm Usize

namespace Renumbering

/-- The new reference of a log. -/
def ref (n : Renumbering) (r : LogRef) : LogRef :=
  ⟨n.block r.block, n.receipt r.block r.receipt, r.log⟩

/-- The ledger in its new block. -/
def ledger (n : Renumbering) (l : BuyerLedger) : BuyerLedger :=
  ⟨⟨n.block l.finish.block, l.finish.proof⟩⟩

/-- The path with the new references of its transfers. -/
def path (n : Renumbering) (p : ReturnPath) : ReturnPath := ⟨p.transfers.map n.ref⟩

/-- The deposit with the new references of its logs. -/
def deposit (n : Renumbering) (d : PairDepositEvidence) : PairDepositEvidence :=
  ⟨d.member, n.ref d.transfer, n.ref d.deposited⟩

/-- The renumbering back. -/
def symm (n : Renumbering) : Renumbering where
  block := n.block.symm
  receipt i := (n.receipt (n.block.symm i)).symm

variable (n : Renumbering)

/-- A reference that is renumbered twice is the old one. -/
@[simp] theorem symm_ref (r : LogRef) : n.symm.ref (n.ref r) = r := by
  simp [ref, symm]

/-- A ledger that is renumbered twice is the old one. -/
@[simp] theorem symm_ledger (l : BuyerLedger) : n.symm.ledger (n.ledger l) = l := by
  simp [ledger, symm]

/-- A path that is renumbered twice is the old one. -/
@[simp] theorem symm_path (p : ReturnPath) : n.symm.path (n.path p) = p := by
  simp [path, Function.comp_def]

/-- A deposit that is renumbered twice is the old one. -/
@[simp] theorem symm_deposit (d : PairDepositEvidence) : n.symm.deposit (n.deposit d) = d := by
  simp [deposit]

/-- References to one receipt stay references to one receipt, and no others become so. -/
theorem sameReceipt (r r' : LogRef) :
    ((n.ref r).block = (n.ref r').block ∧ (n.ref r).receipt = (n.ref r').receipt) ↔
      r.block = r'.block ∧ r.receipt = r'.receipt := by
  rw [ref, ref, n.block.apply_eq_iff_eq]
  apply and_congr_right
  intro hblock
  rw [hblock, (n.receipt r'.block).apply_eq_iff_eq]

end Renumbering

/-- Mapping back what was mapped and reordered. -/
private theorem perm_map_back {α : Type*} {f g : α → α} (hback : ∀ a, g (f a) = a) {xs ys : List α}
    (h : (xs.map f).Perm ys) : (ys.map g).Perm xs := by
  have hmap := (h.map g).symm
  rw [List.map_map] at hmap
  simpa only [Function.comp_def, hback, List.map_id'] using hmap

/-! ## Rearranged blocks -/

/-- The receipts and transactions of a block in another order. -/
structure BlockRearranged (receipt : Equiv.Perm Usize) (b b' : EvidenceBlock) : Prop where
  header : b'.header = b.header
  receipts : b.receipts.Perm b'.receipts
  receiptAt : ∀ i : Usize, b'.receipts[(receipt i).val]? = b.receipts[i.val]?
  transactions : b.transactions.Perm b'.transactions

/-- Rearranged blocks in another order, each stored where the renumbering says. -/
structure BlocksRearranged (n : Renumbering) (blocks blocks' : List EvidenceBlock) : Prop where
  reordered : ∃ moved, List.Forall₂ (fun b b' => ∃ receipt, BlockRearranged receipt b b')
    blocks moved ∧ moved.Perm blocks'
  blockAt : ∀ i : Usize, Option.Rel (BlockRearranged (n.receipt i)) blocks[i.val]?
    blocks'[(n.block i).val]?

/-- A block is rearranged back by the inverse renumbering. -/
theorem BlockRearranged.symm {receipt : Equiv.Perm Usize} {b b' : EvidenceBlock}
    (h : BlockRearranged receipt b b') : BlockRearranged receipt.symm b' b := by
  refine ⟨h.header.symm, h.receipts.symm, ?_, h.transactions.symm⟩
  intro i
  rw [← h.receiptAt, Equiv.apply_symm_apply]

/-- A rearranged block stays authentic. -/
theorem BlockRearranged.authentic {core : CoreLib} {receipt : Equiv.Perm Usize}
    {b b' : EvidenceBlock} (h : BlockRearranged receipt b b') (hb : BlockAuthentic core b) :
    BlockAuthentic core b' := by
  refine ⟨(h.receipts.map _).nodup_iff.mp hb.receiptIndexes, ?_,
    (h.transactions.map _).nodup_iff.mp hb.transactionIndexes, ?_⟩
  · intro r hr
    rw [h.header]
    exact hb.receipts r (h.receipts.mem_iff.mpr hr)
  · intro t ht
    rw [h.header]
    exact hb.transactions t (h.transactions.mem_iff.mpr ht)

namespace BlocksRearranged

variable {n : Renumbering} {blocks blocks' : List EvidenceBlock}

/-- Blocks are rearranged back by the inverse renumbering. -/
theorem symm (h : BlocksRearranged n blocks blocks') : BlocksRearranged n.symm blocks' blocks := by
  refine ⟨?_, ?_⟩
  · obtain ⟨moved, hmoved, hperm⟩ := h.reordered
    obtain ⟨moved', hperm', hmoved'⟩ := forall₂_perm hmoved.flip hperm
    refine ⟨moved', hmoved'.imp ?_, hperm'.symm⟩
    intro b b' hb
    obtain ⟨receipt, hb⟩ := hb
    exact ⟨receipt.symm, hb.symm⟩
  · intro i
    have hat := h.blockAt (n.block.symm i)
    rw [Equiv.apply_symm_apply] at hat
    change Option.Rel _ blocks'[i.val]? blocks[(n.block.symm i).val]?
    generalize blocks'[i.val]? = found' at hat ⊢
    generalize blocks[(n.block.symm i).val]? = found at hat ⊢
    cases hat with
    | some hb => exact .some hb.symm
    | none => exact .none

/-- What only reads headers sees the same values in another order. -/
theorem map_header {α : Type*} (h : BlocksRearranged n blocks blocks') (f : Header → α) :
    (blocks.map fun b => f b.header).Perm (blocks'.map fun b => f b.header) := by
  obtain ⟨moved, hmoved, hperm⟩ := h.reordered
  have hheaders : blocks.map (fun b => f b.header) = moved.map fun b => f b.header := by
    rw [← List.forall₂_eq_eq_eq, List.forall₂_map_left_iff, List.forall₂_map_right_iff]
    refine hmoved.imp ?_
    intro b b' hb
    obtain ⟨_, hb⟩ := hb
    rw [hb.header]
  rw [hheaders]
  exact hperm.map _

/-- Every stored block rearranges an original one. -/
theorem exists_left (h : BlocksRearranged n blocks blocks') {b' : EvidenceBlock}
    (hb' : b' ∈ blocks') : ∃ b ∈ blocks, ∃ receipt, BlockRearranged receipt b b' := by
  obtain ⟨moved, hmoved, hperm⟩ := h.reordered
  exact forall₂_exists_left hmoved (hperm.mem_iff.mpr hb')

/-- Rearranged blocks stay authentic. -/
theorem authentic {core : CoreLib} {periodStart periodEnd : U64}
    (h : BlocksRearranged n blocks blocks')
    (hb : BlocksAuthentic core blocks periodStart periodEnd) :
    BlocksAuthentic core blocks' periodStart periodEnd := by
  have hlength := (h.map_header id).length_eq
  rw [List.length_map, List.length_map] at hlength
  refine ⟨?_, ?_, (h.map_header Header.number).nodup_iff.mp hb.numbers, ?_, ?_⟩
  · apply List.ne_nil_of_length_pos
    rw [← hlength]
    exact List.length_pos_of_ne_nil hb.nonempty
  · rw [← hlength]
    exact hb.count
  · intro b' hmem
    obtain ⟨b, hmem, _, hrearranged⟩ := h.exists_left hmem
    rw [hrearranged.header]
    exact hb.window b hmem
  · intro b' hmem
    obtain ⟨b, hmem, _, hrearranged⟩ := h.exists_left hmem
    exact hrearranged.authentic (hb.authentic b hmem)

/-- The sorted references do not depend on the order of the blocks. -/
theorem sortedReferences_eq {core : CoreLib} (h : BlocksRearranged n blocks blocks')
    (hnumbers : (blocks.map (·.header.number)).Nodup) :
    sortedReferences core blocks = sortedReferences core blocks' := by
  have hnumbers' := (h.map_header Header.number).nodup_iff.mp hnumbers
  have hreferences := h.map_header fun header => (header.number, core.hashSlow header)
  refine List.Perm.eq_of_pairwise ?_ (sortedReferences_pairwise hnumbers)
    (sortedReferences_pairwise hnumbers') ?_
  · intro left right _ _ hlt hgt
    exact absurd (hlt.trans hgt) (lt_irrefl _)
  · exact ((List.perm_insertionSort _ _).trans hreferences).trans (List.perm_insertionSort _ _).symm

/-- References move from the one order to the other. -/
theorem relocation (h : BlocksRearranged n blocks blocks') :
    Relocation ⟨blocks⟩ ⟨blocks'⟩ n.ref := by
  refine ⟨fun _ => rfl, ?_, n.sameReceipt⟩
  intro ref
  have hat := h.blockAt ref.block
  change Option.Rel (AnswersAlike ref.receipt (n.receipt ref.block ref.receipt))
    blocks[ref.block.val]? blocks'[(n.block ref.block).val]?
  generalize blocks[ref.block.val]? = found at hat ⊢
  generalize blocks'[(n.block ref.block).val]? = found' at hat ⊢
  cases hat with
  | none => exact .none
  | some hb =>
    refine .some ⟨?_, ?_, hb.receiptAt ref.receipt, hb.transactions.symm⟩
    · rw [hb.header]
    · rw [hb.header]

/-- A renumbered ledger read reads the same balance. -/
theorem endBalance_eq (h : BlocksRearranged n blocks blocks') (periodEnd : U64) (buyer : Address)
    (ledger : BuyerLedger) :
    endBalance lib ⟨blocks'⟩ periodEnd buyer (n.ledger ledger) =
      endBalance lib ⟨blocks⟩ periodEnd buyer ledger := by
  have hat := h.blockAt ledger.finish.block
  simp only [endBalance, Renumbering.ledger, ChainResolver.storageValue, ChainResolver.block]
  generalize blocks[ledger.finish.block.val]? = found at hat ⊢
  generalize blocks'[(n.block ledger.finish.block).val]? = found' at hat ⊢
  cases hat with
  | none => rfl
  | some hb => simp only [okOr, ok_bind, hb.header]

end BlocksRearranged

/-! ## Rearranged inputs -/

/-- The evidence of a closed-loop claim in another order. -/
structure ClosedLoopRearranged (n : Renumbering) (input input' : ClosedLoopInput) : Prop where
  chain : input'.chainId = input.chainId
  period : input'.periodStartBlock = input.periodStartBlock ∧
    input'.periodEndBlock = input.periodEndBlock
  source : input'.sourceClaimId = input.sourceClaimId
  parties : input'.seller = input.seller ∧ input'.funder = input.funder
  buyers : input'.buyers = input.buyers
  blocks : BlocksRearranged n input.blocks input'.blocks
  fundings : ∃ moved, List.Forall₂ (FundingMoved n.ref) input.fundings moved ∧
    moved.Perm input'.fundings
  settlements : (input.settlements.map n.ref).Perm input'.settlements
  returns : (input.returns.map n.path).Perm input'.returns
  ledgers : input'.ledgers = input.ledgers.map n.ledger

/-- The evidence of a pair claim in another order. -/
structure ReciprocalRearranged (n : Renumbering) (input input' : ReciprocalInput) : Prop where
  chain : input'.chainId = input.chainId
  period : input'.periodStartBlock = input.periodStartBlock ∧
    input'.periodEndBlock = input.periodEndBlock
  source : input'.sourceClaimId = input.sourceClaimId
  pair : input'.addressA = input.addressA ∧ input'.addressB = input.addressB
  blocks : BlocksRearranged n input.blocks input'.blocks
  settlements : (input.settlements.map n.ref).Perm input'.settlements
  deposits : (input.internalDeposits.map n.deposit).Perm input'.internalDeposits
  ledgers : input'.ledgerA = n.ledger input.ledgerA ∧ input'.ledgerB = n.ledger input.ledgerB

/-- Evidence of the same claim, rearranged. -/
inductive EvidenceRearranged (n : Renumbering) : SellerEvidence → SellerEvidence → Prop
  | closedLoop {input input' : ClosedLoopInput} (h : ClosedLoopRearranged n input input') :
      EvidenceRearranged n (.closedLoop input) (.closedLoop input')
  | reciprocal {input input' : ReciprocalInput} (h : ReciprocalRearranged n input input') :
      EvidenceRearranged n (.reciprocal input) (.reciprocal input')

/-- A funding is moved back by the inverse renumbering. -/
theorem FundingMoved.symm {n : Renumbering} {f f' : FundingEvidence}
    (h : FundingMoved n.ref f f') : FundingMoved n.symm.ref f' f := by
  cases h with
  | usdc buyer ref =>
    have hback := @FundingMoved.usdc n.symm.ref buyer (n.ref ref)
    rwa [n.symm_ref] at hback
  | protocolDeposit buyer ref deposited =>
    have hback := @FundingMoved.protocolDeposit n.symm.ref buyer (n.ref ref) (n.ref deposited)
    rwa [n.symm_ref, n.symm_ref] at hback
  | native buyer t t' r r' => exact .native buyer t' t r' r

/-- A closed-loop input is rearranged back by the inverse renumbering. -/
theorem ClosedLoopRearranged.symm {n : Renumbering} {input input' : ClosedLoopInput}
    (h : ClosedLoopRearranged n input input') : ClosedLoopRearranged n.symm input' input := by
  refine ⟨h.chain.symm, ⟨h.period.1.symm, h.period.2.symm⟩, h.source.symm,
    ⟨h.parties.1.symm, h.parties.2.symm⟩, h.buyers.symm, h.blocks.symm, ?_,
    perm_map_back n.symm_ref h.settlements, perm_map_back n.symm_path h.returns, ?_⟩
  · obtain ⟨moved, hmoved, hperm⟩ := h.fundings
    obtain ⟨moved', hperm', hmoved'⟩ := forall₂_perm hmoved.flip hperm
    exact ⟨moved', hmoved'.imp fun _ _ hf => hf.symm, hperm'.symm⟩
  · rw [h.ledgers, List.map_map]
    simp only [Function.comp_def, n.symm_ledger, List.map_id']

/-- A reciprocal input is rearranged back by the inverse renumbering. -/
theorem ReciprocalRearranged.symm {n : Renumbering} {input input' : ReciprocalInput}
    (h : ReciprocalRearranged n input input') : ReciprocalRearranged n.symm input' input := by
  refine ⟨h.chain.symm, ⟨h.period.1.symm, h.period.2.symm⟩, h.source.symm,
    ⟨h.pair.1.symm, h.pair.2.symm⟩, h.blocks.symm, perm_map_back n.symm_ref h.settlements,
    perm_map_back n.symm_deposit h.deposits, ?_, ?_⟩
  · rw [h.ledgers.1, n.symm_ledger]
  · rw [h.ledgers.2, n.symm_ledger]

/-- Evidence is rearranged back by the inverse renumbering. -/
theorem EvidenceRearranged.symm {n : Renumbering} {evidence evidence' : SellerEvidence}
    (h : EvidenceRearranged n evidence evidence') :
    EvidenceRearranged n.symm evidence' evidence := by
  cases h with
  | closedLoop h => exact .closedLoop h.symm
  | reciprocal h => exact .reciprocal h.symm

/-! ## The two predicates -/

/-- Serialization of the evidence does not fail. -/
structure Serializes (lib : Lib) : Prop where
  closedLoop : ∀ input, ∃ bytes, lib.closedLoopJson input = .ok bytes
  reciprocal : ∀ input, ∃ bytes, lib.reciprocalJson input = .ok bytes

/-- Both claims are accepted, with the same settlements up to order. -/
structure AcceptedAlike (lib : Lib) (evidence evidence' : SellerEvidence)
    (journal journal' : WashJournal) (ss ss' : List (Loop.Settlement Address LogKey)) : Prop where
  runs : verifyEvidence lib evidence' = .ok journal'
  original : AcceptedEvidence lib evidence journal ss
  rearranged : AcceptedEvidence lib evidence' journal' ss'
  settlements : ss.Perm ss'

variable {n : Renumbering}

/-- A rearrangement of an accepted closed loop is accepted, with the same settlements in another
order. -/
theorem ClosedLoopRearranged.accepted {input input' : ClosedLoopInput}
    (h : ClosedLoopRearranged n input input') (hserial : Serializes lib) {journal : WashJournal}
    (hok : verifyClosedLoop lib input = .ok journal) :
    ∃ journal' ss ss', AcceptedAlike lib (.closedLoop input) (.closedLoop input') journal journal'
      ss ss' := by
  obtain ⟨hclaim, e, hres, hcircuit, hledgers, bytes, _, rfl⟩ := verifyClosedLoop_eq_ok.mp hok
  obtain ⟨bytes', hbytes'⟩ := hserial.closedLoop input'
  obtain ⟨e', hperm, hres'⟩ := hres.reorder ⟨h.blocks.relocation, h.parties.2, h.fundings,
    h.settlements, h.returns⟩
  have hclaim' : ClosedLoopClaim lib input' := by
    obtain ⟨hchain, hperiod, hparties, hsize, hnonzero, hsorted, houtside, hblocks⟩ := hclaim
    refine ⟨?_, ?_, ?_, ?_, ?_, ?_, ?_, ?_⟩
    · rwa [h.chain]
    · rwa [h.period.1, h.period.2]
    · rwa [h.parties.1, h.parties.2]
    · rwa [h.buyers]
    · rwa [h.buyers]
    · rwa [h.buyers]
    · rwa [h.buyers, h.parties.2]
    · rw [h.period.1, h.period.2]
      exact h.blocks.authentic hblocks
  have hcircuit' : CodedCircuit input' e' := by
    rw [CodedCircuit, h.period.1, h.period.2, h.parties.1, h.parties.2, h.buyers]
    exact Loop.Circuit.perm hperm hcircuit
  have hledgers' : LedgersOk lib input' (WrappedReconciled e'.fundings e'.settlements) := by
    refine ⟨?_, ?_⟩
    · rw [h.ledgers, h.buyers, List.length_map]
      exact hledgers.count
    · intro w hw
      rw [h.ledgers, h.buyers, List.zip_map_right, List.mem_map] at hw
      obtain ⟨⟨buyer, ledger⟩, hw, rfl⟩ := hw
      obtain ⟨balance, hread, hbalance⟩ := hledgers.reconciled _ hw
      refine ⟨balance, ?_, ?_⟩
      · rw [h.period.2]
        exact (h.blocks.endBalance_eq _ _ _).trans hread
      · unfold WrappedReconciled at hbalance ⊢
        rw [← Loop.settledBy_perm hperm.settlements, ← Loop.fundedTo_perm hperm.fundings]
        exact hbalance
  refine ⟨closedLoopJournal lib input' e' bytes', e.settlements, e'.settlements, ?_,
    acceptedEvidence_closedLoop hclaim hres hcircuit,
    acceptedEvidence_closedLoop hclaim' hres' hcircuit', hperm.settlements⟩
  exact verifyClosedLoop_eq_ok.mpr ⟨hclaim', e', hres', hcircuit', hledgers', bytes', hbytes', rfl⟩

/-- A rearrangement of an accepted pair is accepted, with the same settlements in another order. -/
theorem ReciprocalRearranged.accepted {input input' : ReciprocalInput}
    (h : ReciprocalRearranged n input input') (hserial : Serializes lib) {journal : WashJournal}
    (hok : verifyReciprocal lib input = .ok journal) :
    ∃ journal' ss ss', AcceptedAlike lib (.reciprocal input) (.reciprocal input') journal journal'
      ss ss' := by
  obtain ⟨hclaim, e, hres, hexchange, hledgers, bytes, _, rfl⟩ := verifyReciprocal_eq_ok.mp hok
  obtain ⟨bytes', hbytes'⟩ := hserial.reciprocal input'
  obtain ⟨e', hperm, hres'⟩ := hres.reorder ⟨h.blocks.relocation, h.pair, h.settlements,
    h.deposits⟩
  have hclaim' : ReciprocalClaim lib input' := by
    obtain ⟨hchain, hperiod, hpair, hblocks⟩ := hclaim
    refine ⟨?_, ?_, ?_, ?_⟩
    · rwa [h.chain]
    · rwa [h.period.1, h.period.2]
    · rwa [h.pair.1, h.pair.2]
    · rw [h.period.1, h.period.2]
      exact h.blocks.authentic hblocks
  have hexchange' : CodedExchange input' e' := by
    rw [CodedExchange, h.period.1, h.period.2, h.pair.1, h.pair.2]
    exact Loop.Exchange.perm hperm hexchange
  have hledgers' : PairLedgersOk lib input' (WrappedSelfFinanced e') := by
    obtain ⟨endA, endB, hA, hB, hbalances⟩ := hledgers
    refine ⟨endA, endB, ?_, ?_, ?_⟩
    · rw [h.period.2, h.pair.1, h.ledgers.1]
      exact (h.blocks.endBalance_eq _ _ _).trans hA
    · rw [h.period.2, h.pair.2, h.ledgers.2]
      exact (h.blocks.endBalance_eq _ _ _).trans hB
    · unfold WrappedSelfFinanced at hbalances ⊢
      rw [← Loop.settledTotal_perm hperm.settlements, ← Loop.fundedTotal_perm hperm.deposits]
      exact hbalances
  refine ⟨reciprocalJournal lib input' e' bytes', e.settlements, e'.settlements, ?_,
    acceptedEvidence_reciprocal hclaim hres hexchange,
    acceptedEvidence_reciprocal hclaim' hres' hexchange', hperm.settlements⟩
  exact verifyReciprocal_eq_ok.mpr
    ⟨hclaim', e', hres', hexchange', hledgers', bytes', hbytes', rfl⟩

/-- Rearranged evidence is accepted with the evidence it rearranges. -/
theorem EvidenceRearranged.accepted {evidence evidence' : SellerEvidence}
    (h : EvidenceRearranged n evidence evidence') (hserial : Serializes lib)
    {journal : WashJournal} (hok : verifyEvidence lib evidence = .ok journal) :
    ∃ journal' ss ss', AcceptedAlike lib evidence evidence' journal journal' ss ss' := by
  cases h with
  | closedLoop h => exact h.accepted hserial hok
  | reciprocal h => exact h.accepted hserial hok

/-- Rearranged evidence has rearranged blocks. -/
theorem EvidenceRearranged.blocks {evidence evidence' : SellerEvidence}
    (h : EvidenceRearranged n evidence evidence') :
    BlocksRearranged n evidence.blocks evidence'.blocks := by
  cases h with
  | closedLoop h => exact h.blocks
  | reciprocal h => exact h.blocks

/-- Rearranged evidence is about the same claim. -/
theorem EvidenceRearranged.identity {evidence evidence' : SellerEvidence}
    (h : EvidenceRearranged n evidence evidence') :
    evidence'.periodStartBlock = evidence.periodStartBlock ∧
      evidence'.periodEndBlock = evidence.periodEndBlock ∧
      evidence'.sourceClaimId = evidence.sourceClaimId ∧ evidence'.members = evidence.members := by
  cases h with
  | closedLoop h =>
    refine ⟨h.period.1, h.period.2, h.source, ?_⟩
    exact congrArg (fun seller => [seller]) h.parties.1
  | reciprocal h =>
    refine ⟨h.period.1, h.period.2, h.source, ?_⟩
    exact congrArg₂ (fun a b => [a, b]) h.pair.1 h.pair.2

/-! ## The seller proof -/

/-- Records stay distinct and positive in any order. -/
theorem recordsOk_perm {records records' : List SettlementRecord} (h : records.Perm records')
    (hok : RecordsOk records) : RecordsOk records' := by
  refine ⟨(h.map _).nodup_iff.mp hok.distinct, ?_, ?_⟩
  · intro r hr
    exact hok.nonzero r (h.mem_iff.mpr hr)
  · rw [recordedTotal, ← (h.map _).sum_eq]
    exact hok.fits

/-- A subject has the same settlements and volume, in whatever order they were proven. -/
theorem subjectOf_perm {core : CoreLib} {ss ss' : List (Loop.Settlement Address LogKey)}
    (h : ss.Perm ss') (seller : Address) :
    (subjectOf core ss seller).settlements.Perm (subjectOf core ss' seller).settlements ∧
      (subjectOf core ss' seller).washVolume = (subjectOf core ss seller).washVolume := by
  refine ⟨(h.filter _).map _, ?_⟩
  simp only [subjectOf, Loop.soldBy_perm h]

/-- One direction: what is accepted before a rearrangement is accepted after it, with the
same result. -/
theorem verifySeller_rearranged {input : SellerProofInput} {evidence' : SellerEvidence}
    (hserial : Serializes lib) (h : EvidenceRearranged n input.evidence evidence')
    (hclaimId : ∀ journal, verifyEvidence lib evidence' = .ok journal → journal.claimId ≠ 0)
    {verified : VerifiedSeller} (hok : verifySeller lib input = .ok verified) :
    verifySeller lib { input with evidence := evidence' } = .ok verified := by
  obtain ⟨hinput, journal, subject, counter, settlements, refs, root, haccepts, rfl⟩ :=
    verifySeller_eq_ok.mp hok
  obtain ⟨journal', ss, ss', hruns, horiginal, hrearranged, hperm⟩ :=
    h.accepted hserial haccepts.evidence
  obtain ⟨hstart, hend, hsource, hmembers⟩ := h.identity
  obtain ⟨hmember, rfl, hperiod, hids, hrecords, hblocks⟩ :=
    horiginal.claimFor_iff.mp haccepts.claim
  have hrefs : journal'.blockRefs = journal.blockRefs := by
    rw [horiginal.blockRefs, hrearranged.blockRefs]
    exact (h.blocks.sortedReferences_eq horiginal.blocks.numbers).symm
  obtain ⟨hrecordsPerm, hvolume⟩ := @subjectOf_perm lib.toCoreLib ss ss' hperm input.seller
  have hclaim' : ClaimFor journal' input.seller input.periodStartBlock input.periodEndBlock
      (subjectOf lib.toCoreLib ss' input.seller) := by
    refine hrearranged.claimFor_iff.mpr ⟨?_, rfl, ?_, ⟨?_, hclaimId journal' hruns⟩,
      recordsOk_perm hrecordsPerm hrecords, ?_⟩
    · rwa [hmembers]
    · rwa [hstart, hend]
    · rw [hsource]
      exact hids.1
    · intro b' hb'
      obtain ⟨b, hb, _, hrearranged⟩ := h.blocks.exists_left hb'
      rw [hrearranged.header]
      exact hblocks b hb
  refine verifySeller_eq_ok.mpr ⟨hinput, journal', _, counter, settlements, refs, root,
    ⟨hruns, hclaim', ?_, ?_, ?_, haccepts.root⟩, ?_⟩
  · obtain ⟨hreading, hagrees, hnonzero⟩ := haccepts.boundary
    refine ⟨hreading, ?_, hnonzero⟩
    rw [hrefs]
    exact hagrees
  · intro id amount
    rw [haccepts.sales id amount]
    exact (hrecordsPerm.map _).mem_iff
  · rw [hrefs]
    exact haccepts.references
  · rw [hvolume]
    rfl

/-- The order of the evidence is irrelevant: an input and its rearrangement are accepted alike,
with the same journal and the same block references. -/
theorem evidence_order_irrelevant {input : SellerProofInput} {evidence' : SellerEvidence}
    (hserial : Serializes lib) (h : EvidenceRearranged n input.evidence evidence')
    (hclaimId : ∀ journal, verifyEvidence lib input.evidence = .ok journal ∨
      verifyEvidence lib evidence' = .ok journal → journal.claimId ≠ 0)
    (verified : VerifiedSeller) :
    verifySeller lib input = .ok verified ↔
      verifySeller lib { input with evidence := evidence' } = .ok verified := by
  constructor
  · exact verifySeller_rearranged hserial h fun journal hrun => hclaimId journal (.inr hrun)
  · intro hok
    exact @verifySeller_rearranged lib n.symm { input with evidence := evidence' } input.evidence
      hserial h.symm (fun journal hrun => hclaimId journal (.inl hrun)) verified hok

/-! ## A reversed exchange -/

/-- The middle block of the exchange with its receipts and its transactions swapped. -/
def reversedBlock : EvidenceBlock :=
  let block := exemplarBlock 101 2000 [(21, [settledLog 22 21 50]), (22, [settledLog 21 22 50])]
  { block with receipts := block.receipts.reverse, transactions := block.transactions.reverse }

/-- The exchange with its blocks in reverse and its settlements renumbered and swapped. -/
def reversedExchange : ReciprocalInput :=
  { exchangeInput none with
    blocks := [exemplarBlock 102 3000 [], reversedBlock,
      exemplarBlock 100 1000 [(21, [transferLog 21 depositsAddress 100, depositedLog 21 100])]]
    settlements := [⟨1, 0, 0⟩, ⟨1, 1, 0⟩]
    internalDeposits := [⟨21, ⟨2, 0, 0⟩, ⟨2, 0, 1⟩⟩]
    ledgerA := ⟨⟨0, (exchangeInput none).ledgerA.finish.proof⟩⟩
    ledgerB := ⟨⟨0, (exchangeInput none).ledgerB.finish.proof⟩⟩ }

/-- Where the reversed exchange stores its blocks and receipts. -/
def exchangeReversal : Renumbering where
  block := Equiv.swap 0 2
  receipt i := if i = 1 then Equiv.swap 0 1 else Equiv.refl Usize

/-- A pair of entries is swapped by the transposition of their places. -/
private theorem swap_getElem? {α : Type*} (x y : α) (i : Usize) :
    [y, x][(Equiv.swap (0 : Usize) 1 i).val]? = [x, y][i.val]? := by
  by_cases h0 : i = 0
  · rw [h0, Equiv.swap_apply_left]
    rfl
  · by_cases h1 : i = 1
    · rw [h1, Equiv.swap_apply_right]
      rfl
    · rw [Equiv.swap_apply_of_ne_of_ne h0 h1]
      have hval0 : i.val ≠ 0 := fun h => h0 (Fin.ext h)
      have hval1 : i.val ≠ 1 := fun h => h1 (Fin.ext h)
      rw [List.getElem?_eq_none (by simp; omega), List.getElem?_eq_none (by simp; omega)]

private theorem blockRearranged_refl (b : EvidenceBlock) :
    BlockRearranged (Equiv.refl Usize) b b :=
  ⟨rfl, .refl _, fun _ => rfl, .refl _⟩

private theorem reversedBlock_rearranged : BlockRearranged (Equiv.swap 0 1)
    (exemplarBlock 101 2000 [(21, [settledLog 22 21 50]), (22, [settledLog 21 22 50])])
    reversedBlock := by
  refine ⟨rfl, (List.reverse_perm _).symm, ?_, (List.reverse_perm _).symm⟩
  intro i
  exact swap_getElem? _ _ i

/-- Three blocks are reversed by the transposition of the outer places. -/
private theorem blocksRearranged_reversed {a b b' c : EvidenceBlock}
    (h : BlockRearranged (Equiv.swap 0 1) b b') :
    BlocksRearranged exchangeReversal [a, b, c] [c, b', a] := by
  refine ⟨⟨[a, b', c], ?_, (List.reverse_perm _).symm⟩, ?_⟩
  · exact .cons ⟨_, blockRearranged_refl a⟩ (.cons ⟨_, h⟩ (.cons ⟨_, blockRearranged_refl c⟩ .nil))
  · intro i
    by_cases h0 : i = 0
    · rw [h0]
      exact .some (blockRearranged_refl a)
    · by_cases h1 : i = 1
      · rw [h1]
        exact .some h
      · by_cases h2 : i = 2
        · rw [h2]
          exact .some (blockRearranged_refl c)
        · have hval0 : i.val ≠ 0 := fun h => h0 (Fin.ext h)
          have hval1 : i.val ≠ 1 := fun h => h1 (Fin.ext h)
          have hval2 : i.val ≠ 2 := fun h => h2 (Fin.ext h)
          change Option.Rel _ _ [c, b', a][(Equiv.swap 0 2 i).val]?
          rw [Equiv.swap_apply_of_ne_of_ne h0 h2, List.getElem?_eq_none (by simp; omega),
            List.getElem?_eq_none (by simp; omega)]
          exact .none

/-- Both orders of the exchange prove the same journal for member 21. -/
theorem exchange_reversed_alike : ∃ verified,
    verifySeller (exchangeExemplar none).lib (exchangeSeller none 21) = .ok verified ∧
      verifySeller (exchangeExemplar none).lib
        { exchangeSeller none 21 with evidence := .reciprocal reversedExchange } =
          .ok verified := by
  have hserial : Serializes (exchangeExemplar none).lib := ⟨fun _ => ⟨_, rfl⟩, fun _ => ⟨_, rfl⟩⟩
  have hrearranged : ReciprocalRearranged exchangeReversal (exchangeInput none)
      reversedExchange :=
    ⟨rfl, ⟨rfl, rfl⟩, rfl, ⟨rfl, rfl⟩, blocksRearranged_reversed reversedBlock_rearranged,
      List.Perm.swap _ _ _, .refl _, ⟨rfl, rfl⟩⟩
  have hclaimId : ∀ journal, verifyEvidence (exchangeExemplar none).lib
        (.reciprocal (exchangeInput none)) = .ok journal ∨
      verifyEvidence (exchangeExemplar none).lib (.reciprocal reversedExchange) = .ok journal →
      journal.claimId ≠ 0 := by
    intro journal hrun
    rcases hrun with hrun | hrun
    · obtain ⟨_, _, _, _, _, _, _, hjournal⟩ := verifyReciprocal_eq_ok.mp hrun
      rw [hjournal]
      exact exemplarHash_ne_zero _
    · obtain ⟨_, _, _, _, _, _, _, hjournal⟩ := verifyReciprocal_eq_ok.mp hrun
      rw [hjournal]
      exact exemplarHash_ne_zero _
  obtain ⟨verified, hverified, _⟩ := toOption_map_eq_some.mp
    (@exchangeSeller_volume 21 (.inl rfl))
  exact ⟨verified, hverified, (@evidence_order_irrelevant (exchangeExemplar none).lib
    exchangeReversal (exchangeSeller none 21) (.reciprocal reversedExchange) hserial
    (.reciprocal hrearranged) hclaimId verified).mp hverified⟩

end LoopProof
