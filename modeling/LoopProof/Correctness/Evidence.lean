import LoopProof.Correctness.ClosedLoop
import LoopProof.Correctness.Reciprocal

/-!
# Accepted evidence

What both predicates establish about the evidence they accept, in one form: the seller
verifier continues from here without knowing which predicate ran.
-/

namespace LoopProof

/-! ## The parts of the evidence -/

/-- The log references of one funding event. -/
def FundingKind.slots : FundingKind → List LogRef
  | .usdc transfer => [transfer]
  | .protocolDeposit transfer deposited => [transfer, deposited]
  | .native .. => []

namespace SellerEvidence

/-- The blocks of either claim. -/
def blocks : SellerEvidence → List EvidenceBlock
  | .closedLoop input => input.blocks
  | .reciprocal input => input.blocks

/-- The start of the period of either claim. -/
def periodStartBlock : SellerEvidence → U64
  | .closedLoop input => input.periodStartBlock
  | .reciprocal input => input.periodStartBlock

/-- The end of the period of either claim. -/
def periodEndBlock : SellerEvidence → U64
  | .closedLoop input => input.periodEndBlock
  | .reciprocal input => input.periodEndBlock

/-- The claim that the evidence was made for. -/
def sourceClaimId : SellerEvidence → B256
  | .closedLoop input => input.sourceClaimId
  | .reciprocal input => input.sourceClaimId

/-- The settlements of either claim. -/
def settlements : SellerEvidence → List LogRef
  | .closedLoop input => input.settlements
  | .reciprocal input => input.settlements

/-- The accounts whose sales the evidence measures. -/
def members : SellerEvidence → List Address
  | .closedLoop input => [input.seller]
  | .reciprocal input => [input.addressA, input.addressB]

/-- The log reference of every role: transfers and deposits, settlements, hops. -/
def roleSlots : SellerEvidence → List LogRef
  | .closedLoop input => input.fundings.flatMap (·.kind.slots) ++ input.settlements ++
      input.returns.flatMap (·.transfers)
  | .reciprocal input => input.settlements ++
      input.internalDeposits.flatMap fun d => [d.transfer, d.deposited]

end SellerEvidence

/-! ## What acceptance means for the seller -/

variable {lib : Lib}

/-- The evidence was accepted with the given journal, and its settlements resolve to `ss`. -/
structure AcceptedEvidence (lib : Lib) (evidence : SellerEvidence) (journal : WashJournal)
    (ss : List (Loop.Settlement Address LogKey)) : Prop where
  period : evidence.periodStartBlock ≠ 0 ∧ evidence.periodStartBlock ≤ evidence.periodEndBlock
  blocks : BlocksAuthentic lib.toCoreLib evidence.blocks evidence.periodStartBlock
    evidence.periodEndBlock
  settlements : List.Forall₂ (SettlementAt lib ⟨evidence.blocks⟩) evidence.settlements ss
  slots : ∃ keys, keys.Nodup ∧ List.Forall₂
    (fun ref key => ChainResolver.logKey lib ⟨evidence.blocks⟩ ref = .ok key)
    evidence.roleSlots keys
  distinct : (ss.map (·.position)).Nodup
  sold : ∀ s ∈ ss, 0 < s.amount ∧ s.seller ∈ evidence.members
  members : evidence.members.Nodup ∧ ∀ m ∈ evidence.members, m ≠ 0
  shares : ∀ m ∈ evidence.members, 0 < Loop.soldBy ss m ∧ Loop.soldBy ss m < 2 ^ 128
  identity : journal.chainId = baseChainId ∧
    journal.periodStartBlock = evidence.periodStartBlock ∧
    journal.periodEndBlock = evidence.periodEndBlock ∧
    journal.sourceClaimId = evidence.sourceClaimId
  subjects : journal.subjects = evidence.members.map (subjectOf lib.toCoreLib ss)
  blockRefs : journal.blockRefs = sortedReferences lib.toCoreLib evidence.blocks

/-- The slots of a funding resolve to its positions. -/
theorem FundingAt.slots {resolver : ChainResolver} {funder : Address} {evidence : FundingEvidence}
    {f : Loop.Funding Address LogKey} (h : FundingAt lib resolver funder evidence f) :
    List.Forall₂ (fun ref key => resolver.logKey lib ref = .ok key) evidence.kind.slots
      f.positions := by
  cases h with
  | usdc transfer _ _ _ => exact .cons transfer.key .nil
  | protocolDeposit deposit => exact .cons deposit.transfer.key (.cons deposit.depositedKey .nil)

/-- The slots of settlements resolve to their positions. -/
theorem settlementSlots {resolver : ChainResolver} {refs : List LogRef}
    {ss : List (Loop.Settlement Address LogKey)}
    (h : List.Forall₂ (SettlementAt lib resolver) refs ss) :
    List.Forall₂ (fun ref key => resolver.logKey lib ref = .ok key) refs
      (ss.map (·.position)) :=
  List.forall₂_map_right_iff.mpr (h.imp fun _ _ hs => hs.key)

/-- The role slots of resolved closed-loop evidence, in order. -/
theorem ClosedLoopResolves.slots {input : ClosedLoopInput} {e : Loop.Evidence Address LogKey}
    (h : ClosedLoopResolves lib input e) :
    List.Forall₂ (fun ref key => ChainResolver.logKey lib ⟨input.blocks⟩ ref = .ok key)
      (SellerEvidence.closedLoop input).roleSlots e.positions := by
  refine List.rel_append (List.rel_append ?_ (settlementSlots h.settlements)) ?_
  · exact forall₂_flatMap h.fundings fun _ _ hf => hf.slots
  · refine forall₂_flatMap h.returns fun _ _ hp => ?_
    exact List.forall₂_map_right_iff.mpr (List.Forall₂.imp (fun _ _ ht => ht.key) hp)

/-- The role slots of resolved pair evidence, in order. -/
theorem ReciprocalResolves.slots {input : ReciprocalInput} {e : Loop.PairEvidence Address LogKey}
    (h : ReciprocalResolves lib input e) :
    List.Forall₂ (fun ref key => ChainResolver.logKey lib ⟨input.blocks⟩ ref = .ok key)
      (SellerEvidence.reciprocal input).roleSlots e.positions := by
  refine List.rel_append (settlementSlots h.settlements) ?_
  refine forall₂_flatMap h.deposits ?_
  rintro evidence _ ⟨_, t, key, _, hdeposit, rfl⟩
  exact .cons hdeposit.transfer.key (.cons hdeposit.depositedKey .nil)

/-- A list with one seller is that seller's whole share. -/
theorem salesOf_eq_self {ss : List (Loop.Settlement Address LogKey)} {seller : Address}
    (h : ∀ s ∈ ss, s.seller = seller) : Loop.salesOf ss seller = ss :=
  List.filter_eq_self.mpr fun s hs => decide_eq_true (h s hs)

/-- Accepted closed-loop evidence in the common form. -/
theorem acceptedEvidence_closedLoop {input : ClosedLoopInput} {e : Loop.Evidence Address LogKey}
    {bytes : Bytes} (hclaim : ClosedLoopClaim lib input) (hres : ClosedLoopResolves lib input e)
    (hcircuit : CodedCircuit input e) :
    AcceptedEvidence lib (.closedLoop input) (closedLoopJournal lib input e bytes)
      e.settlements := by
  have hseller : ∀ s ∈ e.settlements, s.seller = input.seller :=
    fun s hs => (hcircuit.settlesWithSeller s hs).1
  have hsales := salesOf_eq_self hseller
  have hsold : Loop.soldBy e.settlements input.seller = Loop.settledTotal e.settlements := by
    rw [Loop.soldBy, hsales]
  have hpos : 0 < Loop.settledTotal e.settlements :=
    Loop.settledTotal_pos hcircuit.settles fun s hs => (hcircuit.settlesWithSeller s hs).2.2
  have hdistinct := (List.nodup_append.mp (List.nodup_append.mp hcircuit.distinct).1).2.1
  refine ⟨hclaim.period, hclaim.blocks, hres.settlements, ⟨_, hcircuit.distinct, hres.slots⟩,
    hdistinct, ?_, ⟨List.nodup_singleton _, ?_⟩, ?_, ⟨rfl, rfl, rfl, rfl⟩, ?_, rfl⟩
  · exact fun s hs => ⟨(hcircuit.settlesWithSeller s hs).2.2, List.mem_singleton.mpr (hseller s hs)⟩
  · exact fun m hm => List.mem_singleton.mp hm ▸ hclaim.parties.1
  · intro m hm
    obtain rfl := List.mem_singleton.mp hm
    exact ⟨hsold ▸ hpos, hsold ▸ hcircuit.settledFits⟩
  · simp only [closedLoopJournal, SellerEvidence.members, List.map_singleton, subjectOf, hsold,
      hsales]

/-- Accepted pair evidence in the common form. -/
theorem acceptedEvidence_reciprocal {input : ReciprocalInput}
    {e : Loop.PairEvidence Address LogKey} {bytes : Bytes} (hclaim : ReciprocalClaim lib input)
    (hres : ReciprocalResolves lib input e) (hexchange : CodedExchange input e) :
    AcceptedEvidence lib (.reciprocal input) (reciprocalJournal lib input e bytes)
      e.settlements := by
  have hab := hclaim.pair.2.2.ne
  have hsum := Loop.soldBy_pair hab fun s hs => (hexchange.betweenPair s hs).2
  have hfits : Loop.settledTotal e.settlements < 2 ^ 128 := hexchange.settledFits
  obtain ⟨hA, hB⟩ := hexchange.soldBy_pos hab (by decide)
  refine ⟨hclaim.period, hclaim.blocks, hres.settlements, ⟨_, hexchange.distinct, hres.slots⟩,
    (List.nodup_append.mp hexchange.distinct).1, ?_, ⟨?_, ?_⟩, ?_, ⟨rfl, rfl, rfl, rfl⟩, rfl, rfl⟩
  · intro s hs
    obtain ⟨hpos, hpair⟩ := hexchange.betweenPair s hs
    refine ⟨hpos, ?_⟩
    rcases hpair with ⟨_, h⟩ | ⟨_, h⟩ <;> simp [SellerEvidence.members, h]
  · simpa [SellerEvidence.members] using hab
  · simpa [SellerEvidence.members] using ⟨hclaim.pair.1, hclaim.pair.2.1⟩
  · simp only [SellerEvidence.members, List.forall_mem_cons, List.not_mem_nil, false_implies,
      implies_true, and_true]
    omega

/-- Whatever either predicate accepts is accepted evidence. -/
theorem verifyEvidence_accepted {evidence : SellerEvidence} {journal : WashJournal}
    (h : verifyEvidence lib evidence = .ok journal) :
    ∃ ss, AcceptedEvidence lib evidence journal ss := by
  cases evidence with
  | closedLoop input =>
    obtain ⟨hclaim, e, hres, hcircuit, _, bytes, _, rfl⟩ := verifyClosedLoop_eq_ok.mp h
    exact ⟨e.settlements, acceptedEvidence_closedLoop hclaim hres hcircuit⟩
  | reciprocal input =>
    obtain ⟨hclaim, e, hres, hexchange, _, bytes, _, rfl⟩ := verifyReciprocal_eq_ok.mp h
    exact ⟨e.settlements, acceptedEvidence_reciprocal hclaim hres hexchange⟩

end LoopProof
