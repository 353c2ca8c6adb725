import LoopProof.Predicate.Exemplar
import LoopProof.Correctness.Ledgers
import LoopProof.Correctness.Returns

/-!
# The closed-loop verifier and its specification

The verifier is a sequence of stateful stages. Its result is characterized by one
order-free statement: the claim is well formed and its references resolve to a circuit.
-/

namespace LoopProof

variable {lib : Lib} {input : ClosedLoopInput} {e : Loop.Evidence Address LogKey}

/-- The part of a claim that is checked before its evidence. -/
structure ClosedLoopClaim (lib : Lib) (input : ClosedLoopInput) : Prop where
  chain : input.chainId = baseChainId
  period : input.periodStartBlock ≠ 0 ∧ input.periodStartBlock ≤ input.periodEndBlock
  parties : input.seller ≠ 0 ∧ input.funder ≠ 0
  cohortSize : 1 ≤ input.buyers.length ∧ input.buyers.length ≤ maxBuyers
  cohortNonzero : ∀ b ∈ input.buyers, b ≠ 0
  cohortSorted : input.buyers.Pairwise (· < ·)
  funderOutside : input.funder ∉ input.buyers
  blocks : BlocksAuthentic lib.toCoreLib input.blocks input.periodStartBlock input.periodEndBlock

/-- The references of a claim resolve to the evidence, entry by entry. -/
structure ClosedLoopResolves (lib : Lib) (input : ClosedLoopInput)
    (e : Loop.Evidence Address LogKey) : Prop where
  fundings : List.Forall₂ (FundingAt lib ⟨input.blocks⟩ input.funder) input.fundings e.fundings
  settlements : List.Forall₂ (SettlementAt lib ⟨input.blocks⟩) input.settlements e.settlements
  returns : List.Forall₂ (PathAt lib ⟨input.blocks⟩) input.returns e.returns

/-- The resolved evidence of a claim is determined by its references. -/
theorem ClosedLoopResolves.unique {e' : Loop.Evidence Address LogKey}
    (h : ClosedLoopResolves lib input e) (h' : ClosedLoopResolves lib input e') : e = e' := by
  obtain ⟨fs, ss, ps⟩ := e
  obtain ⟨fs', ss', ps'⟩ := e'
  obtain rfl : fs = fs' :=
    List.right_unique_forall₂' (fun _ _ _ hr hr' => hr.unique hr') h.fundings h'.fundings
  obtain rfl : ss = ss' :=
    List.right_unique_forall₂' (fun _ _ _ hr hr' => hr.unique hr') h.settlements h'.settlements
  obtain rfl : ps = ps' :=
    List.right_unique_forall₂' (fun _ _ _ hr hr' => hr.unique hr') h.returns h'.returns
  rfl

/-- The circuit condition at the coded rule and the claim's own parties. -/
def CodedCircuit (input : ClosedLoopInput) (e : Loop.Evidence Address LogKey) : Prop :=
  Loop.Circuit codedRule (EventPeriod input.periodStartBlock input.periodEndBlock) input.seller
    input.funder input.buyers e

/-- The journal of an accepted claim, with its identifier over the given serialization. -/
def closedLoopJournal (lib : Lib) (input : ClosedLoopInput) (e : Loop.Evidence Address LogKey)
    (bytes : Bytes) : WashJournal where
  predicateId := closedLoopPredicateId
  chainId := baseChainId
  periodStartBlock := input.periodStartBlock
  periodEndBlock := input.periodEndBlock
  sourceClaimId := input.sourceClaimId
  claimId := closedLoopClaimId lib.toCoreLib input.periodStartBlock input.periodEndBlock
    input.seller input.funder (cohortHash lib.toCoreLib input.buyers) (lib.keccak256 bytes)
  subjects := [⟨input.seller, Fin.ofNat (2 ^ 128) (Loop.settledTotal e.settlements),
    e.settlements.map (recordOf lib.toCoreLib)⟩]
  blockRefs := sortedReferences lib.toCoreLib input.blocks

/-- The circuit is the conjunction of what the stages establish. -/
theorem codedCircuit_iff : CodedCircuit input e ↔
    FundingsOk input e.fundings ∧ (∀ b ∈ input.buyers, ∃ f ∈ e.fundings, f.buyer = b) ∧
    e.settlements ≠ [] ∧ SettlementsOk input e.fundings e.settlements ∧
    Loop.settledTotal e.settlements * alphaFundBps.val ≤ Loop.fundedTotal e.fundings * 10000 ∧
    ReturnsOk input e.settlements
      (Loop.fundingPositions e.fundings ++ e.settlements.map (·.position)) e.returns := by
  constructor
  · rintro ⟨hd, hp, hfc, hall, hne, hsub, hafter, hff, hsf, hcov, hret⟩
    have hd' := (List.nodup_append.mp hd).1
    simp only [Loop.Evidence.positions, List.forall_mem_append, List.forall_mem_map] at hp
    exact ⟨⟨(List.nodup_append.mp hd').1, hp.1.1, hfc, hff⟩, hall, hne,
      ⟨hd', hp.1.2, hsub, hafter, hsf⟩, hcov, ⟨hd, hp.2, hret⟩⟩
  · rintro ⟨⟨_, hpf, hfc, hff⟩, hall, hne, ⟨_, hps, hsub, hafter, hsf⟩, hcov, ⟨hd, hpr, hret⟩⟩
    refine ⟨hd, ?_, hfc, hall, hne, hsub, hafter, hff, hsf, hcov, hret⟩
    simp only [Loop.Evidence.positions, List.forall_mem_append, List.forall_mem_map]
    exact ⟨⟨hpf, hps⟩, hpr⟩

/-- The checks before the evidence. -/
private theorem closedLoopClaim_iff : ClosedLoopClaim lib input ↔
    input.chainId = baseChainId ∧
    (input.periodStartBlock ≠ 0 ∧ input.periodStartBlock ≤ input.periodEndBlock) ∧
    (input.seller ≠ 0 ∧ input.funder ≠ 0) ∧
    ((1 ≤ input.buyers.length ∧ input.buyers.length ≤ maxBuyers) ∧
      (∀ b ∈ input.buyers, b ≠ 0) ∧ input.buyers.Pairwise (· < ·)) ∧
    input.funder ∉ input.buyers ∧
    BlocksAuthentic lib.toCoreLib input.blocks input.periodStartBlock input.periodEndBlock :=
  ⟨fun ⟨hc, hp, hz, hs, hn, ho, hf, hb⟩ => ⟨hc, hp, hz, ⟨hs, hn, ho⟩, hf, hb⟩,
    fun ⟨hc, hp, hz, ⟨hs, hn, ho⟩, hf, hb⟩ => ⟨hc, hp, hz, hs, hn, ho, hf, hb⟩⟩

/-- The verifier returns a journal exactly for the well-formed claims whose references
resolve to a circuit and whose ledgers pass, and the journal is determined by them. -/
theorem verifyClosedLoop_eq_ok {journal : WashJournal} :
    verifyClosedLoop lib input = .ok journal ↔ ClosedLoopClaim lib input ∧
      ∃ e, ClosedLoopResolves lib input e ∧ CodedCircuit input e ∧
        LedgersOk lib input (WrappedReconciled e.fundings e.settlements) ∧
        ∃ bytes, lib.closedLoopJson input = .ok bytes ∧
          journal = closedLoopJournal lib input e bytes := by
  simp only [closedLoopClaim_iff, verifyClosedLoop, validateChain, canonicalEvidenceHash,
    bind_eq_ok, ensure_eq_ok, mapError_eq_ok, pure_eq_ok, validateSortedUniqueAddresses_eq_ok,
    authenticateBlocks_eq_ok, Prod.exists]
  constructor
  · rintro ⟨_, hchain, _, hperiod, _, hparties, _, hcohort, _, hfunder, _, ⟨hblocks, rfl⟩, funding,
      used, hf, settle, used', hs, _, hcov, _, hledger, _, hreturn, _, ⟨bytes, hjson, rfl⟩, rfl⟩
    obtain ⟨fs, hfres, hfok, hall, hfrep⟩ := verifyFundings_sound hf
    obtain ⟨ss, hsres, hne, hsok, hsrep⟩ := verifySettlements_sound hfrep hfok hs
    obtain ⟨paths, hrres, hrok⟩ := (verifyReturns_eq_ok hsrep hsok).mp hreturn
    rw [meetsRatio_iff, hsrep.total, hfrep.total] at hcov
    refine ⟨⟨hchain, hperiod, hparties, hcohort, hfunder, hblocks⟩, ⟨fs, ss, paths⟩,
      ⟨hfres, hsres, hrres⟩, codedCircuit_iff.mpr ⟨hfok, hall, hne, hsok, hcov, hrok⟩,
      (verifyLedgers_eq_ok hfrep hsrep).mp hledger, bytes, hjson, ?_⟩
    have htotal : settle.total = Fin.ofNat (2 ^ 128) (Loop.settledTotal ss) := by
      rw [← hsrep.total]
      exact (Fin.ofNat_val_eq_self _).symm
    have hrecords : settle.settlements = ss.map (recordOf lib.toCoreLib) := hsrep.records
    rw [closedLoopJournal, htotal, hrecords]
  · rintro ⟨⟨hchain, hperiod, hparties, hcohort, hfunder, hblocks⟩, ⟨fs, ss, paths⟩,
      ⟨hfres, hsres, hrres⟩, hcircuit, hledger, bytes, hjson, rfl⟩
    obtain ⟨hfok, hall, hne, hsok, hcov, hrok⟩ := codedCircuit_iff.mp hcircuit
    obtain ⟨⟨funding, used⟩, hf, hfrep⟩ := verifyFundings_complete hfres hfok hall
    obtain ⟨⟨settle, used'⟩, hs, hsrep⟩ := verifySettlements_complete hfrep hsres hne hsok
    have hreturn := (verifyReturns_eq_ok hsrep hsok).mpr ⟨paths, hrres, hrok⟩
    have hratio : meetsRatio funding.totalUsdc settle.total alphaFundBps = true := by
      rw [meetsRatio_iff, hsrep.total, hfrep.total]
      exact hcov
    have hledgers := (verifyLedgers_eq_ok hfrep hsrep).mpr hledger
    refine ⟨(), hchain, (), hperiod, (), hparties, (), hcohort, (), hfunder, _, ⟨hblocks, rfl⟩,
      funding, used, hf, settle, used', hs, (), hratio, (), hledgers, (), hreturn, _,
      ⟨bytes, hjson, rfl⟩, ?_⟩
    have htotal : settle.total = Fin.ofNat (2 ^ 128) (Loop.settledTotal ss) := by
      rw [← hsrep.total]
      exact (Fin.ofNat_val_eq_self _).symm
    have hrecords : settle.settlements = ss.map (recordOf lib.toCoreLib) := hsrep.records
    rw [closedLoopJournal, htotal, hrecords]

/-- The declarative specification of the predicate, with the ledger over the integers. -/
structure ClosedLoopSpec (lib : Lib) (input : ClosedLoopInput) : Prop where
  claim : ClosedLoopClaim lib input
  noNative : ∀ f ∈ input.fundings, f.kind.isNative = false
  circuit : ∃ e, ClosedLoopResolves lib input e ∧ CodedCircuit input e ∧
    LedgersOk lib input (Loop.Reconciled codedRule e)

/-- Resolved fundings are never of the legacy shape. -/
theorem ClosedLoopResolves.noNative (h : ClosedLoopResolves lib input e) :
    ∀ f ∈ input.fundings, f.kind.isNative = false := by
  intro f hf
  obtain ⟨item, _, hitem⟩ := forall₂_exists_right h.fundings hf
  exact hitem.not_native

/-- Below the wrapping bound the coded ledgers are the integer ledgers. -/
theorem ledgersOk_iff (hfits : Loop.settledTotal e.settlements < 2 ^ 128)
    (hbalance : ∀ w ∈ input.buyers.zip input.ledgers, ∀ balance : U256,
      endBalance lib ⟨input.blocks⟩ input.periodEndBlock w.1 w.2 = .ok balance →
        balance.val < 2 ^ 240) :
    LedgersOk lib input (WrappedReconciled e.fundings e.settlements) ↔
      LedgersOk lib input (Loop.Reconciled codedRule e) := by
  constructor
  · exact fun h => h.imp fun w hw balance hread hp =>
      (wrappedReconciled_iff (hbalance w hw balance hread) hfits).mp hp
  · exact fun h => h.imp fun w hw balance hread hp =>
      (wrappedReconciled_iff (hbalance w hw balance hread) hfits).mpr hp

/-- With end balances below 128 bits, and a serialization that does not fail, the verifier
decides the specification. -/
theorem verifyClosedLoop_decides (lib : Lib) (input : ClosedLoopInput)
    (hbalance : ∀ w ∈ input.buyers.zip input.ledgers, ∀ balance : U256,
      endBalance lib ⟨input.blocks⟩ input.periodEndBlock w.1 w.2 = .ok balance →
        balance.val < 2 ^ 128)
    (hjson : ∃ bytes, lib.closedLoopJson input = .ok bytes) :
    (∃ journal, verifyClosedLoop lib input = .ok journal) ↔ ClosedLoopSpec lib input := by
  have hbound : ∀ w ∈ input.buyers.zip input.ledgers, ∀ balance : U256,
      endBalance lib ⟨input.blocks⟩ input.periodEndBlock w.1 w.2 = .ok balance →
        balance.val < 2 ^ 240 :=
    fun w hw balance hread => (hbalance w hw balance hread).trans (by norm_num)
  simp only [verifyClosedLoop_eq_ok]
  constructor
  · rintro ⟨_, hclaim, e, hres, hcircuit, hledgers, _⟩
    exact ⟨hclaim, hres.noNative, e, hres, hcircuit,
      (ledgersOk_iff hcircuit.settledFits hbound).mp hledgers⟩
  · rintro ⟨hclaim, _, e, hres, hcircuit, hledgers⟩
    obtain ⟨bytes, hbytes⟩ := hjson
    exact ⟨_, hclaim, e, hres, hcircuit, (ledgersOk_iff hcircuit.settledFits hbound).mpr hledgers,
      bytes, hbytes, rfl⟩

/-- The one-buyer circuit with an emptied buyer meets the specification. -/
theorem circuit_meets_spec : ClosedLoopSpec (circuitExemplar none).lib (circuitInput none) := by
  refine (verifyClosedLoop_decides (circuitExemplar none).lib (circuitInput none) ?_
    ⟨_, rfl⟩).mp (isOk_iff.mp (by decide +kernel))
  have hread : ∀ w ∈ (circuitInput none).buyers.zip (circuitInput none).ledgers,
      endBalance (circuitExemplar none).lib ⟨circuitChain⟩ 102 w.1 w.2 = .ok 0 := by
    decide +kernel
  intro w hw balance hbalance
  cases (hread w hw).symm.trans hbalance
  decide

end LoopProof
