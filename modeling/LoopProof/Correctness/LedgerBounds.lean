import LoopProof.Correctness.Relocation
import LoopProof.Loop.Cohort

/-!
# When the ledgers are exact

The reconciliation wraps, so an accepted claim reconciles over the integers exactly when no
proven end balance reaches the bound from which the left side can wrap. Below that bound
less protocol capital never hurts, and the cohort settled what it was funded with.
-/

namespace LoopProof

variable {lib : Lib}

/-! ## Other storage under the same evidence -/

/-- The block with another state root. -/
def OtherState (b b' : EvidenceBlock) : Prop :=
  b' = { b with header := { b.header with stateRoot := b'.header.stateRoot } }

/-- Resolution does not read state roots. -/
theorem relocation_otherState {blocks blocks' : List EvidenceBlock}
    (h : List.Forall₂ OtherState blocks blocks') : Relocation ⟨blocks⟩ ⟨blocks'⟩ id where
  log _ := rfl
  block ref := by
    have hpair : ∀ i : ℕ,
        Option.Rel (AnswersAlike ref.receipt ref.receipt) blocks[i]? blocks'[i]? := by
      induction h with
      | nil => exact fun i => .none
      | cons hb _ ih =>
        intro i
        cases i with
        | zero => exact .some ⟨by rw [hb], by rw [hb], by rw [hb], by rw [hb]⟩
        | succ i => exact ih i
    exact hpair ref.block.val
  sameReceipt _ _ := Iff.rfl

theorem BlockAuthentic.otherState {core : CoreLib} {b b' : EvidenceBlock}
    (h : BlockAuthentic core b)
    (hother : OtherState b b') : BlockAuthentic core b' := by
  rw [hother]
  exact ⟨h.receiptIndexes, h.receipts, h.transactionIndexes, h.transactions⟩

/-- Authenticity of receipts and transactions does not read state roots. -/
theorem BlocksAuthentic.otherState {core : CoreLib} {blocks blocks' : List EvidenceBlock}
    {periodStart periodEnd : U64} (h : BlocksAuthentic core blocks periodStart periodEnd)
    (hother : List.Forall₂ OtherState blocks blocks') :
    BlocksAuthentic core blocks' periodStart periodEnd := by
  have hnumbers : blocks'.map (·.header.number) = blocks.map (·.header.number) := by
    clear h
    induction hother with
    | nil => rfl
    | cons hb _ ih => rw [List.map_cons, List.map_cons, ih, hb]
  refine ⟨?_, hother.length_eq ▸ h.count, hnumbers ▸ h.numbers, fun b' hb' => ?_, fun b' hb' => ?_⟩
  · rintro rfl
    exact h.nonempty (List.forall₂_nil_right_iff.mp hother)
  · obtain ⟨b, hb, hstate⟩ := forall₂_exists_left hother hb'
    have hnumber : b'.header.number = b.header.number := by rw [hstate]
    rw [hnumber]
    exact h.window b hb
  · obtain ⟨b, hb, hstate⟩ := forall₂_exists_left hother hb'
    exact (h.authentic b hb).otherState hstate

/-! ## Closed loops -/

section ClosedLoop

/-- Every end balance the state proofs of the claim yield stays below the bound. -/
def BalancesBelow (lib : Lib) (input : ClosedLoopInput) : Prop :=
  ∀ w ∈ input.buyers.zip input.ledgers, ∀ balance : U256,
    endBalance lib ⟨input.blocks⟩ input.periodEndBlock w.1 w.2 = .ok balance →
      balance.val < 2 ^ 240

/-- Every buyer's ledger reconciles over the integers. -/
def LedgersExact (lib : Lib) (input : ClosedLoopInput) : Prop :=
  ∀ e, ClosedLoopResolves lib input e → LedgersOk lib input (Loop.Reconciled codedRule e)

/-- The cohort settled at most its authenticated funding, within the tolerance. -/
def CohortCovered (lib : Lib) (input : ClosedLoopInput) : Prop :=
  ∀ e, ClosedLoopResolves lib input e →
    Loop.settledTotal e.settlements * 10000 ≤ Loop.fundedTotal e.fundings * 10500

/-- The same claim over other storage: every buyer proves a balance that is no larger. -/
structure LowerBalances (lib : Lib) (input input' : ClosedLoopInput) : Prop where
  same : input' = { input with blocks := input'.blocks, ledgers := input'.ledgers }
  blocks : List.Forall₂ OtherState input.blocks input'.blocks
  count : input'.ledgers.length = input.buyers.length
  lower : ∀ (i : ℕ) buyer ledger ledger', input.buyers[i]? = some buyer →
    input.ledgers[i]? = some ledger → input'.ledgers[i]? = some ledger' → ∀ balance : U256,
      endBalance lib ⟨input.blocks⟩ input.periodEndBlock buyer ledger = .ok balance →
      ∃ balance' : U256, balance' ≤ balance ∧
        endBalance lib ⟨input'.blocks⟩ input.periodEndBlock buyer ledger' = .ok balance'

/-- Less protocol capital keeps the claim accepted. -/
def CapitalNeverHelps (lib : Lib) (input : ClosedLoopInput) : Prop :=
  ∀ input', LowerBalances lib input input' → ∃ journal, verifyClosedLoop lib input' = .ok journal

variable {input input' : ClosedLoopInput} {e : Loop.Evidence Address LogKey}

theorem fundingMoved_id (evidence : FundingEvidence) : FundingMoved id evidence evidence := by
  obtain ⟨buyer, kind⟩ := evidence
  cases kind with
  | usdc ref => exact .usdc buyer ref
  | protocolDeposit ref deposited => exact .protocolDeposit buyer ref deposited
  | native t r => exact .native buyer t t r r

/-- Lower balances leave the references of the claim as they are. -/
theorem LowerBalances.reordered (h : LowerBalances lib input input') :
    ClosedLoopReordered id input input' := by
  obtain ⟨hsame, hblocks, _, _⟩ := h
  have hfundings : input'.fundings = input.fundings := by rw [hsame]
  have hsettlements : input'.settlements = input.settlements := by rw [hsame]
  have hreturns : input'.returns = input.returns := by rw [hsame]
  refine ⟨relocation_otherState hblocks, by rw [hsame], ⟨input.fundings, ?_, ?_⟩, ?_, ?_⟩
  · exact List.forall₂_same.mpr fun f _ => fundingMoved_id f
  · rw [hfundings]
  · rw [hsettlements, List.map_id]
  · rw [hreturns]
    simp only [List.map_id]
    exact (List.map_id _).symm ▸ List.Perm.refl _

/-- The claim over other storage is as well formed as the original. -/
theorem LowerBalances.claim (h : LowerBalances lib input input')
    (hclaim : ClosedLoopClaim lib input) : ClosedLoopClaim lib input' := by
  have hblocks := hclaim.blocks.otherState h.blocks
  rw [h.same]
  exact ⟨hclaim.chain, hclaim.period, hclaim.parties, hclaim.cohortSize, hclaim.cohortNonzero,
    hclaim.cohortSorted, hclaim.funderOutside, hblocks⟩

/-- Ledgers that reconcile over the integers reconcile with lower balances. -/
theorem LowerBalances.ledgersOk (h : LowerBalances lib input input')
    (hledgers : LedgersOk lib input (Loop.Reconciled codedRule e)) :
    LedgersOk lib input' (Loop.Reconciled codedRule e) := by
  have hbuyers : input'.buyers = input.buyers := by rw [h.same]
  have hperiod : input'.periodEndBlock = input.periodEndBlock := by rw [h.same]
  refine ⟨by rw [h.count, hbuyers], fun w hw => ?_⟩
  obtain ⟨buyer, ledger'⟩ := w
  obtain ⟨i, hi⟩ := List.getElem?_of_mem hw
  rw [List.getElem?_zip_eq_some, hbuyers] at hi
  have hlt : i < input.ledgers.length := by
    rw [hledgers.count]
    exact (List.getElem?_eq_some_iff.mp hi.1).1
  have hledger := List.getElem?_eq_getElem hlt
  have hmem : (buyer, input.ledgers[i]) ∈ input.buyers.zip input.ledgers :=
    List.mem_of_getElem? (List.getElem?_zip_eq_some.mpr ⟨hi.1, hledger⟩)
  obtain ⟨balance, hread, hreconciled⟩ := hledgers.reconciled _ hmem
  obtain ⟨balance', hle, hread'⟩ := h.lower i buyer _ ledger' hi.1 hledger hi.2 balance hread
  rw [hperiod]
  exact ⟨balance', hread', hreconciled.mono hle⟩

/-- An integer ledger of a circuit proves a balance far below the bound. -/
theorem Reconciled.balance_lt (hcircuit : CodedCircuit input e) {buyer : Address} {balance : ℕ}
    (h : Loop.Reconciled codedRule e buyer balance) : balance < 2 ^ 240 := by
  have hfunded : Loop.fundedTotal e.fundings < 2 ^ 128 := hcircuit.fundedFits
  have hle := Loop.fundedTo_le e.fundings buyer
  have hreconciled : (balance + Loop.settledBy e.settlements buyer) * 10000 ≤
      Loop.fundedTo e.fundings buyer * 10500 := h
  omega

/-- Lower balances keep an exactly reconciled circuit accepted. -/
theorem LowerBalances.accepted (h : LowerBalances lib input input')
    (hjson : ∃ bytes, lib.closedLoopJson input' = .ok bytes) (hclaim : ClosedLoopClaim lib input)
    (hres : ClosedLoopResolves lib input e) (hcircuit : CodedCircuit input e)
    (hledgers : LedgersOk lib input (Loop.Reconciled codedRule e)) :
    ∃ journal, verifyClosedLoop lib input' = .ok journal := by
  obtain ⟨e', hperm, hres'⟩ := hres.reorder h.reordered
  have hcircuit' : CodedCircuit input' e' := by
    rw [CodedCircuit, h.same]
    exact Loop.Circuit.perm hperm hcircuit
  have hledgers' := (h.ledgersOk hledgers).imp fun w _ balance _ hreconciled =>
    (wrappedReconciled_iff (Reconciled.balance_lt hcircuit hreconciled)
      hcircuit'.settledFits).mpr (hreconciled.perm hperm)
  obtain ⟨bytes, hbytes⟩ := hjson
  exact ⟨_, verifyClosedLoop_eq_ok.mpr
    ⟨h.claim hclaim, e', hres', hcircuit', hledgers', bytes, hbytes, rfl⟩⟩

/-- Integer ledgers cover the cohort. -/
theorem cohortCovered_of_ledgers (hclaim : ClosedLoopClaim lib input)
    (hcircuit : CodedCircuit input e)
    (hledgers : LedgersOk lib input (Loop.Reconciled codedRule e)) :
    Loop.settledTotal e.settlements * 10000 ≤ Loop.fundedTotal e.fundings * 10500 := by
  have hcohort : input.buyers.Nodup := hclaim.cohortSorted.imp fun hab => hab.ne
  refine @Loop.settledTotal_le_funded _ _ _ codedRule _ _ hcohort hcircuit.fundsCohort
    (fun s hs => (hcircuit.settlesWithSeller s hs).2.1) fun b hb => ?_
  obtain ⟨i, hi, rfl⟩ := List.getElem_of_mem hb
  have hi' : i < input.ledgers.length := by
    rw [hledgers.count]
    exact hi
  have hmem : (input.buyers[i], input.ledgers[i]) ∈ input.buyers.zip input.ledgers :=
    List.mem_of_getElem? (List.getElem?_zip_eq_some.mpr
      ⟨List.getElem?_eq_getElem hi, List.getElem?_eq_getElem hi'⟩)
  obtain ⟨balance, _, hreconciled⟩ := hledgers.reconciled _ hmem
  exact ⟨balance.val, hreconciled⟩

/-- An accepted claim has exact ledgers, loses nothing by lower balances and covers its
cohort exactly when its balances stay below the bound. -/
theorem closedLoop_exact_iff (hjson : ∀ input, ∃ bytes, lib.closedLoopJson input = .ok bytes)
    {journal : WashJournal} (h : verifyClosedLoop lib input = .ok journal) :
    (LedgersExact lib input ∧ CapitalNeverHelps lib input ∧ CohortCovered lib input) ↔
      BalancesBelow lib input := by
  obtain ⟨hclaim, e, hres, hcircuit, hledgers, _⟩ := verifyClosedLoop_eq_ok.mp h
  constructor
  · rintro ⟨hexact, _, _⟩ w hw balance hread
    obtain ⟨balance', hread', hreconciled⟩ := (hexact e hres).reconciled w hw
    obtain rfl := Except.ok.inj (hread.symm.trans hread')
    exact Reconciled.balance_lt hcircuit hreconciled
  · intro hbelow
    have hinteger := (ledgersOk_iff hcircuit.settledFits hbelow).mp hledgers
    refine ⟨fun e' hres' => hres.unique hres' ▸ hinteger, fun input' hlower => ?_,
      fun e' hres' => hres.unique hres' ▸ cohortCovered_of_ledgers hclaim hcircuit hinteger⟩
    exact hlower.accepted (hjson input') hclaim hres hcircuit hinteger

end ClosedLoop

/-! ## Pairs -/

section Reciprocal

/-- The end balance one ledger proves for a member. -/
def memberBalance (lib : Lib) (input : ReciprocalInput) (member : Address)
    (ledger : BuyerLedger) : Outcome U256 :=
  endBalance lib ⟨input.blocks⟩ input.periodEndBlock member ledger

/-- Both end balances the state proofs of the pair yield stay below the bound. -/
def PairBalancesBelow (lib : Lib) (input : ReciprocalInput) : Prop :=
  ∀ balance : U256, (memberBalance lib input input.addressA input.ledgerA = .ok balance ∨
    memberBalance lib input input.addressB input.ledgerB = .ok balance) → balance.val < 2 ^ 240

/-- The pair is self-financed over the integers. -/
def PairLedgersExact (lib : Lib) (input : ReciprocalInput) : Prop :=
  ∀ e, ReciprocalResolves lib input e →
    PairLedgersOk lib input (Loop.SelfFinanced codedPairRule e)

/-- The same pair claim over other storage: both members prove a balance that is no larger. -/
structure LowerPairBalances (lib : Lib) (input input' : ReciprocalInput) : Prop where
  same : input' = { input with
    blocks := input'.blocks, ledgerA := input'.ledgerA, ledgerB := input'.ledgerB }
  blocks : List.Forall₂ OtherState input.blocks input'.blocks
  lowerA : ∀ balance, memberBalance lib input input.addressA input.ledgerA = .ok balance →
    ∃ balance' ≤ balance, memberBalance lib input' input'.addressA input'.ledgerA = .ok balance'
  lowerB : ∀ balance, memberBalance lib input input.addressB input.ledgerB = .ok balance →
    ∃ balance' ≤ balance, memberBalance lib input' input'.addressB input'.ledgerB = .ok balance'

/-- Less protocol capital keeps the pair claim accepted. -/
def PairCapitalNeverHelps (lib : Lib) (input : ReciprocalInput) : Prop :=
  ∀ input', LowerPairBalances lib input input' →
    ∃ journal, verifyReciprocal lib input' = .ok journal

variable {input input' : ReciprocalInput} {e : Loop.PairEvidence Address LogKey}

theorem LowerPairBalances.reordered (h : LowerPairBalances lib input input') :
    ReciprocalReordered id input input' := by
  obtain ⟨hsame, hblocks, _, _⟩ := h
  have hsettlements : input'.settlements = input.settlements := by rw [hsame]
  have hdeposits : input'.internalDeposits = input.internalDeposits := by rw [hsame]
  refine ⟨relocation_otherState hblocks, ⟨by rw [hsame], by rw [hsame]⟩, ?_, ?_⟩
  · rw [hsettlements, List.map_id]
  · rw [hdeposits]
    exact (List.map_id _).symm ▸ List.Perm.refl _

theorem LowerPairBalances.claim (h : LowerPairBalances lib input input')
    (hclaim : ReciprocalClaim lib input) : ReciprocalClaim lib input' := by
  have hblocks := hclaim.blocks.otherState h.blocks
  rw [h.same]
  exact ⟨hclaim.chain, hclaim.period, hclaim.pair, hblocks⟩

/-- An integer ledger of an exchange proves balances far below the bound. -/
theorem SelfFinanced.balances_lt (hexchange : CodedExchange input e) {balanceA balanceB : ℕ}
    (h : Loop.SelfFinanced codedPairRule e balanceA balanceB) :
    balanceA < 2 ^ 240 ∧ balanceB < 2 ^ 240 := by
  have hdeposits : Loop.fundedTotal e.deposits < 2 ^ 128 := hexchange.depositsFit
  have hsettled : Loop.settledTotal e.settlements < 2 ^ 128 := hexchange.settledFits
  have hledger : (balanceA + balanceB + Loop.settledTotal e.settlements) * 10000 ≤
      Loop.fundedTotal e.deposits * 10000 + Loop.settledTotal e.settlements * 1000 := h
  omega

/-- Lower balances keep an exactly reconciled exchange accepted. -/
theorem LowerPairBalances.accepted (h : LowerPairBalances lib input input')
    (hjson : ∃ bytes, lib.reciprocalJson input' = .ok bytes) (hclaim : ReciprocalClaim lib input)
    (hres : ReciprocalResolves lib input e) (hexchange : CodedExchange input e)
    (hledgers : PairLedgersOk lib input (Loop.SelfFinanced codedPairRule e)) :
    ∃ journal, verifyReciprocal lib input' = .ok journal := by
  obtain ⟨e', hperm, hres'⟩ := hres.reorder h.reordered
  have hexchange' : CodedExchange input' e' := by
    rw [CodedExchange, h.same]
    exact Loop.Exchange.perm hperm hexchange
  obtain ⟨endA, endB, hA, hB, hfinanced⟩ := hledgers
  obtain ⟨endA', hleA, hA'⟩ := h.lowerA endA hA
  obtain ⟨endB', hleB, hB'⟩ := h.lowerB endB hB
  have hfinanced' := (hfinanced.mono hleA hleB).perm hperm
  obtain ⟨hltA, hltB⟩ := SelfFinanced.balances_lt hexchange' hfinanced'
  have hwrapped := (wrappedSelfFinanced_iff hltA hltB hexchange'.settledFits).mpr hfinanced'
  obtain ⟨bytes, hbytes⟩ := hjson
  exact ⟨_, verifyReciprocal_eq_ok.mpr
    ⟨h.claim hclaim, e', hres', hexchange', ⟨endA', endB', hA', hB', hwrapped⟩, bytes, hbytes, rfl⟩⟩

/-- An accepted pair claim has an exact ledger and loses nothing by lower balances exactly
when both balances stay below the bound. -/
theorem reciprocal_exact_iff (hjson : ∀ input, ∃ bytes, lib.reciprocalJson input = .ok bytes)
    {journal : WashJournal} (h : verifyReciprocal lib input = .ok journal) :
    (PairLedgersExact lib input ∧ PairCapitalNeverHelps lib input) ↔
      PairBalancesBelow lib input := by
  obtain ⟨hclaim, e, hres, hexchange, hledgers, _⟩ := verifyReciprocal_eq_ok.mp h
  constructor
  · rintro ⟨hexact, _⟩ balance hread
    obtain ⟨endA, endB, hA, hB, hfinanced⟩ := hexact e hres
    obtain ⟨hltA, hltB⟩ := SelfFinanced.balances_lt hexchange hfinanced
    rcases hread with hread | hread
    · exact Except.ok.inj (hA.symm.trans hread) ▸ hltA
    · exact Except.ok.inj (hB.symm.trans hread) ▸ hltB
  · intro hbelow
    have hinteger := (pairLedgersOk_iff hexchange.settledFits hbelow).mp hledgers
    exact ⟨fun e' hres' => hres.unique hres' ▸ hinteger, fun input' hlower =>
      hlower.accepted (hjson input') hclaim hres hexchange hinteger⟩

end Reciprocal

/-! ## Both predicates -/

/-- The ledgers of accepted claims are exact over the integers, insensitive to less capital
and covering, exactly when every proven end balance stays below the bound. -/
theorem ledgers_exact_iff {lib : Lib}
    (hclosed : ∀ input, ∃ bytes, lib.closedLoopJson input = .ok bytes)
    (hpair : ∀ input, ∃ bytes, lib.reciprocalJson input = .ok bytes) :
    (∀ input journal, verifyClosedLoop lib input = .ok journal →
      ((LedgersExact lib input ∧ CapitalNeverHelps lib input ∧ CohortCovered lib input) ↔
        BalancesBelow lib input)) ∧
    ∀ input journal, verifyReciprocal lib input = .ok journal →
      ((PairLedgersExact lib input ∧ PairCapitalNeverHelps lib input) ↔
        PairBalancesBelow lib input) :=
  ⟨fun _ _ h => closedLoop_exact_iff hclosed h, fun _ _ h => reciprocal_exact_iff hpair h⟩

/-- The exemplary circuit with an emptied buyer has exact ledgers. -/
theorem circuit_ledgers_exact : LedgersExact (circuitExemplar none).lib (circuitInput none) := by
  obtain ⟨journal, h⟩ := isOk_iff.mp (show (verifyClosedLoop (circuitExemplar none).lib
    (circuitInput none)).isOk = true by decide +kernel)
  have hiff := (@ledgers_exact_iff (circuitExemplar none).lib (fun _ => ⟨_, rfl⟩)
    fun _ => ⟨_, rfl⟩).1 _ journal h
  refine (hiff.mpr ?_).1
  have hread : ∀ w ∈ (circuitInput none).buyers.zip (circuitInput none).ledgers,
      endBalance (circuitExemplar none).lib ⟨circuitChain⟩ 102 w.1 w.2 = .ok 0 := by
    decide +kernel
  intro w hw balance hbalance
  cases (hread w hw).symm.trans hbalance
  decide

/-- A balance that wraps the sum with the settled volume to zero. -/
def wrappingBalance : U256 := Fin.ofNat (2 ^ 256) (2 ^ 256 - 100)

/-- The circuit is accepted with that balance, although its ledger is far from reconciled. -/
theorem wrapping_balance_accepted :
    (∃ journal, verifyClosedLoop (circuitExemplar (some wrappingBalance)).lib
      (circuitInput (some wrappingBalance)) = .ok journal) ∧
    ¬ LedgersExact (circuitExemplar (some wrappingBalance)).lib
      (circuitInput (some wrappingBalance)) := by
  obtain ⟨journal, h⟩ := isOk_iff.mp (show (verifyClosedLoop
    (circuitExemplar (some wrappingBalance)).lib
    (circuitInput (some wrappingBalance))).isOk = true by decide +kernel)
  refine ⟨⟨journal, h⟩, fun hexact => ?_⟩
  obtain ⟨_, e, hres, hcircuit, _⟩ := verifyClosedLoop_eq_ok.mp h
  have hread : ∀ w ∈ (circuitInput (some wrappingBalance)).buyers.zip
      (circuitInput (some wrappingBalance)).ledgers,
      endBalance (circuitExemplar (some wrappingBalance)).lib ⟨circuitChain⟩ 102 w.1 w.2 =
        .ok wrappingBalance := by
    decide +kernel
  have hw : ((13 : Address), (circuitInput (some wrappingBalance)).ledgers.head (by decide)) ∈
      (circuitInput (some wrappingBalance)).buyers.zip
        (circuitInput (some wrappingBalance)).ledgers := List.mem_singleton_self _
  obtain ⟨balance, hbalance, hreconciled⟩ := (hexact e hres).reconciled _ hw
  cases (hread _ hw).symm.trans hbalance
  have hlt := Reconciled.balance_lt hcircuit hreconciled
  exact absurd hlt (by decide)

end LoopProof
