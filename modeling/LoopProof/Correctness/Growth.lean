import LoopProof.Correctness.Relocation
import LoopProof.Correctness.Seller

/-!
# Evidence that only grows

Blocks can be appended to the carried ones, and receipts to a block. Every reference that
resolved before resolves to the same item afterwards, so what an accepted claim consists of is
settled up to its returns, and the verifier looks at the new blocks and the new returns alone.
-/

namespace LoopProof

variable {lib : Lib} {blocks blocks' : List EvidenceBlock}

/-! ## Blocks -/

/-- The block gained receipts behind the ones it had. -/
structure Grown (b b' : EvidenceBlock) : Prop where
  header : b'.header = b.header
  receipts : b.receipts <+: b'.receipts
  transactions : b'.transactions = b.transactions

/-- A block has grown from itself. -/
theorem Grown.refl (b : EvidenceBlock) : Grown b b := ⟨rfl, List.prefix_refl _, rfl⟩

/-- A block that grows twice has grown. -/
theorem Grown.trans {a b c : EvidenceBlock} (hab : Grown a b) (hbc : Grown b c) : Grown a c :=
  ⟨hbc.header.trans hab.header, hab.receipts.trans hbc.receipts,
    hbc.transactions.trans hab.transactions⟩

/-- Every block keeps its place. -/
def BlocksGrow (blocks blocks' : List EvidenceBlock) : Prop :=
  ∀ (i : ℕ) (b : EvidenceBlock), blocks[i]? = some b → ∃ b', blocks'[i]? = some b' ∧ Grown b b'

/-- Blocks have grown from themselves. -/
theorem BlocksGrow.refl (blocks : List EvidenceBlock) : BlocksGrow blocks blocks :=
  fun _ b hb => ⟨b, hb, .refl b⟩

/-- Blocks that grow twice have grown. -/
theorem BlocksGrow.trans {blocks'' : List EvidenceBlock} (h : BlocksGrow blocks blocks')
    (h' : BlocksGrow blocks' blocks'') : BlocksGrow blocks blocks'' := by
  intro i b hb
  obtain ⟨b', hb', hgrown⟩ := h i b hb
  obtain ⟨b'', hb'', hgrown'⟩ := h' i b' hb'
  exact ⟨b'', hb'', hgrown.trans hgrown'⟩

/-- Blocks grow by others behind them. -/
theorem BlocksGrow.append (blocks added : List EvidenceBlock) :
    BlocksGrow blocks (blocks ++ added) := by
  intro i b hb
  obtain ⟨hi, _⟩ := List.getElem?_eq_some_iff.mp hb
  exact ⟨b, by rw [List.getElem?_append_left hi, hb], .refl b⟩

/-- Blocks grow where one of them does. -/
theorem BlocksGrow.set {i : ℕ} {b b' : EvidenceBlock} (hb : blocks[i]? = some b)
    (hgrown : Grown b b') : BlocksGrow blocks (blocks.set i b') := by
  intro j c hc
  by_cases hij : i = j
  · subst hij
    obtain rfl := Option.some.inj (hb.symm.trans hc)
    obtain ⟨hi, _⟩ := List.getElem?_eq_some_iff.mp hb
    exact ⟨b', List.getElem?_set_self hi, hgrown⟩
  · exact ⟨c, by rw [List.getElem?_set_ne hij, hc], .refl c⟩

/-! ## Reads -/

section Reads

variable (h : BlocksGrow blocks blocks') {ref : LogRef}
include h

/-- A log that was found is found again, in the block that grew. -/
theorem log_grows {log : ParsedLog} {receipt : ReceiptProof} {block : EvidenceBlock}
    (hlog : ChainResolver.log lib ⟨blocks⟩ ref = .ok (log, receipt, block)) :
    ∃ block', ChainResolver.log lib ⟨blocks'⟩ ref = .ok (log, receipt, block') ∧
      Grown block block' := by
  obtain ⟨hblock, hreceipt, hsuccess, hfound⟩ := ChainResolver.log_eq_ok.mp hlog
  obtain ⟨block', hblock', hgrown⟩ := h _ _ hblock
  obtain ⟨more, hmore⟩ := hgrown.receipts
  obtain ⟨hlt, _⟩ := List.getElem?_eq_some_iff.mp hreceipt
  refine ⟨block', ChainResolver.log_eq_ok.mpr ⟨hblock', ?_, hsuccess, hfound⟩, hgrown⟩
  rw [← hmore, List.getElem?_append_left hlt]
  exact hreceipt

/-- A log keeps its position when blocks grow. -/
theorem logKey_grows {key : LogKey} (hkey : ChainResolver.logKey lib ⟨blocks⟩ ref = .ok key) :
    ChainResolver.logKey lib ⟨blocks'⟩ ref = .ok key := by
  obtain ⟨log, receipt, block, hlog, rfl⟩ := ChainResolver.logKey_eq_ok.mp hkey
  obtain ⟨block', hlog', hgrown⟩ := log_grows h hlog
  exact ChainResolver.logKey_eq_ok.mpr ⟨log, receipt, block', hlog', by rw [hgrown.header]⟩

/-- A log keeps its time when blocks grow. -/
theorem timestamp_grows {time : U64} (htime : ChainResolver.timestamp ⟨blocks⟩ ref = .ok time) :
    ChainResolver.timestamp ⟨blocks'⟩ ref = .ok time := by
  simp only [ChainResolver.timestamp, ChainResolver.block, bind_eq_ok, okOr_eq_ok,
    pure_eq_ok] at htime ⊢
  obtain ⟨block, hblock, rfl⟩ := htime
  obtain ⟨block', hblock', hgrown⟩ := h _ _ hblock
  exact ⟨block', hblock', by rw [hgrown.header]⟩

/-- An event is found again when blocks grow. -/
theorem event_grows {contract : Address} {count : ℕ} {signature : B256} {sized : ℕ → Bool}
    {mismatch : String} {log : ParsedLog} {block : EvidenceBlock}
    (hevent : ChainResolver.event lib ⟨blocks⟩ contract count signature sized mismatch ref =
      .ok (log, block)) :
    ∃ block', ChainResolver.event lib ⟨blocks'⟩ contract count signature sized mismatch ref =
      .ok (log, block') ∧ Grown block block' := by
  simp only [ChainResolver.event, bind_eq_ok, pure_eq_ok, ensure_eq_ok, Prod.exists,
    Prod.mk.injEq] at hevent ⊢
  obtain ⟨log', receipt, found, hlog, _, hcontract, topic, htopic, _, hsigned, rfl, rfl⟩ := hevent
  obtain ⟨block', hlog', hgrown⟩ := log_grows h hlog
  exact ⟨block', ⟨log', receipt, block', hlog', (), hcontract, topic, htopic, (), hsigned, rfl,
    rfl⟩, hgrown⟩

/-- A transfer is found again when blocks grow. -/
theorem usdcTransfer_grows {event : Address × Address × U128 × U64}
    (hevent : ChainResolver.usdcTransfer lib ⟨blocks⟩ ref = .ok event) :
    ChainResolver.usdcTransfer lib ⟨blocks'⟩ ref = .ok event := by
  simp only [ChainResolver.usdcTransfer, bind_eq_ok, pure_eq_ok, Prod.exists] at hevent ⊢
  obtain ⟨log, block, hlog, sender, hsender, recipient, hrecipient, word, hword, amount, hamount,
    rfl⟩ := hevent
  obtain ⟨block', hlog', hgrown⟩ := event_grows h hlog
  exact ⟨log, block', hlog', sender, hsender, recipient, hrecipient, word, hword, amount, hamount,
    by rw [hgrown.header]⟩

/-- A settlement is found again when blocks grow. -/
theorem settlement_grows {event : B256 × Address × Address × U128 × U64}
    (hevent : ChainResolver.settlement lib ⟨blocks⟩ ref = .ok event) :
    ChainResolver.settlement lib ⟨blocks'⟩ ref = .ok event := by
  simp only [ChainResolver.settlement, bind_eq_ok, pure_eq_ok, Prod.exists] at hevent ⊢
  obtain ⟨log, block, hlog, channel, hchannel, buyer, hbuyer, seller, hseller, delta, hdelta, word,
    hword, amount, hamount, rfl⟩ := hevent
  obtain ⟨block', hlog', hgrown⟩ := event_grows h hlog
  exact ⟨log, block', hlog', channel, hchannel, buyer, hbuyer, seller, hseller, delta, hdelta,
    word, hword, amount, hamount, by rw [hgrown.header]⟩

/-- A deposit is found again when blocks grow. -/
theorem protocolDeposit_grows {event : Address × U128 × U64}
    (hevent : ChainResolver.protocolDeposit lib ⟨blocks⟩ ref = .ok event) :
    ChainResolver.protocolDeposit lib ⟨blocks'⟩ ref = .ok event := by
  simp only [ChainResolver.protocolDeposit, bind_eq_ok, pure_eq_ok, Prod.exists] at hevent ⊢
  obtain ⟨log, block, hlog, buyer, hbuyer, word, hword, amount, hamount, rfl⟩ := hevent
  obtain ⟨block', hlog', hgrown⟩ := event_grows h hlog
  exact ⟨log, block', hlog', buyer, hbuyer, word, hword, amount, hamount, by rw [hgrown.header]⟩

/-- The signer is looked for among the transactions of the block, and those do not change. -/
theorem requireSigner_grows {expected : Address}
    (hsigner : ChainResolver.requireSigner lib ⟨blocks⟩ expected ref = .ok ()) :
    ChainResolver.requireSigner lib ⟨blocks'⟩ expected ref = .ok () := by
  have hfound : ∃ found, ChainResolver.log lib ⟨blocks⟩ ref = .ok found := by
    simp only [ChainResolver.requireSigner, ChainResolver.transactionForLog, bind_eq_ok] at hsigner
    obtain ⟨_, ⟨found, hlog, _⟩, _⟩ := hsigner
    exact ⟨found, hlog⟩
  obtain ⟨⟨log, receipt, block⟩, hlog⟩ := hfound
  obtain ⟨block', hlog', hgrown⟩ := log_grows h hlog
  have hblock : ChainResolver.block ⟨blocks⟩ ref.block = .ok block :=
    okOr_eq_ok.mpr (ChainResolver.log_eq_ok.mp hlog).1
  have hblock' : ChainResolver.block ⟨blocks'⟩ ref.block = .ok block' :=
    okOr_eq_ok.mpr (ChainResolver.log_eq_ok.mp hlog').1
  rw [requireSigner_eq hblock, hlog, ok_bind] at hsigner
  rw [requireSigner_eq hblock', hlog', ok_bind, hgrown.transactions]
  exact hsigner

/-! ## Items -/

/-- A reference names the same transfer when blocks grow. -/
theorem TransferAt.grows {t : Loop.Transfer Address LogKey}
    (ht : TransferAt lib ⟨blocks⟩ ref t) : TransferAt lib ⟨blocks'⟩ ref t := by
  obtain ⟨hkey, ⟨amount, hamount, hevent⟩, time, htime, hstamp⟩ := ht
  exact ⟨logKey_grows h hkey, ⟨amount, hamount, usdcTransfer_grows h hevent⟩, time, htime,
    timestamp_grows h hstamp⟩

/-- A reference names the same settlement when blocks grow. -/
theorem SettlementAt.grows {s : Loop.Settlement Address LogKey}
    (hs : SettlementAt lib ⟨blocks⟩ ref s) : SettlementAt lib ⟨blocks'⟩ ref s := by
  obtain ⟨hkey, ⟨channel, amount, hamount, hevent⟩, time, htime, hstamp⟩ := hs
  exact ⟨logKey_grows h hkey, ⟨channel, amount, hamount, settlement_grows h hevent⟩, time, htime,
    timestamp_grows h hstamp⟩

/-- Evidence names the same funding when blocks grow. -/
theorem FundingAt.grows {funder : Address} {evidence : FundingEvidence}
    {f : Loop.Funding Address LogKey} (hf : FundingAt lib ⟨blocks⟩ funder evidence f) :
    FundingAt lib ⟨blocks'⟩ funder evidence f := by
  cases hf with
  | usdc transfer sender recipient positive =>
    exact .usdc (transfer.grows h) sender recipient positive
  | protocolDeposit deposit =>
    obtain ⟨hreceipt, htransfer, hkey, hordered, hsender, hrecipient, ⟨amount, n, hamount, hevent⟩,
      hpos, hsigner⟩ := deposit
    exact .protocolDeposit ⟨hreceipt, htransfer.grows h, logKey_grows h hkey, hordered, hsender,
      hrecipient, ⟨amount, n, hamount, protocolDeposit_grows h hevent⟩, hpos,
      requireSigner_grows h hsigner⟩

/-- A storage read is checked against the header of its block, and headers do not change. -/
theorem endBalance_grows {periodEnd : U64} {buyer : Address} {ledger : BuyerLedger}
    {balance : U256} (hread : endBalance lib ⟨blocks⟩ periodEnd buyer ledger = .ok balance) :
    endBalance lib ⟨blocks'⟩ periodEnd buyer ledger = .ok balance := by
  simp only [endBalance, ChainResolver.storageValue, ChainResolver.block, bind_eq_ok, okOr_eq_ok,
    ensure_eq_ok] at hread ⊢
  obtain ⟨block, hblock, _, hnumber, hvalue⟩ := hread
  obtain ⟨block', hblock', hgrown⟩ := h _ _ hblock
  exact ⟨block', hblock', (), by rw [hgrown.header, hnumber], by rw [hgrown.header, hvalue]⟩

end Reads

/-! ## Claims -/

/-- A circuit with other returns is a circuit if the new hops are of the period, play no other
role, and close the loop. -/
theorem Loop.Circuit.replace_returns {α κ : Type*} [LT κ] [DecidableEq α] {rule : Loop.Rule}
    {period : κ → Prop} {seller funder : α} {cohort : List α} {e : Loop.Evidence α κ}
    (h : Loop.Circuit rule period seller funder cohort e)
    {paths : List (List (Loop.Transfer α κ))} :
    Loop.Circuit rule period seller funder cohort { e with returns := paths } ↔
      (Loop.Evidence.positions { e with returns := paths }).Nodup ∧
      (∀ p ∈ Loop.hopPositions paths, period p) ∧
      Loop.ReturnLeg rule seller funder e.settlements paths := by
  constructor
  · intro h'
    refine ⟨h'.distinct, fun p hp => h'.inPeriod p ?_, h'.returns⟩
    exact List.mem_append_right _ hp
  · rintro ⟨hdistinct, hperiod, hleg⟩
    refine ⟨hdistinct, ?_, h.fundsCohort, h.everyBuyerFunded, h.settles, h.settlesWithSeller,
      h.settlesAfterFunding, h.fundedFits, h.settledFits, h.coverage, hleg⟩
    intro p hp
    rcases List.mem_append.mp hp with hp | hp
    · exact h.inPeriod p (List.mem_append_left _ hp)
    · exact hperiod p hp

/-- The claim over other blocks and with other returns. -/
def ClosedLoopInput.expand (claim : ClosedLoopInput) (blocks : List EvidenceBlock)
    (returns : List ReturnPath) : ClosedLoopInput :=
  { claim with blocks := blocks, returns := returns }

/-- What the new blocks and the new returns of an accepted claim must satisfy. -/
structure Expandable (lib : Lib) (input : SellerProofInput) (claim : ClosedLoopInput)
    (e : Loop.Evidence Address LogKey) (blocks : List EvidenceBlock) (returns : List ReturnPath)
    (paths : List (List (Loop.Transfer Address LogKey))) : Prop where
  authentic : BlocksAuthentic lib.toCoreLib blocks claim.periodStartBlock claim.periodEndBlock
  hashes : ∀ b ∈ blocks, lib.hashSlow b.header ≠ 0
  /-- A block at the boundary is the boundary block. -/
  boundary : ∀ b ∈ blocks, b.header.number = input.totalVolume.header.number →
    lib.hashSlow b.header = lib.hashSlow input.totalVolume.header
  resolved : List.Forall₂ (PathAt lib ⟨blocks⟩) returns paths
  /-- No hop is a log of another path, of a funding or of a settlement. -/
  distinct : (Loop.Evidence.positions { e with returns := paths }).Nodup
  inPeriod : ∀ p ∈ Loop.hopPositions paths,
    EventPeriod claim.periodStartBlock claim.periodEndBlock p
  leg : Loop.ReturnLeg codedRule claim.seller claim.funder e.settlements paths
  identified : ∃ bytes, lib.closedLoopJson (claim.expand blocks returns) = .ok bytes ∧
    closedLoopClaimId lib.toCoreLib claim.periodStartBlock claim.periodEndBlock claim.seller
      claim.funder (cohortHash lib.toCoreLib claim.buyers) (lib.keccak256 bytes) ≠ 0

section Claims

variable {input : SellerProofInput} {claim : ClosedLoopInput} {e : Loop.Evidence Address LogKey}
  {returns : List ReturnPath} {paths : List (List (Loop.Transfer Address LogKey))}

/-- Fundings and settlements resolve over the grown blocks to what they resolved to. -/
theorem ClosedLoopResolves.grows (hres : ClosedLoopResolves lib claim e)
    (h : BlocksGrow claim.blocks blocks)
    (hreturns : List.Forall₂ (PathAt lib ⟨blocks⟩) returns paths) :
    ClosedLoopResolves lib (claim.expand blocks returns) { e with returns := paths } :=
  ⟨hres.fundings.imp fun _ _ hf => hf.grows h, hres.settlements.imp fun _ _ hs => hs.grows h,
    hreturns⟩

/-- Whatever the expanded claim resolves to differs from the old evidence in its returns. -/
theorem ClosedLoopResolves.expanded_eq {e' : Loop.Evidence Address LogKey}
    (hres : ClosedLoopResolves lib claim e) (h : BlocksGrow claim.blocks blocks)
    (hres' : ClosedLoopResolves lib (claim.expand blocks returns) e') :
    e' = { e with returns := e'.returns } :=
  hres'.unique (hres.grows h hres'.returns)

/-- Balances are read as before. -/
theorem LedgersOk.grows {accepts : Address → ℕ → Prop} (h : BlocksGrow claim.blocks blocks)
    (hledgers : LedgersOk lib claim accepts) :
    LedgersOk lib (claim.expand blocks returns) accepts := by
  refine ⟨hledgers.count, fun w hw => ?_⟩
  obtain ⟨balance, hread, haccepts⟩ := hledgers.reconciled w hw
  exact ⟨balance, endBalance_grows h hread, haccepts⟩

/-- The predicate accepts the expanded claim for its new blocks and returns alone. -/
theorem verifyClosedLoop_expand {journal journal' : WashJournal}
    (hbase : verifyClosedLoop lib claim = .ok journal) (hres : ClosedLoopResolves lib claim e)
    (h : BlocksGrow claim.blocks blocks) :
    verifyClosedLoop lib (claim.expand blocks returns) = .ok journal' ↔
      BlocksAuthentic lib.toCoreLib blocks claim.periodStartBlock claim.periodEndBlock ∧
      ∃ paths, List.Forall₂ (PathAt lib ⟨blocks⟩) returns paths ∧
        (Loop.Evidence.positions { e with returns := paths }).Nodup ∧
        (∀ p ∈ Loop.hopPositions paths,
          EventPeriod claim.periodStartBlock claim.periodEndBlock p) ∧
        Loop.ReturnLeg codedRule claim.seller claim.funder e.settlements paths ∧
        ∃ bytes, lib.closedLoopJson (claim.expand blocks returns) = .ok bytes ∧
          journal' = closedLoopJournal lib (claim.expand blocks returns)
            { e with returns := paths } bytes := by
  obtain ⟨hclaim, e₀, hres₀, hcircuit, hledgers, _⟩ := verifyClosedLoop_eq_ok.mp hbase
  obtain rfl := hres₀.unique hres
  rw [verifyClosedLoop_eq_ok]
  constructor
  · rintro ⟨hclaim', e', hres', hcircuit', _, bytes, hjson, rfl⟩
    have heq := hres.expanded_eq h hres'
    have hcoded : CodedCircuit claim { e₀ with returns := e'.returns } := by
      rw [heq] at hcircuit'
      exact hcircuit'
    obtain ⟨hdistinct, hperiod, hleg⟩ := (Loop.Circuit.replace_returns hcircuit).mp hcoded
    exact ⟨hclaim'.blocks, e'.returns, hres'.returns, hdistinct, hperiod, hleg, bytes, hjson,
      by rw [← heq]⟩
  · rintro ⟨hblocks, paths, hpaths, hdistinct, hperiod, hleg, bytes, hjson, rfl⟩
    refine ⟨⟨hclaim.chain, hclaim.period, hclaim.parties, hclaim.cohortSize, hclaim.cohortNonzero,
      hclaim.cohortSorted, hclaim.funderOutside, hblocks⟩, { e₀ with returns := paths },
      hres.grows h hpaths, ?_, hledgers.grows h, bytes, hjson, rfl⟩
    exact (Loop.Circuit.replace_returns hcircuit).mpr ⟨hdistinct, hperiod, hleg⟩

end Claims

/-! ## Sellers -/

section Sellers

variable {input : SellerProofInput} {claim : ClosedLoopInput} {e : Loop.Evidence Address LogKey}
  {returns : List ReturnPath} {baseline verified : VerifiedSeller}

/-- The input with other evidence of a closed loop. -/
def SellerProofInput.carrying (input : SellerProofInput) (claim : ClosedLoopInput) :
    SellerProofInput :=
  { input with evidence := .closedLoop claim }

/-- The journals differ in nothing but the commitment to the blocks. -/
def SameVerdict (journal journal' : SellerJournal) : Prop :=
  journal' = { journal with
    blockReferenceCount := journal'.blockReferenceCount
    blockAuthenticationChunkCount := journal'.blockAuthenticationChunkCount
    blockAuthenticationRoot := journal'.blockAuthenticationRoot }

/-- The claim of the seller carries over to a journal of the same sales. -/
private theorem claimFor_expand {bytes bytes' : Bytes} {subject : SubjectRecord}
    {paths : List (List (Loop.Transfer Address LogKey))}
    (hclaim : ClaimFor (closedLoopJournal lib claim e bytes) input.seller input.periodStartBlock
      input.periodEndBlock subject) :
    ClaimFor (closedLoopJournal lib (claim.expand blocks returns) { e with returns := paths }
        bytes') input.seller input.periodStartBlock input.periodEndBlock subject ↔
      (closedLoopJournal lib (claim.expand blocks returns) { e with returns := paths }
        bytes').claimId ≠ 0 ∧ RefsOk (sortedReferences lib.toCoreLib blocks) := by
  constructor
  · exact fun h => ⟨h.identified.2, h.refs⟩
  · rintro ⟨hid, hrefs⟩
    exact ⟨hclaim.chain, hclaim.period, ⟨hclaim.identified.1, hid⟩, hclaim.only, hclaim.records,
      hclaim.volume, hclaim.nonzero, hrefs⟩

/-- Blocks of distinct numbers are usable references if no hash is zero. -/
theorem refsOk_sortedReferences {core : CoreLib}
    (hnumbers : (blocks.map (·.header.number)).Nodup) :
    RefsOk (sortedReferences core blocks) ↔ ∀ b ∈ blocks, core.hashSlow b.header ≠ 0 := by
  constructor
  · intro h b hb
    exact h.nonzero _ (mem_sortedReferences.mpr ⟨b, hb, rfl⟩)
  · intro h
    constructor
    · intro r hr
      obtain ⟨b, hb, rfl⟩ := mem_sortedReferences.mp hr
      exact h b hb
    · intro r hr r' hr' heq
      obtain ⟨b, hb, rfl⟩ := mem_sortedReferences.mp hr
      obtain ⟨b', hb', rfl⟩ := mem_sortedReferences.mp hr'
      rw [List.inj_on_of_nodup_map hnumbers hb hb' heq]

/-- What holds of all references holds of all blocks. -/
theorem forall_sortedReferences {core : CoreLib} {P : U64 × B256 → Prop} :
    (∀ r ∈ sortedReferences core blocks, P r) ↔
      ∀ b ∈ blocks, P (b.header.number, core.hashSlow b.header) := by
  simp only [mem_sortedReferences, EvidenceBlock.reference]
  constructor
  · exact fun h b hb => h _ ⟨b, hb, rfl⟩
  · rintro h _ ⟨b, hb, rfl⟩
    exact h b hb

/-- A seller proof whose claim was accepted is accepted with grown blocks and other returns
exactly if those satisfy what the predicate asks of them. -/
theorem verifySeller_expand_iff (hbase : verifySeller lib (input.carrying claim) = .ok baseline)
    (hres : ClosedLoopResolves lib claim e) (h : BlocksGrow claim.blocks blocks) :
    (∃ verified, verifySeller lib (input.carrying (claim.expand blocks returns)) = .ok verified) ↔
      ∃ paths, Expandable lib input claim e blocks returns paths := by
  obtain ⟨hvalid, journal, subject, counter, hevidence, hclaim, hboundary⟩ :=
    verifySeller_isOk.mp ⟨baseline, hbase⟩
  have hloop : verifyClosedLoop lib claim = .ok journal := hevidence
  obtain ⟨_, e₀, hres₀, _, _, _, _, rfl⟩ := verifyClosedLoop_eq_ok.mp hloop
  obtain rfl := hres₀.unique hres
  rw [verifySeller_isOk]
  constructor
  · rintro ⟨_, journal', subject', counter', hevidence', hclaim', hboundary'⟩
    obtain ⟨hblocks, paths, hpaths, hdistinct, hperiod, hleg, bytes, hjson, rfl⟩ :=
      (verifyClosedLoop_expand hloop hres h).mp hevidence'
    exact ⟨paths, hblocks, (refsOk_sortedReferences hblocks.numbers).mp hclaim'.refs,
      forall_sortedReferences.mp hboundary'.agrees, hpaths, hdistinct, hperiod, hleg, bytes, hjson,
      hclaim'.identified.2⟩
  · rintro ⟨paths, hblocks, hhashes, hagrees, hpaths, hdistinct, hperiod, hleg, bytes, hjson, hid⟩
    refine ⟨hvalid, _, subject, counter, (verifyClosedLoop_expand hloop hres h).mpr ⟨hblocks, paths,
      hpaths, hdistinct, hperiod, hleg, bytes, hjson, rfl⟩,
      (claimFor_expand hclaim).mpr ⟨hid, (refsOk_sortedReferences hblocks.numbers).mpr hhashes⟩,
      hboundary.reading, forall_sortedReferences.mpr hagrees, hboundary.nonzero⟩

/-- Whatever is verified after an expansion has the verdict of before. -/
theorem verifySeller_expand_verdict
    (hbase : verifySeller lib (input.carrying claim) = .ok baseline)
    (h : BlocksGrow claim.blocks blocks)
    (hverified : verifySeller lib (input.carrying (claim.expand blocks returns)) = .ok verified) :
    SameVerdict baseline.journal verified.journal := by
  obtain ⟨_, journal, subject, counter, settlements, refs, root, haccepts, rfl⟩ :=
    verifySeller_eq_ok.mp hbase
  obtain ⟨_, journal', subject', counter', settlements', refs', root', haccepts', rfl⟩ :=
    verifySeller_eq_ok.mp hverified
  have hloop : verifyClosedLoop lib claim = .ok journal := haccepts.evidence
  have hloop' : verifyClosedLoop lib (claim.expand blocks returns) = .ok journal' :=
    haccepts'.evidence
  obtain ⟨_, e, hres, _, _, bytes, _, rfl⟩ := verifyClosedLoop_eq_ok.mp hloop
  obtain ⟨_, paths, _, _, _, _, bytes', _, rfl⟩ := (verifyClosedLoop_expand hloop hres h).mp hloop'
  -- both journals list the one subject of the same settlements
  have hsubject : [subject'] = [subject] := haccepts'.claim.only.symm.trans haccepts.claim.only
  obtain rfl : subject' = subject := List.singleton_inj.mp hsubject
  obtain rfl : settlements = settlements' :=
    haccepts.sales.map_eq haccepts'.sales fun _ => Iff.rfl
  obtain ⟨agentId, _, hreading⟩ := haccepts.boundary.reading
  obtain ⟨agentId', _, hreading'⟩ := haccepts'.boundary.reading
  have hcounter : counter' = counter := by
    have := hreading'.symm.trans hreading
    injection this with this
    exact congrArg BoundaryReading.counter this
  subst hcounter
  rfl

end Sellers

end LoopProof
