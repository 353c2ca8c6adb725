import LoopProof.Correctness.History

/-!
# What a fetch assembles

Against a history, every reference of the assembled input resolves to a log of the chain: the
first of its kind in the transaction that the case names, or a settlement that was listed. The
blocks of the input are those of these logs, with the end of the period behind them.
-/

namespace LoopProof.Host

/-- The position of a log in the history. -/
def LogLoc.key (loc : LogLoc) : LogKey := ⟨loc.block, loc.transaction, loc.log⟩

/-- The buyer that is funded. -/
def CaseFunding.buyer : CaseFunding → Address
  | .usdc buyer _ => buyer
  | .deposit buyer _ => buyer

/-- The transaction of a funding. -/
def CaseFunding.tx : CaseFunding → B256
  | .usdc _ tx => tx
  | .deposit _ tx => tx

/-- A reference of an input is a log at a position, in a block of the chain. -/
structure Resolves (lib : HostLib) (history : History lib.Body) (blocks : List EvidenceBlock)
    (ref : LogRef) (key : LogKey) (log : ParsedLog) : Prop where
  position : ChainResolver.logKey lib.toLib ⟨blocks⟩ ref = .ok key
  log : ∃ receipt block, ChainResolver.log lib.toLib ⟨blocks⟩ ref = .ok (log, receipt, block)
  time : ∃ block, history.chain.block key.blockNumber = some block ∧
    ChainResolver.timestamp ⟨blocks⟩ ref = .ok block.header.timestamp

section References

variable {lib : HostLib} {history : History lib.Body} {blocks : List EvidenceBlock} {ref : LogRef}
  {key key' : LogKey} {log log' : ParsedLog}

/-- A reference resolves to one log. -/
theorem Resolves.unique (h : Resolves lib history blocks ref key log)
    (h' : Resolves lib history blocks ref key' log') : key = key' ∧ log = log' := by
  obtain ⟨_, _, hlog⟩ := h.log
  obtain ⟨_, _, hlog'⟩ := h'.log
  have hsame := Except.ok.inj (hlog.symm.trans hlog')
  exact ⟨Except.ok.inj (h.position.symm.trans h'.position), (Prod.mk.inj hsame).1⟩

variable {fetched : List (U64 × EvidenceBlock × LogPositionMap)} {loc : LogLoc}

/-- Where the reference of a place comes from. -/
theorem toRef_eq_ok (hfetched : Fetched history.chain fetched)
    (h : toRef (.of fetched) loc = .ok ref) : ∃ found proof,
      fetched[ref.block.val]? = some (loc.block, found) ∧
      found.1.receipts[ref.receipt.val]? = some proof ∧ proof.txIndex = loc.transaction ∧
      ref.log = loc.log := by
  simp only [toRef, bind_eq_ok, pure_eq_ok, okOr_eq_ok, hfetched.blockPositions,
    hfetched.receiptPositions] at h
  obtain ⟨block, hblock, receipt, ⟨found, hfound, proof, hproof, hindex⟩, rfl⟩ := h
  rw [List.getElem?_map, Option.map_eq_some_iff] at hblock
  obtain ⟨⟨number, found'⟩, hposition, rfl⟩ := hblock
  obtain rfl := hfetched.unique hfound (List.mem_of_getElem? hposition)
  exact ⟨found, proof, hposition, hproof, hindex, rfl⟩

/-- The reference of a place resolves to the log that stands there. -/
theorem toRef_resolves (hrlp : lib.rlpHeader = canonicalHeader)
    (hfetched : Fetched history.chain fetched) {rest : List EvidenceBlock} {index : U64}
    (hlog : history.chain.LogAt loc.key index log) (h : toRef (.of fetched) loc = .ok ref) :
    Resolves lib history (fetched.map (·.2.1) ++ rest) ref loc.key log := by
  obtain ⟨found, proof, hposition, hproof, hindex, hplace⟩ := toRef_eq_ok hfetched h
  obtain ⟨block, receipt, entry, hblock, hreceipt, hentry, _, rfl⟩ := hlog
  obtain ⟨block', _, _, hblock', hgenuine⟩ :=
    hfetched.genuine _ (List.mem_of_getElem? hposition)
  obtain rfl : block = block' := Option.some.inj (hblock.symm.trans hblock')
  obtain ⟨receipt', hreceipt', hvalue⟩ := hgenuine.receipts proof (List.mem_of_getElem? hproof)
  rw [hindex] at hreceipt'
  obtain rfl : receipt = receipt' := Option.some.inj (hreceipt.symm.trans hreceipt')
  obtain ⟨hsuccess, hread⟩ := read_logAt hrlp (List.mem_of_getElem? hreceipt) hentry
  have hblocks : (fetched.map (·.2.1) ++ rest)[ref.block.val]? = some found.1 := by
    have hlt := (List.getElem?_eq_some_iff.mp hposition).1
    rw [List.getElem?_append_left (by rw [List.length_map]; exact hlt), List.getElem?_map,
      hposition]
    rfl
  have hresolved : ChainResolver.log lib.toLib ⟨fetched.map (·.2.1) ++ rest⟩ ref =
      .ok (entry.log, proof, found.1) := by
    rw [ChainResolver.log_eq_ok, hvalue, hplace]
    exact ⟨hblocks, hproof, hsuccess, hread⟩
  refine ⟨?_, ⟨proof, found.1, hresolved⟩, block, hblock, ?_⟩
  · rw [ChainResolver.logKey_eq_ok]
    refine ⟨_, _, _, hresolved, ?_⟩
    rw [hindex, hplace, hgenuine.header, history.chain.numbered _ _ hblock]
    rfl
  · simp only [ChainResolver.timestamp, ChainResolver.block, bind_eq_ok, okOr_eq_ok, pure_eq_ok]
    exact ⟨found.1, hblocks, by rw [hgenuine.header]⟩

end References

/-! ## Located fundings -/

section Locate

variable (lib : HostLib) (history : History lib.Body) (blocks : List EvidenceBlock)

/-- A reference to the first log of a transaction with a property. -/
def FirstRef (tx : B256) (wanted : ParsedLog → Bool) (ref : LogRef) (log : ParsedLog) : Prop :=
  ∃ loc, history.first tx wanted = some (loc, log) ∧ Resolves lib history blocks ref loc.key log

/-- The evidence that a funding of the case becomes. -/
inductive AssembledFunding (funder : Address) : CaseFunding → FundingEvidence → Prop
  | usdc {buyer : Address} {tx : B256} {ref : LogRef} {log : ParsedLog}
      (transfer : FirstRef lib history blocks tx (isTransfer funder buyer) ref log) :
      AssembledFunding funder (.usdc buyer tx) ⟨buyer, .usdc ref⟩
  | deposit {buyer : Address} {tx : B256} {ref deposited : LogRef} {log credited : ParsedLog}
      (transfer : FirstRef lib history blocks tx (isTransfer funder depositsAddress) ref log)
      (deposit : FirstRef lib history blocks tx (isDeposited buyer) deposited credited)
      (sameReceipt : ref.block = deposited.block ∧ ref.receipt = deposited.receipt) :
      AssembledFunding funder (.deposit buyer tx) ⟨buyer, .protocolDeposit ref deposited⟩

/-- A reference to a listed settlement. -/
def SettlementRef (found : MinedLog) (ref : LogRef) : Prop :=
  ∃ position, history.chain.LogAt ⟨found.blockNumber, found.transactionIndex, position⟩
      found.logIndex found.log ∧
    Resolves lib history blocks ref ⟨found.blockNumber, found.transactionIndex, position⟩ found.log

/-- Where the logs of a funding were found. -/
inductive LocatedFunding (funder : Address) : CaseFunding → FundingLoc → Prop
  | usdc {buyer : Address} {tx : B256} {loc : LogLoc} {log : ParsedLog}
      (transfer : history.first tx (isTransfer funder buyer) = some (loc, log)) :
      LocatedFunding funder (.usdc buyer tx) ⟨buyer, loc, none⟩
  | deposit {buyer : Address} {tx : B256} {loc deposited : LogLoc} {log credited : ParsedLog}
      (transfer : history.first tx (isTransfer funder depositsAddress) = some (loc, log))
      (deposit : history.first tx (isDeposited buyer) = some (deposited, credited)) :
      LocatedFunding funder (.deposit buyer tx) ⟨buyer, loc, some deposited⟩

variable {lib history blocks} {node : LogNode lib.Body}

/-- A node that serves the history locates the logs of the funding. -/
theorem locateFunding_located (hserves : ServesLogs node history) {funder : Address}
    {funding : CaseFunding} {loc : FundingLoc}
    (h : locateFunding lib node funder funding = .ok loc) :
    LocatedFunding lib history funder funding loc := by
  cases funding with
  | usdc buyer tx =>
    simp only [locateFunding, bind_eq_ok, pure_eq_ok] at h
    obtain ⟨place, hplace, rfl⟩ := h
    obtain ⟨log, hlog⟩ := findLogInTx_first hserves hplace
    exact .usdc hlog
  | deposit buyer tx =>
    simp only [locateFunding, bind_eq_ok, pure_eq_ok] at h
    obtain ⟨place, hplace, deposited, hdeposited, rfl⟩ := h
    obtain ⟨log, hlog⟩ := findLogInTx_first hserves hplace
    obtain ⟨credited, hcredited⟩ := findLogInTx_first hserves hdeposited
    exact .deposit hlog hcredited

/-- A funding is located in the block of its transaction. -/
theorem LocatedFunding.block {funder : Address} {funding : CaseFunding} {loc : FundingLoc}
    (h : LocatedFunding lib history funder funding loc) : loc.buyer = funding.buyer ∧
      (history.transaction funding.tx).map (·.blockNumber) = some loc.transfer.block := by
  have hplace : ∀ {tx : B256} {wanted : ParsedLog → Bool} {place : LogLoc} {log : ParsedLog},
      history.first tx wanted = some (place, log) →
        (history.transaction tx).map (·.blockNumber) = some place.block := by
    intro tx wanted place log hfirst
    obtain ⟨mined, hfirst⟩ := first_eq_some.mp hfirst
    rw [hfirst.transaction, Option.map_some, hfirst.block]
  cases h with
  | usdc htransfer => exact ⟨rfl, hplace htransfer⟩
  | deposit htransfer _ => exact ⟨rfl, hplace htransfer⟩

/-- Both places of one transaction are in one receipt. -/
theorem toRef_sameReceipt {materialized : MaterializedEvidence} {loc loc' : LogLoc}
    {ref ref' : LogRef} (h : toRef materialized loc = .ok ref)
    (h' : toRef materialized loc' = .ok ref') (hblock : loc.block = loc'.block)
    (htransaction : loc.transaction = loc'.transaction) :
    ref.block = ref'.block ∧ ref.receipt = ref'.receipt := by
  simp only [toRef, bind_eq_ok, pure_eq_ok, okOr_eq_ok] at h h'
  obtain ⟨block, hfound, receipt, hreceipt, rfl⟩ := h
  obtain ⟨block', hfound', receipt', hreceipt', rfl⟩ := h'
  rw [hblock, hfound'] at hfound
  rw [hblock, htransaction, hreceipt'] at hreceipt
  exact ⟨(Option.some.inj hfound).symm, (Option.some.inj hreceipt).symm⟩

/-- First logs of one transaction stand in one receipt. -/
theorem first_sameReceipt {tx : B256} {wanted wanted' : ParsedLog → Bool} {loc loc' : LogLoc}
    {log log' : ParsedLog} (h : history.first tx wanted = some (loc, log))
    (h' : history.first tx wanted' = some (loc', log')) :
    loc.block = loc'.block ∧ loc.transaction = loc'.transaction := by
  obtain ⟨mined, hfirst⟩ := first_eq_some.mp h
  obtain ⟨mined', hfirst'⟩ := first_eq_some.mp h'
  obtain rfl := Option.some.inj (hfirst.transaction.symm.trans hfirst'.transaction)
  exact ⟨hfirst.block.symm.trans hfirst'.block, hfirst.index.symm.trans hfirst'.index⟩

/-- The evidence of a located funding is that of its logs. -/
theorem fundingOf_assembled (hrlp : lib.rlpHeader = canonicalHeader)
    {fetched : List (U64 × EvidenceBlock × LogPositionMap)}
    (hfetched : Fetched history.chain fetched) {rest : List EvidenceBlock} {funder : Address}
    {funding : CaseFunding} {loc : FundingLoc} {evidence : FundingEvidence}
    (hlocated : LocatedFunding lib history funder funding loc)
    (h : fundingOf (.of fetched) loc = .ok evidence) :
    AssembledFunding lib history (fetched.map (·.2.1) ++ rest) funder funding evidence := by
  cases hlocated with
  | usdc htransfer =>
    simp only [fundingOf, bind_eq_ok, pure_eq_ok] at h
    obtain ⟨ref, href, rfl⟩ := h
    obtain ⟨index, hlog⟩ := first_logAt htransfer
    exact .usdc ⟨_, htransfer, toRef_resolves hrlp hfetched hlog href⟩
  | deposit htransfer hdeposit =>
    simp only [fundingOf, bind_eq_ok, pure_eq_ok] at h
    obtain ⟨ref, href, deposited, hdeposited, rfl⟩ := h
    obtain ⟨index, hlog⟩ := first_logAt htransfer
    obtain ⟨index', hlog'⟩ := first_logAt hdeposit
    obtain ⟨hblock, htransaction⟩ := first_sameReceipt htransfer hdeposit
    exact .deposit ⟨_, htransfer, toRef_resolves hrlp hfetched hlog href⟩
      ⟨_, hdeposit, toRef_resolves hrlp hfetched hlog' hdeposited⟩
      (toRef_sameReceipt href hdeposited hblock htransaction)

end Locate

/-! ## Listed settlements -/

section Settlements

variable {lib : HostLib} {history : History lib.Body}

/-- Every log of the history is at its place. -/
theorem logs_logAt {found : MinedLog} (h : found ∈ history.logs) :
    ∃ position, history.chain.LogAt ⟨found.blockNumber, found.transactionIndex, position⟩
      found.logIndex found.log := by
  obtain ⟨mined, htransaction, hblock, hindex, log, hlog, hlogIndex, hsame⟩ := mem_logs h
  obtain ⟨hmem, _⟩ := transaction_eq_some.mp htransaction
  obtain ⟨block, receipt, hmined⟩ := exists_minedAt hmem
  obtain ⟨position, hposition⟩ := List.mem_iff_getElem?.mp hlog
  have hlt := (List.getElem?_eq_some_iff.mp hposition).1.trans (length_logs_lt hmem)
  have hfound := hmined.found
  have hreceipt := hmined.place
  rw [hblock] at hfound
  rw [hindex] at hreceipt
  rw [hmined.logs] at hposition
  exact ⟨⟨position, hlt⟩, block, receipt, log, hfound, hreceipt, hposition, hlogIndex, hsame⟩

variable {fetched : List (U64 × EvidenceBlock × LogPositionMap)}

/-- The place of a listed settlement is where its log stands. -/
theorem settlementLoc_logAt (hfetched : Fetched history.chain fetched) {found : MinedLog}
    (hfound : found ∈ history.logs) {loc : LogLoc}
    (h : settlementLoc (.of fetched) (rawOf found) = .ok loc) :
    loc.block = found.blockNumber ∧ loc.transaction = found.transactionIndex ∧
      history.chain.LogAt loc.key found.logIndex found.log := by
  simp only [settlementLoc, bind_eq_ok, pure_eq_ok, okOr_eq_ok, hfetched.logPositions] at h
  obtain ⟨position, ⟨evidence, hevidence, hposition⟩, rfl⟩ := h
  obtain ⟨place, block, receipt, entry, hblock, hreceipt, hentry, hindex, hlog⟩ :=
    logs_logAt hfound
  obtain ⟨block', _, _, hblock', hgenuine⟩ := hfetched.genuine _ hevidence
  obtain rfl : block = block' := Option.some.inj (hblock.symm.trans hblock')
  obtain ⟨transaction, hhas⟩ := hgenuine.sound _ _ hposition
  have hplace := ChainBlock.HasLog.unique ⟨receipt, hreceipt, entry, hentry, hindex⟩ hhas
  obtain rfl : place = position := Fin.ext hplace.2
  exact ⟨rfl, rfl, block, receipt, entry, hblock, hreceipt, hentry, hindex, hlog⟩

/-- The reference of a settlement is where its log is. -/
theorem settlementLoc_ref (hrlp : lib.rlpHeader = canonicalHeader)
    (hfetched : Fetched history.chain fetched) {rest : List EvidenceBlock} {found : MinedLog}
    (hfound : found ∈ history.logs) {loc : LogLoc} {ref : LogRef}
    (hloc : settlementLoc (.of fetched) (rawOf found) = .ok loc)
    (h : toRef (.of fetched) loc = .ok ref) :
    SettlementRef lib history (fetched.map (·.2.1) ++ rest) found ref := by
  obtain ⟨hblock, htransaction, hlog⟩ := settlementLoc_logAt hfetched hfound hloc
  have hresolves := @toRef_resolves _ _ _ _ _ _ hrlp hfetched rest _ hlog h
  rw [LogLoc.key, hblock, htransaction] at hlog hresolves
  exact ⟨loc.log, hlog, hresolves⟩

end Settlements

/-! ## Requested blocks -/

section Requested

variable {targets : Targets} {number block transaction : U64}

/-- A target adds the block of a receipt. -/
theorem mem_receipt : number ∈ targets.receipt block transaction ↔
    number = block ∨ number ∈ targets := by
  rw [Targets.receipt, Std.ExtTreeMap.mem_insert, Std.compare_eq_iff_eq, eq_comm]

/-- A target adds the block of a transaction. -/
theorem mem_transaction : number ∈ targets.transaction block transaction ↔
    number = block ∨ number ∈ targets := by
  rw [Targets.transaction, Std.ExtTreeMap.mem_insert, Std.compare_eq_iff_eq, mem_receipt,
    eq_comm, ← or_assoc, or_self]

/-- Requests one after the other. -/
private theorem mem_foldl_request {α : Type} {step : Targets → α → Targets} (place : α → U64)
    (hstep : ∀ targets x, number ∈ step targets x ↔ number = place x ∨ number ∈ targets)
    {xs : List α} : number ∈ xs.foldl step targets ↔
      (∃ x ∈ xs, number = place x) ∨ number ∈ targets := by
  induction xs generalizing targets with
  | nil => simp
  | cons x xs ih =>
    rw [List.foldl_cons, ih, hstep]
    simp only [List.mem_cons, exists_eq_or_imp]
    rw [or_left_comm, or_assoc]

/-- The requested blocks are those of the fundings, the settlements and the hops. -/
theorem mem_caseTargets {fundings : List FundingLoc} {settlements : List RawSettlement}
    {hops : List (List LogLoc)} : number ∈ caseTargets fundings settlements hops ↔
      (∃ loc ∈ fundings, number = loc.transfer.block) ∨
      (∃ raw ∈ settlements, number = raw.block) ∨ ∃ loc ∈ hops.flatten, number = loc.block := by
  rw [caseTargets, mem_foldl_request LogLoc.block fun targets loc => mem_receipt,
    mem_foldl_request RawSettlement.block fun targets raw => mem_receipt,
    mem_foldl_request (fun loc : FundingLoc => loc.transfer.block) fun targets loc =>
      mem_transaction]
  have hempty : ¬ number ∈ (∅ : Targets) := Std.ExtTreeMap.not_mem_empty
  simp only [hempty, false_or, or_left_comm, or_comm]

end Requested

/-! ## The assembled input -/

/-- The numbers of the blocks in which a buyer was funded. -/
def fundingBlocks {β : Type} (history : History β) (case : CaseInput) (buyer : Address) :
    List U64 :=
  (case.fundings.filter (·.buyer = buyer)).filterMap fun funding =>
    (history.transaction funding.tx).map (·.blockNumber)

/-- The block from which a buyer's settlements are handed over. -/
def fundedFrom {β : Type} (history : History β) (case : CaseInput) (buyer : Address) : U64 :=
  (fundingBlocks history case buyer).min?.getD periodStartBlock

section Assembled

variable (lib : HostLib) (history : History lib.Body) (case : CaseInput)

/-- The settlements of one buyer that are handed over. -/
def handed (buyer : Address) : List MinedLog :=
  (history.select (settledFilter buyer case.seller) (fundedFrom history case buyer).val
    periodEndBlock.val).take case.maxSettlementsPerBuyer.val

/-- The transfers by which the return paths of the case are followed. -/
def caseHops : List (Address × B256) := case.returns.flatMap (history.hops case.seller)

/-- A block that one of the handed logs stands in. -/
def Needed (number : U64) : Prop :=
  (∃ funding ∈ case.fundings,
      (history.transaction funding.tx).map (·.blockNumber) = some number) ∨
    (∃ found ∈ case.buyers.flatMap (handed lib history case), found.blockNumber = number) ∨
    ∃ hop ∈ caseHops lib history case, ∃ loc log,
      history.first hop.2 (isTransferFrom hop.1) = some (loc, log) ∧ loc.block = number

/-- An input whose references are those of the case. -/
structure Assembled (node : LogNode lib.Body) (input : ClosedLoopInput) : Prop where
  start : input.periodStartBlock = periodStartBlock
  finish : input.periodEndBlock = periodEndBlock
  seller : input.seller = case.seller
  funder : input.funder = case.funder
  buyers : input.buyers = case.buyers
  fundings : List.Forall₂ (AssembledFunding lib history input.blocks case.funder) case.fundings
    input.fundings
  settlements : List.Forall₂ (SettlementRef lib history input.blocks)
    (case.buyers.flatMap (handed lib history case)) input.settlements
  hops : List.Forall₂ (fun hop ref => ∃ log,
      FirstRef lib history input.blocks hop.2 (isTransferFrom hop.1) ref log)
    (caseHops lib history case) (input.returns.flatMap ReturnPath.transfers)
  blocks : ∃ numbers : List U64,
    input.blocks.map (fun block => block.header.number) = numbers ++ [periodEndBlock] ∧
      numbers.Nodup ∧ ∀ number, number ∈ numbers ↔ Needed lib history case number
  ledgers : ∃ fetched header, input.blocks = fetched ++ [⟨header, [], []⟩] ∧
    header.number = periodEndBlock ∧ List.Forall₂ (fun buyer ledger => ∃ witness value,
      storageWitness lib node.toNode header depositsAddress (balanceSlot lib.toLib buyer) =
        .ok (witness, value) ∧
      ledger = ⟨⟨Fin.ofNat _ fetched.length, witness⟩⟩) input.buyers input.ledgers

end Assembled

section Fetch

variable {lib : HostLib} {history : History lib.Body} {case : CaseInput} {node : LogNode lib.Body}

/-- The settlements of a buyer are asked for from its earliest funding on. -/
theorem earliest_fundedFrom {funder : Address} {locs : List FundingLoc}
    (h : List.Forall₂ (LocatedFunding lib history funder) case.fundings locs) (buyer : Address) :
    (earliestFundingBlock locs buyer).getD periodStartBlock = fundedFrom history case buyer := by
  rw [earliestFundingBlock, fundedFrom, fundingBlocks]
  congr 2
  generalize case.fundings = fundings at h ⊢
  induction h with
  | nil => rfl
  | @cons funding loc fundings locs hlocated _ ih =>
    obtain ⟨hbuyer, hblock⟩ := hlocated.block
    by_cases hsame : funding.buyer = buyer
    · have hloc := hbuyer.trans hsame
      simp only [List.filter_cons, hloc, hsame, decide_true, if_true, List.map_cons,
        List.filterMap_cons, hblock, ih]
    · have hloc : ¬ loc.buyer = buyer := fun heq => hsame (hbuyer.symm.trans heq)
      simp only [List.filter_cons, hloc, hsame, decide_false, Bool.false_eq_true, if_false]
      exact ih

variable {digest : U64 → List U64 → List U64 → B256} {cache : List CacheFile}

/-- The settlements that are found for the buyers are the handed ones. -/
private theorem found_settlements (hserves : ServesLogs node history) {locs : List FundingLoc}
    (hlocs : List.Forall₂ (LocatedFunding lib history case.funder) case.fundings locs)
    {buyers : List Address} {raws : List (List RawSettlement)}
    (h : List.Forall₂ (fun buyer raw => buyerSettlements lib node case locs buyer = .ok raw)
      buyers raws) : raws.flatten = (buyers.flatMap (handed lib history case)).map rawOf := by
  induction h with
  | nil => rfl
  | @cons buyer raw buyers raws hraw _ ih =>
    rw [buyerSettlements, earliest_fundedFrom hlocs] at hraw
    rw [List.flatten_cons, ih, List.flatMap_cons, List.map_append,
      findSettlementLogs_select hserves hraw]
    rfl

/-- Settlements that were found are referred to. -/
private theorem assembled_settlements (hrlp : lib.rlpHeader = canonicalHeader)
    {fetched : List (U64 × EvidenceBlock × LogPositionMap)}
    (hfetched : Fetched history.chain fetched) {rest : List EvidenceBlock}
    {found : List MinedLog} (hfound : ∀ log ∈ found, log ∈ history.logs) {locs : List LogLoc}
    {refs : List LogRef}
    (hlocs : List.Forall₂ (fun raw loc => settlementLoc (.of fetched) raw = .ok loc)
      (found.map rawOf) locs)
    (hrefs : List.Forall₂ (fun loc ref => toRef (.of fetched) loc = .ok ref) locs refs) :
    List.Forall₂ (SettlementRef lib history (fetched.map (·.2.1) ++ rest)) found refs := by
  rw [List.forall₂_map_left_iff] at hlocs
  induction hlocs generalizing refs with
  | nil =>
    cases hrefs
    exact .nil
  | cons hloc _ ih =>
    cases hrefs with
    | cons href hrefs =>
      obtain ⟨hlog, hlogs⟩ := List.forall_mem_cons.mp hfound
      exact .cons (settlementLoc_ref hrlp hfetched hlog hloc href) (ih hlogs hrefs)

/-- Hops that were found are referred to. -/
private theorem assembled_hops (hrlp : lib.rlpHeader = canonicalHeader)
    {fetched : List (U64 × EvidenceBlock × LogPositionMap)}
    (hfetched : Fetched history.chain fetched) {rest : List EvidenceBlock}
    {hops : List (Address × B256)} {locs : List LogLoc} {refs : List LogRef}
    (hlocs : List.Forall₂ (fun hop loc =>
      ∃ log, history.first hop.2 (isTransferFrom hop.1) = some (loc, log)) hops locs)
    (hrefs : List.Forall₂ (fun loc ref => toRef (.of fetched) loc = .ok ref) locs refs) :
    List.Forall₂ (fun hop ref => ∃ log,
      FirstRef lib history (fetched.map (·.2.1) ++ rest) hop.2 (isTransferFrom hop.1) ref log)
      hops refs := by
  induction hlocs generalizing refs with
  | nil =>
    cases hrefs
    exact .nil
  | cons hloc _ ih =>
    cases hrefs with
    | cons href hrefs =>
      obtain ⟨log, hfirst⟩ := hloc
      obtain ⟨index, hlog⟩ := first_logAt hfirst
      exact .cons ⟨log, _, hfirst, toRef_resolves hrlp hfetched hlog href⟩ (ih hrefs)

/-- The blocks that are requested are the needed ones. -/
private theorem requested_needed {locs : List FundingLoc} {hops : List (List LogLoc)}
    (hlocs : List.Forall₂ (LocatedFunding lib history case.funder) case.fundings locs)
    (hhops : List.Forall₂ (fun hop loc =>
      ∃ log, history.first hop.2 (isTransferFrom hop.1) = some (loc, log))
      (caseHops lib history case) hops.flatten) (number : U64) :
    number ∈ caseTargets locs ((case.buyers.flatMap (handed lib history case)).map rawOf) hops ↔
      Needed lib history case number := by
  rw [mem_caseTargets, Needed]
  apply or_congr
  · constructor
    · intro h
      obtain ⟨loc, hloc, rfl⟩ := h
      obtain ⟨funding, hfunding, hlocated⟩ := forall₂_exists_left hlocs hloc
      exact ⟨funding, hfunding, hlocated.block.2⟩
    · intro h
      obtain ⟨funding, hfunding, hnumber⟩ := h
      obtain ⟨loc, hloc, hlocated⟩ := forall₂_exists_right hlocs hfunding
      exact ⟨loc, hloc, Option.some.inj (hnumber.symm.trans hlocated.block.2)⟩
  · apply or_congr
    · simp only [List.mem_map]
      constructor
      · intro h
        obtain ⟨_, ⟨found, hfound, rfl⟩, rfl⟩ := h
        exact ⟨found, hfound, rfl⟩
      · intro h
        obtain ⟨found, hfound, rfl⟩ := h
        exact ⟨rawOf found, ⟨found, hfound, rfl⟩, rfl⟩
    · constructor
      · intro h
        obtain ⟨loc, hloc, rfl⟩ := h
        obtain ⟨hop, hhop, log, hfirst⟩ := forall₂_exists_left hhops hloc
        exact ⟨hop, hhop, loc, log, hfirst, rfl⟩
      · intro h
        obtain ⟨hop, hhop, loc, log, hfirst, rfl⟩ := h
        obtain ⟨loc', hloc, log', hfirst'⟩ := forall₂_exists_right hhops hhop
        rw [hfirst'] at hfirst
        obtain ⟨rfl, _⟩ := Prod.mk.inj (Option.some.inj hfirst)
        exact ⟨loc', hloc, rfl⟩

/-- What a fetch hands over is assembled from the logs of the case. -/
theorem fetchInput_assembled (hrlp : lib.rlpHeader = canonicalHeader)
    (hserves : ServesLogs node history) (hcache : WrittenCache node.toNode cache)
    {caseBytes : Bytes} {file : Case.CaseFile} {input : ClosedLoopInput}
    (h : fetchInput lib node digest cache caseBytes file = .ok input) :
    ∃ case, readCase file = .ok case ∧ Assembled lib history case node input := by
  simp only [fetchInput, bind_eq_ok, pure_eq_ok, mapM_eq_ok] at h
  obtain ⟨case, hcase, locs, hfound, raws, hraws, hops, hhops, evidence, hevidence, places,
    hplaces, endHeader, hheader, ledgers, hledgers, settlements, hsettlements, fundings,
    hfundings, returns, hreturns, hinput⟩ := h
  refine ⟨case, hcase, ?_⟩
  have hlocs : List.Forall₂ (LocatedFunding lib history case.funder) case.fundings locs :=
    hfound.imp fun _ _ => locateFunding_located hserves
  have hraw := found_settlements hserves hlocs hraws
  rw [hraw] at hevidence hplaces hledgers hsettlements hfundings hreturns hinput
  have hpaths : List.Forall₂ (fun hop loc =>
      ∃ log, history.first hop.2 (isTransferFrom hop.1) = some (loc, log))
      (caseHops lib history case) hops.flatten := by
    rw [caseHops, ← List.flatMap_id]
    exact forall₂_flatMap hhops fun path locs => locateHops_first hserves
  have hneeded := requested_needed hlocs hpaths
  generalize htargets : caseTargets locs ((case.buyers.flatMap (handed lib history case)).map
    rawOf) hops = targets
    at hevidence hplaces hledgers hsettlements hfundings hreturns hinput hneeded
  generalize hrequests : List.map _ targets.toList = requests
    at hevidence hplaces hledgers hsettlements hfundings hreturns hinput
  have hkeys : requests.map Prod.fst = targets.toList.map Prod.fst := by
    rw [← hrequests, List.map_map]
    rfl
  have hnodup : (targets.toList.map Prod.fst).Nodup :=
    List.Pairwise.imp ne_of_lt (List.pairwise_map.mpr (toList_sorted targets))
  obtain ⟨hnumbers, hfetched⟩ := fetched_of_many hserves.toServes hcache (hkeys ▸ hnodup) hevidence
  -- from here on only the fetched blocks matter, not the requests they answer
  generalize hpairs : (requests.map Prod.fst).zip evidence = fetched
    at hnumbers hfetched hplaces hledgers hsettlements hfundings hreturns hinput
  subst hinput
  obtain ⟨endBlock, hend, rfl⟩ := header_serves hserves.toServes hheader
  have hendNumber : endBlock.header.number = periodEndBlock := history.chain.numbered _ _ hend
  have hrefs : List.Forall₂ (fun loc ref => toRef (.of fetched) loc = .ok ref) hops.flatten
      (returns.flatMap ReturnPath.transfers) := by
    rw [← List.flatMap_id]
    apply forall₂_flatMap hreturns
    intro path ret hpath
    obtain ⟨transfers, htransfers, rfl⟩ := hpath
    exact htransfers
  have hmem : ∀ found ∈ case.buyers.flatMap (handed lib history case), found ∈ history.logs := by
    intro found hfound
    obtain ⟨buyer, _, hhanded⟩ := List.mem_flatMap.mp hfound
    exact (mem_select.mp (List.mem_of_mem_take hhanded)).1
  refine ⟨rfl, rfl, rfl, rfl, rfl, ?_, ?_, ?_, ?_, ?_⟩
  · apply forall₂_replace hlocs.flip hfundings
    intro loc funding found hlocated hfunding
    exact fundingOf_assembled hrlp hfetched hlocated hfunding
  · exact assembled_settlements hrlp hfetched hmem hplaces hsettlements
  · exact assembled_hops hrlp hfetched hpaths hrefs
  · refine ⟨targets.toList.map Prod.fst, ?_, hnodup, ?_⟩
    · rw [List.map_append, ← hkeys, ← hnumbers, List.map_singleton, hendNumber]
      congr 1
      rw [MaterializedEvidence.of, List.map_map]
      apply List.map_congr_left
      intro entry hentry
      obtain ⟨block, _, _, hblock, hgenuine⟩ := hfetched.genuine entry hentry
      exact (congrArg Header.number hgenuine.header).trans (history.chain.numbered _ _ hblock)
    · intro number
      rw [← hneeded, Std.ExtTreeMap.map_fst_toList_eq_keys, Std.ExtTreeMap.mem_keys]
  · refine ⟨_, _, rfl, hendNumber, ?_⟩
    apply hledgers.imp
    intro buyer ledger hledger
    simp only [endLedger, bind_eq_ok, pure_eq_ok, Prod.exists] at hledger
    obtain ⟨witness, value, hwitness, rfl⟩ := hledger
    exact ⟨witness, value, hwitness, rfl⟩

end Fetch

end LoopProof.Host
