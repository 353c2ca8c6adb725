import LoopProof.Correctness.Materialize
import LoopProof.Predicate.Exemplar

/-!
# Roles of a materialized input

The fundings or deposits, the settlements and the return paths of an input are those of its plan,
each under a reference to the planned log; a deposit comes with the transaction that made it, and
every buyer with its balance at the end of the period.
-/

namespace LoopProof.Host

section Roles

variable (lib : HostLib) (chain : Chain lib.Body) (blocks : List EvidenceBlock)

/-- A reference to the log that a planned log names by its own index. -/
def IndexedRefOf (entry : PlannedLog) (ref : LogRef) : Prop :=
  ∃ index key, entry.logIndex = some index ∧ RefOf lib chain blocks entry index key ref

/-- References to the two logs of a deposit, in one receipt. -/
structure DepositRefsOf (entry : PlannedLog) (transfer deposited : LogRef) : Prop where
  transferred : IndexedRefOf lib chain blocks entry transfer
  credited : ∃ index key, entry.depositLogIndex = some index ∧
    RefOf lib chain blocks entry index key deposited
  sameReceipt : transfer.block = deposited.block ∧ transfer.receipt = deposited.receipt

/-- The funding that a planned log becomes. -/
inductive FundingOf (entry : PlannedLog) : FundingEvidence → Prop
  | usdc {buyer : Address} {transfer : LogRef} (credited : entry.buyer = some buyer)
      (shape : entry.depositLogIndex = none)
      (transferred : IndexedRefOf lib chain blocks entry transfer) :
      FundingOf entry ⟨buyer, .usdc transfer⟩
  | protocolDeposit {buyer : Address} {transfer deposited : LogRef}
      (credited : entry.buyer = some buyer)
      (logs : DepositRefsOf lib chain blocks entry transfer deposited) :
      FundingOf entry ⟨buyer, .protocolDeposit transfer deposited⟩

/-- The path that planned evidence becomes, hop by hop. -/
def PathOf (entry : PlannedEvidence) (path : ReturnPath) : Prop :=
  List.Forall₂ (IndexedRefOf lib chain blocks) (atomicEvidence entry) path.transfers

/-- The one transaction proof behind a log carries the chain's own transaction. -/
def TransactionProven (ref : LogRef) : Prop :=
  ∃ key position proof block transaction,
    ChainResolver.logKey lib.toLib ⟨blocks⟩ ref = .ok key ∧
      ChainResolver.transactionForLog lib.toLib ⟨blocks⟩ ref = .ok position ∧
      blocks[position.block.val]?.bind (·.transactions[position.transaction]?) = some proof ∧
      chain.block key.blockNumber = some block ∧
      block.transactions[key.txIndex.val]? = some transaction ∧
      lib.encodeRpcTransaction transaction.body = .ok proof.value

/-- The witness proves a balance of the buyer at the end of the period. -/
def LedgerOf (periodEndBlock : U64) (buyer : Address) (ledger : BuyerLedger) : Prop :=
  ∃ value, endBalance lib.toLib ⟨blocks⟩ periodEndBlock buyer ledger = .ok value

variable {lib chain blocks}

/-- The entry of a key is found once where keys are different. -/
private theorem filter_zipIdx_eq {α β : Type} [DecidableEq β] {f : α → β} {xs : List α}
    (hnodup : (xs.map f).Nodup) {i : ℕ} {x : α} (h : xs[i]? = some x) (k : ℕ) :
    (xs.zipIdx k).filter (fun entry => f entry.1 = f x) = [(x, k + i)] := by
  induction xs generalizing i k with
  | nil => cases h
  | cons y ys ih =>
    obtain ⟨hnew, hnodup⟩ := List.nodup_cons.mp hnodup
    rw [List.zipIdx_cons]
    cases i with
    | zero =>
      obtain rfl := Option.some.inj h
      have hrest : (ys.zipIdx (k + 1)).filter (fun entry => f entry.1 = f y) = [] := by
        rw [List.filter_eq_nil_iff]
        intro entry hentry hsame
        have hmem := List.mem_of_getElem? (List.mem_zipIdx_iff_le_and_getElem?_sub.mp hentry).2
        exact hnew (of_decide_eq_true hsame ▸ List.mem_map_of_mem hmem)
      simp only [List.filter_cons, decide_true, if_true, hrest, Nat.add_zero]
    | succ i =>
      have hother : f y ≠ f x := by
        intro hsame
        exact hnew (hsame ▸ List.mem_map_of_mem (List.mem_of_getElem? h))
      simp only [List.filter_cons, hother, decide_false, Bool.false_eq_true, if_false]
      rw [ih hnodup h, Nat.add_assoc, Nat.add_comm 1 i]

/-- The transaction behind a log is found where each is proven once. -/
theorem transactionForLog_eq_ok {resolver : ChainResolver} {ref : LogRef} {log : ParsedLog}
    {receipt : ReceiptProof} {block : EvidenceBlock} {proof : TransactionProof}
    (hlog : resolver.log lib.toLib ref = .ok (log, receipt, block))
    (hnodup : (block.transactions.map TransactionProof.txIndex).Nodup)
    (hproof : proof ∈ block.transactions) (hindex : proof.txIndex = receipt.txIndex) :
    ∃ position, resolver.transactionForLog lib.toLib ref = .ok ⟨ref.block, position⟩ ∧
      block.transactions[position]? = some proof := by
  obtain ⟨position, hposition⟩ := List.mem_iff_getElem?.mp hproof
  refine ⟨position, ?_, hposition⟩
  have hfilter := filter_zipIdx_eq hnodup hposition 0
  rw [hindex, Nat.zero_add] at hfilter
  simp only [ChainResolver.transactionForLog, hlog, ok_bind, hfilter]
  rfl

end Roles

/-! ## What is fetched for a claim -/

/-- The fetched blocks hold what the logs of a claim need, and the end of the period. -/
structure FetchedFor {lib : HostLib} (chain : Chain lib.Body) (evidence : List PlannedEvidence)
    (periodEndBlock : U64) (fetched : List (U64 × EvidenceBlock × LogPositionMap)) : Prop
    extends Fetched chain fetched where
  finish : periodEndBlock ∈ fetched.map Prod.fst
  requested : ∀ entry ∈ evidence.flatMap atomicEvidence, ∃ number transaction found,
    entry.blockNumber = some number ∧ entry.transactionIndex = some transaction ∧
      (number, found) ∈ fetched ∧ transaction ∈ found.1.receipts.map ReceiptProof.txIndex ∧
      (requiresTransactionProof entry = true →
        transaction ∈ found.1.transactions.map TransactionProof.txIndex)

section Materialized

variable {lib : HostLib} {node : Node lib.Body} {chain : Chain lib.Body}
  {digest : U64 → List U64 → List U64 → B256} {cache : List CacheFile}
  {evidence : List PlannedEvidence} {periodEndBlock : U64} {materialized : MaterializedEvidence}

/-- What is materialized for a claim is made of blocks fetched for it. -/
theorem materializeEvidence_fetched (hserves : Serves node chain)
    (hcache : WrittenCache node cache)
    (h : materializeEvidence lib node digest cache evidence periodEndBlock = .ok materialized) :
    ∃ fetched, FetchedFor chain evidence periodEndBlock fetched ∧ materialized = .of fetched := by
  simp only [materializeEvidence, bind_eq_ok, pure_eq_ok] at h
  obtain ⟨targets, htargets, fetched, hfetched, rfl⟩ := h
  obtain ⟨hnumbers, hfinish, hrequested⟩ := claimTargets_spec htargets
  have hgenuine := blockEvidenceMany_genuine hserves hcache hfetched
  obtain ⟨hkeys, hall⟩ := fetched_of_many hserves hcache hnumbers hfetched
  refine ⟨(targets.map Prod.fst).zip fetched, ⟨hall, ?_, ?_⟩, rfl⟩
  · rw [hkeys]
    exact hfinish
  · intro entry hentry
    obtain ⟨number, transaction, receipts, transactions, hnumber, htransaction, hmem, hreceipt,
      hsigned⟩ := hrequested entry hentry
    obtain ⟨found, hpair, block, _, hfor⟩ := forall₂_exists_zip hgenuine hmem
    refine ⟨number, transaction, found, hnumber, htransaction, ?_, ?_, ?_⟩
    · rw [List.zip_map_left]
      exact List.mem_map.mpr ⟨_, hpair, rfl⟩
    · rw [hfor.receiptIndices]
      exact mem_sortedSet.mpr hreceipt
    · intro h
      rw [hfor.transactionIndices]
      exact mem_sortedSet.mpr (hsigned h)

end Materialized

/-! ## Parts of an input -/

section Parts

variable {lib : HostLib} {node : Node lib.Body} {chain : Chain lib.Body}
  {evidence : List PlannedEvidence} {periodEndBlock : U64}
  {fetched : List (U64 × EvidenceBlock × LogPositionMap)} {entry : PlannedLog}

/-- The reference of a log that names its own index. -/
theorem indexedRef_refOf (hrlp : lib.rlpHeader = canonicalHeader)
    (hfetched : Fetched chain fetched) (htrue : TrueCoordinates chain entry) {label : String}
    {ref : LogRef} (h : indexedRef (.of fetched) label entry = .ok ref) :
    IndexedRefOf lib chain (fetched.map (·.2.1)) entry ref := by
  simp only [indexedRef, required, bind_eq_ok, okOr_eq_ok] at h
  obtain ⟨index, hindex, h⟩ := h
  obtain ⟨key, log, hnames⟩ := htrue.log index hindex
  exact ⟨index, key, hindex, logRef_refOf hrlp hfetched hnames h⟩

/-- The references of records are where their logs are. -/
theorem indexedRefs_refOf (hrlp : lib.rlpHeader = canonicalHeader)
    (hfetched : Fetched chain fetched) {entries : List PlannedLog}
    (htrue : ∀ entry ∈ entries, TrueCoordinates chain entry) {label : String} {refs : List LogRef}
    (h : entries.mapM (indexedRef (.of fetched) label) = .ok refs) :
    List.Forall₂ (IndexedRefOf lib chain (fetched.map (·.2.1))) entries refs := by
  rw [mapM_eq_ok] at h
  apply forall₂_mem_imp h
  intro entry ref hentry href
  exact indexedRef_refOf hrlp hfetched (htrue entry hentry) href

/-- The references of one planned log are in one receipt. -/
theorem logRef_sameReceipt {index index' : U64}
    {ref ref' : LogRef} (h : logRef (.of fetched) entry index = .ok ref)
    (h' : logRef (.of fetched) entry index' = .ok ref') :
    ref.block = ref'.block ∧ ref.receipt = ref'.receipt := by
  simp only [logRef, bind_eq_ok, pure_eq_ok, okOr_eq_ok] at h h'
  obtain ⟨receipt, hreceipt, _, _, _, _, rfl⟩ := h
  obtain ⟨receipt', hreceipt', _, _, _, _, rfl⟩ := h'
  obtain rfl := Except.ok.inj (hreceipt.symm.trans hreceipt')
  exact ⟨rfl, rfl⟩

/-- The two references of a deposit are where its logs are. -/
theorem depositRefs (hrlp : lib.rlpHeader = canonicalHeader) (hfetched : Fetched chain fetched)
    (htrue : TrueCoordinates chain entry) {label : String} {depositLogIndex : U64}
    (hindex : entry.depositLogIndex = some depositLogIndex) {transfer deposited : LogRef}
    (htransfer : indexedRef (.of fetched) label entry = .ok transfer)
    (hdeposited : logRef (.of fetched) entry depositLogIndex = .ok deposited) :
    DepositRefsOf lib chain (fetched.map (·.2.1)) entry transfer deposited := by
  obtain ⟨key, log, hnames⟩ := htrue.deposit depositLogIndex hindex
  refine ⟨indexedRef_refOf hrlp hfetched htrue htransfer,
    ⟨depositLogIndex, key, hindex, logRef_refOf hrlp hfetched hnames hdeposited⟩, ?_⟩
  simp only [indexedRef, bind_eq_ok] at htransfer
  obtain ⟨index, _, htransfer⟩ := htransfer
  exact logRef_sameReceipt htransfer hdeposited

/-- The evidence of a funding is that of its record. -/
theorem fundingEvidence_fundingOf (hrlp : lib.rlpHeader = canonicalHeader)
    (hfetched : Fetched chain fetched) (htrue : TrueCoordinates chain entry)
    {funding : FundingEvidence} (h : fundingEvidence (.of fetched) entry = .ok funding) :
    FundingOf lib chain (fetched.map (·.2.1)) entry funding := by
  simp only [fundingEvidence, bind_eq_ok, okOr_eq_ok] at h
  obtain ⟨buyer, hbuyer, _, _, h⟩ := h
  cases hshape : entry.depositLogIndex with
  | none =>
    simp only [hshape, bind_eq_ok, pure_eq_ok] at h
    obtain ⟨transfer, htransfer, rfl⟩ := h
    exact .usdc hbuyer hshape (indexedRef_refOf hrlp hfetched htrue htransfer)
  | some depositLogIndex =>
    simp only [hshape, bind_eq_ok, pure_eq_ok] at h
    obtain ⟨transfer, htransfer, deposited, hdeposited, rfl⟩ := h
    exact .protocolDeposit hbuyer
      (depositRefs hrlp hfetched htrue hshape htransfer hdeposited)

/-- The transaction of a log whose signer is checked is proven. -/
theorem transactionProven (hfetched : FetchedFor chain evidence periodEndBlock fetched)
    (hentry : entry ∈ evidence.flatMap atomicEvidence)
    (hsigned : requiresTransactionProof entry = true) {ref : LogRef}
    (href : IndexedRefOf lib chain (fetched.map (·.2.1)) entry ref) :
    TransactionProven lib chain (fetched.map (·.2.1)) ref := by
  obtain ⟨index, key, _, href⟩ := href
  obtain ⟨number, transaction, found, hnumber, htransaction, hfound, _, hproven⟩ :=
    hfetched.requested entry hentry
  obtain ⟨log, receipt, evidenceBlock, hnames, hlog⟩ := href.named
  obtain rfl : key.blockNumber = number := Option.some.inj (hnames.block.symm.trans hnumber)
  obtain rfl : key.txIndex = transaction :=
    Option.some.inj (hnames.transaction.symm.trans htransaction)
  obtain ⟨_, _, _, hlog', hkey⟩ := ChainResolver.logKey_eq_ok.mp href.resolves
  obtain ⟨rfl, rfl, rfl⟩ : log = _ ∧ receipt = _ ∧ evidenceBlock = _ := by
    simpa using hlog.symm.trans hlog'
  have hblock := (ChainResolver.log_eq_ok.mp hlog).1
  rw [List.getElem?_map, Option.map_eq_some_iff] at hblock
  obtain ⟨⟨number, found'⟩, hposition, rfl⟩ := hblock
  obtain ⟨block, _, transactionTargets, hchain, hgenuine⟩ :=
    hfetched.genuine _ (List.mem_of_getElem? hposition)
  have hnumber' : key.blockNumber = number := by
    rw [hkey]
    change found'.1.header.number = number
    rw [hgenuine.header, chain.numbered _ _ hchain]
  subst hnumber'
  obtain rfl := hfetched.unique hfound (List.mem_of_getElem? hposition)
  obtain ⟨proof, hproof, hindex⟩ := List.mem_map.mp (hproven hsigned)
  have hnodup : (found.1.transactions.map TransactionProof.txIndex).Nodup := by
    rw [hgenuine.transactionIndices]
    exact nodup_sortedSet _
  have hreceipt : key.txIndex = receipt.txIndex := by rw [hkey]
  obtain ⟨place, hplace, hproofAt⟩ :=
    transactionForLog_eq_ok hlog hnodup hproof (hindex.trans hreceipt)
  obtain ⟨chainTransaction, hchainTransaction, hbytes⟩ := hgenuine.transactions proof hproof
  rw [hindex] at hchainTransaction
  refine ⟨key, _, proof, block, chainTransaction, href.resolves, hplace, ?_, hchain,
    hchainTransaction, hbytes⟩
  change (fetched.map (·.2.1))[ref.block.val]?.bind _ = _
  rw [List.getElem?_map, hposition]
  exact hproofAt

/-- A ledger witness proves a balance at the end of the period. -/
theorem buyerLedger_ledgerOf (hfetched : Fetched chain fetched) {buyer : Address}
    {ledger : BuyerLedger}
    (h : buyerLedger lib node (.of fetched) buyer periodEndBlock = .ok ledger) :
    LedgerOf lib (fetched.map (·.2.1)) periodEndBlock buyer ledger := by
  simp only [buyerLedger, stateRead, bind_eq_ok, pure_eq_ok, okOr_eq_ok, Prod.exists,
    Prod.mk.injEq, hfetched.blockPositions] at h
  obtain ⟨_, _, ⟨position, hposition, block, hblock, proof, value, hwitness, rfl, rfl⟩, rfl⟩ := h
  simp only [indexAt, okOr_eq_ok] at hblock
  change (fetched.map (·.2.1))[position.val]? = some block at hblock
  rw [List.getElem?_map, Option.map_eq_some_iff] at hposition hblock
  obtain ⟨⟨number, found⟩, hfound, rfl⟩ := hposition
  obtain ⟨_, hfound', rfl⟩ := hblock
  obtain rfl := Option.some.inj (hfound.symm.trans hfound')
  obtain ⟨chainBlock, _, _, hchain, hgenuine⟩ := hfetched.genuine _ (List.mem_of_getElem? hfound)
  have hnumber : found.1.header.number = number := by
    rw [hgenuine.header, chain.numbered _ _ hchain]
  simp only [storageWitness, bind_eq_ok, pure_eq_ok, mapError_eq_ok, Prod.mk.injEq] at hwitness
  obtain ⟨res, _, checked, hchecked, _, _, rfl, rfl⟩ := hwitness
  refine ⟨checked, ?_⟩
  simp only [endBalance, ChainResolver.storageValue, ChainResolver.block, bind_eq_ok,
    okOr_eq_ok, ensure_eq_ok]
  refine ⟨found.1, ?_, (), hnumber, hchecked⟩
  rw [List.getElem?_map, hfound]
  rfl

end Parts

/-! ## Faithful inputs -/

/-- The evidence that becomes return paths. -/
def PlannedClaim.returnEntries (claim : PlannedClaim) : List PlannedEvidence :=
  claim.selectedEvidence.filter fun entry =>
    entry.evidenceType = .directSellerFunder ∨ entry.evidenceType = .relayPath

/-- The evidence that becomes deposits of a pair. -/
def PlannedClaim.pairDeposits (claim : PlannedClaim) (subjects : List Address) :
    List PlannedEvidence :=
  claim.selectedEvidence.filter fun entry => isPairDeposit subjects entry.toPlannedLog

section Faithful

variable (lib : HostLib) (chain : Chain lib.Body) (claim : PlannedClaim)

/-- References to different logs are different. -/
def KeepsApart (blocks : List EvidenceBlock) : Prop :=
  ∀ entry entry' index index' key key' ref ref',
    RefOf lib chain blocks entry index key ref → RefOf lib chain blocks entry' index' key' ref' →
      key ≠ key' → ref ≠ ref'

/-- A closed-loop input that is what its plan says. -/
structure FaithfulLoop (periodEndBlock : U64) (input : ClosedLoopInput) : Prop where
  fundings : ∃ entries : List PlannedEvidence, entries.Perm (claim.ofType .usdcFunding) ∧
    List.Forall₂ (fun entry funding =>
      FundingOf lib chain input.blocks entry.toPlannedLog funding) entries input.fundings
  settlements : List.Forall₂ (fun entry ref =>
      IndexedRefOf lib chain input.blocks entry.toPlannedLog ref)
    (claim.ofType .settlement) input.settlements
  returns : List.Forall₂ (PathOf lib chain input.blocks) claim.returnEntries input.returns
  signed : ∀ funding ∈ input.fundings, ∀ transfer deposited,
    funding.kind = .protocolDeposit transfer deposited →
      TransactionProven lib chain input.blocks transfer
  buyersOrdered : input.buyers.Pairwise (· < ·)
  buyersFunded : ∀ buyer, buyer ∈ input.buyers ↔
    ∃ entry ∈ claim.ofType .usdcFunding, entry.buyer = some buyer
  ledgers : List.Forall₂ (LedgerOf lib input.blocks periodEndBlock) input.buyers input.ledgers
  apart : KeepsApart lib chain input.blocks

/-- A reciprocal input that is what its plan says. -/
structure FaithfulPair (periodEndBlock : U64) (input : ReciprocalInput) : Prop where
  subjects : [input.addressA, input.addressB].Perm claim.subjects ∧
    input.addressA < input.addressB
  settlements : List.Forall₂ (fun entry ref =>
      IndexedRefOf lib chain input.blocks entry.toPlannedLog ref)
    (claim.ofType .reciprocalSettlement) input.settlements
  deposits : List.Forall₂ (fun entry deposit => entry.buyer = some deposit.member ∧
      DepositRefsOf lib chain input.blocks entry.toPlannedLog deposit.transfer deposit.deposited)
    (claim.pairDeposits [input.addressA, input.addressB]) input.internalDeposits
  signed : ∀ deposit ∈ input.internalDeposits,
    TransactionProven lib chain input.blocks deposit.transfer
  ledgerA : LedgerOf lib input.blocks periodEndBlock input.addressA input.ledgerA
  ledgerB : LedgerOf lib input.blocks periodEndBlock input.addressB input.ledgerB
  apart : KeepsApart lib chain input.blocks

end Faithful

section Assembly

variable {lib : HostLib} {node : Node lib.Body} {chain : Chain lib.Body} {claim : PlannedClaim}
  {periodStartBlock periodEndBlock : U64}
  {fetched : List (U64 × EvidenceBlock × LogPositionMap)}

/-- References to different logs of the chain are different. -/
theorem keepsApart {blocks : List EvidenceBlock} : KeepsApart lib chain blocks := by
  intro entry entry' index index' key key' ref ref' h h' hne hsame
  subst hsame
  exact hne (h.unique h')

/-- A log that is no path is its own evidence. -/
theorem mem_atomicEvidence {entry : PlannedEvidence} (hentry : entry ∈ claim.selectedEvidence)
    (htype : entry.evidenceType ≠ .relayPath) :
    entry.toPlannedLog ∈ claim.selectedEvidence.flatMap atomicEvidence := by
  apply List.mem_flatMap.mpr
  refine ⟨entry, hentry, ?_⟩
  rw [atomicEvidence, if_pos htype]
  exact List.mem_singleton_self _

/-- The records of a type are those that were selected with it. -/
theorem mem_ofType {type : PlannedType} {entry : PlannedEvidence} :
    entry ∈ claim.ofType type ↔ entry ∈ claim.selectedEvidence ∧ entry.evidenceType = type := by
  rw [PlannedClaim.ofType, List.mem_filter, decide_eq_true_iff]

/-- A record that is a return gives the path of its logs. -/
theorem returnPath_pathOf (hrlp : lib.rlpHeader = canonicalHeader)
    (hfetched : Fetched chain fetched) {entry : PlannedEvidence}
    (htrue : ∀ atom ∈ atomicEvidence entry, TrueCoordinates chain atom) {path : ReturnPath}
    (h : returnPath (.of fetched) entry = .ok (some path)) :
    (entry.evidenceType = .directSellerFunder ∨ entry.evidenceType = .relayPath) ∧
      PathOf lib chain (fetched.map (·.2.1)) entry path := by
  rw [returnPath] at h
  split at h
  · rename_i hdirect
    have hatoms : atomicEvidence entry = [entry.toPlannedLog] := by
      rw [atomicEvidence, if_pos (by rw [hdirect]; exact PlannedType.noConfusion)]
    simp only [bind_eq_ok, pure_eq_ok, Option.some.injEq] at h
    obtain ⟨transfer, htransfer, rfl⟩ := h
    refine ⟨.inl hdirect, ?_⟩
    rw [hatoms] at htrue
    rw [PathOf, hatoms]
    exact .cons (indexedRef_refOf hrlp hfetched (htrue _ (List.mem_singleton_self _)) htransfer)
      .nil
  · split at h
    · rename_i hrelay
      simp only [bind_eq_ok, pure_eq_ok, Option.some.injEq] at h
      obtain ⟨hops, hhops, rfl⟩ := h
      exact ⟨.inr hrelay, indexedRefs_refOf hrlp hfetched htrue hhops⟩
    · cases h

/-- A record that gives no path is no return. -/
theorem returnPath_none {entry : PlannedEvidence} {materialized : MaterializedEvidence}
    (h : returnPath materialized entry = .ok none) :
    ¬ (entry.evidenceType = .directSellerFunder ∨ entry.evidenceType = .relayPath) := by
  rw [returnPath] at h
  split at h
  · simp only [bind_eq_ok, pure_eq_ok, reduceCtorEq, and_false, exists_false] at h
  · split at h
    · simp only [bind_eq_ok, pure_eq_ok, reduceCtorEq, and_false, exists_false] at h
    · rename_i hdirect hrelay
      exact not_or.mpr ⟨hdirect, hrelay⟩

/-- The return paths of an input are those of the plan. -/
theorem buildReturnPaths_pathOf (hrlp : lib.rlpHeader = canonicalHeader)
    (hfetched : Fetched chain fetched)
    (htrue : ∀ atom ∈ claim.selectedEvidence.flatMap atomicEvidence, TrueCoordinates chain atom)
    {seller funder : Address} {returns : List ReturnPath}
    (h : buildReturnPaths (.of fetched) claim seller funder = .ok returns) :
    List.Forall₂ (PathOf lib chain (fetched.map (·.2.1))) claim.returnEntries returns := by
  rw [buildReturnPaths] at h
  split at h
  · simp only [bind_eq_ok, pure_eq_ok, ensure_eq_ok] at h
    obtain ⟨_, hnone, rfl⟩ := h
    have hnil : claim.returnEntries = [] := by
      rw [PlannedClaim.returnEntries, List.filter_eq_nil_iff]
      intro entry hentry hreturn
      rw [List.any_eq_false] at hnone
      apply hnone entry hentry
      rcases of_decide_eq_true hreturn with hdirect | hrelay
      · simp [hdirect]
      · simp [hrelay]
    rw [hnil]
    exact .nil
  · simp only [bind_eq_ok, pure_eq_ok] at h
    obtain ⟨_, _, paths, hpaths, _, _, rfl⟩ := h
    apply forall₂_of_filterMapM_eq_ok _ _ hpaths
    · intro entry _ hnone
      exact decide_eq_false (returnPath_none hnone)
    · intro entry hentry path hpath
      obtain ⟨hreturn, hpathOf⟩ := returnPath_pathOf hrlp hfetched
        (fun atom hatom => htrue atom (List.mem_flatMap.mpr ⟨entry, hentry, hatom⟩)) hpath
      exact ⟨decide_eq_true hreturn, hpathOf⟩

/-- Planned logs that name their own index become references to them. -/
theorem ofType_refOf (hrlp : lib.rlpHeader = canonicalHeader) (hfetched : Fetched chain fetched)
    (htrue : ∀ atom ∈ claim.selectedEvidence.flatMap atomicEvidence, TrueCoordinates chain atom)
    {type : PlannedType} (htype : type ≠ .relayPath) {label : String} {refs : List LogRef}
    (h : (claim.ofType type).mapM (fun entry =>
      indexedRef (.of fetched) label entry.toPlannedLog) = .ok refs) :
    List.Forall₂ (fun entry ref =>
      IndexedRefOf lib chain (fetched.map (·.2.1)) entry.toPlannedLog ref)
      (claim.ofType type) refs := by
  rw [mapM_eq_ok] at h
  apply forall₂_mem_imp h
  intro entry ref hentry href
  obtain ⟨hmem, hsame⟩ := mem_ofType.mp hentry
  exact indexedRef_refOf hrlp hfetched
    (htrue _ (mem_atomicEvidence hmem (hsame ▸ htype))) href

/-- The input of a closed-loop claim is that of its records. -/
theorem buildClosedLoop_faithful (hrlp : lib.rlpHeader = canonicalHeader)
    (hfetched : FetchedFor chain claim.selectedEvidence periodEndBlock fetched)
    (htrue : ∀ atom ∈ claim.selectedEvidence.flatMap atomicEvidence, TrueCoordinates chain atom)
    {input : ClosedLoopInput}
    (h : buildClosedLoop lib node (.of fetched) claim periodStartBlock periodEndBlock =
      .ok input) : FaithfulLoop lib chain claim periodEndBlock input := by
  simp only [buildClosedLoop, bind_eq_ok, pure_eq_ok] at h
  obtain ⟨_, _, seller, _, funder, _, _, _, buyers, hbuyers, fundings, hfundings, settlements,
    hsettlements, returns, hreturns, ledgers, hledgers, _, _, rfl⟩ := h
  rw [mapM_eq_ok] at hbuyers hfundings hledgers
  have hentries : ∀ entry ∈ claim.ofType .usdcFunding,
      entry.toPlannedLog ∈ claim.selectedEvidence.flatMap atomicEvidence := by
    intro entry hentry
    obtain ⟨hmem, htype⟩ := mem_ofType.mp hentry
    exact mem_atomicEvidence hmem (by rw [htype]; exact PlannedType.noConfusion)
  have hfundingOf : List.Forall₂ (fun entry funding =>
      FundingOf lib chain (fetched.map (·.2.1)) entry.toPlannedLog funding)
        (claim.ofType .usdcFunding) fundings := by
    apply forall₂_mem_imp hfundings
    intro entry funding hentry hfunding
    exact fundingEvidence_fundingOf hrlp hfetched.toFetched (htrue _ (hentries entry hentry))
      hfunding
  have hperm := @sortBy_perm _ (compareOn FundingEvidence.buyer) fundings
  refine ⟨?_, ?_, ?_, ?_, ?_, ?_, ?_, keepsApart⟩
  · obtain ⟨entries, hentriesPerm, hall⟩ := forall₂_perm hfundingOf.flip hperm.symm
    exact ⟨entries, hentriesPerm.symm, hall.flip⟩
  · exact ofType_refOf hrlp hfetched.toFetched htrue PlannedType.noConfusion hsettlements
  · exact buildReturnPaths_pathOf hrlp hfetched.toFetched htrue hreturns
  · intro funding hmem transfer deposited hkind
    obtain ⟨entry, hentry, hof⟩ := forall₂_exists_left hfundingOf (hperm.mem_iff.mp hmem)
    cases hof with
    | usdc _ _ _ => cases hkind
    | protocolDeposit _ hlogs =>
      cases hkind
      apply transactionProven hfetched (hentries entry hentry) _ hlogs.transferred
      exact decide_eq_true (mem_ofType.mp hentry).2
  · exact ((pairwise_sortedSet buyers).and (nodup_sortedSet buyers)).imp fun h =>
      lt_of_le_of_ne h.1 h.2
  · intro buyer
    rw [mem_sortedSet]
    constructor
    · intro hbuyer
      obtain ⟨entry, hentry, hfound⟩ := forall₂_exists_left hbuyers hbuyer
      exact ⟨entry, hentry, okOr_eq_ok.mp hfound⟩
    · intro hfunded
      obtain ⟨entry, hentry, hbuyer⟩ := hfunded
      obtain ⟨buyer', hmem, hfound⟩ := forall₂_exists_right hbuyers hentry
      obtain rfl := Option.some.inj (hbuyer.symm.trans (okOr_eq_ok.mp hfound))
      exact hmem
  · apply hledgers.imp
    intro buyer ledger hledger
    exact buyerLedger_ledgerOf hfetched.toFetched hledger

/-- The evidence of a pair's deposit is that of its record. -/
theorem pairDeposit_refs (hrlp : lib.rlpHeader = canonicalHeader)
    (hfetched : Fetched chain fetched) {entry : PlannedLog} (htrue : TrueCoordinates chain entry)
    {deposit : PairDepositEvidence} (h : pairDeposit (.of fetched) entry = .ok deposit) :
    entry.buyer = some deposit.member ∧
      DepositRefsOf lib chain (fetched.map (·.2.1)) entry deposit.transfer deposit.deposited := by
  simp only [pairDeposit, required, bind_eq_ok, pure_eq_ok, okOr_eq_ok] at h
  obtain ⟨member, hmember, transfer, htransfer, index, hindex, deposited, hdeposited, rfl⟩ := h
  exact ⟨hmember, depositRefs hrlp hfetched htrue hindex htransfer hdeposited⟩

/-- The input of a reciprocal claim is that of its records. -/
theorem buildReciprocal_faithful (hrlp : lib.rlpHeader = canonicalHeader)
    (hfetched : FetchedFor chain claim.selectedEvidence periodEndBlock fetched)
    (htrue : ∀ atom ∈ claim.selectedEvidence.flatMap atomicEvidence, TrueCoordinates chain atom)
    {input : ReciprocalInput}
    (h : buildReciprocal lib node (.of fetched) claim periodStartBlock periodEndBlock =
      .ok input) : FaithfulPair lib chain claim periodEndBlock input := by
  simp only [buildReciprocal, bind_eq_ok, pure_eq_ok, ensure_eq_ok] at h
  obtain ⟨_, htwo, addressA, hA, addressB, hB, _, hne, settlements, hsettlements, deposits,
    hdeposits, _, _, ledgerA, hledgerA, ledgerB, hledgerB, rfl⟩ := h
  have hperm := List.perm_insertionSort (· ≤ ·) claim.subjects
  have hsorted := List.pairwise_insertionSort (· ≤ ·) claim.subjects
  obtain ⟨first, second, hsubjects⟩ :
      ∃ first second, claim.subjects.insertionSort (· ≤ ·) = [first, second] := by
    apply List.length_eq_two.mp
    rw [List.length_insertionSort, htwo]
  rw [hsubjects] at hA hB hperm hsorted hdeposits
  obtain rfl : first = addressA := by simpa [indexAt, okOr] using hA
  obtain rfl : second = addressB := by simpa [indexAt, okOr] using hB
  have hentries : ∀ entry ∈ claim.pairDeposits [first, second],
      entry.evidenceType = .usdcFunding ∧
        entry.toPlannedLog ∈ claim.selectedEvidence.flatMap atomicEvidence := by
    intro entry hentry
    obtain ⟨hmem, hpair⟩ := List.mem_filter.mp hentry
    have htype : entry.evidenceType = .usdcFunding := (of_decide_eq_true hpair).1
    exact ⟨htype, mem_atomicEvidence hmem (by rw [htype]; exact PlannedType.noConfusion)⟩
  have hdepositOf : List.Forall₂ (fun entry deposit => entry.buyer = some deposit.member ∧
      DepositRefsOf lib chain (fetched.map (·.2.1)) entry.toPlannedLog deposit.transfer
        deposit.deposited) (claim.pairDeposits [first, second]) deposits := by
    rw [mapM_eq_ok] at hdeposits
    apply forall₂_mem_imp hdeposits
    intro entry deposit hentry hdeposit
    exact pairDeposit_refs hrlp hfetched.toFetched (htrue _ (hentries entry hentry).2) hdeposit
  refine ⟨⟨hperm, ?_⟩, ?_, hdepositOf, ?_, ?_, ?_, keepsApart⟩
  · have hle := List.rel_of_pairwise_cons hsorted (List.mem_singleton_self second)
    exact lt_of_le_of_ne hle hne
  · exact ofType_refOf hrlp hfetched.toFetched htrue PlannedType.noConfusion hsettlements
  · intro deposit hmem
    obtain ⟨entry, hentry, _, hlogs⟩ := forall₂_exists_left hdepositOf hmem
    apply transactionProven hfetched (hentries entry hentry).2 _ hlogs.transferred
    exact decide_eq_true (hentries entry hentry).1
  · exact buyerLedger_ledgerOf hfetched.toFetched hledgerA
  · exact buyerLedger_ledgerOf hfetched.toFetched hledgerB

end Assembly

/-! ## A served chain -/

section Served

/-- The receipts of a block, with the indices of their logs counted from the given one. -/
def servedReceipts : ℕ → List (List ParsedLog) → List RpcReceipt
  | _, [] => []
  | first, logs :: rest =>
    ⟨2, 1, 21000, [], (logs.zipIdx first).map fun (log, index) => ⟨log, some (Fin.ofNat _ index)⟩,
      none⟩ :: servedReceipts (first + logs.length) rest

/-- The blocks by number, with the signers and logs of their transactions. Funder 12 deposits twice
in one transaction, for buyers 13 and 14, who settle with seller 11; the seller returns 30% to the
funder through relay 15. -/
def servedDays : List (U64 × List (Address × List ParsedLog)) := [
  (100, [(9, [transferLog 9 8 1]),
    (12, [transferLog 12 depositsAddress 100, depositedLog 13 100,
      transferLog 12 depositsAddress 50, depositedLog 14 50])]),
  (101, [(13, [settledLog 13 11 100]), (14, [settledLog 14 11 50])]),
  (102, [(11, [transferLog 11 15 45]), (15, [transferLog 15 12 45])])]

/-- The chain that is served. -/
def servedExemplar : Exemplar where
  chain := servedDays.map fun (number, transactions) => exemplarBlock number number transactions
  storage := []

/-- Tries of the chain are known by what they hold; a transaction is its bytes. -/
def servedLib : HostLib where
  toLib := servedExemplar.lib
  Body := Bytes
  encodeRpcTransaction := .ok
  indexRoot encoded :=
    (servedExemplar.chain.findSome? fun block =>
      if block.receipts.map ReceiptProof.value = encoded then some block.header.receiptsRoot
      else if block.transactions.map TransactionProof.value = encoded then
        some block.header.transactionsRoot
      else none).getD 0
  indexProof _ _ _ := []

/-- The served receipts are encodable and number their logs once. -/
theorem servedReceipts_wellFormed : ∀ day ∈ servedDays,
    (∀ receipt ∈ servedReceipts 0 (day.2.map Prod.snd),
      (receipt.type < 0x80 ∧ receipt.encode.length < 2 ^ 64) ∧
        (receipt.logs ≠ [] → receipt.status = 1)) ∧
    ((servedReceipts 0 (day.2.map Prod.snd)).flatMap fun receipt =>
      receipt.logs.filterMap RpcLog.logIndex).Nodup := by
  decide +kernel

/-- A block as the node serves it. -/
def servedBlock (day : {day // day ∈ servedDays}) : ChainBlock servedLib.Body where
  header := (exemplarBlock day.1.1 day.1.1 day.1.2).header
  receipts := servedReceipts 0 (day.1.2.map Prod.snd)
  transactions := (exemplarBlock day.1.1 day.1.1 day.1.2).transactions.map fun proof =>
    ⟨servedLib.keccak256 proof.value, proof.value⟩
  readable receipt hreceipt := ((servedReceipts_wellFormed _ day.2).1 receipt hreceipt).1
  succeeded receipt hreceipt := ((servedReceipts_wellFormed _ day.2).1 receipt hreceipt).2
  distinctLogs := (servedReceipts_wellFormed _ day.2).2

/-- The blocks by their numbers. -/
def servedChain : Chain servedLib.Body where
  block number := (servedDays.attach.find? (·.1.1 = number)).map servedBlock
  numbered number found h := by
    obtain ⟨day, hday, rfl⟩ := Option.map_eq_some_iff.mp h
    have hnumber := List.find?_some hday
    exact of_decide_eq_true hnumber

/-- A node that answers from the chain. -/
def servedNode : Node servedLib.Body where
  getBlockByNumber number := do
    let block ← okOr (servedChain.block number) (.err "block not found")
    return ⟨servedLib.hashSlow block.header, block.header, block.transactions⟩
  getBlockReceipts number := do
    let block ← okOr (servedChain.block number) (.err "block not found")
    return block.receipts
  getProof contract slot _ :=
    .ok ⟨(servedExemplar.storageProof contract slot).accountProof, 0, []⟩

/-- The node answers from the chain. -/
theorem servedNode_serves : Serves servedNode servedChain where
  block number answer h := by
    simp only [servedNode, bind_eq_ok, pure_eq_ok, okOr_eq_ok] at h
    obtain ⟨found, hfound, rfl⟩ := h
    exact ⟨found, hfound, rfl, rfl⟩
  receipts number answer h := by
    simp only [servedNode, bind_eq_ok, pure_eq_ok, okOr_eq_ok] at h
    obtain ⟨found, hfound, rfl⟩ := h
    exact ⟨found, hfound, rfl⟩

/-- A planned log without a path. -/
def servedEntry (evidenceType : PlannedType) (blockNumber transactionIndex : U64)
    (logIndex depositLogIndex : Option U64) (buyer funder : Option Address) : PlannedLog where
  evidenceType := evidenceType
  blockNumber := some blockNumber
  transactionIndex := some transactionIndex
  logIndex := logIndex
  depositLogIndex := depositLogIndex
  buyer := buyer
  funder := funder

/-- A claim with two fundings, two settlements and a return of two hops. -/
def servedClaim : PlannedClaim where
  claimId := some 5
  subjects := [11]
  closureType := some .relayPath
  selectedEvidence := [
    ⟨servedEntry .usdcFunding 100 1 (some 3) (some 4) (some 14) (some 12), none, none, none, none⟩,
    ⟨servedEntry .usdcFunding 100 1 (some 1) (some 2) (some 13) (some 12), none, none, none, none⟩,
    ⟨servedEntry .settlement 101 0 (some 0) none none none, none, none, none, none⟩,
    ⟨servedEntry .settlement 101 1 (some 1) none none none, none, none, none, none⟩,
    ⟨servedEntry .relayPath 102 0 none none none none, none, none, none,
      some [servedEntry .relayPath 102 0 (some 0) none none none,
        servedEntry .relayPath 102 1 (some 1) none none none]⟩]

/-- The index of the log at a position of the transaction that is named. -/
def servedIndex (entry : PlannedLog) (position : Usize) : Option U64 := do
  let block ← servedChain.block (← entry.blockNumber)
  let receipt ← block.receipts[(← entry.transactionIndex).val]?
  (← receipt.logs[position.val]?).logIndex

/-- A served index names a log of the chain. -/
theorem names_of_servedIndex {entry : PlannedLog} {position : Usize} {index : U64}
    (h : servedIndex entry position = some index) :
    ∃ key log, Names servedChain entry index key log := by
  simp only [servedIndex, Option.bind_eq_bind, Option.bind_eq_some_iff] at h
  obtain ⟨number, hnumber, block, hblock, transaction, htransaction, receipt, hreceipt, log, hlog,
    hindex⟩ := h
  exact ⟨⟨number, transaction, position⟩, log.log, hnumber, htransaction, block, receipt, log,
    hblock, hreceipt, hlog, hindex, rfl⟩

/-- The coordinates of the claim are those of logs of the chain. -/
theorem servedClaim_true : ∀ atom ∈ servedClaim.selectedEvidence.flatMap atomicEvidence,
    TrueCoordinates servedChain atom := by
  have hfound : ∀ atom ∈ servedClaim.selectedEvidence.flatMap atomicEvidence,
      [atom.logIndex, atom.depositLogIndex].all (fun index => index.all fun index =>
        [0, 1, 2, 3].any fun position => servedIndex atom position = some index) = true := by
    decide +kernel
  intro atom hatom
  have hboth := hfound atom hatom
  simp only [List.all_cons, List.all_nil, Bool.and_true, Bool.and_eq_true] at hboth
  constructor
  · intro index hindex
    have hlog := hboth.1
    rw [hindex, Option.all_some, List.any_eq_true] at hlog
    obtain ⟨position, _, hposition⟩ := hlog
    exact names_of_servedIndex (of_decide_eq_true hposition)
  · intro index hindex
    have hlog := hboth.2
    rw [hindex, Option.all_some, List.any_eq_true] at hlog
    obtain ⟨position, _, hposition⟩ := hlog
    exact names_of_servedIndex (of_decide_eq_true hposition)

end Served

/-! ## Every materialized input -/

/-- Whatever a planned claim is materialized to is what its plan says. -/
theorem materialized_faithful {lib : HostLib} {node : Node lib.Body} {chain : Chain lib.Body}
    (hrlp : lib.rlpHeader = canonicalHeader)
    (hserves : Serves node chain) {digest : U64 → List U64 → List U64 → B256}
    {cache : List CacheFile} (hcache : WrittenCache node cache) (claim : PlannedClaim)
    (htrue : ∀ atom ∈ claim.selectedEvidence.flatMap atomicEvidence, TrueCoordinates chain atom)
    (periodStartBlock periodEndBlock : U64) :
    (∀ input, materializeClosedLoop lib node digest cache claim periodStartBlock periodEndBlock =
      .ok input → FaithfulLoop lib chain claim periodEndBlock input) ∧
    (∀ input, materializeReciprocal lib node digest cache claim periodStartBlock periodEndBlock =
      .ok input → FaithfulPair lib chain claim periodEndBlock input) := by
  constructor
  · intro input h
    rw [materializeClosedLoop, bind_eq_ok] at h
    obtain ⟨materialized, hmaterialized, hbuilt⟩ := h
    obtain ⟨fetched, hfetched, rfl⟩ := materializeEvidence_fetched hserves hcache hmaterialized
    exact buildClosedLoop_faithful hrlp hfetched htrue hbuilt
  · intro input h
    rw [materializeReciprocal, bind_eq_ok] at h
    obtain ⟨materialized, hmaterialized, hbuilt⟩ := h
    obtain ⟨fetched, hfetched, rfl⟩ := materializeEvidence_fetched hserves hcache hmaterialized
    exact buildReciprocal_faithful hrlp hfetched htrue hbuilt

/-- The claim of the served chain is materialized, with one transaction behind both deposits. -/
theorem served_faithful : ∃ input,
    materializeClosedLoop servedLib servedNode (fun _ _ _ => 0) [] servedClaim 100 102 =
      .ok input ∧ FaithfulLoop servedLib servedChain servedClaim 102 input := by
  have hsome : (materializeClosedLoop servedLib servedNode (fun _ _ _ => 0) [] servedClaim 100
      102).toOption.isSome = true := by
    decide +kernel
  cases hinput : materializeClosedLoop servedLib servedNode (fun _ _ _ => 0) [] servedClaim 100
      102 with
  | error e =>
    rw [hinput] at hsome
    cases hsome
  | ok input =>
    have hcache : WrittenCache servedNode [] := fun file hfile => absurd hfile List.not_mem_nil
    exact ⟨input, rfl, (materialized_faithful rfl servedNode_serves hcache servedClaim
      servedClaim_true 100 102).1 input hinput⟩

end LoopProof.Host
