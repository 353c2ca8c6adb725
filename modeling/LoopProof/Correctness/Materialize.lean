import LoopProof.Correctness.BlockEvidence
import LoopProof.Correctness.Resolution
import LoopProof.Host.Materialize
import Mathlib.Data.Fintype.Card

/-!
# Materialized inputs are faithful to their plan

A planned log is named by its block, its transaction and its index in the block. Over genuine
blocks each of the three lookups finds what was requested, so the reference that is assembled
resolves to the named log, and the roles of an input are those of the plan.
-/

namespace LoopProof.Host

/-! ## Requests -/

section Requests

variable {targets : Targets} {entry : PlannedLog} {entries : List PlannedLog}

/-- The receipt of a log is requested, and its transaction where a signer is checked. -/
def Requested (targets : Targets) (entry : PlannedLog) : Prop :=
  ∃ (number transaction : U64) (requested : BlockTargets), entry.blockNumber = some number ∧
    entry.transactionIndex = some transaction ∧ targets[number]? = some requested ∧
    transaction ∈ requested.receipts ∧
    (requiresTransactionProof entry = true → transaction ∈ requested.transactions)

/-- Later requests of one map include the earlier ones. -/
def Grows (targets targets' : Targets) : Prop :=
  ∀ (number : U64) (requested : BlockTargets), targets[number]? = some requested →
    ∃ requested' : BlockTargets, targets'[number]? = some requested' ∧
      requested.receipts ⊆ requested'.receipts ∧ requested.transactions ⊆ requested'.transactions

/-- Targets have grown from themselves. -/
theorem Grows.refl (targets : Targets) : Grows targets targets := by
  intro number requested h
  exact ⟨requested, h, List.Subset.refl _, List.Subset.refl _⟩

/-- Targets that grow twice have grown. -/
theorem Grows.trans {targets' targets'' : Targets} (h : Grows targets targets')
    (h' : Grows targets' targets'') : Grows targets targets'' := by
  intro number requested hfound
  obtain ⟨requested', hfound', hreceipts, htransactions⟩ := h number requested hfound
  obtain ⟨requested'', hfound'', hreceipts', htransactions'⟩ := h' number requested' hfound'
  exact ⟨requested'', hfound'', List.Subset.trans hreceipts hreceipts',
    List.Subset.trans htransactions htransactions'⟩

/-- What was requested stays so when targets grow. -/
theorem Requested.grows {targets' : Targets} (h : Requested targets entry)
    (hgrows : Grows targets targets') : Requested targets' entry := by
  obtain ⟨number, transaction, requested, hnumber, htransaction, hfound, hreceipt, hsigned⟩ := h
  obtain ⟨requested', hfound', hreceipts, htransactions⟩ := hgrows number requested hfound
  exact ⟨number, transaction, requested', hnumber, htransaction, hfound', hreceipts hreceipt,
    fun h => htransactions (hsigned h)⟩

/-- A request adds what it asks for, and keeps the rest. -/
theorem request_spec {targets' : Targets} (h : targets.request entry = .ok targets') :
    Requested targets' entry ∧ Grows targets targets' := by
  simp only [Targets.request, required, bind_eq_ok, pure_eq_ok, okOr_eq_ok] at h
  obtain ⟨number, hnumber, transaction, htransaction, rfl⟩ := h
  constructor
  · refine ⟨number, transaction, _, hnumber, htransaction,
      Std.ExtTreeMap.getElem?_insert_self, ?_, ?_⟩
    · exact List.mem_append_right _ (List.mem_singleton_self _)
    · intro hsigned
      change transaction ∈ if _ then _ else _
      rw [if_pos hsigned]
      exact List.mem_append_right _ (List.mem_singleton_self _)
  · intro number' requested' hfound
    rw [Std.ExtTreeMap.getElem?_insert]
    by_cases hsame : compare number number' = .eq
    · obtain rfl := Std.LawfulEqOrd.eq_of_compare hsame
      rw [if_pos hsame, Std.ExtTreeMap.getD_eq_getD_getElem?, hfound]
      refine ⟨_, rfl, List.subset_append_left _ _, ?_⟩
      change requested'.transactions ⊆ if _ then _ else _
      split
      · exact List.subset_append_left _ _
      · exact List.Subset.refl _
    · rw [if_neg hsame]
      exact ⟨requested', hfound, List.Subset.refl _, List.Subset.refl _⟩

/-- Every log of a run of requests is requested. -/
theorem requests_spec {targets' : Targets} (h : entries.foldlM Targets.request targets =
    .ok targets') : (∀ entry ∈ entries, Requested targets' entry) ∧ Grows targets targets' := by
  induction entries generalizing targets with
  | nil =>
    rw [List.foldlM_nil, pure_eq_ok] at h
    exact ⟨fun entry hentry => absurd hentry List.not_mem_nil, h ▸ Grows.refl targets⟩
  | cons first rest ih =>
    rw [List.foldlM_cons, bind_eq_ok] at h
    obtain ⟨next, hfirst, hrest⟩ := h
    obtain ⟨hrequested, hgrows⟩ := request_spec hfirst
    obtain ⟨hall, hgrows'⟩ := ih hrest
    refine ⟨?_, hgrows.trans hgrows'⟩
    intro entry hentry
    rcases List.mem_cons.mp hentry with rfl | hentry
    · exact hrequested.grows hgrows'
    · exact hall entry hentry

/-- The targets of a claim name each block once, the end of the period among them, with the
receipts of all its logs. -/
theorem claimTargets_spec {evidence : List PlannedEvidence} {periodEndBlock : U64}
    {requests : List (U64 × List U64 × List U64)}
    (h : claimTargets evidence periodEndBlock = .ok requests) :
    (requests.map Prod.fst).Nodup ∧ periodEndBlock ∈ requests.map Prod.fst ∧
      ∀ entry ∈ evidence.flatMap atomicEvidence, ∃ number transaction receipts transactions,
        entry.blockNumber = some number ∧ entry.transactionIndex = some transaction ∧
          (number, receipts, transactions) ∈ requests ∧ transaction ∈ receipts ∧
          (requiresTransactionProof entry = true → transaction ∈ transactions) := by
  simp only [claimTargets, bind_eq_ok, pure_eq_ok] at h
  obtain ⟨targets, htargets, hrequests⟩ := h
  obtain ⟨hall, hgrows⟩ := requests_spec htargets
  have hkeys : requests.map Prod.fst = targets.toList.map Prod.fst := by
    rw [← hrequests, List.map_map]
    rfl
  rw [hkeys, ← hrequests]
  refine ⟨?_, ?_, ?_⟩
  · exact List.Pairwise.imp ne_of_lt (List.pairwise_map.mpr (toList_sorted targets))
  · obtain ⟨requested, hfound, _⟩ :=
      hgrows periodEndBlock ⟨[], []⟩ Std.ExtTreeMap.getElem?_insert_self
    exact List.mem_map.mpr ⟨(periodEndBlock, requested),
      Std.ExtTreeMap.mem_toList_iff_getElem?_eq_some.mpr hfound, rfl⟩
  · intro entry hentry
    obtain ⟨number, transaction, requested, hnumber, htransaction, hfound, hreceipt, hsigned⟩ :=
      hall entry hentry
    refine ⟨number, transaction, _, _, hnumber, htransaction, List.mem_map.mpr
      ⟨(number, requested), Std.ExtTreeMap.mem_toList_iff_getElem?_eq_some.mpr hfound, rfl⟩,
      mem_sortedSet.mpr hreceipt, ?_⟩
    intro h
    exact mem_sortedSet.mpr (hsigned h)

end Requests

/-! ## Lookups -/

section Positioned

variable {α : Type} {xs : List α} {x : α} {position : Usize}

/-- The elements of a positioned list. -/
theorem map_positioned (xs : List α) : (positioned xs).map Prod.fst = xs := by
  rw [positioned, List.map_map]
  exact List.zipIdx_map_fst 0 xs

/-- An element is positioned where it stands. -/
theorem mem_positioned (hfew : xs.length ≤ 2 ^ 64) :
    (x, position) ∈ positioned xs ↔ xs[position.val]? = some x := by
  simp only [positioned, List.mem_map, Prod.exists, List.mem_zipIdx_iff_getElem?, Prod.mk.injEq]
  constructor
  · intro h
    obtain ⟨_, place, hplace, rfl, rfl⟩ := h
    have hlt := (List.getElem?_eq_some_iff.mp hplace).1
    rw [Fin.val_ofNat, Nat.mod_eq_of_lt (hlt.trans_le hfew)]
    exact hplace
  · intro h
    exact ⟨x, position.val, h, rfl, Fin.ofNat_val_eq_self position⟩

/-- Different words are at most as many as there are words. -/
theorem length_le_of_nodup {words : List U64} (h : words.Nodup) : words.length ≤ 2 ^ 64 := by
  have hcard := h.length_le_card
  rwa [Fintype.card_fin] at hcard

end Positioned

/-- Fetched blocks, each under its number, genuine for what was requested of it. -/
structure Fetched {lib : HostLib} (chain : Chain lib.Body)
    (fetched : List (U64 × EvidenceBlock × LogPositionMap)) : Prop where
  numbers : (fetched.map Prod.fst).Nodup
  genuine : ∀ entry ∈ fetched, ∃ block receiptTargets transactionTargets,
    chain.block entry.1 = some block ∧
      GenuineFor block receiptTargets transactionTargets entry.2.1 entry.2.2

/-- What is fetched for different blocks, each under its number. -/
theorem fetched_of_many {lib : HostLib} {node : Node lib.Body} {chain : Chain lib.Body}
    {digest : U64 → List U64 → List U64 → B256} {cache : List CacheFile}
    (hserves : Serves node chain) (hcache : WrittenCache node cache)
    {targets : List (U64 × List U64 × List U64)} {found : List (EvidenceBlock × LogPositionMap)}
    (hnumbers : (targets.map Prod.fst).Nodup)
    (h : blockEvidenceMany lib node digest cache targets = .ok found) :
    ((targets.map Prod.fst).zip found).map Prod.fst = targets.map Prod.fst ∧
      Fetched chain ((targets.map Prod.fst).zip found) := by
  have hgenuine := blockEvidenceMany_genuine hserves hcache h
  have hkeys : ((targets.map Prod.fst).zip found).map Prod.fst = targets.map Prod.fst := by
    apply List.map_fst_zip
    rw [List.length_map, hgenuine.length_eq]
  refine ⟨hkeys, ?_, ?_⟩
  · rw [hkeys]
    exact hnumbers
  · intro entry hentry
    have hzip : (targets.map Prod.fst).zip found =
        (targets.zip found).map fun pair => (pair.1.1, pair.2) := by
      rw [List.zip_map_left]
      rfl
    rw [hzip] at hentry
    obtain ⟨pair, hpair, rfl⟩ := List.mem_map.mp hentry
    obtain ⟨block, hblock, hfor⟩ := (List.forall₂_iff_zip.mp hgenuine).2 hpair
    exact ⟨block, _, _, hblock, hfor⟩

section Lookups

variable {lib : HostLib} {chain : Chain lib.Body}
  {fetched : List (U64 × EvidenceBlock × LogPositionMap)} {number transaction index : U64}
  {position : Usize}

/-- No receipt of a block was fetched twice. -/
theorem Fetched.indices (h : Fetched chain fetched)
    {entry : U64 × EvidenceBlock × LogPositionMap} (hentry : entry ∈ fetched) :
    (entry.2.1.receipts.map ReceiptProof.txIndex).Nodup := by
  obtain ⟨_, _, _, _, hgenuine⟩ := h.genuine entry hentry
  rw [hgenuine.receiptIndices]
  exact nodup_sortedSet _

/-- A block is where it was fetched. -/
theorem Fetched.blockPositions (h : Fetched chain fetched) :
    (MaterializedEvidence.of fetched).blockPositions number = some position ↔
      (fetched.map Prod.fst)[position.val]? = some number := by
  have hfew := length_le_of_nodup h.numbers
  change storeAll (positioned (fetched.map Prod.fst)) number = some position ↔ _
  rw [storeAll_eq_some (by rw [map_positioned]; exact h.numbers), mem_positioned hfew]

/-- A receipt is where it was fetched. -/
theorem Fetched.receiptPositions (h : Fetched chain fetched) :
    (MaterializedEvidence.of fetched).receiptPositions (number, transaction) = some position ↔
      ∃ found, (number, found) ∈ fetched ∧ ∃ proof,
        found.1.receipts[position.val]? = some proof ∧ proof.txIndex = transaction := by
  have hgroups := @storeAll_groups U64 Usize _ U64 _ _ fetched
    (fun found => (positioned found.1.receipts).map fun entry => (entry.1.txIndex, entry.2))
    h.numbers (by
      intro entry hentry
      have hkeys : ((positioned entry.2.1.receipts).map fun entry =>
          (entry.1.txIndex, entry.2)).map Prod.fst =
            ((positioned entry.2.1.receipts).map Prod.fst).map ReceiptProof.txIndex := by
        rw [List.map_map, List.map_map]
        rfl
      rw [hkeys, map_positioned]
      exact h.indices hentry) number transaction position
  simp only [List.map_map] at hgroups
  change storeAll (fetched.flatMap fun entry => (positioned entry.2.1.receipts).map _) _ =
    some position ↔ _
  refine hgroups.trans ?_
  apply exists_congr
  intro found
  apply and_congr_right
  intro hfound
  have hfew : found.1.receipts.length ≤ 2 ^ 64 := by
    have hindices := length_le_of_nodup (h.indices hfound)
    rwa [List.length_map] at hindices
  simp only [List.mem_map, Prod.mk.injEq, Prod.exists]
  constructor
  · intro hmem
    obtain ⟨proof, _, hproof, hindex, rfl⟩ := hmem
    exact ⟨proof, (mem_positioned hfew).mp hproof, hindex⟩
  · intro hproof
    obtain ⟨proof, hproof, hindex⟩ := hproof
    exact ⟨proof, position, (mem_positioned hfew).mpr hproof, hindex, rfl⟩

/-- A log is where its block has it. -/
theorem Fetched.logPositions (h : Fetched chain fetched) :
    (MaterializedEvidence.of fetched).logPositions (number, index) = some position ↔
      ∃ found, (number, found) ∈ fetched ∧ found.2[index]? = some position := by
  have hgroups := @storeAll_groups U64 Usize _ U64 _ _ fetched
    (fun found => found.2.toList) h.numbers
    (fun entry _ => List.Pairwise.imp ne_of_lt (List.pairwise_map.mpr (toList_sorted entry.2.2)))
    number index position
  refine hgroups.trans ?_
  simp only [Std.ExtTreeMap.mem_toList_iff_getElem?_eq_some]

/-- A block is fetched once. -/
theorem Fetched.unique (h : Fetched chain fetched) {found found' : EvidenceBlock × LogPositionMap}
    (hfound : (number, found) ∈ fetched) (hfound' : (number, found') ∈ fetched) :
    found = found' :=
  (Prod.mk.inj (List.inj_on_of_nodup_map h.numbers hfound hfound' rfl)).2

end Lookups

/-! ## References -/

/-- The log that stands in the chain at a position, under its index in the block. -/
def Chain.LogAt {β : Type} (chain : Chain β) (key : LogKey) (index : U64) (log : ParsedLog) :
    Prop :=
  ∃ block receipt entry, chain.block key.blockNumber = some block ∧
    block.receipts[key.txIndex.val]? = some receipt ∧
    receipt.logs[key.logIndex.val]? = some entry ∧ entry.logIndex = some index ∧ entry.log = log

/-- The coordinates of a planned log, with one of its indices, name a log of the chain. -/
structure Names {β : Type} (chain : Chain β) (entry : PlannedLog) (index : U64) (key : LogKey)
    (log : ParsedLog) : Prop where
  block : entry.blockNumber = some key.blockNumber
  transaction : entry.transactionIndex = some key.txIndex
  log : chain.LogAt key index log

/-- Every index of the planned log names a log of the chain. -/
structure TrueCoordinates {β : Type} (chain : Chain β) (entry : PlannedLog) : Prop where
  log : ∀ index, entry.logIndex = some index → ∃ key log, Names chain entry index key log
  deposit : ∀ index, entry.depositLogIndex = some index →
    ∃ key log, Names chain entry index key log

/-- A reference to the log that a planned log names by one of its indices. -/
structure RefOf (lib : HostLib) (chain : Chain lib.Body) (blocks : List EvidenceBlock)
    (entry : PlannedLog) (index : U64) (key : LogKey) (ref : LogRef) : Prop where
  resolves : ChainResolver.logKey lib.toLib ⟨blocks⟩ ref = .ok key
  named : ∃ log receipt block, Names chain entry index key log ∧
    ChainResolver.log lib.toLib ⟨blocks⟩ ref = .ok (log, receipt, block)

section References

variable {lib : HostLib} {chain : Chain lib.Body}
  {fetched : List (U64 × EvidenceBlock × LogPositionMap)} {entry : PlannedLog} {index : U64}
  {key : LogKey} {ref : LogRef}

/-- Where the parts of an assembled reference come from. -/
theorem logRef_eq_ok (hfetched : Fetched chain fetched) :
    logRef (.of fetched) entry index = .ok ref ↔ ∃ number transaction found proof,
      entry.blockNumber = some number ∧ entry.transactionIndex = some transaction ∧
        fetched[ref.block.val]? = some (number, found) ∧
        found.1.receipts[ref.receipt.val]? = some proof ∧ proof.txIndex = transaction ∧
        found.2[index]? = some ref.log := by
  simp only [logRef, receiptRef, required, bind_eq_ok, pure_eq_ok, okOr_eq_ok,
    hfetched.blockPositions, hfetched.receiptPositions, hfetched.logPositions]
  constructor
  · intro h
    obtain ⟨_, ⟨number, hnumber, transaction, htransaction, block, hblock, receipt,
      ⟨found, hfound, proof, hproof, hindex⟩, rfl⟩, number', hnumber', log,
      ⟨found', hfound', hlog⟩, rfl⟩ := h
    obtain rfl : number = number' := Option.some.inj (hnumber.symm.trans hnumber')
    obtain rfl := hfetched.unique hfound hfound'
    rw [List.getElem?_map, Option.map_eq_some_iff] at hblock
    obtain ⟨⟨number', found'⟩, hposition, rfl⟩ := hblock
    obtain rfl := hfetched.unique hfound (List.mem_of_getElem? hposition)
    exact ⟨number', transaction, found, proof, hnumber, htransaction, hposition, hproof, hindex,
      hlog⟩
  · intro h
    obtain ⟨number, transaction, found, proof, hnumber, htransaction, hposition, hproof, hindex,
      hlog⟩ := h
    have hfound := List.mem_of_getElem? hposition
    refine ⟨⟨ref.block, ref.receipt⟩, ⟨number, hnumber, transaction, htransaction, ref.block, ?_,
      ref.receipt, ⟨found, hfound, proof, hproof, hindex⟩, rfl⟩, number, hnumber, ref.log,
      ⟨found, hfound, hlog⟩, rfl⟩
    rw [List.getElem?_map, hposition]
    rfl

/-- A log of the chain is read back from its receipt. -/
theorem read_logAt (hrlp : lib.rlpHeader = canonicalHeader) {block : ChainBlock lib.Body}
    {receipt : RpcReceipt} {found : RpcLog} (hreceipt : receipt ∈ block.receipts)
    (hfound : receipt.logs[key.logIndex.val]? = some found) :
    receiptSuccess lib.toCoreLib receipt.encode = .ok true ∧
      receiptLog lib.toCoreLib receipt.encode key.logIndex = .ok found.log := by
  obtain ⟨htype, hfits⟩ := block.readable receipt hreceipt
  have hstatus : receipt.status = 1 := by
    apply block.succeeded receipt hreceipt
    intro hnil
    rw [hnil] at hfound
    cases hfound
  obtain ⟨hsuccess, hlogs⟩ := @receipt_roundTrip lib.toCoreLib receipt.type receipt.status
    receipt.cumulativeGas receipt.bloom (receipt.logs.map RpcLog.log) receipt.deposit hrlp htype
    hfits
  constructor
  · rw [decide_eq_true hstatus] at hsuccess
    exact hsuccess
  · apply (hlogs key.logIndex).1 found.log
    rw [List.getElem?_map, hfound]
    rfl

/-- The assembled reference resolves to the named log. -/
theorem logRef_refOf (hrlp : lib.rlpHeader = canonicalHeader) (hfetched : Fetched chain fetched)
    {log : ParsedLog} (hnames : Names chain entry index key log)
    (h : logRef (.of fetched) entry index = .ok ref) :
    RefOf lib chain (fetched.map (·.2.1)) entry index key ref := by
  obtain ⟨number, transaction, found, proof, hnumber, htransaction, hposition, hproof, hindex,
    hlog⟩ := (logRef_eq_ok hfetched).mp h
  obtain rfl : key.blockNumber = number := Option.some.inj (hnames.block.symm.trans hnumber)
  obtain rfl : key.txIndex = transaction :=
    Option.some.inj (hnames.transaction.symm.trans htransaction)
  obtain ⟨block, receipt, rpcLog, hblock, hreceipt, hrpcLog, hrpcIndex, rfl⟩ := hnames.log
  obtain ⟨block', _, _, hblock', hgenuine⟩ :=
    hfetched.genuine _ (List.mem_of_getElem? hposition)
  obtain rfl : block = block' := Option.some.inj (hblock.symm.trans hblock')
  obtain ⟨transaction', hfound⟩ := hgenuine.sound index ref.log hlog
  have hplace := ChainBlock.HasLog.unique ⟨receipt, hreceipt, rpcLog, hrpcLog, hrpcIndex⟩ hfound
  have hlocal : ref.log = key.logIndex := Fin.ext hplace.2.symm
  obtain ⟨receipt', hreceipt', hvalue⟩ := hgenuine.receipts proof (List.mem_of_getElem? hproof)
  rw [hindex] at hreceipt'
  obtain rfl : receipt = receipt' := Option.some.inj (hreceipt.symm.trans hreceipt')
  obtain ⟨hsuccess, hread⟩ := read_logAt hrlp (List.mem_of_getElem? hreceipt) hrpcLog
  have hresolved : ChainResolver.log lib.toLib ⟨fetched.map (·.2.1)⟩ ref =
      .ok (rpcLog.log, proof, found.1) := by
    rw [ChainResolver.log_eq_ok, hvalue, hlocal]
    refine ⟨?_, hproof, hsuccess, hread⟩
    rw [List.getElem?_map, hposition]
    rfl
  refine ⟨?_, rpcLog.log, proof, found.1, hnames, hresolved⟩
  rw [ChainResolver.logKey_eq_ok]
  refine ⟨_, _, _, hresolved, ?_⟩
  rw [hindex, hlocal, hgenuine.header, chain.numbered _ _ hblock]

/-- One reference names one log. -/
theorem RefOf.unique {blocks : List EvidenceBlock} {entry' : PlannedLog} {index' : U64}
    {key' : LogKey} (h : RefOf lib chain blocks entry index key ref)
    (h' : RefOf lib chain blocks entry' index' key' ref) : key = key' :=
  Except.ok.inj (h.resolves.symm.trans h'.resolves)

end References

end LoopProof.Host
