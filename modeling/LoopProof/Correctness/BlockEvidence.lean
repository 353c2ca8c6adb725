import LoopProof.Correctness.Receipts
import LoopProof.Host.Rpc
import LoopProof.Lib.OrderedMap

/-!
# Block evidence is genuine

Against a chain that the node serves, what is fetched for a block is part of that block, and so is
everything the cache holds and what is merged from it. The positions of a block's logs are complete
as soon as one of its receipts is there.
-/

namespace LoopProof.Host

/-- A block of the chain. -/
structure ChainBlock (β : Type) where
  header : Header
  receipts : List RpcReceipt
  transactions : List (RpcTransaction β)
  /-- Receipts are typed and sized as the protocol allows. -/
  readable : ∀ receipt ∈ receipts, receipt.type < 0x80 ∧ receipt.encode.length < 2 ^ 64
  /-- Only successful transactions leave logs. -/
  succeeded : ∀ receipt ∈ receipts, receipt.logs ≠ [] → receipt.status = 1
  /-- The indices of logs tell them apart within the block. -/
  distinctLogs : (receipts.flatMap fun receipt => receipt.logs.filterMap RpcLog.logIndex).Nodup

/-- A chain: its blocks under their numbers. -/
structure Chain (β : Type) where
  block : U64 → Option (ChainBlock β)
  numbered : ∀ number found, block number = some found → found.header.number = number

/-- The node answers as the chain is. -/
structure Serves {lib : HostLib} (node : Node lib.Body) (chain : Chain lib.Body) : Prop where
  block : ∀ number answer, node.getBlockByNumber number = .ok answer →
    ∃ found, chain.block number = some found ∧ answer.header = found.header ∧
      answer.transactions = found.transactions
  receipts : ∀ number answer, node.getBlockReceipts number = .ok answer →
    ∃ found, chain.block number = some found ∧ answer = found.receipts

/-! ## Positions of logs -/

section Positions

/-- A receipt has fewer logs than bytes. -/
theorem length_logs_le (receipt : RpcReceipt) : receipt.logs.length ≤ receipt.encode.length := by
  have hbody := @length_encodedBody_le receipt.type receipt.status receipt.cumulativeGas
    receipt.bloom (receipt.logs.map RpcLog.log) receipt.deposit
  have hlist := length_le_rlpList ((receipt.logs.map RpcLog.log).map encodeLog)
  have hcount : ((receipt.logs.map RpcLog.log).map encodeLog).length ≤
      ((receipt.logs.map RpcLog.log).map encodeLog).flatten.length := by
    apply length_le_flatten_length
    intro item hitem
    obtain ⟨log, _, rfl⟩ := List.mem_map.mp hitem
    exact rlpList_ne_nil _
  rw [List.length_map, List.length_map] at hcount
  simp only [encodedBody, List.length_append] at hbody
  rw [RpcReceipt.encode]
  omega

variable {receipt : RpcReceipt} {index : U64} {position : Usize}

/-- A log stands under its index at its position. -/
def RpcReceipt.HasLog (receipt : RpcReceipt) (index : U64) (position : ℕ) : Prop :=
  ∃ log, receipt.logs[position]? = some log ∧ log.logIndex = some index

/-- The positions of a receipt are those of its numbered logs. -/
theorem mem_positions (hfew : receipt.logs.length < 2 ^ 64) :
    (index, position) ∈ receipt.positions ↔ receipt.HasLog index position.val := by
  simp only [RpcReceipt.positions, List.mem_filterMap, Prod.exists, List.mem_zipIdx_iff_getElem?,
    Option.map_eq_some_iff, Prod.mk.injEq]
  constructor
  · intro h
    obtain ⟨log, place, hlog, _, hindex, rfl, rfl⟩ := h
    have hplace := (List.getElem?_eq_some_iff.mp hlog).1
    rw [Fin.val_ofNat, Nat.mod_eq_of_lt (hplace.trans hfew)]
    exact ⟨log, hlog, hindex⟩
  · intro h
    obtain ⟨log, hlog, hindex⟩ := h
    exact ⟨log, position.val, hlog, index, hindex, rfl, Fin.ofNat_val_eq_self position⟩

/-- The numbers of the logs of a receipt. -/
theorem map_positions (receipt : RpcReceipt) :
    receipt.positions.map Prod.fst = receipt.logs.filterMap RpcLog.logIndex := by
  rw [RpcReceipt.positions, List.map_filterMap]
  have hindex : (fun entry : RpcLog × ℕ => Option.map Prod.fst
      (entry.1.logIndex.map fun index => (index, (Fin.ofNat _ entry.2 : Usize)))) =
        fun entry => entry.1.logIndex := by
    funext entry
    cases entry.1.logIndex with
    | none => rfl
    | some index => rfl
  rw [hindex]
  conv_rhs => rw [← List.zipIdx_map_fst 0 receipt.logs, List.filterMap_map]
  rfl

end Positions

namespace ChainBlock

variable {β : Type} (block : ChainBlock β)

/-- A log of the block stands under its index in a receipt, at a position. -/
def HasLog (index : U64) (transaction position : ℕ) : Prop :=
  ∃ receipt, block.receipts[transaction]? = some receipt ∧ receipt.HasLog index position

variable {block} {index : U64}

/-- A receipt has fewer logs than there are indices. -/
theorem logs_few {receipt : RpcReceipt} (h : receipt ∈ block.receipts) :
    receipt.logs.length < 2 ^ 64 :=
  (length_logs_le receipt).trans_lt (block.readable receipt h).2

/-- The positions of the logs of a block. -/
theorem getElem?_logPositionMap {position : Usize} :
    (logPositionMap block.receipts)[index]? = some position ↔
      ∃ transaction, block.HasLog index transaction position.val := by
  have hkeys : ((block.receipts.flatMap RpcReceipt.positions).map Prod.fst).Nodup := by
    rw [List.map_flatMap]
    simp only [map_positions]
    exact block.distinctLogs
  rw [logPositionMap, getElem?_insertAll hkeys, Std.ExtTreeMap.getElem?_empty]
  simp only [reduceCtorEq, and_false, or_false, List.mem_flatMap]
  constructor
  · intro h
    obtain ⟨receipt, hreceipt, hmem⟩ := h
    obtain ⟨transaction, htransaction⟩ := List.mem_iff_getElem?.mp hreceipt
    exact ⟨transaction, receipt, htransaction, (mem_positions (logs_few hreceipt)).mp hmem⟩
  · intro h
    obtain ⟨transaction, receipt, htransaction, hlog⟩ := h
    have hreceipt := List.mem_of_getElem? htransaction
    exact ⟨receipt, hreceipt, (mem_positions (logs_few hreceipt)).mpr hlog⟩

/-- What holds of every two entries in order holds of two entries at different places. -/
private theorem rel_of_getElem? {α : Type*} {R : α → α → Prop} {xs : List α} (h : xs.Pairwise R)
    {i j : ℕ} (hij : i < j) {a b : α} (ha : xs[i]? = some a) (hb : xs[j]? = some b) : R a b := by
  obtain ⟨hi, rfl⟩ := List.getElem?_eq_some_iff.mp ha
  obtain ⟨hj, rfl⟩ := List.getElem?_eq_some_iff.mp hb
  exact List.pairwise_iff_getElem.mp h i j hi hj hij

/-- An index names one log of the block. -/
theorem HasLog.unique {transaction transaction' position position' : ℕ}
    (h : block.HasLog index transaction position)
    (h' : block.HasLog index transaction' position') :
    transaction = transaction' ∧ position = position' := by
  obtain ⟨receipt, hreceipt, log, hlog, hindex⟩ := h
  obtain ⟨receipt', hreceipt', log', hlog', hindex'⟩ := h'
  obtain ⟨hwithin, hacross⟩ := List.nodup_flatMap.mp block.distinctLogs
  have hmem : index ∈ receipt.logs.filterMap RpcLog.logIndex :=
    List.mem_filterMap.mpr ⟨log, List.mem_of_getElem? hlog, hindex⟩
  have hmem' : index ∈ receipt'.logs.filterMap RpcLog.logIndex :=
    List.mem_filterMap.mpr ⟨log', List.mem_of_getElem? hlog', hindex'⟩
  have htransaction : transaction = transaction' := by
    rcases lt_trichotomy transaction transaction' with hlt | heq | hgt
    · exact absurd hmem' (rel_of_getElem? hacross hlt hreceipt hreceipt' hmem)
    · exact heq
    · exact absurd hmem (rel_of_getElem? hacross hgt hreceipt' hreceipt hmem')
  subst htransaction
  obtain rfl : receipt = receipt' := Option.some.inj (hreceipt.symm.trans hreceipt')
  refine ⟨rfl, ?_⟩
  have hpairs := List.pairwise_filterMap.mp (hwithin receipt (List.mem_of_getElem? hreceipt))
  rcases lt_trichotomy position position' with hlt | heq | hgt
  · exact absurd rfl (rel_of_getElem? hpairs hlt hlog hlog' index hindex index hindex')
  · exact heq
  · exact absurd rfl (rel_of_getElem? hpairs hgt hlog' hlog index hindex' index hindex)

end ChainBlock

/-! ## Genuine evidence -/

section Genuine

variable {lib : HostLib}

/-- Evidence that is part of a block: its proofs carry the block's own items, its positions are
those of the block's logs, and they are complete once a receipt is there. -/
structure Genuine (block : ChainBlock lib.Body) (evidence : EvidenceBlock)
    (positions : LogPositionMap) : Prop where
  header : evidence.header = block.header
  receipts : ∀ proof ∈ evidence.receipts, ∃ receipt,
    block.receipts[proof.txIndex.val]? = some receipt ∧ proof.value = receipt.encode
  transactions : ∀ proof ∈ evidence.transactions, ∃ transaction,
    block.transactions[proof.txIndex.val]? = some transaction ∧
      lib.encodeRpcTransaction transaction.body = .ok proof.value
  sound : ∀ index position, positions[index]? = some position →
    ∃ transaction, block.HasLog index transaction position.val
  complete : evidence.receipts ≠ [] → ∀ (index : U64) (position : Usize) (transaction : ℕ),
    block.HasLog index transaction position.val → positions[index]? = some position

variable {node : Node lib.Body} {chain : Chain lib.Body} {number : U64}

/-- The header of a node that serves a chain is that of the block. -/
theorem header_serves (hserves : Serves node chain) {found : Header}
    (h : header lib node number = .ok found) :
    ∃ block, chain.block number = some block ∧ found = block.header := by
  simp only [header, bind_eq_ok, pure_eq_ok] at h
  obtain ⟨answer, hanswer, _, _, rfl⟩ := h
  obtain ⟨block, hblock, hheader, _⟩ := hserves.block number answer hanswer
  exact ⟨block, hblock, hheader⟩

/-- A trie proof carries the item of each target. -/
theorem proveIndexTrie_eq_ok {encoded : List Bytes} {targets : List U64} {root : B256}
    {label : String} {proven : List (U64 × Bytes × List Bytes)}
    (h : proveIndexTrie lib encoded targets root label = .ok proven) :
    proven.map Prod.fst = targets ∧
      ∀ entry ∈ proven, encoded[entry.1.val]? = some entry.2.1 := by
  simp only [proveIndexTrie, bind_eq_ok, mapM_eq_ok, pure_eq_ok, okOr_eq_ok] at h
  obtain ⟨_, _, hall⟩ := h
  have hentries : List.Forall₂ (fun i entry => entry.1 = i ∧ encoded[i.val]? = some entry.2.1)
      targets proven := by
    apply hall.imp
    intro i entry hentry
    obtain ⟨value, hvalue, _, _, rfl⟩ := hentry
    exact ⟨rfl, hvalue⟩
  clear hall
  induction hentries with
  | nil => exact ⟨rfl, fun entry hentry => absurd hentry List.not_mem_nil⟩
  | cons hentry _ ih =>
    obtain ⟨rfl, hvalue⟩ := hentry
    obtain ⟨hkeys, hvalues⟩ := ih
    rw [List.map_cons, hkeys]
    refine ⟨rfl, ?_⟩
    intro entry hmem
    rcases List.mem_cons.mp hmem with rfl | hmem
    · exact hvalue
    · exact hvalues entry hmem

/-- The proven receipts are those of the block, and the positions those of its logs. -/
theorem provenReceipts_serves (hserves : Serves node chain) {block : ChainBlock lib.Body}
    (hblock : chain.block number = some block) {root : B256} {targets : List U64}
    {receipts : List ReceiptProof} {positions : LogPositionMap}
    (h : provenReceipts lib node number root targets = .ok (receipts, positions)) :
    receipts.map ReceiptProof.txIndex = targets ∧
      (∀ proof ∈ receipts, ∃ receipt,
        block.receipts[proof.txIndex.val]? = some receipt ∧ proof.value = receipt.encode) ∧
      (∀ index position, positions[index]? = some position →
        ∃ transaction, block.HasLog index transaction position.val) ∧
      (receipts ≠ [] → ∀ (index : U64) (position : Usize) (transaction : ℕ),
        block.HasLog index transaction position.val → positions[index]? = some position) := by
  rw [provenReceipts] at h
  split at h
  · rename_i hnone
    obtain ⟨rfl, rfl⟩ := Prod.mk.inj (Except.ok.inj h)
    refine ⟨hnone.symm, fun proof hproof => absurd hproof List.not_mem_nil, ?_,
      fun hne => absurd rfl hne⟩
    intro index position hposition
    rw [Std.ExtTreeMap.getElem?_empty] at hposition
    cases hposition
  · simp only [bind_eq_ok, pure_eq_ok, Prod.mk.injEq] at h
    obtain ⟨answer, hanswer, proven, hproven, rfl, rfl⟩ := h
    obtain ⟨block', hblock', rfl⟩ := hserves.receipts number answer hanswer
    obtain rfl : block = block' := Option.some.inj (hblock.symm.trans hblock')
    obtain ⟨hkeys, hvalues⟩ := proveIndexTrie_eq_ok hproven
    refine ⟨?_, ?_, ?_, ?_⟩
    · rw [← hkeys, List.map_map]
      rfl
    · intro proof hproof
      obtain ⟨entry, hentry, rfl⟩ := List.mem_map.mp hproof
      have hvalue := hvalues entry hentry
      rw [List.getElem?_map, Option.map_eq_some_iff] at hvalue
      obtain ⟨receipt, hreceipt, hencode⟩ := hvalue
      exact ⟨receipt, hreceipt, hencode.symm⟩
    · intro index position hposition
      exact ChainBlock.getElem?_logPositionMap.mp hposition
    · intro _ index position transaction hlog
      exact ChainBlock.getElem?_logPositionMap.mpr ⟨transaction, hlog⟩

/-- The proven transactions are those of the block. -/
theorem provenTransactions_serves (hserves : Serves node chain) {block : ChainBlock lib.Body}
    (hblock : chain.block number = some block) {root : B256} {targets : List U64}
    {transactions : List TransactionProof}
    (h : provenTransactions lib node number root targets = .ok transactions) :
    transactions.map TransactionProof.txIndex = targets ∧
      ∀ proof ∈ transactions, ∃ transaction,
        block.transactions[proof.txIndex.val]? = some transaction ∧
          lib.encodeRpcTransaction transaction.body = .ok proof.value := by
  rw [provenTransactions] at h
  split at h
  · rename_i hnone
    obtain rfl := Except.ok.inj h
    exact ⟨hnone.symm, fun proof hproof => absurd hproof List.not_mem_nil⟩
  · simp only [bind_eq_ok, pure_eq_ok, mapM_eq_ok] at h
    obtain ⟨answer, hanswer, encoded, hencoded, proven, hproven, rfl⟩ := h
    obtain ⟨block', hblock', _, hsame⟩ := hserves.block number answer hanswer
    obtain rfl : block = block' := Option.some.inj (hblock.symm.trans hblock')
    rw [hsame] at hencoded
    obtain ⟨hkeys, hvalues⟩ := proveIndexTrie_eq_ok hproven
    refine ⟨?_, ?_⟩
    · rw [← hkeys, List.map_map]
      rfl
    · intro proof hproof
      obtain ⟨entry, hentry, rfl⟩ := List.mem_map.mp hproof
      obtain ⟨transaction, htransaction, hbytes⟩ :=
        forall₂_getElem? hencoded (hvalues entry hentry)
      refine ⟨transaction, htransaction, ?_⟩
      simp only [encodeChecked, bind_eq_ok, mapError_eq_ok, pure_eq_ok] at hbytes
      obtain ⟨bytes, hencode, _, _, hsame'⟩ := hbytes
      rw [hencode, hsame']

/-- What is fetched for a block is genuine, and proves exactly the targets. -/
theorem blockEvidence_genuine (hserves : Serves node chain) {receiptTargets transactionTargets :
    List U64} {evidence : EvidenceBlock} {positions : LogPositionMap}
    (h : blockEvidence lib node number receiptTargets transactionTargets =
      .ok (evidence, positions)) :
    ∃ block, chain.block number = some block ∧ Genuine block evidence positions ∧
      evidence.receipts.map ReceiptProof.txIndex = receiptTargets ∧
      evidence.transactions.map TransactionProof.txIndex = transactionTargets := by
  simp only [blockEvidence, bind_eq_ok, pure_eq_ok, Prod.exists, Prod.mk.injEq] at h
  obtain ⟨found, hheader, receipts, positions, hreceipts, transactions, htransactions, rfl, rfl⟩ :=
    h
  obtain ⟨block, hblock, hfound⟩ := header_serves hserves hheader
  obtain ⟨hindices, hproofs, hsound, hcomplete⟩ := provenReceipts_serves hserves hblock hreceipts
  obtain ⟨htxIndices, htxProofs⟩ := provenTransactions_serves hserves hblock htransactions
  exact ⟨block, hblock, ⟨hfound, hproofs, htxProofs, hsound, hcomplete⟩, hindices, htxIndices⟩

end Genuine

/-! ## The cache -/

section Collect

variable {π : Type} {txIndex : π → U64} {targets : List U64} {P : U64 → π → Prop}

/-- What holds of the proofs that are offered holds of those that are collected. -/
theorem collectProofs_invariant {proofs : List π} {collected : Std.ExtTreeMap U64 π compare}
    (hcollected : ∀ index proof, collected[index]? = some proof → P index proof)
    (hproofs : ∀ proof ∈ proofs, txIndex proof ∈ targets → P (txIndex proof) proof)
    (index : U64) (proof : π)
    (h : (collectProofs txIndex targets collected proofs)[index]? = some proof) :
    P index proof := by
  induction proofs generalizing collected with
  | nil => exact hcollected index proof h
  | cons first rest ih =>
    obtain ⟨hfirst, hrest⟩ := List.forall_mem_cons.mp hproofs
    rw [collectProofs, List.foldl_cons] at h
    refine ih ?_ hrest h
    intro index' proof' h'
    split at h'
    · rename_i hwanted
      rw [Std.ExtTreeMap.getElem?_insert] at h'
      split at h'
      · rename_i hindex
        obtain rfl := Option.some.inj h'
        obtain rfl := Std.LawfulEqOrd.eq_of_compare hindex
        exact hfirst hwanted.1
      · exact hcollected index' proof' h'
    · exact hcollected index' proof' h'

/-- As many collected proofs as targets are the proofs of the targets. -/
theorem map_toList_collected {requested : List U64} {collected : Std.ExtTreeMap U64 π compare}
    (hindex : ∀ index proof, collected[index]? = some proof →
      txIndex proof = index ∧ index ∈ sortedSet requested)
    (hsize : collected.size = (sortedSet requested).length) :
    (collected.toList.map Prod.snd).map txIndex = sortedSet requested := by
  have hkeys : (collected.toList.map Prod.snd).map txIndex = collected.toList.map Prod.fst := by
    rw [List.map_map]
    apply List.map_congr_left
    intro entry hentry
    exact (hindex entry.1 entry.2
      (Std.ExtTreeMap.mem_toList_iff_getElem?_eq_some.mp hentry)).1
  have hsorted : (collected.toList.map Prod.fst).Pairwise (· < ·) :=
    List.pairwise_map.mpr (toList_sorted collected)
  rw [hkeys]
  apply eq_sortedSet
  · exact hsorted.imp le_of_lt
  · exact hsorted.imp ne_of_lt
  · intro index hmem
    obtain ⟨entry, hentry, rfl⟩ := List.mem_map.mp hmem
    exact (hindex entry.1 entry.2
      (Std.ExtTreeMap.mem_toList_iff_getElem?_eq_some.mp hentry)).2
  · rw [List.length_map, Std.ExtTreeMap.length_toList, hsize]

end Collect

section Cache

variable {lib : HostLib} (node : Node lib.Body)

/-- What the host writes to its cache: what it fetched, and what it merged from earlier files. -/
inductive Written : CachedBlockEvidence → Prop
  | fetched {number : U64} {receiptTargets transactionTargets : List U64}
      {evidence : EvidenceBlock} {positions : LogPositionMap}
      (h : blockEvidence lib node number (canonicalTargets receiptTargets)
        (canonicalTargets transactionTargets) = .ok (evidence, positions)) :
      Written ⟨blockEvidenceCacheVersion, number, canonicalTargets receiptTargets,
        canonicalTargets transactionTargets, evidence, positions⟩
  | merged {number : U64} {receiptTargets transactionTargets : List U64}
      {files : List CachedBlockEvidence} {cached : CachedBlockEvidence}
      (earlier : ∀ file ∈ files, Written file)
      (h : mergeCachedBlockEvidence lib number (canonicalTargets receiptTargets)
        (canonicalTargets transactionTargets) files ⟨none, ∅, ∅, ∅⟩ = some cached) :
      Written cached

/-- A cache that only earlier runs wrote to. -/
def WrittenCache (cache : List CacheFile) : Prop :=
  ∀ file ∈ cache, ∀ content, file.content = some content → Written node content

/-- Cached evidence is genuine, and proves exactly the targets it was requested for. -/
structure GenuineFile (chain : Chain lib.Body) (cached : CachedBlockEvidence) : Prop where
  genuine : ∃ block, chain.block cached.blockNumber = some block ∧
    Genuine block cached.evidence cached.logPositionMap
  receipts : cached.evidence.receipts.map ReceiptProof.txIndex = cached.receiptTargets
  transactions :
    cached.evidence.transactions.map TransactionProof.txIndex = cached.transactionTargets

variable {node} {chain : Chain lib.Body} {number : U64} {requested requestedTx : List U64}

/-- What is collected from genuine files is genuine. -/
structure GenuineMerge (block : ChainBlock lib.Body) (requested requestedTx : List U64)
    (merged : Merged) : Prop where
  header : ∀ found, merged.header = some found → found = block.header
  receipts : ∀ index proof, merged.receipts[index]? = some proof →
    proof.txIndex = index ∧ index ∈ sortedSet requested ∧ ∃ receipt,
      block.receipts[index.val]? = some receipt ∧ proof.value = receipt.encode
  transactions : ∀ index proof, merged.transactions[index]? = some proof →
    proof.txIndex = index ∧ index ∈ sortedSet requestedTx ∧ ∃ transaction,
      block.transactions[index.val]? = some transaction ∧
        lib.encodeRpcTransaction transaction.body = .ok proof.value
  sound : ∀ index position, merged.logPositionMap[index]? = some position →
    ∃ transaction, block.HasLog index transaction position.val
  complete : (∃ index : U64, merged.receipts[index]? ≠ none) →
    ∀ (index : U64) (position : Usize) (transaction : ℕ),
      block.HasLog index transaction position.val →
        merged.logPositionMap[index]? = some position

variable {block : ChainBlock lib.Body} {merged : Merged} {cached : CachedBlockEvidence}

/-- Nothing merged is genuine. -/
theorem genuineMerge_empty :
    GenuineMerge block requested requestedTx (⟨none, ∅, ∅, ∅⟩ : Merged) := by
  constructor
  · intro found h
    cases h
  · intro index proof h
    rw [Std.ExtTreeMap.getElem?_empty] at h
    cases h
  · intro index proof h
    rw [Std.ExtTreeMap.getElem?_empty] at h
    cases h
  · intro index position h
    rw [Std.ExtTreeMap.getElem?_empty] at h
    cases h
  · intro h
    obtain ⟨index, h⟩ := h
    rw [Std.ExtTreeMap.getElem?_empty] at h
    exact absurd rfl h

private theorem nodup_keys (map : LogPositionMap) : (map.toList.map Prod.fst).Nodup :=
  List.Pairwise.imp ne_of_lt (List.pairwise_map.mpr (toList_sorted map))

/-- The positions after those of a file were added. -/
theorem getElem?_add_positions {index : U64} {position : Usize} :
    (merged.add (sortedSet requested) (sortedSet requestedTx) cached).logPositionMap[index]? =
        some position ↔
      cached.logPositionMap[index]? = some position ∨
        cached.logPositionMap[index]? = none ∧ merged.logPositionMap[index]? = some position := by
  rw [Merged.add, getElem?_insertAll (nodup_keys _),
    Std.ExtTreeMap.mem_toList_iff_getElem?_eq_some]
  refine or_congr_right (and_congr_left' ?_)
  rw [Option.eq_none_iff_forall_ne_some, List.mem_map, not_exists]
  constructor
  · intro h position' hposition'
    exact h (index, position') ⟨Std.ExtTreeMap.mem_toList_iff_getElem?_eq_some.mpr hposition', rfl⟩
  · intro h entry hentry
    obtain ⟨hmem, rfl⟩ := hentry
    exact h entry.2 (Std.ExtTreeMap.mem_toList_iff_getElem?_eq_some.mp hmem)

/-- A genuine file of the block keeps what is collected genuine. -/
theorem GenuineMerge.add (h : GenuineMerge block requested requestedTx merged)
    (hcached : Genuine block cached.evidence cached.logPositionMap) :
    GenuineMerge block requested requestedTx
      (merged.add (sortedSet requested) (sortedSet requestedTx) cached) := by
  have hreceipts := @collectProofs_invariant _ ReceiptProof.txIndex (sortedSet requested)
    (fun index proof => proof.txIndex = index ∧ index ∈ sortedSet requested ∧ ∃ receipt,
      block.receipts[index.val]? = some receipt ∧ proof.value = receipt.encode)
    cached.evidence.receipts merged.receipts h.receipts
    fun proof hproof hwanted => ⟨rfl, hwanted, hcached.receipts proof hproof⟩
  constructor
  · intro found hfound
    rw [Merged.add, Option.some.injEq] at hfound
    cases hheader : merged.header with
    | none =>
      rw [hheader, Option.getD_none] at hfound
      exact hfound.symm.trans hcached.header
    | some existing =>
      rw [hheader, Option.getD_some] at hfound
      exact hfound.symm.trans (h.header existing hheader)
  · exact hreceipts
  · exact @collectProofs_invariant _ TransactionProof.txIndex (sortedSet requestedTx) _
      cached.evidence.transactions merged.transactions h.transactions
      fun proof hproof hwanted => ⟨rfl, hwanted, hcached.transactions proof hproof⟩
  · intro index position hposition
    rcases getElem?_add_positions.mp hposition with hnew | ⟨_, hold⟩
    · exact hcached.sound index position hnew
    · exact h.sound index position hold
  · intro hsome index position transaction hlog
    rw [getElem?_add_positions]
    by_cases hproofs : cached.evidence.receipts = []
    · have hkept : (merged.add (sortedSet requested) (sortedSet requestedTx) cached).receipts =
          merged.receipts := by
        rw [Merged.add, hproofs]
        rfl
      rw [hkept] at hsome
      cases hfound : cached.logPositionMap[index]? with
      | none => exact .inr ⟨rfl, h.complete hsome index position transaction hlog⟩
      | some position' =>
        left
        obtain ⟨transaction', hlog'⟩ := hcached.sound index position' hfound
        rw [Fin.ext (hlog.unique hlog').2]
    · exact .inl (hcached.complete hproofs index position transaction hlog)

/-- What is complete is a genuine file. -/
theorem GenuineMerge.complete_genuine (h : GenuineMerge block requested requestedTx merged)
    (hblock : chain.block number = some block)
    (hcomplete : merged.complete number (sortedSet requested) (sortedSet requestedTx) =
      some cached) : GenuineFile chain cached := by
  rw [Merged.complete] at hcomplete
  split at hcomplete
  · rename_i hsizes
    rw [Option.map_eq_some_iff] at hcomplete
    obtain ⟨found, hfound, rfl⟩ := hcomplete
    refine ⟨⟨block, hblock, h.header found hfound, ?_, ?_, h.sound, ?_⟩, ?_, ?_⟩
    · intro proof hproof
      obtain ⟨entry, hentry, rfl⟩ := List.mem_map.mp hproof
      obtain ⟨hindex, _, hvalue⟩ := h.receipts entry.1 entry.2
        (Std.ExtTreeMap.mem_toList_iff_getElem?_eq_some.mp hentry)
      rw [hindex]
      exact hvalue
    · intro proof hproof
      obtain ⟨entry, hentry, rfl⟩ := List.mem_map.mp hproof
      obtain ⟨hindex, _, hvalue⟩ := h.transactions entry.1 entry.2
        (Std.ExtTreeMap.mem_toList_iff_getElem?_eq_some.mp hentry)
      rw [hindex]
      exact hvalue
    · intro hne
      apply h.complete
      obtain ⟨proof, hproof⟩ := List.exists_mem_of_ne_nil _ hne
      obtain ⟨entry, hentry, _⟩ := List.mem_map.mp hproof
      refine ⟨entry.1, ?_⟩
      rw [Std.ExtTreeMap.mem_toList_iff_getElem?_eq_some.mp hentry]
      exact Option.some_ne_none _
    · apply map_toList_collected _ hsizes.1
      intro index proof hproof
      exact ⟨(h.receipts index proof hproof).1, (h.receipts index proof hproof).2.1⟩
    · apply map_toList_collected _ hsizes.2
      intro index proof hproof
      exact ⟨(h.transactions index proof hproof).1, (h.transactions index proof hproof).2.1⟩
  · cases hcomplete

/-- What is completed was merged for the targets. -/
theorem complete_targets {receiptTargets transactionTargets : List U64}
    (h : merged.complete number receiptTargets transactionTargets = some cached) :
    cached.blockNumber = number ∧ cached.receiptTargets = receiptTargets ∧
      cached.transactionTargets = transactionTargets := by
  rw [Merged.complete] at h
  split at h
  · rw [Option.map_eq_some_iff] at h
    obtain ⟨_, _, rfl⟩ := h
    exact ⟨rfl, rfl, rfl⟩
  · cases h

/-- What is merged from genuine files is genuine, for exactly the request. -/
theorem mergeCached_genuine {files : List CachedBlockEvidence}
    (hfiles : ∀ file ∈ files, GenuineFile chain file)
    (hmerged : ∀ block, chain.block number = some block →
      GenuineMerge block requested requestedTx merged)
    (h : mergeCachedBlockEvidence lib number (sortedSet requested) (sortedSet requestedTx) files
      merged = some cached) :
    GenuineFile chain cached ∧ cached.blockNumber = number ∧
      cached.receiptTargets = sortedSet requested ∧
      cached.transactionTargets = sortedSet requestedTx := by
  induction files generalizing merged with
  | nil => cases h
  | cons file rest ih =>
    obtain ⟨hfile, hrest⟩ := List.forall_mem_cons.mp hfiles
    rw [mergeCachedBlockEvidence] at h
    split at h
    · rename_i haccepts
      have hnumber : file.blockNumber = number := by
        rw [Merged.accepts, decide_eq_true_iff] at haccepts
        exact haccepts.2.1
      obtain ⟨block, hblock, hgenuine⟩ := hfile.genuine
      rw [hnumber] at hblock
      have hadded := (hmerged block hblock).add hgenuine
      dsimp only at h
      split at h
      · rename_i complete hcomplete
        obtain rfl := Option.some.inj h
        exact ⟨hadded.complete_genuine hblock hcomplete, complete_targets hcomplete⟩
      · apply ih hrest _ h
        intro block' hblock'
        obtain rfl : block = block' := Option.some.inj (hblock.symm.trans hblock')
        exact hadded
    · exact ih hrest hmerged h

/-- Everything the host writes to its cache is genuine. -/
theorem Written.genuine (hserves : Serves node chain) (h : Written node cached) :
    GenuineFile chain cached := by
  induction h with
  | fetched h =>
    obtain ⟨block, hblock, hgenuine, hreceipts, htransactions⟩ := blockEvidence_genuine hserves h
    exact ⟨⟨block, hblock, hgenuine⟩, hreceipts, htransactions⟩
  | merged _ h ih =>
    exact (mergeCached_genuine ih (fun _ _ => genuineMerge_empty) h).1

variable {digest : U64 → List U64 → List U64 → B256} {cache : List CacheFile}

/-- Evidence of a block, as it is handed to the callers: genuine, with exactly the requested
proofs. -/
structure GenuineFor (block : ChainBlock lib.Body) (receiptTargets transactionTargets : List U64)
    (evidence : EvidenceBlock) (positions : LogPositionMap) : Prop
    extends Genuine block evidence positions where
  receiptIndices : evidence.receipts.map ReceiptProof.txIndex = sortedSet receiptTargets
  transactionIndices :
    evidence.transactions.map TransactionProof.txIndex = sortedSet transactionTargets

/-- The exact file of a written cache was written. -/
theorem written_of_exactFile {receiptTargets transactionTargets : List U64}
    (hcache : WrittenCache node cache)
    (h : exactFile digest cache number receiptTargets transactionTargets = some cached) :
    Written node cached := by
  rw [exactFile, Option.bind_eq_some_iff] at h
  obtain ⟨file, hfind, hcontent⟩ := h
  exact hcache file (List.mem_of_find?_eq_some hfind) cached hcontent

/-- The evidence of one block is genuine, wherever it comes from. -/
theorem cachedBlockEvidence_genuine (hserves : Serves node chain)
    (hcache : WrittenCache node cache) {evidence : EvidenceBlock} {positions : LogPositionMap}
    {written : Option CachedBlockEvidence}
    (h : cachedBlockEvidence lib node digest cache number (canonicalTargets requested)
      (canonicalTargets requestedTx) = .ok (evidence, positions, written)) :
    ∃ block, chain.block number = some block ∧
      GenuineFor block requested requestedTx evidence positions := by
  rw [cachedBlockEvidence] at h
  split at h
  · rename_i cached hexact
    obtain ⟨rfl, rfl, _⟩ : cached.evidence = evidence ∧ cached.logPositionMap = positions ∧
        none = written := by simpa using h
    rw [Option.bind_eq_some_iff] at hexact
    obtain ⟨file, hfile, hload⟩ := hexact
    rw [loadCachedBlockEvidence] at hload
    split at hload
    · rename_i hmatches
      obtain rfl := Option.some.inj hload
      obtain ⟨_, hnumber, _, hreceiptTargets, htransactionTargets, _⟩ := hmatches
      have hfile := (written_of_exactFile hcache hfile).genuine hserves
      obtain ⟨block, hblock, hgenuine⟩ := hfile.genuine
      rw [hnumber] at hblock
      exact ⟨block, hblock, hgenuine, hfile.receipts.trans hreceiptTargets,
        hfile.transactions.trans htransactionTargets⟩
    · cases hload
  · split at h
    · rename_i cached hmerge
      obtain ⟨rfl, rfl, _⟩ : cached.evidence = evidence ∧ cached.logPositionMap = positions ∧
          some cached = written := by simpa using h
      have hfiles : ∀ file ∈ filesOf cache number, GenuineFile chain file := by
        intro file hmem
        obtain ⟨source, hsource, hcontent⟩ := List.mem_filterMap.mp hmem
        exact (hcache source (List.mem_filter.mp hsource).1 file hcontent).genuine hserves
      obtain ⟨hfile, hnumber, hreceiptTargets, htransactionTargets⟩ :=
        mergeCached_genuine hfiles (fun _ _ => genuineMerge_empty) hmerge
      obtain ⟨block, hblock, hgenuine⟩ := hfile.genuine
      rw [hnumber] at hblock
      exact ⟨block, hblock, hgenuine, hfile.receipts.trans hreceiptTargets,
        hfile.transactions.trans htransactionTargets⟩
    · simp only [bind_eq_ok, pure_eq_ok, Prod.exists, Prod.mk.injEq] at h
      obtain ⟨evidence, positions, hfetched, rfl, rfl, _⟩ := h
      obtain ⟨block, hblock, hgenuine, hreceipts, htransactions⟩ :=
        blockEvidence_genuine hserves hfetched
      exact ⟨block, hblock, hgenuine, hreceipts, htransactions⟩

/-- The evidence of several blocks is genuine, block by block. -/
theorem blockEvidenceMany_genuine (hserves : Serves node chain) (hcache : WrittenCache node cache)
    {targets : List (U64 × List U64 × List U64)} {fetched : List (EvidenceBlock × LogPositionMap)}
    (h : blockEvidenceMany lib node digest cache targets = .ok fetched) :
    List.Forall₂ (fun target found => ∃ block, chain.block target.1 = some block ∧
      GenuineFor block target.2.1 target.2.2 found.1 found.2) targets fetched := by
  rw [blockEvidenceMany, mapM_eq_ok] at h
  apply h.imp
  intro target found hfound
  simp only [bind_eq_ok, pure_eq_ok, Prod.exists] at hfound
  obtain ⟨evidence, positions, written, hcached, rfl⟩ := hfound
  exact cachedBlockEvidence_genuine hserves hcache hcached

end Cache

end LoopProof.Host
