import LoopProof.Correctness.PlannedInputs
import LoopProof.Host.EvidenceCache

/-!
# The cache is transparent

Where the proof of an item does not depend on what else is proven, the evidence of a block is a
function of the chain and the request. Every file of the cache directory holds this evidence for
its own targets, and so does everything that is merged from such files, so that no interleaving of
workers and no interruption of a write ever returns anything else.
-/

namespace LoopProof.Host

/-! ## Fresh evidence -/

section Fresh

variable {lib : HostLib}

/-- The proof of an item does not depend on which other items are proven. -/
def IndependentProofs (lib : HostLib) : Prop :=
  ∀ encoded targets targets' i, i ∈ targets → i ∈ targets' →
    lib.indexProof encoded targets i = lib.indexProof encoded targets' i

/-- The node that answers everything from the chain. -/
def Chain.node (chain : Chain lib.Body) : Node lib.Body where
  getBlockByNumber number := do
    let block ← okOr (chain.block number) (.err "block not found")
    return ⟨lib.hashSlow block.header, block.header, block.transactions⟩
  getBlockReceipts number := do
    let block ← okOr (chain.block number) (.err "block not found")
    return block.receipts
  getProof _ _ _ := .error (.err "method not found")

/-- An item of a trie with the proof that is made for it alone. -/
structure ProvenItem (lib : HostLib) (encoded : List Bytes) (root : B256) (i : U64) (value : Bytes)
    (nodes : List Bytes) : Prop where
  trie : lib.indexRoot encoded = root
  item : encoded[i.val]? = some value
  alone : lib.indexProof encoded [i] i = nodes
  checked : lib.verifyProof root (Nibbles.unpack (trieIndexKey i)) (some value) nodes = .ok ()

variable {encoded : List Bytes} {targets : List U64} {root : B256} {label : String}
  {proven : List (U64 × Bytes × List Bytes)}

/-- What is proven together is what is proven item by item. -/
theorem proveIndexTrie_iff (hproofs : IndependentProofs lib) (hsome : targets ≠ []) :
    proveIndexTrie lib encoded targets root label = .ok proven ↔
      proven.map Prod.fst = targets ∧
        ∀ entry ∈ proven, ProvenItem lib encoded root entry.1 entry.2.1 entry.2.2 := by
  have hsingle : ∀ i ∈ targets, lib.indexProof encoded targets i = lib.indexProof encoded [i] i :=
    fun i hi => hproofs encoded targets [i] i hi (List.mem_singleton_self i)
  simp only [proveIndexTrie, bind_eq_ok, ensure_eq_ok, mapM_eq_ok, pure_eq_ok, okOr_eq_ok,
    mapError_eq_ok, exists_and_left]
  constructor
  · intro h
    obtain ⟨rfl, _, hall⟩ := h
    have hentries : List.Forall₂ (fun i entry => entry.1 = i ∧
        ProvenItem lib encoded (lib.indexRoot encoded) entry.1 entry.2.1 entry.2.2)
        targets proven := by
      apply forall₂_mem_imp hall
      intro i entry hi hentry
      obtain ⟨value, hvalue, _, hchecked, rfl⟩ := hentry
      exact ⟨rfl, rfl, hvalue, (hsingle i hi).symm, hchecked⟩
    constructor
    · clear hall hsome hsingle
      induction hentries with
      | nil => rfl
      | cons hentry _ ih => rw [List.map_cons, hentry.1, ih]
    · intro entry hentry
      obtain ⟨_, _, _, hitem⟩ := forall₂_exists_left hentries hentry
      exact hitem
  · intro h
    obtain ⟨rfl, hall⟩ := h
    obtain ⟨first, hfirst⟩ := List.exists_mem_of_ne_nil proven fun hnone =>
      hsome (by rw [hnone]; rfl)
    refine ⟨(hall first hfirst).trie, (), ?_⟩
    rw [List.forall₂_map_left_iff, List.forall₂_same]
    intro entry hentry
    have hitem := hall entry hentry
    refine ⟨entry.2.1, hitem.item, (), ?_⟩
    rw [hsingle entry.1 (List.mem_map_of_mem hentry), hitem.alone, hitem.trie]
    exact ⟨hitem.checked, rfl⟩

/-- A receipt of the block with its only proof. -/
def ReceiptFresh (block : ChainBlock lib.Body) (proof : ReceiptProof) : Prop :=
  ProvenItem lib (block.receipts.map RpcReceipt.encode) block.header.receiptsRoot proof.txIndex
    proof.value proof.proof

/-- A transaction of the block with its only proof, where all transactions are rebuilt. -/
def TransactionFresh (number : U64) (block : ChainBlock lib.Body) (proof : TransactionProof) :
    Prop :=
  ∃ encoded, block.transactions.mapM (encodeChecked lib number) = .ok encoded ∧
    ProvenItem lib encoded block.header.transactionsRoot proof.txIndex proof.value proof.proof

/-- Evidence of a block with the proofs of exactly its targets. -/
structure FreshEvidence (lib : HostLib) (number : U64) (block : ChainBlock lib.Body)
    (receiptTargets transactionTargets : List U64) (evidence : EvidenceBlock) : Prop where
  header : evidence.header = block.header
  receiptIndices : evidence.receipts.map ReceiptProof.txIndex = receiptTargets
  receipts : ∀ proof ∈ evidence.receipts, ReceiptFresh block proof
  transactionIndices : evidence.transactions.map TransactionProof.txIndex = transactionTargets
  transactions : ∀ proof ∈ evidence.transactions, TransactionFresh number block proof

/-- The positions of a block's logs, which are read with its receipts. -/
def freshPositions (block : ChainBlock lib.Body) (receiptTargets : List U64) : LogPositionMap :=
  if receiptTargets = [] then ∅ else logPositionMap block.receipts

variable {node : Node lib.Body} {chain : Chain lib.Body} {number : U64}
  {receiptTargets transactionTargets : List U64} {evidence : EvidenceBlock}
  {positions : LogPositionMap} {block : ChainBlock lib.Body}

/-- The node of a chain answers from it. -/
theorem chainNode_serves (chain : Chain lib.Body) : Serves chain.node chain where
  block number answer h := by
    simp only [Chain.node, bind_eq_ok, pure_eq_ok, okOr_eq_ok] at h
    obtain ⟨found, hfound, rfl⟩ := h
    exact ⟨found, hfound, rfl, rfl⟩
  receipts number answer h := by
    simp only [Chain.node, bind_eq_ok, pure_eq_ok, okOr_eq_ok] at h
    obtain ⟨found, hfound, rfl⟩ := h
    exact ⟨found, hfound, rfl⟩

private theorem provenReceipts_fresh (hproofs : IndependentProofs lib) (hserves : Serves node chain)
    (hblock : chain.block number = some block) {receipts : List ReceiptProof}
    (h : provenReceipts lib node number block.header.receiptsRoot receiptTargets =
      .ok (receipts, positions)) :
    receipts.map ReceiptProof.txIndex = receiptTargets ∧
      (∀ proof ∈ receipts, ReceiptFresh block proof) ∧
      positions = freshPositions block receiptTargets := by
  by_cases hnone : receiptTargets = []
  · rw [provenReceipts, if_pos hnone] at h
    obtain ⟨rfl, rfl⟩ := Prod.mk.inj (Except.ok.inj h)
    rw [freshPositions, if_pos hnone]
    exact ⟨hnone.symm, fun proof hproof => absurd hproof List.not_mem_nil, rfl⟩
  · rw [provenReceipts, if_neg hnone] at h
    simp only [bind_eq_ok, pure_eq_ok, Prod.mk.injEq] at h
    obtain ⟨answer, hanswer, proven, hproven, rfl, rfl⟩ := h
    obtain ⟨block', hblock', rfl⟩ := hserves.receipts number answer hanswer
    obtain rfl : block = block' := Option.some.inj (hblock.symm.trans hblock')
    obtain ⟨hkeys, hitems⟩ := (proveIndexTrie_iff hproofs hnone).mp hproven
    rw [freshPositions, if_neg hnone]
    refine ⟨?_, ?_, rfl⟩
    · rw [← hkeys, List.map_map]
      rfl
    · intro proof hproof
      obtain ⟨entry, hentry, rfl⟩ := List.mem_map.mp hproof
      exact hitems entry hentry

private theorem provenTransactions_fresh (hproofs : IndependentProofs lib)
    (hserves : Serves node chain) (hblock : chain.block number = some block)
    {transactions : List TransactionProof}
    (h : provenTransactions lib node number block.header.transactionsRoot transactionTargets =
      .ok transactions) :
    transactions.map TransactionProof.txIndex = transactionTargets ∧
      ∀ proof ∈ transactions, TransactionFresh number block proof := by
  by_cases hnone : transactionTargets = []
  · rw [provenTransactions, if_pos hnone] at h
    obtain rfl := Except.ok.inj h
    exact ⟨hnone.symm, fun proof hproof => absurd hproof List.not_mem_nil⟩
  · rw [provenTransactions, if_neg hnone] at h
    simp only [bind_eq_ok, pure_eq_ok] at h
    obtain ⟨answer, hanswer, encoded, hencoded, proven, hproven, rfl⟩ := h
    obtain ⟨block', hblock', _, hsame⟩ := hserves.block number answer hanswer
    obtain rfl : block = block' := Option.some.inj (hblock.symm.trans hblock')
    obtain ⟨hkeys, hitems⟩ := (proveIndexTrie_iff hproofs hnone).mp hproven
    constructor
    · rw [← hkeys, List.map_map]
      rfl
    · intro proof hproof
      obtain ⟨entry, hentry, rfl⟩ := List.mem_map.mp hproof
      exact ⟨encoded, hsame ▸ hencoded, hitems entry hentry⟩

/-- Whatever a node answers, fetched evidence is a function of the chain and the targets. -/
theorem blockEvidence_fresh (hproofs : IndependentProofs lib) (hserves : Serves node chain)
    (h : blockEvidence lib node number receiptTargets transactionTargets =
      .ok (evidence, positions)) :
    ∃ block, chain.block number = some block ∧
      FreshEvidence lib number block receiptTargets transactionTargets evidence ∧
      positions = freshPositions block receiptTargets := by
  simp only [blockEvidence, bind_eq_ok, pure_eq_ok, Prod.exists, Prod.mk.injEq] at h
  obtain ⟨found, hheader, receipts, positions, hreceipts, transactions, htransactions, rfl, rfl⟩ :=
    h
  obtain ⟨block, hblock, rfl⟩ := header_serves hserves hheader
  obtain ⟨hindices, hreceipts, hpositions⟩ := provenReceipts_fresh hproofs hserves hblock hreceipts
  obtain ⟨htxIndices, htransactions⟩ :=
    provenTransactions_fresh hproofs hserves hblock htransactions
  exact ⟨block, hblock, ⟨rfl, hindices, hreceipts, htxIndices, htransactions⟩, hpositions⟩

/-- Such evidence is what the chain answers. -/
theorem FreshEvidence.fetched (hproofs : IndependentProofs lib)
    (hblock : chain.block number = some block)
    (h : FreshEvidence lib number block receiptTargets transactionTargets evidence) :
    blockEvidence lib chain.node number receiptTargets transactionTargets =
      .ok (evidence, freshPositions block receiptTargets) := by
  have hanswer : chain.node.getBlockByNumber number =
      .ok ⟨lib.hashSlow block.header, block.header, block.transactions⟩ := by
    rw [Chain.node]
    simp only [hblock, okOr]
    rfl
  have hheader : Host.header lib chain.node number = .ok block.header := by
    simp only [Host.header, bind_eq_ok, pure_eq_ok, ensure_eq_ok]
    exact ⟨_, hanswer, (), rfl, rfl⟩
  have hreceipts : provenReceipts lib chain.node number block.header.receiptsRoot receiptTargets =
      .ok (evidence.receipts, freshPositions block receiptTargets) := by
    rw [provenReceipts, freshPositions]
    by_cases hnone : receiptTargets = []
    · have hempty : evidence.receipts = [] := List.map_eq_nil_iff.mp (h.receiptIndices.trans hnone)
      rw [if_pos hnone, if_pos hnone, hempty]
    · have hfound : chain.node.getBlockReceipts number = .ok block.receipts := by
        rw [Chain.node]
        simp only [hblock, okOr]
        rfl
      rw [if_neg hnone, if_neg hnone]
      simp only [bind_eq_ok, pure_eq_ok, Prod.mk.injEq]
      refine ⟨block.receipts, hfound,
        evidence.receipts.map fun proof => (proof.txIndex, proof.value, proof.proof), ?_, ?_, rfl⟩
      · rw [proveIndexTrie_iff hproofs hnone, List.map_map]
        refine ⟨h.receiptIndices, ?_⟩
        intro entry hentry
        obtain ⟨proof, hproof, rfl⟩ := List.mem_map.mp hentry
        exact h.receipts proof hproof
      · rw [List.map_map]
        exact List.map_id _
  have htransactions : provenTransactions lib chain.node number block.header.transactionsRoot
      transactionTargets = .ok evidence.transactions := by
    rw [provenTransactions]
    by_cases hnone : transactionTargets = []
    · have hempty : evidence.transactions = [] :=
        List.map_eq_nil_iff.mp (h.transactionIndices.trans hnone)
      rw [if_pos hnone, hempty]
    · rw [if_neg hnone]
      have hsome : evidence.transactions ≠ [] := by
        intro hempty
        rw [← h.transactionIndices, hempty] at hnone
        exact hnone rfl
      obtain ⟨first, hfirst⟩ := List.exists_mem_of_ne_nil _ hsome
      obtain ⟨encoded, hencoded, _⟩ := h.transactions first hfirst
      simp only [bind_eq_ok, pure_eq_ok]
      refine ⟨_, hanswer, encoded, hencoded,
        evidence.transactions.map fun proof => (proof.txIndex, proof.value, proof.proof), ?_, ?_⟩
      · rw [proveIndexTrie_iff hproofs hnone, List.map_map]
        refine ⟨h.transactionIndices, ?_⟩
        intro entry hentry
        obtain ⟨proof, hproof, rfl⟩ := List.mem_map.mp hentry
        obtain ⟨encoded', hencoded', hitem⟩ := h.transactions proof hproof
        rw [Except.ok.inj (hencoded.symm.trans hencoded')]
        exact hitem
      · rw [List.map_map]
        exact List.map_id _
  simp only [blockEvidence, bind_eq_ok, pure_eq_ok, Prod.exists, Prod.mk.injEq]
  refine ⟨block.header, hheader, _, _, hreceipts, _, htransactions, ?_, rfl⟩
  rw [← h.header]

end Fresh

/-! ## Files -/

section Files

variable {lib : HostLib} {chain : Chain lib.Body} {number : U64}

/-- What cached evidence proves is what is proven afresh. -/
structure FreshFile (chain : Chain lib.Body) (cached : CachedBlockEvidence) : Prop
    extends GenuineFile chain cached where
  receiptProofs : ∀ block, chain.block cached.blockNumber = some block →
    ∀ proof ∈ cached.evidence.receipts, ReceiptFresh block proof
  transactionProofs : ∀ block, chain.block cached.blockNumber = some block →
    ∀ proof ∈ cached.evidence.transactions, TransactionFresh cached.blockNumber block proof

/-- Merged proofs are proofs of the files. -/
theorem mergeCached_proofs {receiptTargets transactionTargets : List U64} {P : ReceiptProof → Prop}
    {Q : TransactionProof → Prop} {files : List CachedBlockEvidence} {merged : Merged}
    {cached : CachedBlockEvidence}
    (hfiles : ∀ file ∈ files, file.blockNumber = number →
      (∀ proof ∈ file.evidence.receipts, P proof) ∧ ∀ proof ∈ file.evidence.transactions, Q proof)
    (hreceipts : ∀ (index : U64) proof, merged.receipts[index]? = some proof → P proof)
    (htransactions : ∀ (index : U64) proof, merged.transactions[index]? = some proof → Q proof)
    (h : mergeCachedBlockEvidence lib number receiptTargets transactionTargets files merged =
      some cached) :
    (∀ proof ∈ cached.evidence.receipts, P proof) ∧
      ∀ proof ∈ cached.evidence.transactions, Q proof := by
  induction files generalizing merged with
  | nil => cases h
  | cons file rest ih =>
    obtain ⟨hfile, hrest⟩ := List.forall_mem_cons.mp hfiles
    rw [mergeCachedBlockEvidence] at h
    split at h
    · rename_i haccepts
      rw [Merged.accepts, decide_eq_true_iff] at haccepts
      obtain ⟨hfileReceipts, hfileTransactions⟩ := hfile haccepts.2.1
      have haddedReceipts := @collectProofs_invariant _ ReceiptProof.txIndex receiptTargets
        (fun _ proof => P proof) file.evidence.receipts merged.receipts hreceipts
        fun proof hproof _ => hfileReceipts proof hproof
      have haddedTransactions := @collectProofs_invariant _ TransactionProof.txIndex
        transactionTargets (fun _ proof => Q proof) file.evidence.transactions merged.transactions
        htransactions fun proof hproof _ => hfileTransactions proof hproof
      dsimp only at h
      split at h
      · rename_i complete hcomplete
        obtain rfl := Option.some.inj h
        rw [Merged.complete] at hcomplete
        split at hcomplete
        · rw [Option.map_eq_some_iff] at hcomplete
          obtain ⟨_, _, rfl⟩ := hcomplete
          constructor
          · intro proof hproof
            obtain ⟨entry, hentry, rfl⟩ := List.mem_map.mp hproof
            exact haddedReceipts entry.1 entry.2
              (Std.ExtTreeMap.mem_toList_iff_getElem?_eq_some.mp hentry)
          · intro proof hproof
            obtain ⟨entry, hentry, rfl⟩ := List.mem_map.mp hproof
            exact haddedTransactions entry.1 entry.2
              (Std.ExtTreeMap.mem_toList_iff_getElem?_eq_some.mp hentry)
        · cases hcomplete
      · exact ih hrest haddedReceipts haddedTransactions h
    · exact ih hrest hreceipts htransactions h

/-- Cached evidence is the answer to a request. -/
structure Answers (chain : Chain lib.Body) (request : Request) (cached : CachedBlockEvidence) :
    Prop extends FreshFile chain cached where
  number : cached.blockNumber = request.number
  receiptTargets : cached.receiptTargets = request.receipts
  transactionTargets : cached.transactionTargets = request.transactions

variable {request : Request} {cached : CachedBlockEvidence}

/-- A fresh file that is loaded answers the request. -/
theorem answers_of_load (hfile : FreshFile chain cached) {content : FileContent}
    (hcontent : content = some cached) {loaded : CachedBlockEvidence}
    (h : request.load content = some loaded) : Answers chain request loaded := by
  rw [Request.load, hcontent, Option.bind_some, loadCachedBlockEvidence] at h
  split at h
  · rename_i hmatches
    obtain rfl := Option.some.inj h
    obtain ⟨_, hnumber, _, hreceiptTargets, htransactionTargets, _⟩ := hmatches
    exact ⟨hfile, hnumber, hreceiptTargets, htransactionTargets⟩
  · cases h

/-- Evidence that is merged from such files is such a file. -/
theorem answers_of_merge {seen : List CachedBlockEvidence}
    (hseen : ∀ file ∈ seen, FreshFile chain file) (h : request.merge lib seen = some cached) :
    Answers chain request cached := by
  rw [Request.merge] at h
  obtain ⟨hgenuine, hnumber, hreceiptTargets, htransactionTargets⟩ :=
    mergeCached_genuine (fun file hfile => (hseen file hfile).toGenuineFile)
      (fun _ _ => genuineMerge_empty) h
  have hproofs : ∀ block, chain.block request.number = some block →
      (∀ proof ∈ cached.evidence.receipts, ReceiptFresh block proof) ∧
        ∀ proof ∈ cached.evidence.transactions, TransactionFresh request.number block proof := by
    intro block hblock
    apply mergeCached_proofs ?_ ?_ ?_ h
    · intro file hfile hsame
      rw [← hsame] at hblock
      refine ⟨(hseen file hfile).receiptProofs block hblock, ?_⟩
      rw [← hsame]
      exact (hseen file hfile).transactionProofs block hblock
    · intro index proof hnone
      rw [Std.ExtTreeMap.getElem?_empty] at hnone
      cases hnone
    · intro index proof hnone
      rw [Std.ExtTreeMap.getElem?_empty] at hnone
      cases hnone
  refine ⟨⟨hgenuine, ?_, ?_⟩, hnumber, hreceiptTargets, htransactionTargets⟩
  · rw [hnumber]
    exact fun block hblock => (hproofs block hblock).1
  · rw [hnumber]
    exact fun block hblock => (hproofs block hblock).2

/-- What is fetched answers the request. -/
theorem answers_of_fetch (hproofs : IndependentProofs lib) {node : Node lib.Body}
    (hserves : Serves node chain) {evidence : EvidenceBlock} {positions : LogPositionMap}
    (h : blockEvidence lib node request.number request.receipts request.transactions =
      .ok (evidence, positions)) :
    Answers chain request (request.cached evidence positions) := by
  obtain ⟨block, hblock, hfresh, _⟩ := blockEvidence_fresh hproofs hserves h
  obtain ⟨block', hblock', hgenuine, hreceipts, htransactions⟩ := blockEvidence_genuine hserves h
  refine ⟨⟨⟨⟨block', hblock', hgenuine⟩, hreceipts, htransactions⟩, ?_, ?_⟩, rfl, rfl, rfl⟩
  · intro other hother
    obtain rfl : block = other := Option.some.inj (hblock.symm.trans hother)
    exact hfresh.receipts
  · intro other hother
    obtain rfl : block = other := Option.some.inj (hblock.symm.trans hother)
    exact hfresh.transactions

/-- The answer to a request is what a fetch answers, with all positions where a receipt is
requested. -/
theorem Answers.fetched (hproofs : IndependentProofs lib) (h : Answers chain request cached) :
    ∃ fresh, blockEvidence lib chain.node request.number request.receipts request.transactions =
        .ok (cached.evidence, fresh) ∧
      (request.receiptTargets ≠ [] → cached.logPositionMap = fresh) := by
  obtain ⟨block, hblock, hgenuine⟩ := h.genuine
  have hfresh : FreshEvidence lib request.number block request.receipts request.transactions
      cached.evidence := by
    refine ⟨hgenuine.header, h.receipts.trans h.receiptTargets, h.receiptProofs block hblock,
      h.transactions.trans h.transactionTargets, ?_⟩
    rw [← h.number]
    exact h.transactionProofs block hblock
  rw [h.number] at hblock
  refine ⟨_, hfresh.fetched hproofs hblock, ?_⟩
  intro hsome
  have hreceipts : request.receipts ≠ [] := by
    obtain ⟨target, htarget⟩ := List.exists_mem_of_ne_nil _ hsome
    exact List.ne_nil_of_mem (mem_sortedSet.mpr htarget)
  have hproven : cached.evidence.receipts ≠ [] := by
    intro hempty
    have hindices := hfresh.receiptIndices
    rw [hempty] at hindices
    exact hreceipts hindices.symm
  rw [freshPositions, if_neg hreceipts]
  apply Std.ExtTreeMap.ext_getElem?
  intro index
  apply Option.ext
  intro position
  rw [ChainBlock.getElem?_logPositionMap]
  constructor
  · exact hgenuine.sound index position
  · intro hlog
    obtain ⟨transaction, hlog⟩ := hlog
    exact hgenuine.complete hproven index position transaction hlog

end Files

/-! ## Runs -/

section Runs

variable {lib : HostLib} {node : ℕ → Node lib.Body} {digest : U64 → List U64 → List U64 → B256}
  {chain : Chain lib.Body}

namespace Directory

variable {directory : Directory} {name target : FileName} {content : FileContent}
  {P : CachedBlockEvidence → Prop}

/-- Whatever can be decoded in the directory has a property. -/
def All (P : CachedBlockEvidence → Prop) (directory : Directory) : Prop :=
  ∀ file ∈ directory, ∀ cached, file.2 = some cached → P cached

/-- What holds of all files holds of the one that is read. -/
theorem All.read (h : directory.All P) (hread : directory.read name = some content) :
    ∀ cached, content = some cached → P cached := by
  obtain ⟨file, hfile, rfl⟩ := Option.map_eq_some_iff.mp hread
  exact h file (List.mem_of_find?_eq_some hfile)

/-- What holds of all files holds after one is removed. -/
theorem All.remove (h : directory.All P) (name : FileName) : (directory.remove name).All P :=
  fun file hfile => h file (List.mem_filter.mp hfile).1

/-- What holds of all files holds after one is written of which it holds. -/
theorem All.write (h : directory.All P) (hcontent : ∀ cached, content = some cached → P cached)
    (name : FileName) : (directory.write name content).All P := by
  intro file hfile
  rcases List.mem_cons.mp hfile with rfl | hfile
  · exact hcontent
  · exact h.remove name file hfile

/-- What holds of all files holds after one is renamed. -/
theorem All.rename (h : directory.All P) (name target : FileName) :
    (directory.rename name target).All P := by
  rw [Directory.rename]
  split
  · exact h
  · rename_i content hread
    exact (h.remove name).write (h.read hread) target

end Directory

/-- What a task has seen is fresh, and what it writes answers its request. -/
def TaskInv (chain : Chain lib.Body) : Task → Prop
  | .waiting _ _ => True
  | .collecting _ _ seen => ∀ file ∈ seen, FreshFile chain file
  | .writing request cached => Answers chain request cached
  | .filling request cached _ => Answers chain request cached
  | .publishing request cached _ => Answers chain request cached
  | .published request cached => Answers chain request cached
  | .ended => True

/-- Every file, every task and every answer is fresh. -/
structure CacheInv (chain : Chain lib.Body) (state : CacheState) : Prop where
  files : state.directory.All (FreshFile chain)
  tasks : ∀ task ∈ state.tasks, TaskInv chain task
  returned : ∀ answer ∈ state.returned, ∃ cached, Answers chain answer.1 cached ∧
    answer.2 = (cached.evidence, cached.logPositionMap)

variable {state state' : CacheState} {i : ℕ} {task : Task}

/-- A task that is under way keeps its invariant. -/
theorem CacheInv.working (h : CacheInv chain state) (htask : state.tasks[i]? = some task) :
    TaskInv chain task :=
  h.tasks task (List.mem_of_getElem? htask)

/-- A task that goes on with its invariant keeps that of the cache. -/
theorem CacheInv.proceed (h : CacheInv chain state) (i : ℕ) (task : Task)
    (htask : TaskInv chain task) : CacheInv chain (state.proceed i task) := by
  refine ⟨h.files, ?_, h.returned⟩
  intro other hother
  rcases List.mem_or_eq_of_mem_set hother with hold | rfl
  · exact h.tasks other hold
  · exact htask

/-- A task that returns an answer keeps the invariant of the cache. -/
theorem CacheInv.give (h : CacheInv chain state) {request : Request} {cached : CachedBlockEvidence}
    (hanswers : Answers chain request cached) (i : ℕ) :
    CacheInv chain (state.give i request cached) := by
  refine ⟨h.files, (h.proceed i .ended trivial).tasks, ?_⟩
  intro answer hanswer
  rcases List.mem_cons.mp hanswer with rfl | hold
  · exact ⟨cached, hanswers, rfl⟩
  · exact h.returned answer hold

/-- Fresh files keep the invariant of the cache. -/
theorem CacheInv.directory (h : CacheInv chain state) {directory : Directory}
    (hfiles : directory.All (FreshFile chain)) :
    CacheInv chain { state with directory := directory } :=
  ⟨hfiles, h.tasks, h.returned⟩

/-- The invariant holds before the first task. -/
theorem cacheInv_initial : CacheInv chain ⟨[], [], []⟩ := by
  constructor
  · intro file hfile
    cases hfile
  · intro task htask
    cases htask
  · intro answer hanswer
    cases hanswer

/-- Every step keeps the cache fresh. -/
theorem cacheStep_inv (hproofs : IndependentProofs lib) (hserves : ∀ time, Serves (node time) chain)
    {event : CacheEvent} (h : CacheInv chain state)
    (hstep : cacheStep lib node digest state event = some state') : CacheInv chain state' := by
  cases event with
  | call targets listing =>
    rw [cacheStep] at hstep
    split at hstep
    · obtain rfl := Option.some.inj hstep
      refine ⟨h.files, ?_, h.returned⟩
      intro task htask
      rcases List.mem_append.mp htask with hold | hnew
      · exact h.tasks task hold
      · obtain ⟨target, _, rfl⟩ := List.mem_map.mp hnew
        trivial
    · cases hstep
  | load i =>
    rw [cacheStep] at hstep
    split at hstep
    · rename_i request paths htask
      split at hstep
      · rename_i cached hload
        obtain rfl := Option.some.inj hstep
        obtain ⟨content, hread, hload⟩ := Option.bind_eq_some_iff.mp hload
        cases hcontent : content with
        | none =>
          rw [hcontent] at hload
          cases hload
        | some file =>
          exact h.give (answers_of_load (h.files.read hread file hcontent) hcontent hload) i
      · obtain rfl := Option.some.inj hstep
        exact h.proceed i (.collecting request paths []) fun file hfile =>
          absurd hfile List.not_mem_nil
    · cases hstep
  | read i =>
    rw [cacheStep] at hstep
    split at hstep
    · rename_i request path paths seen htask
      split at hstep
      · cases hstep
      · obtain rfl := Option.some.inj hstep
        refine h.proceed i (.collecting request paths _) ?_
        intro file hfile
        rcases List.mem_append.mp hfile with hold | hnew
        · exact h.working htask file hold
        · have hread := Option.mem_toList.mp hnew
          exact h.files.read (Option.join_eq_some_iff.mp hread) file rfl
    · cases hstep
  | merge i =>
    rw [cacheStep] at hstep
    split at hstep
    · rename_i request paths seen htask
      obtain ⟨cached, hmerge, rfl⟩ := Option.map_eq_some_iff.mp hstep
      exact h.proceed i (.writing request cached) (answers_of_merge (h.working htask) hmerge)
    · cases hstep
  | fetch i time =>
    rw [cacheStep] at hstep
    split at hstep
    · rename_i request seen htask
      split at hstep
      · cases hstep
      · split at hstep
        · rename_i evidence positions hfetch
          obtain rfl := Option.some.inj hstep
          exact h.proceed i (.writing request _) (answers_of_fetch hproofs (hserves time) hfetch)
        · obtain rfl := Option.some.inj hstep
          exact h.proceed i .ended trivial
    · cases hstep
  | create i process counter =>
    rw [cacheStep] at hstep
    split at hstep
    · rename_i request cached htask
      obtain rfl := Option.some.inj hstep
      have hanswers : Answers chain request cached := h.working htask
      apply (h.proceed i (.filling request cached _) hanswers).directory
      apply h.files.write
      intro cached' hnone
      cases hnone
    · cases hstep
  | fill i =>
    rw [cacheStep] at hstep
    split at hstep
    · rename_i request cached temporary htask
      obtain rfl := Option.some.inj hstep
      have hanswers : Answers chain request cached := h.working htask
      apply (h.proceed i (.publishing request cached temporary) hanswers).directory
      apply h.files.write
      intro cached' hsame
      obtain rfl := Option.some.inj hsame
      exact hanswers.toFreshFile
    · cases hstep
  | publish i =>
    rw [cacheStep] at hstep
    split at hstep
    · rename_i request cached temporary htask
      obtain rfl := Option.some.inj hstep
      have hanswers : Answers chain request cached := h.working htask
      apply (h.proceed i (.published request cached) hanswers).directory
      exact h.files.rename _ _
    · cases hstep
  | finish i =>
    rw [cacheStep] at hstep
    split at hstep
    · rename_i request cached htask
      obtain rfl := Option.some.inj hstep
      have hanswers : Answers chain request cached := h.working htask
      exact h.give hanswers i
    · cases hstep
  | fail i =>
    obtain ⟨task, _, rfl⟩ := Option.map_eq_some_iff.mp hstep
    apply (h.proceed i .ended trivial).directory
    cases task.temporary? with
    | none => exact h.files
    | some temporary => exact h.files.remove temporary
  | stop i =>
    obtain ⟨task, _, rfl⟩ := Option.map_eq_some_iff.mp hstep
    exact h.proceed i .ended trivial

/-- Whatever the interleaving of workers and wherever they stop, every answer is the evidence that
a fetch of the request answers: the proofs of exactly the requested transactions in order, and the
positions of all logs where a receipt is requested. -/
theorem cache_transparent (hproofs : IndependentProofs lib)
    (hserves : ∀ time, Serves (node time) chain) {events : List CacheEvent}
    (hrun : run (cacheStep lib node digest) ⟨[], [], []⟩ events = some state) {request : Request}
    {evidence : EvidenceBlock} {positions : LogPositionMap}
    (h : (request, evidence, positions) ∈ state.returned) :
    (∃ fresh, blockEvidence lib chain.node request.number request.receipts request.transactions =
        .ok (evidence, fresh) ∧ (request.receiptTargets ≠ [] → positions = fresh)) ∧
      evidence.receipts.map ReceiptProof.txIndex = sortedSet request.receiptTargets ∧
      evidence.transactions.map TransactionProof.txIndex =
        sortedSet request.transactionTargets := by
  have hinv : CacheInv chain state :=
    run_invariant (cacheStep_inv hproofs hserves) cacheInv_initial hrun
  obtain ⟨cached, hanswers, hsame⟩ := hinv.returned _ h
  obtain ⟨rfl, rfl⟩ := Prod.mk.inj hsame
  exact ⟨hanswers.fetched hproofs, hanswers.receipts.trans hanswers.receiptTargets,
    hanswers.transactions.trans hanswers.transactionTargets⟩

end Runs

/-! ## A merge after a crash -/

/-- A digest of the receipts alone. -/
def sampleDigest (_ : U64) (receiptTargets _ : List U64) : B256 :=
  Fin.ofNat _ (receiptTargets.foldl (fun total target => 2 * total + target.val + 1) 0)

/-- A first process stops before it publishes; two workers of a second one publish a receipt each;
a third call merges both. -/
def sampleEvents : List CacheEvent := [
  .call [(101, [0], [])] [], .load 0, .fetch 0 0, .create 0 7 0, .fill 0, .stop 0,
  .call [(101, [0], []), (101, [1], [])] [.temporary 101 1 7 0],
  .load 1, .load 2, .fetch 2 0, .fetch 1 0, .create 1 8 0, .create 2 8 1, .fill 2, .fill 1,
  .publish 1, .publish 2, .finish 2, .finish 1,
  .call [(101, [1, 0], [])] [.evidence 101 1, .temporary 101 1 7 0, .evidence 101 2],
  .load 3, .read 3, .read 3, .merge 3, .create 3 9 0, .fill 3, .publish 3, .finish 3]

/-- The merged evidence of the sample is what a fetch answers. -/
theorem cache_transparent_merge : ∃ evidence positions fresh,
    blockEvidence servedLib servedChain.node 101 (sortedSet [1, 0]) (sortedSet []) =
      .ok (evidence, fresh) ∧ positions = fresh ∧
      evidence.receipts.map ReceiptProof.txIndex = sortedSet [1, 0] := by
  have hsome : (run (cacheStep servedLib (fun _ => servedNode) sampleDigest) ⟨[], [], []⟩
      sampleEvents).any (fun state =>
        (state.returned.map Prod.fst).head? = some ⟨101, [1, 0], []⟩) = true := by
    decide +kernel
  cases hrun : run (cacheStep servedLib (fun _ => servedNode) sampleDigest) ⟨[], [], []⟩
      sampleEvents with
  | none =>
    rw [hrun] at hsome
    cases hsome
  | some state =>
    rw [hrun] at hsome
    obtain ⟨answer, hanswer, hrequest⟩ :=
      List.mem_map.mp (List.mem_of_mem_head? (of_decide_eq_true hsome))
    obtain ⟨request, evidence, positions⟩ := answer
    obtain rfl : request = ⟨101, [1, 0], []⟩ := hrequest
    obtain ⟨⟨fresh, hfetched, hsame⟩, hindices, _⟩ :=
      cache_transparent (fun _ _ _ _ _ _ => rfl) (fun _ => servedNode_serves) hrun hanswer
    exact ⟨evidence, positions, fresh, hfetched, hsame (List.cons_ne_nil _ _), hindices⟩

end LoopProof.Host
