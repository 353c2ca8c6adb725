import LoopProof.Core.CanonicalRlp
import LoopProof.Lib.OrderedMap
import LoopProof.Lib.Selection
import LoopProof.Predicate.Shared

/-!
# Evidence from a node

The host asks a node for blocks, receipts and state proofs, rebuilds the values of the receipt and
transaction tries, and checks them locally before they reach the guest. What was fetched for a
block is kept in a cache, and cached evidence of one block is merged where it covers a request.
-/

namespace LoopProof.Host

/-- A log as a node returns it, with its index in the block. -/
structure RpcLog where
  log : ParsedLog
  logIndex : Option U64
  deriving DecidableEq, Repr

/-- A receipt as a node returns it. -/
structure RpcReceipt where
  type : UInt8
  status : U64
  cumulativeGas : U64
  bloom : Bytes
  logs : List RpcLog
  /-- Nonce and version that deposit receipts carry. -/
  deposit : Option (U64 × U64)
  deriving DecidableEq, Repr

/-- A transaction as a node returns it. -/
structure RpcTransaction (β : Type) where
  hash : B256
  body : β

/-- A block as a node returns it. -/
structure RpcBlock (β : Type) where
  hash : B256
  header : Header
  transactions : List (RpcTransaction β)

/-- An account and storage proof as a node returns it. -/
structure RpcProof where
  accountProof : List Bytes
  value : U256
  storageProof : List Bytes

/-- Third-party code the host calls besides what the predicates call: the reconstruction of
transactions, and the trie builder over encoded items. -/
structure HostLib extends Lib where
  /-- The part of a transaction that a node describes beside its hash. -/
  Body : Type
  encodeRpcTransaction : Body → Except String Bytes
  /-- The root of the trie of items by index. -/
  indexRoot : List Bytes → B256
  /-- The proof nodes retained for one of the targets. -/
  indexProof : List Bytes → List U64 → U64 → List Bytes

/-- The calls the host makes to its node. -/
structure Node (β : Type) where
  getBlockByNumber : U64 → Outcome (RpcBlock β)
  getBlockReceipts : U64 → Outcome (List RpcReceipt)
  getProof : Address → B256 → U64 → Outcome RpcProof

/-- Positions of logs within their receipts, by their index in the block. -/
abbrev LogPositionMap := Std.ExtTreeMap U64 Usize compare

section Rpc

variable (lib : HostLib) (node : Node lib.Body)

/-- The header of a block, whose hash must be the one the node says. -/
def header (number : U64) : Outcome Header := do
  let block ← node.getBlockByNumber number
  ensure (lib.hashSlow block.header = block.hash)
    (.err (s!"block {number}: recomputed header hash " ++
      s!"{lib.showB256 (lib.hashSlow block.header)} != RPC hash {lib.showB256 block.hash}"))
  return block.header

/-- Rebuild the trie of encoded items and prove the targets in it. -/
def proveIndexTrie (encoded : List Bytes) (targets : List U64) (expectedRoot : B256)
    (label : String) : Outcome (List (U64 × Bytes × List Bytes)) := do
  let root := lib.indexRoot encoded
  ensure (root = expectedRoot)
    (.err s!"{label}: local root {lib.showB256 root} != header {lib.showB256 expectedRoot}")
  targets.mapM fun i => do
    let proof := lib.indexProof encoded targets i
    let value ← okOr encoded[i.val]? (.err s!"{label}: index {i} out of range")
    (lib.verifyProof root (Nibbles.unpack (trieIndexKey i)) (some value) proof).mapError
      fun e => .err s!"{label}: index {i} proof self-check: {e}"
    return (i, value, proof)

/-- The bytes of a receipt in the trie of its block. -/
def RpcReceipt.encode (receipt : RpcReceipt) : Bytes :=
  encodeReceipt receipt.type receipt.status receipt.cumulativeGas receipt.bloom
    (receipt.logs.map RpcLog.log) receipt.deposit

/-- The logs of a receipt that name their index in the block, with their positions. -/
def RpcReceipt.positions (receipt : RpcReceipt) : List (U64 × Usize) :=
  receipt.logs.zipIdx.filterMap fun (log, position) =>
    log.logIndex.map fun index => (index, Fin.ofNat _ position)

/-- The positions of all logs of a block. -/
def logPositionMap (receipts : List RpcReceipt) : LogPositionMap :=
  insertAll ∅ (receipts.flatMap RpcReceipt.positions)

/-- Rebuild a transaction and check it against its hash. -/
def encodeChecked (number : U64) (transaction : RpcTransaction lib.Body) : Outcome Bytes := do
  let bytes ← (lib.encodeRpcTransaction transaction.body).mapError fun e =>
    .err s!"block {number}: reconstruct transaction {lib.showB256 transaction.hash}: {e}"
  ensure (lib.keccak256 bytes = transaction.hash)
    (.err (s!"block {number}: reconstructed transaction hash mismatch for " ++
      s!"{lib.showB256 transaction.hash}"))
  return bytes

/-- The proven receipts of a block, and the positions of all its logs. -/
def provenReceipts (number : U64) (root : B256) (targets : List U64) :
    Outcome (List ReceiptProof × LogPositionMap) :=
  if targets = [] then .ok ([], ∅)
  else do
    let receipts ← node.getBlockReceipts number
    let proven ← proveIndexTrie lib (receipts.map RpcReceipt.encode) targets root
      s!"block {number} receipts"
    return (proven.map fun (txIndex, value, proof) => ⟨txIndex, value, proof⟩,
      logPositionMap receipts)

/-- The transactions asked for, each with its proof. -/
def provenTransactions (number : U64) (root : B256) (targets : List U64) :
    Outcome (List TransactionProof) :=
  if targets = [] then .ok []
  else do
    let block ← node.getBlockByNumber number
    let encoded ← block.transactions.mapM (encodeChecked lib number)
    let proven ← proveIndexTrie lib encoded targets root s!"block {number} transactions"
    return proven.map fun (txIndex, value, proof) => ⟨txIndex, value, proof⟩

/-- One block's header with the proofs of the requested receipts and transactions. -/
def blockEvidence (number : U64) (receiptTargets transactionTargets : List U64) :
    Outcome (EvidenceBlock × LogPositionMap) := do
  let header ← header lib node number
  let (receipts, positions) ← provenReceipts lib node number header.receiptsRoot receiptTargets
  let transactions ← provenTransactions lib node number header.transactionsRoot transactionTargets
  return (⟨header, receipts, transactions⟩, positions)

/-- A storage proof, checked against the state root of the block. -/
def storageWitness (header : Header) (contract : Address) (slot : B256) :
    Outcome (StorageProof × U256) := do
  let res ← node.getProof contract slot header.number
  -- An account with an empty storage trie proves every slot zero with no nodes.
  let storageProof := if res.value = 0 ∧ res.storageProof = [[0x80]] then [] else res.storageProof
  let witness : StorageProof := ⟨res.accountProof, storageProof⟩
  let checked ← (verifyStorageValue lib.toCoreLib header.stateRoot contract slot witness).mapError
    (.mapErr fun e => s!"block {header.number} {lib.showAddress contract} slot " ++
      s!"{lib.showB256 slot}: self-check: {e}")
  ensure (checked = res.value)
    (.err (s!"block {header.number} {lib.showAddress contract} slot {lib.showB256 slot}: " ++
      s!"proof value {checked} != RPC {res.value}"))
  return (witness, res.value)

end Rpc

/-! ## The evidence cache -/

/-- The version of cached evidence. -/
def blockEvidenceCacheVersion : ℕ := 1

/-- Evidence of a block with what it was fetched for. -/
structure CachedBlockEvidence where
  version : ℕ
  blockNumber : U64
  receiptTargets : List U64
  transactionTargets : List U64
  evidence : EvidenceBlock
  logPositionMap : LogPositionMap

/-- A file of the cache: its name, and its content if it can be read and decoded. -/
structure CacheFile where
  number : U64
  digest : B256
  content : Option CachedBlockEvidence

/-- Targets in order, each once. -/
def canonicalTargets (targets : List U64) : List U64 := sortedSet targets

/-- What a file holds for exactly the requested targets. -/
def loadCachedBlockEvidence (cached : CachedBlockEvidence) (number : U64)
    (receiptTargets transactionTargets : List U64) : Option CachedBlockEvidence :=
  if cached.version = blockEvidenceCacheVersion ∧ cached.blockNumber = number ∧
      cached.evidence.header.number = number ∧ cached.receiptTargets = receiptTargets ∧
      cached.transactionTargets = transactionTargets ∧
      canonicalTargets (cached.evidence.receipts.map ReceiptProof.txIndex) = receiptTargets ∧
      canonicalTargets (cached.evidence.transactions.map TransactionProof.txIndex) =
        transactionTargets then
    some cached
  else none

/-- What was collected from the files of one block. -/
structure Merged where
  header : Option Header
  receipts : Std.ExtTreeMap U64 ReceiptProof compare
  transactions : Std.ExtTreeMap U64 TransactionProof compare
  logPositionMap : LogPositionMap

/-- Keep the first proof of every target. -/
def collectProofs {π : Type} (txIndex : π → U64) (targets : List U64)
    (collected : Std.ExtTreeMap U64 π compare) (proofs : List π) :
    Std.ExtTreeMap U64 π compare :=
  proofs.foldl (fun collected proof =>
    if txIndex proof ∈ targets ∧ txIndex proof ∉ collected then
      collected.insert (txIndex proof) proof
    else collected) collected

section Cache

variable (lib : HostLib) (number : U64) (receiptTargets transactionTargets : List U64)

/-- The file holds evidence of the block that is collected. -/
def Merged.accepts (merged : Merged) (cached : CachedBlockEvidence) : Bool :=
  cached.version = blockEvidenceCacheVersion ∧ cached.blockNumber = number ∧
    cached.evidence.header.number = number ∧
    merged.header.all (fun existing =>
      lib.hashSlow existing = lib.hashSlow cached.evidence.header) = true

/-- What cached evidence adds to what was collected so far. -/
def Merged.add (merged : Merged) (cached : CachedBlockEvidence) : Merged where
  header := some (merged.header.getD cached.evidence.header)
  receipts := collectProofs ReceiptProof.txIndex receiptTargets merged.receipts
    cached.evidence.receipts
  transactions := collectProofs TransactionProof.txIndex transactionTargets merged.transactions
    cached.evidence.transactions
  logPositionMap := insertAll merged.logPositionMap cached.logPositionMap.toList

/-- The collected evidence once it has a proof of every target. -/
def Merged.complete (merged : Merged) : Option CachedBlockEvidence :=
  if merged.receipts.size = receiptTargets.length ∧
      merged.transactions.size = transactionTargets.length then
    merged.header.map fun header =>
      ⟨blockEvidenceCacheVersion, number, receiptTargets, transactionTargets,
        ⟨header, merged.receipts.toList.map Prod.snd, merged.transactions.toList.map Prod.snd⟩,
        merged.logPositionMap⟩
  else none

/-- Collect from the files in order until every target has its proof. -/
def mergeCachedBlockEvidence : List CachedBlockEvidence → Merged → Option CachedBlockEvidence
  | [], _ => none
  | cached :: rest, merged =>
    if merged.accepts lib number cached then
      let added := merged.add receiptTargets transactionTargets cached
      match added.complete number receiptTargets transactionTargets with
      | some complete => some complete
      | none => mergeCachedBlockEvidence rest added
    else mergeCachedBlockEvidence rest merged

end Cache

section Many

variable (lib : HostLib) (node : Node lib.Body)
  (digest : U64 → List U64 → List U64 → B256) (cache : List CacheFile)

/-- The file whose name is made from the request. -/
def exactFile (number : U64) (receiptTargets transactionTargets : List U64) :
    Option CachedBlockEvidence :=
  (cache.find? fun file => file.number = number ∧
    file.digest = digest number receiptTargets transactionTargets).bind (·.content)

/-- The files of one block that can be read. -/
def filesOf (number : U64) : List CachedBlockEvidence :=
  (cache.filter (·.number = number)).filterMap (·.content)

/-- The evidence of one block from the cache, or else from the node, with the file that is
written for it. -/
def cachedBlockEvidence (number : U64) (receiptTargets transactionTargets : List U64) :
    Outcome (EvidenceBlock × LogPositionMap × Option CachedBlockEvidence) :=
  match (exactFile digest cache number receiptTargets transactionTargets).bind fun cached =>
      loadCachedBlockEvidence cached number receiptTargets transactionTargets with
  | some cached => .ok (cached.evidence, cached.logPositionMap, none)
  | none =>
    match mergeCachedBlockEvidence lib number receiptTargets transactionTargets
        (filesOf cache number) ⟨none, ∅, ∅, ∅⟩ with
    | some cached => .ok (cached.evidence, cached.logPositionMap, some cached)
    | none => do
      let (evidence, positions) ←
        blockEvidence lib node number receiptTargets transactionTargets
      return (evidence, positions, some ⟨blockEvidenceCacheVersion, number, receiptTargets,
        transactionTargets, evidence, positions⟩)

/-- The evidence of several blocks, each worked on by itself. -/
def blockEvidenceMany (targets : List (U64 × List U64 × List U64)) :
    Outcome (List (EvidenceBlock × LogPositionMap)) :=
  targets.mapM fun (number, receiptTargets, transactionTargets) => do
    let (evidence, positions, _) ← cachedBlockEvidence lib node digest cache number
      (canonicalTargets receiptTargets) (canonicalTargets transactionTargets)
    return (evidence, positions)

end Many

end LoopProof.Host
