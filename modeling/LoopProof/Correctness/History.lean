import LoopProof.Correctness.Scan
import LoopProof.Correctness.Materialize
import LoopProof.Host.Fetch
import LoopProof.Lib.RangeScan

/-!
# The history that both programs see

The builder and the host ask different questions about one chain: the builder lists logs within
ranges of blocks, the host reads receipts of transactions and lists logs up to a limit. Whatever
either reads in pieces is what the history holds.
-/

namespace LoopProof.Host

/-! ## Logs of the contracts -/

/-- The logs of the three contracts have the topics and data their interfaces declare. -/
structure Shaped (log : ParsedLog) : Prop where
  transfer : log.address = usdcAddress → log.topics[0]? = some transferTopic →
    ∃ sender recipient, log.topics = [transferTopic, addrTopic sender, addrTopic recipient] ∧
      log.data.length = 32
  deposited : log.address = depositsAddress → log.topics[0]? = some depositedTopic →
    ∃ buyer, log.topics = [depositedTopic, addrTopic buyer] ∧ log.data.length = 32
  settled : log.address = channelsAddress → log.topics[0]? = some channelSettledTopic →
    ∃ channel buyer seller,
      log.topics = [channelSettledTopic, channel, addrTopic buyer, addrTopic seller] ∧
        64 ≤ log.data.length

/-- A transfer of the token from a sender. -/
def isTransferFrom (sender : Address) : ParsedLog → Bool :=
  matchesLog usdcAddress transferTopic (some (addrTopic sender)) none

/-- A transfer of the token between two addresses. -/
def isTransfer (sender recipient : Address) : ParsedLog → Bool :=
  matchesLog usdcAddress transferTopic (some (addrTopic sender)) (some (addrTopic recipient))

/-- A deposit for a buyer. -/
def isDeposited (buyer : Address) : ParsedLog → Bool :=
  matchesLog depositsAddress depositedTopic (some (addrTopic buyer)) none

/-- The settlements of a buyer with a seller. -/
def settledFilter (buyer seller : Address) : LogFilter :=
  ⟨channelsAddress, [some channelSettledTopic, none, some (addrTopic buyer),
    some (addrTopic seller)]⟩

/-- The amount of a transfer or of a deposit. -/
def paidAmount (log : ParsedLog) : ℕ := beNat (log.data.take 32)

/-- The amount in the data of a settlement. -/
def settledAmount (log : ParsedLog) : ℕ := beNat ((log.data.drop 32).take 32)

/-! ## The history -/

/-- A transaction with its logs. -/
structure MinedTransaction where
  hash : B256
  blockNumber : U64
  transactionIndex : U64
  logs : List RpcLog

/-- The transactions of a block with their receipts. -/
def ChainBlock.mined {β : Type} (block : ChainBlock β) : List MinedTransaction :=
  (block.transactions.zip block.receipts).zipIdx.map fun ((transaction, receipt), index) =>
    ⟨transaction.hash, block.header.number, Fin.ofNat _ index, receipt.logs⟩

/-- A chain as a list of blocks. -/
structure History (β : Type) where
  blocks : List (ChainBlock β)
  ordered : blocks.Pairwise fun a b => a.header.number < b.header.number
  paired : ∀ block ∈ blocks, block.receipts.length = block.transactions.length
  few : ∀ block ∈ blocks, block.receipts.length < 2 ^ 64
  hashed : ((blocks.flatMap ChainBlock.mined).map MinedTransaction.hash).Nodup
  indexed : ∀ block ∈ blocks, ∀ receipt ∈ block.receipts, ∀ log ∈ receipt.logs,
    log.logIndex.isSome = true

/-- The logs of a transaction as a node lists them. -/
def MinedTransaction.listed (transaction : MinedTransaction) : List MinedLog :=
  transaction.logs.filterMap fun log => log.logIndex.map fun index =>
    ⟨log.log, transaction.blockNumber, transaction.hash, transaction.transactionIndex, index⟩

namespace History

variable {β : Type} (history : History β)

/-- The contracts write logs of the declared shape only. -/
def Declared : Prop :=
  ∀ block ∈ history.blocks, ∀ receipt ∈ block.receipts, ∀ log ∈ receipt.logs, Shaped log.log

/-- All transactions in order. -/
def transactions : List MinedTransaction := history.blocks.flatMap ChainBlock.mined

/-- All logs in order. -/
def logs : List MinedLog := history.transactions.flatMap MinedTransaction.listed

/-- The logs that a filter selects within a range of blocks. -/
def select (filter : LogFilter) (first last : ℕ) : List MinedLog :=
  itemsBetween (fun found => found.blockNumber.val)
    (history.logs.filter fun found => filter.selects found.log) first last

/-- The transaction with a hash. -/
def transaction (tx : B256) : Option MinedTransaction :=
  history.transactions.find? (·.hash = tx)

/-- The receipt of a transaction as a node answers it. -/
def receipt (tx : B256) : Option TransactionReceipt :=
  (history.transaction tx).map fun mined =>
    ⟨mined.blockNumber, mined.transactionIndex, mined.logs.map RpcLog.log⟩

/-- The first log of a transaction that has a property, with its place. -/
def first (tx : B256) (wanted : ParsedLog → Bool) : Option (LogLoc × ParsedLog) := do
  let mined ← history.transaction tx
  let position ← (mined.logs.map RpcLog.log).findIdx? wanted
  let log ← (mined.logs.map RpcLog.log)[position]?
  return (⟨mined.blockNumber, mined.transactionIndex, Fin.ofNat _ position⟩, log)

/-- The transfers that a path of transactions is followed by, as senders and transactions. -/
def hops : Address → List B256 → List (Address × B256)
  | _, [] => []
  | sender, tx :: rest =>
    (sender, tx) ::
      match history.first tx (isTransferFrom sender) with
      | none => []
      | some (_, log) => hops (topicAddress (log.topics[2]?.getD 0)) rest

/-- The blocks by their numbers. -/
def chain : Chain β where
  block number := history.blocks.find? (·.header.number = number)
  numbered number found h := by
    have hnumber := List.find?_some h
    exact of_decide_eq_true hnumber

end History

/-- The host's node answers as the history is. -/
structure ServesLogs {lib : HostLib} (node : LogNode lib.Body) (history : History lib.Body) : Prop
    extends Serves node.toNode history.chain where
  receipt : ∀ tx answer, node.getTransactionReceipt tx = .ok answer → answer = history.receipt tx
  logs : ∀ filter first last answer, node.getLogs filter first last = .ok answer →
    answer = history.select filter first last

/-- The builder's node lists the logs of the history. -/
def ListsLogs {β : Type} (rpc : Case.BuilderRpc) (history : History β) : Prop :=
  ∀ filter first last answer, rpc.getLogs filter first last = .ok answer →
    answer = history.select filter first last

/-! ## Transactions and logs of a history -/

section History

variable {β : Type} {history : History β}

/-- The entry of a key is found where keys are different. -/
private theorem find?_of_nodup {α κ : Type} [DecidableEq κ] {f : α → κ} {xs : List α}
    (hnodup : (xs.map f).Nodup) {x : α} (h : x ∈ xs) :
    xs.find? (fun y => f y = f x) = some x := by
  induction xs with
  | nil => cases h
  | cons y ys ih =>
    obtain ⟨hnew, hnodup⟩ := List.nodup_cons.mp hnodup
    rcases List.mem_cons.mp h with rfl | h
    · exact List.find?_cons_of_pos (decide_eq_true rfl)
    · have hne : f y ≠ f x := by
        intro hsame
        exact hnew (hsame ▸ List.mem_map_of_mem h)
      rw [List.find?_cons_of_neg (by simpa using hne)]
      exact ih hnodup h

/-- The transactions of a block with their receipts. -/
theorem mem_mined {block : ChainBlock β} {mined : MinedTransaction} :
    mined ∈ block.mined ↔ ∃ index transaction receipt,
      block.transactions[index]? = some transaction ∧ block.receipts[index]? = some receipt ∧
        mined = ⟨transaction.hash, block.header.number, Fin.ofNat _ index, receipt.logs⟩ := by
  simp only [ChainBlock.mined, List.mem_map, Prod.exists, List.mem_zipIdx_iff_getElem?,
    List.getElem?_zip_eq_some]
  constructor
  · intro h
    obtain ⟨transaction, receipt, index, ⟨htransaction, hreceipt⟩, rfl⟩ := h
    exact ⟨index, transaction, receipt, htransaction, hreceipt, rfl⟩
  · intro h
    obtain ⟨index, transaction, receipt, htransaction, hreceipt, rfl⟩ := h
    exact ⟨transaction, receipt, index, ⟨htransaction, hreceipt⟩, rfl⟩

/-- No two blocks have one number. -/
theorem numbers_nodup (history : History β) :
    (history.blocks.map fun block => block.header.number).Nodup :=
  List.Pairwise.imp ne_of_lt (List.pairwise_map.mpr history.ordered)

/-- A block is found by its number. -/
theorem chain_block {block : ChainBlock β} (h : block ∈ history.blocks) :
    history.chain.block block.header.number = some block :=
  find?_of_nodup (numbers_nodup history) h

/-- Where a mined transaction stands in the chain. -/
structure MinedAt (history : History β) (mined : MinedTransaction) (block : ChainBlock β)
    (receipt : RpcReceipt) : Prop where
  member : block ∈ history.blocks
  found : history.chain.block mined.blockNumber = some block
  place : block.receipts[mined.transactionIndex.val]? = some receipt
  logs : mined.logs = receipt.logs
  hash : ∃ transaction, block.transactions[mined.transactionIndex.val]? = some transaction ∧
    mined.hash = transaction.hash

/-- A transaction of the history is in one of its blocks. -/
theorem exists_minedAt {mined : MinedTransaction} (h : mined ∈ history.transactions) :
    ∃ block receipt, MinedAt history mined block receipt := by
  obtain ⟨block, hblock, hmined⟩ := List.mem_flatMap.mp h
  obtain ⟨index, transaction, receipt, htransaction, hreceipt, rfl⟩ := mem_mined.mp hmined
  have hlt : index < 2 ^ 64 :=
    (List.getElem?_eq_some_iff.mp hreceipt).1.trans (history.few block hblock)
  have hindex : (Fin.ofNat (2 ^ 64) index).val = index := by
    rw [Fin.val_ofNat, Nat.mod_eq_of_lt hlt]
  refine ⟨block, receipt, hblock, chain_block hblock, ?_, rfl, transaction, ?_, rfl⟩
  · rw [hindex]
    exact hreceipt
  · rw [hindex]
    exact htransaction

/-- A transaction is found by its hash. -/
theorem transaction_eq_some {tx : B256} {mined : MinedTransaction} :
    history.transaction tx = some mined ↔ mined ∈ history.transactions ∧ mined.hash = tx := by
  constructor
  · intro h
    have hhash := List.find?_some h
    exact ⟨List.mem_of_find?_eq_some h, of_decide_eq_true hhash⟩
  · intro h
    obtain ⟨hmem, rfl⟩ := h
    exact find?_of_nodup history.hashed hmem

/-- A log is listed with the place of its transaction. -/
theorem mem_listed {mined : MinedTransaction} {found : MinedLog} :
    found ∈ mined.listed ↔ ∃ log ∈ mined.logs, log.logIndex = some found.logIndex ∧
      log.log = found.log ∧ mined.blockNumber = found.blockNumber ∧
      mined.hash = found.transactionHash ∧ mined.transactionIndex = found.transactionIndex := by
  simp only [MinedTransaction.listed, List.mem_filterMap, Option.map_eq_some_iff]
  constructor
  · intro h
    obtain ⟨log, hlog, index, hindex, rfl⟩ := h
    exact ⟨log, hlog, hindex, rfl, rfl, rfl, rfl⟩
  · intro h
    obtain ⟨log, hlog, hindex, hsame, hnumber, hhash, htransaction⟩ := h
    refine ⟨log, hlog, found.logIndex, hindex, ?_⟩
    rw [hsame, hnumber, hhash, htransaction]

/-- A listed log is one of a transaction of the chain. -/
theorem mem_logs {found : MinedLog} (h : found ∈ history.logs) :
    ∃ mined, history.transaction found.transactionHash = some mined ∧
      mined.blockNumber = found.blockNumber ∧ mined.transactionIndex = found.transactionIndex ∧
      ∃ log ∈ mined.logs, log.logIndex = some found.logIndex ∧ log.log = found.log := by
  obtain ⟨mined, hmined, hlisted⟩ := List.mem_flatMap.mp h
  obtain ⟨log, hlog, hindex, hsame, hnumber, hhash, htransaction⟩ := mem_listed.mp hlisted
  exact ⟨mined, transaction_eq_some.mpr ⟨hmined, hhash⟩, hnumber, htransaction, log, hlog, hindex,
    hsame⟩

/-- The logs of declared contracts have their shape. -/
theorem shaped_of_mem (hdeclared : history.Declared) {mined : MinedTransaction}
    (h : mined ∈ history.transactions) {log : RpcLog} (hlog : log ∈ mined.logs) :
    Shaped log.log := by
  obtain ⟨block, receipt, hmined⟩ := exists_minedAt h
  exact hdeclared block hmined.member receipt (List.mem_of_getElem? hmined.place) log
    (hmined.logs ▸ hlog)

/-- The logs are in the order of their blocks. -/
theorem logs_ordered (history : History β) :
    history.logs.Pairwise fun a b => a.blockNumber.val ≤ b.blockNumber.val := by
  have hof : ∀ block : ChainBlock β, ∀ found ∈ block.mined.flatMap MinedTransaction.listed,
      found.blockNumber = block.header.number := by
    intro block found hfound
    obtain ⟨mined, hmined, hlisted⟩ := List.mem_flatMap.mp hfound
    obtain ⟨_, _, _, _, _, rfl⟩ := mem_mined.mp hmined
    obtain ⟨_, _, _, _, hnumber, _⟩ := mem_listed.mp hlisted
    exact hnumber.symm
  rw [History.logs, History.transactions, List.flatMap_assoc, List.pairwise_flatMap]
  constructor
  · intro block _
    apply List.pairwise_of_forall_mem_list
    intro a ha b hb
    rw [hof block a ha, hof block b hb]
  · apply history.ordered.imp
    intro block block' hlt a ha b hb
    rw [hof block a ha, hof block' b hb]
    exact (Fin.lt_def.mp hlt).le

/-- The selected logs are in the order of their blocks. -/
theorem select_ordered (filter : LogFilter) :
    (history.logs.filter fun found => filter.selects found.log).Pairwise
      fun a b => a.blockNumber.val ≤ b.blockNumber.val :=
  (logs_ordered history).filter _

/-- The selected logs are those of the history that match, within the blocks. -/
theorem mem_select {filter : LogFilter} {first last : ℕ} {found : MinedLog} :
    found ∈ history.select filter first last ↔ found ∈ history.logs ∧
      filter.selects found.log = true ∧ first ≤ found.blockNumber.val ∧
      found.blockNumber.val ≤ last := by
  rw [History.select, mem_itemsBetween, List.mem_filter, and_assoc]

/-! ## First logs -/

/-- The first log of a transaction with a property, at its place. -/
structure FirstAt (history : History β) (tx : B256) (wanted : ParsedLog → Bool)
    (mined : MinedTransaction) (loc : LogLoc) (log : ParsedLog) : Prop where
  transaction : history.transaction tx = some mined
  block : mined.blockNumber = loc.block
  index : mined.transactionIndex = loc.transaction
  place : (mined.logs.map RpcLog.log)[loc.log.val]? = some log
  holds : wanted log = true
  earlier : ∀ i < loc.log.val, ∀ other, (mined.logs.map RpcLog.log)[i]? = some other →
    wanted other = false

/-- A transaction has fewer logs than there are indices. -/
theorem length_logs_lt {mined : MinedTransaction} (h : mined ∈ history.transactions) :
    mined.logs.length < 2 ^ 64 := by
  obtain ⟨block, receipt, hmined⟩ := exists_minedAt h
  rw [hmined.logs]
  exact ChainBlock.logs_few (List.mem_of_getElem? hmined.place)

variable {tx : B256} {wanted : ParsedLog → Bool} {loc : LogLoc} {log : ParsedLog}

/-- The first log of a transaction that is wanted. -/
theorem first_eq_some :
    history.first tx wanted = some (loc, log) ↔
      ∃ mined, FirstAt history tx wanted mined loc log := by
  simp only [History.first, Option.bind_eq_bind, Option.bind_eq_some_iff, Option.pure_def,
    Option.some.injEq, Prod.mk.injEq]
  constructor
  · intro h
    obtain ⟨mined, hmined, position, hposition, _, hlog, rfl, rfl⟩ := h
    obtain ⟨hlt, hwanted, hearlier⟩ := List.findIdx?_eq_some_iff_getElem.mp hposition
    rw [List.length_map] at hlt
    have hplace : (Fin.ofNat (2 ^ 64) position).val = position := by
      rw [Fin.val_ofNat, Nat.mod_eq_of_lt
        (hlt.trans (length_logs_lt (transaction_eq_some.mp hmined).1))]
    refine ⟨mined, hmined, rfl, rfl, ?_, ?_, ?_⟩
    · rw [hplace]
      exact hlog
    · rw [List.getElem?_eq_some_iff] at hlog
      obtain ⟨_, rfl⟩ := hlog
      exact hwanted
    · intro i hi other hother
      rw [hplace] at hi
      rw [List.getElem?_eq_some_iff] at hother
      obtain ⟨_, rfl⟩ := hother
      exact Bool.eq_false_of_not_eq_true (hearlier i hi)
  · intro h
    obtain ⟨mined, hmined, hblock, hindex, hplace, hwanted, hearlier⟩ := h
    refine ⟨mined, hmined, loc.log.val, ?_, log, hplace, ?_, rfl⟩
    · rw [List.findIdx?_eq_some_iff_getElem]
      obtain ⟨hlt, rfl⟩ := List.getElem?_eq_some_iff.mp hplace
      refine ⟨hlt, hwanted, ?_⟩
      intro i hi htrue
      rw [hearlier i hi _ (List.getElem?_eq_getElem (hi.trans hlt))] at htrue
      cases htrue
    · rw [hblock, hindex, Fin.ofNat_val_eq_self]

/-- A first log stands in the chain. -/
theorem first_logAt (h : history.first tx wanted = some (loc, log)) :
    ∃ index, history.chain.LogAt ⟨loc.block, loc.transaction, loc.log⟩ index log := by
  obtain ⟨mined, hfirst⟩ := first_eq_some.mp h
  obtain ⟨hmem, _⟩ := transaction_eq_some.mp hfirst.transaction
  obtain ⟨block, receipt, hmined⟩ := exists_minedAt hmem
  have hplace := hfirst.place
  rw [List.getElem?_map, Option.map_eq_some_iff] at hplace
  obtain ⟨entry, hentry, rfl⟩ := hplace
  rw [hmined.logs] at hentry
  have hsome := history.indexed block hmined.member receipt (List.mem_of_getElem? hmined.place)
    entry (List.mem_of_getElem? hentry)
  obtain ⟨index, hindex⟩ := Option.isSome_iff_exists.mp hsome
  have hfound := hmined.found
  have hreceipt := hmined.place
  rw [hfirst.block] at hfound
  rw [hfirst.index] at hreceipt
  exact ⟨index, block, receipt, entry, hfound, hreceipt, hentry, hindex, rfl⟩

end History

/-! ## What both programs read -/

section Builder

variable {β : Type} {history : History β} {rpc : Case.BuilderRpc}

/-- Two selections of neighbouring blocks are one. -/
theorem select_append (filter : LogFilter) {first middle last : ℕ} (hfirst : first ≤ middle + 1)
    (hlast : middle ≤ last) :
    history.select filter first middle ++ history.select filter (middle + 1) last =
      history.select filter first last :=
  itemsBetween_append (select_ordered filter) hfirst hlast

/-- Nothing is selected from no blocks. -/
theorem select_eq_nil (filter : LogFilter) {first last : ℕ} (h : last < first) :
    history.select filter first last = [] :=
  itemsBetween_eq_nil h

/-- What a scan returns is what the history holds. -/
private theorem select_of_scan (hlists : ListsLogs rpc history) {filter : LogFilter}
    {chunk toBlock n b : ℕ} {scanned : Case.Scanned}
    (hspec : Case.ScanSpec (fun _ => rpc.getLogs) filter chunk toBlock n b scanned)
    {logs : List MinedLog} (h : Case.scanResult scanned = .ok logs) :
    logs = history.select filter b toBlock := by
  have hresult : scanned.outcome = some (.ok logs) := by
    rw [Case.scanResult] at h
    cases houtcome : scanned.outcome with
    | none => exact absurd houtcome hspec.ends
    | some result =>
      rw [houtcome] at h
      cases result with
      | error error => cases h
      | ok found =>
        obtain rfl : found = logs := Except.ok.inj h
        rfl
  apply hspec.result (select_ordered filter) ?_ hresult
  intro read hread
  obtain ⟨call, part, hmem, hpart, rfl⟩ := Case.mem_readWindows.mp hread
  obtain ⟨k, hk⟩ := List.mem_iff_getElem?.mp hmem
  apply hlists
  rw [← hspec.answers k call hk, hpart]

/-- However a scan narrows and widens its span, it reads the whole range. -/
theorem getLogs_select (hlists : ListsLogs rpc history) {filter : LogFilter} {fromBlock toBlock : ℕ}
    {logs : List MinedLog} (h : Case.getLogs rpc filter fromBlock toBlock = .ok logs) :
    logs = history.select filter fromBlock toBlock :=
  select_of_scan hlists (Case.scanRange_spec (by decide) (by decide) fromBlock) h

end Builder

section Host

variable {lib : HostLib} {history : History lib.Body} {node : LogNode lib.Body}

/-- The place of a log. -/
def rawOf (found : MinedLog) : RawSettlement :=
  ⟨found.blockNumber, found.transactionIndex, found.logIndex⟩

/-- What is read beyond the limit does not count. -/
private theorem take_append_take {α : Type} {limit : ℕ} {xs : List α} (h : xs.length ≤ limit)
    (ys zs : List α) :
    (xs ++ ys.take (limit - xs.length) ++ zs).take limit = (xs ++ (ys ++ zs)).take limit := by
  by_cases hfew : ys.length ≤ limit - xs.length
  · rw [List.take_of_length_le hfew, List.append_assoc]
  · have hlength : (xs ++ ys.take (limit - xs.length)).length = limit := by
      rw [List.length_append, List.length_take]
      omega
    rw [List.take_append_of_le_length hlength.ge, List.take_of_length_le hlength.le,
      List.take_append, List.take_of_length_le h, List.take_append_of_le_length (by omega)]

/-- A scan up to a limit reads the first logs of the range. -/
theorem scanSettlements_select (hserves : ServesLogs node history) {filter : LogFilter}
    {toBlock limit fuel b : ℕ} {out result : List RawSettlement} (hout : out.length ≤ limit)
    (h : scanSettlements lib node filter toBlock limit fuel b out = .ok result) :
    result = (out ++ (history.select filter b toBlock).map rawOf).take limit := by
  induction fuel generalizing b out with
  | zero => cases h
  | succ fuel ih =>
    rw [scanSettlements] at h
    split at h
    · rename_i hmore
      simp only [bind_eq_ok] at h
      obtain ⟨logs, hlogs, h⟩ := h
      obtain rfl := hserves.logs filter _ _ logs hlogs
      have hread : (out ++ ((history.select filter b (min (b + 99999) toBlock)).take
          (limit - out.length)).map rawOf).length ≤ limit := by
        rw [List.length_append, List.length_map, List.length_take]
        omega
      have hrange := @select_append _ history filter b (min (b + 99999) toBlock) toBlock
        (by omega) (by omega)
      rw [ih hread h, ← hrange, List.map_append, List.map_take]
      exact take_append_take hout _ _
    · rename_i hdone
      obtain rfl := Except.ok.inj h
      by_cases hlimit : out.length < limit
      · have hpast : toBlock < b := by
          by_contra hle
          exact hdone ⟨Nat.le_of_not_lt hle, hlimit⟩
        rw [select_eq_nil filter hpast, List.map_nil, List.append_nil,
          List.take_of_length_le hout]
      · rw [List.take_append_of_le_length (Nat.le_of_not_lt hlimit),
          List.take_of_length_le hout]

/-- A scan of a node that serves the history finds the first settlements of the buyer with the
seller. -/
theorem findSettlementLogs_select (hserves : ServesLogs node history) {buyer seller : Address}
    {fromBlock toBlock limit : ℕ} {result : List RawSettlement}
    (h : findSettlementLogs lib node channelsAddress buyer seller fromBlock toBlock limit =
      .ok result) :
    result = ((history.select (settledFilter buyer seller) fromBlock toBlock).take limit).map
      rawOf := by
  rw [List.map_take]
  exact scanSettlements_select hserves (Nat.zero_le limit) h

/-- What is found in a transaction is its first log of the kind. -/
theorem findLogInTx_first (hserves : ServesLogs node history) {tx : B256} {address : Address}
    {topic0 : B256} {topic1 topic2 : Option B256} {loc : LogLoc}
    (h : findLogInTx lib node tx address topic0 topic1 topic2 = .ok loc) :
    ∃ log, history.first tx (matchesLog address topic0 topic1 topic2) = some (loc, log) := by
  simp only [findLogInTx, bind_eq_ok, pure_eq_ok, okOr_eq_ok] at h
  obtain ⟨found, hfound, receipt, hreceipt, position, hposition, rfl⟩ := h
  have hanswer := hserves.receipt tx found hfound
  rw [hreceipt, History.receipt, eq_comm, Option.map_eq_some_iff] at hanswer
  obtain ⟨mined, hmined, rfl⟩ := hanswer
  obtain ⟨hlt, _⟩ := List.findIdx?_eq_some_iff_getElem.mp hposition
  refine ⟨(mined.logs.map RpcLog.log)[position], ?_⟩
  simp only [History.first, Option.bind_eq_bind, Option.pure_def, hmined, Option.bind_some,
    hposition, List.getElem?_eq_getElem hlt]

/-- The hops that are found are the first transfers along the path. -/
theorem locateHops_first (hserves : ServesLogs node history) {sender : Address} {path : List B256}
    {locs : List LogLoc} (h : locateHops lib node sender path = .ok locs) :
    List.Forall₂ (fun query loc =>
      ∃ log, history.first query.2 (isTransferFrom query.1) = some (loc, log))
      (history.hops sender path) locs := by
  induction path generalizing sender locs with
  | nil =>
    obtain rfl := Except.ok.inj h
    exact .nil
  | cons tx rest ih =>
    simp only [locateHops, bind_eq_ok, pure_eq_ok, okOr_eq_ok] at h
    obtain ⟨loc, hloc, found, hfound, receipt, hreceipt, log, hlog, word, hword, hops, hhops,
      rfl⟩ := h
    obtain ⟨first, hfirst⟩ := findLogInTx_first hserves hloc
    obtain ⟨mined, hmined⟩ := first_eq_some.mp hfirst
    have hanswer := hserves.receipt tx found hfound
    rw [hreceipt, History.receipt, hmined.transaction] at hanswer
    obtain rfl := Option.some.inj hanswer
    obtain rfl := Option.some.inj (hmined.place.symm.trans hlog)
    rw [History.hops]
    refine .cons ⟨first, hfirst⟩ ?_
    change history.first tx (isTransferFrom sender) = _ at hfirst
    rw [hfirst]
    simp only [hword, Option.getD_some]
    exact ih hhops

end Host

end LoopProof.Host
