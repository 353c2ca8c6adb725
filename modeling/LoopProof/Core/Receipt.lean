import LoopProof.Core.Foundation

/-!
# Receipts and inclusion proofs

Receipt log parsing over the raw trie value, and Merkle-Patricia inclusion of a
receipt or a transaction against the roots of one header.
-/

namespace LoopProof

/-- One receipt and its inclusion proof; the trie key is the encoded `txIndex`. -/
structure ReceiptProof where
  txIndex : U64
  value : Bytes
  proof : List Bytes
  deriving DecidableEq, Repr

/-- One transaction and its inclusion proof. -/
structure TransactionProof where
  txIndex : U64
  value : Bytes
  proof : List Bytes
  deriving DecidableEq, Repr

/-- A decoded event log. -/
structure ParsedLog where
  address : Address
  topics : List B256
  data : Bytes
  deriving DecidableEq, Repr

/-- One RLP item of a buffer, and the buffer after it. -/
structure Item where
  list : Bool
  payload : Bytes
  rest : Bytes

/-- Read the next RLP item. -/
def nextItem (lib : CoreLib) (buf : Bytes) : Outcome Item := do
  let (h, buf) ← (lib.rlpHeader buf).mapError fun e => .err s!"rlp: {e}"
  ensure (h.payloadLength ≤ buf.length) (.err "rlp: short payload")
  let payload ← sliceAt "next_item payload" buf 0 h.payloadLength
  let rest ← sliceAt "next_item rest" buf h.payloadLength buf.length
  return ⟨h.list, payload, rest⟩

/-- Strip an optional type byte and return the receipt body fields. -/
def receiptBody (lib : CoreLib) (receipt : Bytes) : Outcome Bytes := do
  let buf := match receipt with
    | b :: rest => if b < 0xc0 then rest else receipt
    | [] => []
  let body ← nextItem lib buf
  ensure (body.list = true) (.err "receipt: not a list")
  return body.payload

/-- Whether the status field is one. -/
def receiptSuccess (lib : CoreLib) (receipt : Bytes) : Outcome Bool := do
  let body ← receiptBody lib receipt
  let status ← nextItem lib body
  return status.payload == [1]

/-- Collect 32-byte topics until the topic list is exhausted. -/
def topicsLoop (lib : CoreLib) : ℕ → Bytes → List B256 → Outcome (List B256)
  | _, [], topics => .ok topics
  | 0, _ :: _, _ => .error .outOfFuel
  | fuel + 1, buf@(_ :: _), topics => do
    let t ← nextItem lib buf
    ensure (t.payload.length = 32) (.err "log: bad topic")
    let topic ← b256FromSlice t.payload
    topicsLoop lib fuel t.rest (topics ++ [topic])

/-- Decode the fields of the selected log. -/
def parseLog (lib : CoreLib) (log : Bytes) : Outcome ParsedLog := do
  let addr ← nextItem lib log
  ensure (addr.payload.length = 20) (.err "log: bad address")
  let topicsBuf ← nextItem lib addr.rest
  ensure (topicsBuf.list = true) (.err "log: topics not a list")
  let topics ← topicsLoop lib topicsBuf.payload.length topicsBuf.payload []
  let data ← nextItem lib topicsBuf.rest
  let address ← addressFromSlice addr.payload
  return ⟨address, topics, data.payload⟩

/-- Walk the log list to the requested index. -/
def receiptLogLoop (lib : CoreLib) (logIndex : Usize) : ℕ → Bytes → ℕ → Outcome ParsedLog
  | _, [], _ => .error (.err s!"receipt: log index {logIndex} out of range")
  | 0, _ :: _, _ => .error .outOfFuel
  | fuel + 1, logs@(_ :: _), i => do
    let log ← nextItem lib logs
    ensure (log.list = true) (.err "receipt: log not a list")
    if i = logIndex.val then parseLog lib log.payload
    else receiptLogLoop lib logIndex fuel log.rest (i + 1)

/-- Extract one log of a receipt's trie value, skipping status, gas and bloom. -/
def receiptLog (lib : CoreLib) (receipt : Bytes) (logIndex : Usize) : Outcome ParsedLog := do
  let body ← receiptBody lib receipt
  let status ← nextItem lib body
  let gas ← nextItem lib status.rest
  let bloom ← nextItem lib gas.rest
  let logs ← nextItem lib bloom.rest
  ensure (logs.list = true) (.err "receipt: logs not a list")
  receiptLogLoop lib logIndex logs.payload.length logs.payload 0

/-- The significant big-endian bytes of a number of at most `k` bytes. -/
def significant (k n : ℕ) : Bytes := (beBytes k n).dropWhile (· == 0)

/-- The trie key of an index: its RLP integer encoding, unhashed. -/
def trieIndexKey (i : U64) : Bytes :=
  if i = 0 then [0x80]
  else
    let sig := significant 8 i.val
    if sig.length = 1 ∧ sig.all (· < 0x80) then sig
    else UInt8.ofNat (0x80 + sig.length) :: sig

/-- Authenticate a receipt against the header's receipts root. -/
def verifyReceiptInclusion (lib : CoreLib) (header : Header) (rp : ReceiptProof) : Outcome Unit :=
  (lib.verifyProof header.receiptsRoot (Nibbles.unpack (trieIndexKey rp.txIndex))
    (some rp.value) rp.proof).mapError fun e =>
      .err s!"block {header.number}: receipt {rp.txIndex} inclusion: {e}"

/-- Authenticate a transaction against the header's transactions root. -/
def verifyTransactionInclusion (lib : CoreLib) (header : Header) (tp : TransactionProof) :
    Outcome Unit :=
  (lib.verifyProof header.transactionsRoot (Nibbles.unpack (trieIndexKey tp.txIndex))
    (some tp.value) tp.proof).mapError fun e =>
      .err s!"block {header.number}: transaction {tp.txIndex} inclusion: {e}"

end LoopProof
