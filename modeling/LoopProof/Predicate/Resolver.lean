import LoopProof.Predicate.Journal
import Mathlib.Data.Prod.Lex
import Mathlib.Order.Fin.Basic

/-!
# Resolution of references

References into the carried vectors are turned into authenticated, decoded evidence:
logs of successful receipts, typed events, transaction signers and bound storage reads.
-/

namespace LoopProof

/-- A totally ordered on-chain position of one log. -/
structure LogKey where
  blockNumber : U64
  txIndex : U64
  logIndex : Usize
  deriving DecidableEq, Repr

/-- The position as a lexicographic triple. -/
def LogKey.triple (key : LogKey) : U64 ×ₗ U64 ×ₗ Usize :=
  toLex (key.blockNumber, toLex (key.txIndex, key.logIndex))

theorem LogKey.triple_injective : Function.Injective LogKey.triple := by
  rintro ⟨n, t, l⟩ ⟨n', t', l'⟩ h
  simp only [LogKey.triple, EmbeddingLike.apply_eq_iff_eq, Prod.mk.injEq] at h
  obtain ⟨rfl, rfl, rfl⟩ := h
  rfl

instance : LinearOrder LogKey := LinearOrder.lift' LogKey.triple LogKey.triple_injective

/-- The address carried in the low 20 bytes of a topic. -/
def topicAddress (topic : B256) : Address := Fin.ofNat (2 ^ 160) topic.val

/-- A resolver over the carried blocks. -/
structure ChainResolver where
  blocks : List EvidenceBlock

namespace ChainResolver

variable (lib : Lib) (resolver : ChainResolver)

/-- The block at a position. -/
def block (index : Usize) : Outcome EvidenceBlock :=
  okOr resolver.blocks[index.val]? (.err "block reference out of range")

/-- The receipt that a reference names, with its block. -/
def receipt (reference : ReceiptRef) : Outcome (ReceiptProof × EvidenceBlock) := do
  let block ← resolver.block reference.block
  let receipt ← okOr block.receipts[reference.receipt.val]?
    (.err "receipt reference out of range")
  return (receipt, block)

/-- Resolve a log of a successful receipt. -/
def log (reference : LogRef) : Outcome (ParsedLog × ReceiptProof × EvidenceBlock) := do
  let (receipt, block) ← resolver.receipt ⟨reference.block, reference.receipt⟩
  let success ← receiptSuccess lib.toCoreLib receipt.value
  ensure (success = true) (.err "referenced receipt reverted")
  let log ← receiptLog lib.toCoreLib receipt.value reference.log
  return (log, receipt, block)

/-- The position of a log in the history. -/
def logKey (reference : LogRef) : Outcome LogKey := do
  let (_, receipt, block) ← resolver.log lib reference
  return ⟨block.header.number, receipt.txIndex, reference.log⟩

/-- The time of the block of a log. -/
def timestamp (reference : LogRef) : Outcome U64 := do
  let block ← resolver.block reference.block
  return block.header.timestamp

/-- The transaction that a reference names, with its block. -/
def transaction (reference : TransactionRef) : Outcome (TransactionProof × EvidenceBlock) := do
  let block ← resolver.block reference.block
  let proof ← okOr block.transactions[reference.transaction]?
    (.err "transaction reference out of range")
  return (proof, block)

/-- The authenticated transaction behind a log's receipt; it must be unique. -/
def transactionForLog (reference : LogRef) : Outcome TransactionRef := do
  let (_, receipt, block) ← resolver.log lib reference
  match block.transactions.zipIdx.filter (·.1.txIndex = receipt.txIndex) with
  | [] => .error (.err "authenticated transaction missing for receipt")
  | [(_, position)] => return ⟨reference.block, position⟩
  | _ => .error (.err "duplicate authenticated transaction for receipt")

/-- Decode a transaction and recover its signer. -/
def decodedTransaction (reference : TransactionRef) :
    Outcome (lib.Envelope × Address × EvidenceBlock) := do
  let (proof, block) ← resolver.transaction reference
  let (envelope, bytes) ← (lib.decode2718 proof.value).mapError
    fun e => .err s!"transaction decode: {e}"
  ensure (bytes = []) (.err "transaction has trailing bytes")
  let signer ← okOr (lib.recoverSigner envelope) (.err "transaction signer recovery failed")
  return (envelope, signer, block)

/-- The transaction behind the reference must be signed by the expected address. -/
def requireSigner (expected : Address) (reference : LogRef) : Outcome Unit := do
  let transaction ← resolver.transactionForLog lib reference
  let (_, signer, _) ← resolver.decodedTransaction lib transaction
  ensure (signer = expected) (.err "transaction signer mismatch")

/-- A log of one contract with a given signature topic, topic count and data size. -/
def event (contract : Address) (topicCount : ℕ) (signature : B256) (sized : ℕ → Bool)
    (mismatch : String) (reference : LogRef) : Outcome (ParsedLog × EvidenceBlock) := do
  let (log, _, block) ← resolver.log lib reference
  ensure (log.address = contract ∧ log.topics.length = topicCount) (.err mismatch)
  let signed ← indexAt "event topics[0]" log.topics 0
  ensure (signed = signature ∧ sized log.data.length = true) (.err mismatch)
  return (log, block)

/-- USDC `Transfer` log as sender, recipient, amount and block number. -/
def usdcTransfer (reference : LogRef) : Outcome (Address × Address × U128 × U64) := do
  let (log, block) ← resolver.event lib usdcAddress 3 transferTopic (· == 32)
    "not a USDC transfer" reference
  let sender ← indexAt "usdc_transfer topics[1]" log.topics 1
  let recipient ← indexAt "usdc_transfer topics[2]" log.topics 2
  let word ← u256FromBeSlice log.data
  let amount ← okOr (tryNarrow 128 word) (.err "USDC amount overflow")
  return (topicAddress sender, topicAddress recipient, amount, block.header.number)

/-- `ChannelSettled` log as channel, buyer, seller, delta and block number. -/
def settlement (reference : LogRef) : Outcome (B256 × Address × Address × U128 × U64) := do
  let (log, block) ← resolver.event lib channelsAddress 4 channelSettledTopic (64 ≤ ·)
    "not a ChannelSettled event" reference
  let channel ← indexAt "settlement topics[1]" log.topics 1
  let buyer ← indexAt "settlement topics[2]" log.topics 2
  let seller ← indexAt "settlement topics[3]" log.topics 3
  let delta ← sliceAt "settlement data[32..64]" log.data 32 64
  let word ← u256FromBeSlice delta
  let amount ← okOr (tryNarrow 128 word) (.err "settlement amount overflow")
  return (channel, topicAddress buyer, topicAddress seller, amount, block.header.number)

/-- `Deposited` log as buyer, amount and block number. -/
def protocolDeposit (reference : LogRef) : Outcome (Address × U128 × U64) := do
  let (log, block) ← resolver.event lib depositsAddress 2 depositedTopic (· == 32)
    "not an Antseed Deposited event" reference
  let buyer ← indexAt "protocol_deposit topics[1]" log.topics 1
  let word ← u256FromBeSlice log.data
  let amount ← okOr (tryNarrow 128 word) (.err "deposit amount overflow")
  return (topicAddress buyer, amount, block.header.number)

/-- A bound storage read at the expected boundary block. -/
def storageValue (read : StateRead) (expectedBlock : U64) (contract : Address) (slot : B256) :
    Outcome U256 := do
  let block ← resolver.block read.block
  ensure (block.header.number = expectedBlock)
    (.err s!"state read at block {block.header.number} but the rule requires block {expectedBlock}")
  verifyStorageValue lib.toCoreLib block.header.stateRoot contract slot read.proof

end ChainResolver

end LoopProof
