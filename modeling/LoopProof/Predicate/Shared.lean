import LoopProof.Predicate.Resolver
import Mathlib.Data.List.Sort
import Mathlib.Data.Finset.Insert

/-!
# Validation shared by both predicates

Chain and address checks, block authentication, the event window and the overflow-free
ratio test, with what each of them accepts.
-/

namespace LoopProof

/-- Logs already consumed by some role. -/
abbrev UsedLogs := Finset LogKey

/-- Consume one log position, refusing a position that was consumed before. -/
def UsedLogs.insertNew (used : UsedLogs) (key : LogKey) (duplicate : String) : Outcome UsedLogs :=
  if key ∈ used then .error (.err duplicate) else .ok (insert key used)

theorem UsedLogs.insertNew_eq_ok {used used' : UsedLogs} {key : LogKey} {duplicate : String} :
    used.insertNew key duplicate = .ok used' ↔ key ∉ used ∧ insert key used = used' := by
  unfold UsedLogs.insertNew
  split <;> simp_all

/-- Evidence is from the one known chain. -/
def validateChain (chainId : U64) : Outcome Unit :=
  ensure (chainId = baseChainId) (.err "unrecognized chain")

/-- Addresses in order: each nonzero and greater than the one before it. -/
def sortedUniqueFrom (previous : Option Address) : List Address → Bool
  | [] => true
  | value :: rest =>
    value != 0 && previous.all (· < value) && sortedUniqueFrom (some value) rest

/-- Addresses are in strict order and nonzero, and their number is within bounds. -/
def validateSortedUniqueAddresses (values : List Address) (minimum maximum : ℕ)
    (label : String) : Outcome Unit := do
  ensure (minimum ≤ values.length ∧ values.length ≤ maximum) (.err s!"{label}: invalid length")
  ensure (sortedUniqueFrom none values = true)
    (.err s!"{label}: values must be nonzero, sorted, and unique")

/-- Verify items in order, refusing a repeated index before its item is verified. -/
def authenticateItems {α : Type} (index : α → U64) (verify : α → Outcome Unit)
    (duplicate : String) : Finset U64 → List α → Outcome Unit
  | _, [] => .ok ()
  | seen, item :: rest => do
    ensure (index item ∉ seen) (.err duplicate)
    verify item
    authenticateItems index verify duplicate (insert (index item) seen) rest

/-- Authenticate the receipts of one block, refusing a repeated index. -/
def authenticateReceipts (lib : CoreLib) (block : EvidenceBlock) : Outcome Unit :=
  authenticateItems ReceiptProof.txIndex (verifyReceiptInclusion lib block.header)
    "duplicate receipt proof" ∅ block.receipts

/-- Authenticate the transactions of one block, refusing a repeated index. -/
def authenticateTransactions (lib : CoreLib) (block : EvidenceBlock) : Outcome Unit :=
  authenticateItems TransactionProof.txIndex (verifyTransactionInclusion lib block.header)
    "duplicate transaction proof" ∅ block.transactions

/-- Authenticate blocks in order, collecting their numbers and hashes. -/
def authenticateBlockList (lib : CoreLib) (periodStartBlock periodEndBlock : U64) :
    Finset U64 → List EvidenceBlock → Outcome (List (U64 × B256))
  | _, [] => .ok []
  | numbers, block :: rest => do
    let number := block.header.number
    ensure (saturatingSub periodStartBlock 1 ≤ number ∧ number ≤ periodEndBlock)
      (.err s!"block {number} outside the witness window")
    ensure (number ∉ numbers) (.err "duplicate block evidence")
    authenticateReceipts lib block
    authenticateTransactions lib block
    let refs ← authenticateBlockList lib periodStartBlock periodEndBlock
      (insert number numbers) rest
    return (number, lib.hashSlow block.header) :: refs

/-- Authenticate every evidence block and return the references sorted by number. -/
def authenticateBlocks (lib : CoreLib) (blocks : List EvidenceBlock)
    (periodStartBlock periodEndBlock : U64) : Outcome (List (U64 × B256)) := do
  ensure (blocks ≠ [] ∧ blocks.length ≤ maxBlockRefs) (.err "invalid block evidence count")
  let refs ← authenticateBlockList lib periodStartBlock periodEndBlock ∅ blocks
  return refs.insertionSort fun left right => left.1 ≤ right.1

/-- Events must sit inside the enforcement period proper. -/
def ensureEventInPeriod (block periodStartBlock periodEndBlock : U64) (label : String) :
    Outcome Unit :=
  ensure (periodStartBlock ≤ block ∧ block ≤ periodEndBlock)
    (.err s!"{label} is outside the fixed enforcement period")

/-- `numerator * 10_000 >= total * ratio_bps` over 256-bit words. -/
def meetsRatio (numerator total : U128) (ratioBps : U64) : Bool :=
  (widen bits128_le_256 total : U256) * widen bits64_le_256 ratioBps ≤
    (widen bits128_le_256 numerator : U256) * 10000

end LoopProof
