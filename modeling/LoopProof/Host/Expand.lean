import LoopProof.Host.Fetch
import LoopProof.Lib.Store
import LoopProof.Predicate.Seller

/-!
# Expanding the returns of a verified input

Return paths that were selected after a seller input had been built are added to it. The receipts
they need are fetched and appended to the carried blocks, so that the references that are there
already keep their places; the returns are replaced, and the input is verified again.
-/

namespace LoopProof.Host

/-- The product of two words, if it fits. -/
def checkedMul {w : ℕ} (a b : Fin (2 ^ w)) : Option (Fin (2 ^ w)) :=
  if h : a.val * b.val < 2 ^ w then some ⟨a.val * b.val, h⟩ else none

/-- Read decimal digits on from a value. -/
def readDigits : List Char → ℕ → Option ℕ
  | [], value => some value
  | c :: rest, value =>
    if c.isDigit then readDigits rest (value * 10 + (c.toNat - '0'.toNat)) else none

/-- A decimal text as a 128-bit word; a leading plus sign is allowed. -/
def parseU128 (text : String) : Option U128 :=
  let digits := if text.toList.head? = some '+' then text.toList.tail else text.toList
  if digits = [] then none
  else (readDigits digits 0).bind fun value =>
    if h : value < 2 ^ 128 then some ⟨value, h⟩ else none

/-! ## The selection -/

/-- A transfer of a selected path. -/
structure SelectedHop where
  sender : Address
  recipient : Address
  amountRaw : String
  timestamp : U64
  blockNumber : U64
  transactionIndex : U64
  receiptLogIndex : Usize
  deriving DecidableEq, Repr

/-- A path of selected transfers. -/
structure SelectedPath where
  hops : List SelectedHop
  deriving DecidableEq, Repr

/-- The paths that were selected for a fixed volume. -/
structure Selection where
  targetReturnBps : U64
  fixedVolumeRaw : String
  paths : List SelectedPath
  deriving DecidableEq, Repr

/-! ## The blocks -/

/-- The carried blocks with their positions by number. -/
structure Expansion where
  blocks : List EvidenceBlock
  positions : U64 → Option Usize

/-- The blocks as they are carried; of two blocks of one number the later one is found. -/
def Expansion.of (blocks : List EvidenceBlock) : Expansion :=
  ⟨blocks, storeAll (positioned (blocks.map (·.header.number)))⟩

/-- The receipt of a hop is carried already. -/
def Expansion.present (expansion : Expansion) (hop : SelectedHop) : Bool :=
  (expansion.positions hop.blockNumber).any fun position =>
    expansion.blocks[position.val]?.any fun block =>
      block.receipts.any (·.txIndex = hop.transactionIndex)

/-- The requests for the receipts that are not carried. -/
def Expansion.targets (expansion : Expansion) (paths : List SelectedPath) :
    List (U64 × List U64 × List U64) :=
  let missing := (paths.flatMap (·.hops)).filter fun hop => !expansion.present hop
  let targets := missing.foldl
    (fun targets hop => targets.receipt hop.blockNumber hop.transactionIndex) (∅ : Targets)
  targets.toList.map fun (number, requested) => (number, sortedSet requested.receipts, [])

/-- Append a receipt, unless one of its index is there. -/
def addReceipt (receipts : List ReceiptProof) (receipt : ReceiptProof) : List ReceiptProof :=
  if receipts.any (·.txIndex = receipt.txIndex) then receipts else receipts ++ [receipt]

/-- Append the receipts of another block. -/
def addReceipts (existing : EvidenceBlock) (receipts : List ReceiptProof) : EvidenceBlock :=
  { existing with receipts := receipts.foldl addReceipt existing.receipts }

/-- Add a fetched block: its receipts to the block of its number, or the block itself. -/
def Expansion.add (lib : CoreLib) (expansion : Expansion) (block : EvidenceBlock) :
    Outcome Expansion :=
  match expansion.positions block.header.number with
  | some position => do
    let existing ← indexAt "evidence.blocks" expansion.blocks position.val
    ensure (lib.hashSlow existing.header = lib.hashSlow block.header)
      (.err "conflicting block header")
    return ⟨expansion.blocks.set position.val (addReceipts existing block.receipts),
      expansion.positions⟩
  | none => .ok ⟨expansion.blocks ++ [block],
      storeEntry expansion.positions (block.header.number, Fin.ofNat _ expansion.blocks.length)⟩

section Returns

variable (lib : Lib)

/-- The reference of a selected hop, once its log is the transfer that was selected. -/
def Expansion.hopRef (expansion : Expansion) (hop : SelectedHop) : Outcome LogRef := do
  let position ← okOr (expansion.positions hop.blockNumber) (.err "missing block")
  let block ← indexAt "evidence.blocks" expansion.blocks position.val
  let receipt ← okOr (block.receipts.findIdx? (·.txIndex = hop.transactionIndex))
    (.err "missing receipt")
  let reference : LogRef := ⟨position, Fin.ofNat _ receipt, hop.receiptLogIndex⟩
  let resolver : ChainResolver := ⟨expansion.blocks⟩
  let (sender, recipient, amount, _) ← resolver.usdcTransfer lib reference
  ensure (sender = hop.sender ∧ recipient = hop.recipient)
    (.err "authenticated transfer differs from candidate")
  let expected ← okOr (parseU128 hop.amountRaw) (.err "invalid digit found in string")
  ensure (amount = expected) (.err "authenticated transfer differs from candidate")
  let time ← resolver.timestamp reference
  ensure (time = hop.timestamp) (.err "authenticated transfer differs from candidate")
  return reference

/-- A selected path by the positions of its transfers. -/
def Expansion.returnPath (expansion : Expansion) (path : SelectedPath) : Outcome ReturnPath := do
  let transfers ← path.hops.mapM (expansion.hopRef lib)
  return ⟨transfers⟩

/-- The evidence with the selected paths as its returns, over the enlarged blocks. -/
def expandEvidence (fetch : List (U64 × List U64 × List U64) →
      Outcome (List (EvidenceBlock × LogPositionMap)))
    (evidence : ClosedLoopInput) (paths : List SelectedPath) : Outcome ClosedLoopInput := do
  let start := Expansion.of evidence.blocks
  let fetched ← fetch (start.targets paths)
  let expansion ← (fetched.map Prod.fst).foldlM (Expansion.add lib.toCoreLib) start
  let returns ← paths.mapM (expansion.returnPath lib)
  return { evidence with blocks := expansion.blocks, returns := returns }

/-- The smallest hop of a path. -/
def smallestHop (resolver : ChainResolver) (path : ReturnPath) : Outcome U128 :=
  path.transfers.foldlM (fun minimum reference => do
    let (_, _, amount, _) ← resolver.usdcTransfer lib reference
    return min minimum amount) (maxWord 128)

/-- The credit of all paths. -/
def returnedCredit (resolver : ChainResolver) (paths : List ReturnPath) : Outcome U128 :=
  paths.foldlM (fun credit path => do
    let minimum ← smallestHop lib resolver path
    okOr (checkedAdd credit minimum) (.err "credit overflow")) 0

/-- The evidence that is written, with what its verification reported. -/
structure ExpandedInput where
  evidence : ClosedLoopInput
  verified : VerifiedSeller
  returnedCredit : U128

/-- The claim that is carried by both inputs is the same. -/
def sameClaim (evidence expanded : ClosedLoopInput) : Prop :=
  expanded.settlements = evidence.settlements ∧ expanded.fundings = evidence.fundings ∧
    expanded.ledgers = evidence.ledgers ∧ expanded.buyers = evidence.buyers

instance (evidence expanded : ClosedLoopInput) : Decidable (sameClaim evidence expanded) :=
  inferInstanceAs (Decidable (_ ∧ _))

/-- Verify the expanded input and measure its returns against the target. -/
def checkExpanded (input : SellerProofInput) (selection : Selection) (baseline : VerifiedSeller)
    (evidence expanded : ClosedLoopInput) : Outcome ExpandedInput := do
  ensure (sameClaim evidence expanded) (.err "original claim evidence changed")
  let verified ← verifySeller lib { input with evidence := .closedLoop expanded }
  ensure (verified.journal.provenWashVolume = baseline.journal.provenWashVolume ∧
      verified.journal.totalSellerVolume = baseline.journal.totalSellerVolume)
    (.err "original V/T changed")
  let credit ← returnedCredit lib ⟨expanded.blocks⟩ expanded.returns
  let covered ← okOr (checkedMul credit 10000) (.err "ratio overflow")
  let required ← okOr (checkedMul verified.journal.provenWashVolume
    (widen bits64_le_128 selection.targetReturnBps)) (.err "ratio overflow")
  ensure (required ≤ covered) (.err "expanded evidence below requested return floor")
  return ⟨expanded, verified, credit⟩

/-- Expand a verified input by the selected paths. -/
def expandReturns (fetch : List (U64 × List U64 × List U64) →
      Outcome (List (EvidenceBlock × LogPositionMap)))
    (input : SellerProofInput) (selection : Selection) : Outcome ExpandedInput := do
  ensure (selection.targetReturnBps ≠ 0 ∧ selection.targetReturnBps ≤ 10000)
    (.err "invalid target return basis points")
  let baseline ← verifySeller lib input
  let fixed ← okOr (parseU128 selection.fixedVolumeRaw) (.err "invalid digit found in string")
  ensure (fixed = baseline.journal.provenWashVolume) (.err "fixed V differs from baseline")
  match input.evidence with
  | .reciprocal _ => .error (.err "closed-loop input required")
  | .closedLoop evidence => do
    let expanded ← expandEvidence lib fetch evidence selection.paths
    checkExpanded lib input selection baseline evidence expanded

end Returns

end LoopProof.Host
