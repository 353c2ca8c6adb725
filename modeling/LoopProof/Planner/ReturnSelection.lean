import LoopProof.Lib.Fallible
import LoopProof.Lib.Selection
import LoopProof.Lib.Word

/-!
# Selection of return paths

The transfers of return paths, what makes a return valid, and the selection of valid returns by
credit until a required amount is reached.
-/

namespace LoopProof.Planner

/-- Share of the settled volume that returns must carry, in basis points. -/
def alphaReturnBps : ℕ := 3000

/-- Share of what it received that a relay must forward, in basis points. -/
def minRelayRetainedBps : ℕ := 2800

/-- The time that a return may take. -/
def maxRelaySeconds : ℕ := 259200

/-- A claim has at most this many returns. -/
def maxReturnPaths : ℕ := 512

/-- A time field: a record may lack it, or carry `null`. -/
inductive Timestamp where
  | undefined
  | null
  | seconds (time : ℕ)
  deriving DecidableEq, Repr

/-- The field as a number: `null` counts as zero, and an absent field is not a number. -/
def Timestamp.toNumber : Timestamp → Option ℕ
  | undefined => none
  | null => some 0
  | seconds time => some time

/-- One transfer of a return; all but its hash and its amount may be unknown. -/
structure Transfer where
  sender : Option Address
  recipient : Option Address
  amountRaw : ℕ
  timestamp : Timestamp
  transactionHash : B256
  /-- An unknown log is `null`, which counts as the number zero wherever it is read. -/
  logIndex : Option ℕ
  blockNumber : Option ℕ
  transactionIndex : Option ℕ
  deriving DecidableEq, Repr

/-- What identifies a transfer among returns: its transaction and its log. -/
abbrev TransferKey := B256 × ℕ

instance lawfulBEqTransferKey : LawfulBEq TransferKey := inferInstance

/-- An unknown log counts as the first one. -/
def transferKey (entry : Transfer) : TransferKey := (entry.transactionHash, entry.logIndex.getD 0)

/-- Evidence of a return: one transfer, the hops of a relay path, or its named transfers. -/
inductive ReturnEvidence where
  | direct (transfer : Transfer)
  | hops (hops : List Transfer)
  | relay (sellerPayment relayForward funderReceipt : Option Transfer)
  deriving DecidableEq, Repr

/-- The transfers that a return is made of. -/
def atomicReturnEvidence : ReturnEvidence → List Transfer
  | .direct transfer => [transfer]
  | .hops hops => hops
  | .relay sellerPayment relayForward funderReceipt =>
    [sellerPayment, relayForward, funderReceipt].reduceOption

/-- The share of a volume that must be returned, rounded up. -/
def requiredReturnRaw (settlementVolumeRaw targetBps : ℕ) : Except String ℕ := do
  ensure (0 < targetBps ∧ targetBps ≤ 10000) "invalid return volume or target basis points"
  return (settlementVolumeRaw * targetBps + 9999) / 10000

/-! ## Order of transfers -/

/-- Numbers compare where both are known. -/
def compareKnown : Option ℕ → Option ℕ → Ordering
  | some left, some right => compare left right
  | _, _ => .eq

/-- The order of two transfers by block, time, transaction and log. A time that is not a number
makes the order within a block undefined, and every test on it false. -/
def compareTransfer (left right : Transfer) : Option Ordering :=
  match compareKnown left.blockNumber right.blockNumber with
  | .eq =>
    match left.timestamp.toNumber, right.timestamp.toNumber with
    | some leftTime, some rightTime => some <|
      (compare leftTime rightTime).then <|
        (compareKnown left.transactionIndex right.transactionIndex).then <|
          (compare left.transactionHash right.transactionHash).then <|
            compare (left.logIndex.getD 0) (right.logIndex.getD 0)
    | _, _ => none
  | order => some order

/-- A transfer forwards enough of the one before it. -/
def retains (next previous : ℕ) : Bool := previous * minRelayRetainedBps ≤ next * 10000

/-! ## Valid returns -/

/-- A transfer that moves something, as far as its parties are known. -/
def movesValue (current : Transfer) : Bool :=
  0 < current.amountRaw ∧
    (current.sender = none ∨ current.recipient = none ∨ current.sender ≠ current.recipient)

/-- The transfer continues the one before it. -/
def continues (previous current : Transfer) : Bool :=
  previous.recipient = current.sender ∧
    (compareTransfer previous current = some .lt ∨ compareTransfer previous current = none) ∧
    retains current.amountRaw previous.amountRaw = true

/-- Every transfer continues the one before it. -/
def continuesAll : List Transfer → Bool
  | previous :: current :: rest => continues previous current && continuesAll (current :: rest)
  | _ => true

/-- The last transfer is at most the window after the first one. -/
def withinWindow (atoms : List Transfer) : Bool :=
  match atoms.head?.bind (·.timestamp.toNumber), atoms.getLast?.bind (·.timestamp.toNumber) with
  | some first, some last => last ≤ first + maxRelaySeconds
  | _, _ => false

/-- A return whose first transfer has a time follows the earliest settlement. -/
def startsAfter (earliestSettlementTimestamp : Option ℕ) (atoms : List Transfer) : Bool :=
  match earliestSettlementTimestamp, atoms with
  | some earliest, first :: _ =>
    match first.timestamp with
    | .seconds time => earliest < time
    | _ => true
  | _, _ => true

/-- The transfers of a return are distinct, in order and in time, and each forwards enough of the
one before it. -/
def validReturnEvidence (earliestSettlementTimestamp : Option ℕ) (atoms : List Transfer) : Bool :=
  atoms ≠ [] ∧ atoms.length ≤ 9 ∧ (atoms.map transferKey).Nodup ∧
    startsAfter earliestSettlementTimestamp atoms = true ∧ atoms.all movesValue = true ∧
    continuesAll atoms = true ∧ (atoms.length = 1 ∨ withinWindow atoms = true)

/-! ## Selection by credit -/

/-- The smallest amount along a return. -/
def returnPathCreditRaw (atoms : List Transfer) : ℕ := ((atoms.map (·.amountRaw)).min?).getD 0

/-- Collation of the texts of two transfers: lower-case hashes, then decimal logs. -/
def compareKeyTexts : TransferKey → TransferKey → Ordering :=
  compareLex (compareOn (·.1)) (compareOn fun key => Nat.toDigits 10 key.2)

/-- Collation of the texts that identify returns: the texts of their transfers, joined by a
separator that comes before every digit. -/
def compareIdentities : List TransferKey → List TransferKey → Ordering :=
  List.compareLex compareKeyTexts

/-- What a selection is asked for. -/
structure SelectionOptions where
  requiredRaw : ℕ
  earliestSettlementTimestamp : Option ℕ
  maxPaths : ℕ
  reservedKeys : List TransferKey

/-- The options of a call that only names the required amount. -/
def SelectionOptions.ofRequired (requiredRaw : ℕ) : SelectionOptions :=
  ⟨requiredRaw, none, maxReturnPaths, []⟩

/-- The returns selected so far, their credit, and the transfers in use. -/
structure SelectedReturns (γ : Type) where
  evidence : List γ
  returnedRaw : ℕ
  usedKeys : List TransferKey
  deriving DecidableEq, Repr

section Selection

variable {γ : Type} (atoms : γ → List Transfer)

/-- The transfers that a candidate takes. -/
def keysOf (candidate : γ) : List TransferKey := (atoms candidate).map transferKey

/-- Larger credits first, then the texts that identify the returns. -/
def compareReturnEvidence : γ → γ → Ordering :=
  compareLex
    (fun left right =>
      compare (returnPathCreditRaw (atoms right)) (returnPathCreditRaw (atoms left)))
    fun left right => compareIdentities (keysOf atoms left) (keysOf atoms right)

/-- Add a candidate to the selection. -/
def SelectedReturns.push (selected : SelectedReturns γ) (candidate : γ) : SelectedReturns γ :=
  ⟨selected.evidence ++ [candidate], selected.returnedRaw + returnPathCreditRaw (atoms candidate),
    selected.usedKeys ++ keysOf atoms candidate⟩

/-- Take candidates in order until there are enough; one that shares a transfer is skipped. -/
def selectReturns (maxPaths required : ℕ) : List γ → SelectedReturns γ → SelectedReturns γ
  | [], selected => selected
  | candidate :: rest, selected =>
    if maxPaths ≤ selected.evidence.length ∨ required ≤ selected.returnedRaw then selected
    else if (keysOf atoms candidate).any (· ∈ selected.usedKeys) then
      selectReturns maxPaths required rest selected
    else selectReturns maxPaths required rest (selected.push atoms candidate)

/-- The valid candidates of a list, in the order of selection. -/
def sortedCandidates (earliestSettlementTimestamp : Option ℕ) (candidates : List γ) : List γ :=
  sortBy (compareReturnEvidence atoms)
    (candidates.filter fun candidate =>
      validReturnEvidence earliestSettlementTimestamp (atoms candidate))

/-- Valid candidates by credit, until the required amount is reached. -/
def selectReturnEvidence (candidates : List γ) (options : SelectionOptions) : SelectedReturns γ :=
  selectReturns atoms options.maxPaths options.requiredRaw
    (sortedCandidates atoms options.earliestSettlementTimestamp candidates)
    ⟨[], 0, options.reservedKeys⟩

/-- The selection reached what it was asked for. -/
def SelectedReturns.complete (selected : SelectedReturns γ) (requiredRaw : ℕ) : Bool :=
  requiredRaw ≤ selected.returnedRaw

end Selection

end LoopProof.Planner
