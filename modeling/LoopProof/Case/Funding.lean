import LoopProof.Lib.Cover
import LoopProof.Lib.Fallible
import LoopProof.Lib.Hex
import LoopProof.Lib.Selection

/-!
# Fundings of a case

The case builder chooses the fundings that a case file names. Every buyer's largest fundings cover
its ledger first; the largest remaining ones of any buyer then cover the share of the whole volume.
-/

namespace LoopProof.Case

/-- Share of the settled volume that funding must cover, in basis points. -/
def alphaFundBps : ℕ := 9000

/-- Tolerance of the reconciliation of a buyer's ledger, in basis points. -/
def epsilonLedgerBps : ℕ := 500

/-- A settlement or a funding as the builder discovered it. -/
structure Entry where
  tx : B256
  amount : ℕ
  block : ℕ
  deriving DecidableEq, Repr

/-- A funding of the case, with its kind and its buyer. -/
structure CaseFunding extends Entry where
  kind : String
  buyer : Address
  deriving DecidableEq, Repr

/-- The error that stops the builder. -/
structure ValueError where
  message : String
  deriving DecidableEq, Repr

/-- The digits of an address. -/
def addressText (address : Address) : String :=
  String.ofList ('0' :: 'x' :: hexText (beBytes 20 address.val))

/-- The quotient, rounded up. -/
def ceilDiv (numerator denominator : ℕ) : ℕ := (numerator + denominator - 1) / denominator

/-- The least funding with which settlements and the end balance stay within the allowance. -/
def requiredFunding (settled balanceEnd : ℕ) : ℕ :=
  ceilDiv ((balanceEnd + settled) * 10000) (10000 + epsilonLedgerBps)

/-- The largest amounts first, by transaction where they are equal. -/
def largestFirst (left right : Entry) : Ordering :=
  (compare right.amount left.amount).then (compare left.tx right.tx)

/-- The sum of entries. -/
def totalAmount (entries : List Entry) : ℕ := (entries.map Entry.amount).sum

/-- What is chosen and what is left over once some buyers are covered. -/
structure Covered where
  selected : List CaseFunding
  remaining : List CaseFunding
  fundedTotal : ℕ

section Select

variable (buyerSettlements buyerFundings : Address → List Entry) (buyerEndBalances : Address → ℕ)
  (kind : String)

/-- A funding of a case. -/
def caseFunding (buyer : Address) (entry : Entry) : CaseFunding := ⟨entry, kind, buyer⟩

/-- Choose one buyer's fundings from the largest on until its ledger is covered. -/
def coverBuyer (covered : Covered) (buyer : Address) : Except ValueError Covered := do
  let settled := totalAmount (buyerSettlements buyer)
  let target := requiredFunding settled (buyerEndBalances buyer)
  let candidates := sortBy largestFirst (buyerFundings buyer)
  ensure (candidates ≠ [])
    (⟨s!"buyer {addressText buyer} has no funding evidence"⟩ : ValueError)
  let chosen := takeEnough Entry.amount candidates.length target 0 0 candidates
  let buyerTotal := totalAmount chosen
  ensure (target ≤ buyerTotal)
    (⟨s!"buyer {addressText buyer} has {buyerTotal} funding but needs {target} " ++
      "for ledger coverage"⟩ : ValueError)
  return {
    selected := covered.selected ++ chosen.map (caseFunding kind buyer)
    remaining := covered.remaining ++
      (candidates.drop chosen.length).map (caseFunding kind buyer)
    fundedTotal := covered.fundedTotal + buyerTotal }

/-- What all funded buyers settled. -/
def settledTotal (fundedBuyers : List Address) : ℕ :=
  (fundedBuyers.map fun buyer => totalAmount (buyerSettlements buyer)).sum

/-- The fundings that cover each buyer, and the largest others until the cohort is covered. -/
def selectCaseFundings (fundedBuyers : List Address) :
    Except ValueError (List CaseFunding) := do
  let covered ← fundedBuyers.foldlM
    (coverBuyer buyerSettlements buyerFundings buyerEndBalances kind) ⟨[], [], 0⟩
  let aggregateTarget := ceilDiv (settledTotal buyerSettlements fundedBuyers * alphaFundBps) 10000
  let remaining := sortBy (fun left right => largestFirst left.toEntry right.toEntry)
    covered.remaining
  let toppedUp := takeEnough (fun entry => entry.amount) remaining.length aggregateTarget 0
    covered.fundedTotal remaining
  let fundedTotal := covered.fundedTotal + (toppedUp.map fun entry => entry.amount).sum
  ensure (aggregateTarget ≤ fundedTotal)
    (⟨s!"case has {fundedTotal} funding but needs {aggregateTarget} aggregate coverage"⟩ :
      ValueError)
  return covered.selected ++ toppedUp

end Select

end LoopProof.Case
