import LoopProof.Lib.Fallible
import LoopProof.Lib.Word

/-!
# Approved quotes

The quote of one seller with its price limits, and the batch of the quotes of all sellers. Both
are approved by their digests. A quote is repriced at a live base fee, with an allowance above it.
-/

namespace LoopProof.Proving

/-! ## Budgets -/

/-- What proofs cost at a price cap, and what is missing of it. -/
structure Budget where
  proofCount : ℕ
  totalProverGasUnits : ℕ
  baseFeesWei : ℕ
  computationAtPriceCapWei : ℕ
  totalAtPriceCapWei : ℕ
  balanceWei : ℕ
  sufficientAtPriceCap : Bool
  shortfallWei : ℕ
  deriving DecidableEq, Repr

/-- The cost of proofs of the given gas units at a price cap and a base fee for each. -/
def calculateBudget (gasUnits : List ℕ) (pricePerPguWei baseFeeWei balanceWei : ℕ) :
    Except String Budget := do
  ensure (gasUnits ≠ []) "empty estimate batch"
  ensure ((∀ value ∈ gasUnits, 0 < value) ∧ 0 < pricePerPguWei) "expected positive decimal amount"
  let totalPgu := gasUnits.sum
  let computation := totalPgu * pricePerPguWei
  let baseFees := gasUnits.length * baseFeeWei
  let total := computation + baseFees
  return ⟨gasUnits.length, totalPgu, baseFees, computation, total, balanceWei,
    total ≤ balanceWei, total - balanceWei⟩

/-! ## Quotes of single sellers -/

/-- What is approved for one seller. Times are milliseconds; a time that is no date is missing. -/
structure QuoteBody where
  version : ℕ
  kind : String
  proofCount : ℕ
  aip4Compliant : Bool
  generatedAt : ℕ
  expiresAt : Option ℕ
  rpc : String
  requester : String
  seller : Address
  sellerProgramVKey : B256
  proverGasUnits : ℕ
  maxPricePerPguWei : ℕ
  quotedBaseFeeWei : ℕ
  estimatedCostWei : ℕ
  baseFeeBufferBps : Option ℕ
  maxBaseFeeWei : Option ℕ
  maxEstimatedCostWei : Option ℕ
  previousQuoteDigest : Option B256
  output : String
  priceReader : String
  sourceSha256 : List (String × B256)
  deriving DecidableEq, Repr

/-- A quote and the digest it was written with. -/
structure SellerQuote where
  body : QuoteBody
  digest : B256
  deriving DecidableEq, Repr

/-- Where the quote of a seller is stored: as it was prepared, or in the history of a refresh. -/
inductive QuotePath where
  | prepared (path : String)
  | history (stamp : ℕ) (seller : Address)
  deriving DecidableEq, Repr

/-- The quote of one seller in a batch. -/
structure BatchEntry where
  seller : Address
  label : String
  quotePath : QuotePath
  quoteDigest : B256
  proverGasUnits : ℕ
  estimatedCostWei : ℕ
  maxEstimatedCostWei : Option ℕ
  deriving DecidableEq, Repr

/-- What is approved for all sellers. -/
structure BatchBody where
  version : ℕ
  kind : String
  generatedAt : ℕ
  proofCount : ℕ
  concurrency : ℕ
  aip4Compliant : Bool
  requester : String
  totalProverGasUnits : ℕ
  estimatedTotalCostWei : ℕ
  estimatedTotalCostWithFeeAllowanceWei : Option ℕ
  newRequestBaseFeeBufferBps : Option ℕ
  previousBatchDigest : Option B256
  entries : List BatchEntry
  deriving DecidableEq, Repr

/-- A batch and the digest it was written with. -/
structure BatchQuote where
  body : BatchBody
  digest : B256
  deriving DecidableEq, Repr

/-- The digests of quotes and batches, and the texts of addresses. -/
structure QuoteLib where
  quoteDigest : QuoteBody → B256
  batchDigest : BatchBody → B256
  showAddress : Address → String

/-- The network that proofs are requested from. -/
def networkRpc : String := "https://rpc.mainnet.succinct.xyz"

/-- A lower-case address. -/
def validRequester (text : String) : Bool :=
  match text.toList with
  | '0' :: 'x' :: digits =>
    digits.length = 40 ∧ digits.all fun digit => digit.isDigit || ('a' ≤ digit && digit ≤ 'f')
  | _ => false

/-- A base fee with an allowance in basis points, rounded up. -/
def baseFeeCeiling (baseFeeWei bufferBps : ℕ) : ℕ :=
  (baseFeeWei * (10000 + bufferBps) + 9999) / 10000

/-- The checks on the fee allowance of a quote that has one. -/
def validateAllowance (body : QuoteBody) : Except String Unit :=
  match body.maxBaseFeeWei with
  | none => return ()
  | some maxBaseFeeWei => do
    ensure (body.baseFeeBufferBps.any (· ≤ 10000) = true) "invalid base fee buffer"
    ensure (body.baseFeeBufferBps.map (baseFeeCeiling body.quotedBaseFeeWei) = some maxBaseFeeWei)
      "base fee allowance mismatch"
    let budget ← calculateBudget [body.proverGasUnits] body.maxPricePerPguWei maxBaseFeeWei 0
    ensure (some budget.totalAtPriceCapWei = body.maxEstimatedCostWei)
      "fee allowance budget mismatch"

section Digests

variable (lib : QuoteLib)

/-- The quote is the approved one and has not expired, unless its run is resumed. -/
def validateQuote (quote : SellerQuote) (approval : B256) (resuming : Bool) (now : ℕ) :
    Except String Unit := do
  ensure (quote.body.kind = "frozen-seller-canary-approval" ∧ quote.body.version = 1 ∧
    quote.digest = lib.quoteDigest quote.body ∧ approval = quote.digest)
    "canary digest approval mismatch"
  ensure (resuming = true ∨ quote.body.expiresAt.any (now < ·) = true) "canary quote expired"
  ensure (quote.body.proofCount = 1 ∧ quote.body.aip4Compliant = false ∧
    quote.body.rpc = networkRpc ∧ validRequester quote.body.requester = true)
    "invalid canary scope"
  validateAllowance quote.body

/-- A live base fee must stay within the approved one. -/
def checkBaseFee (body : QuoteBody) (liveBaseFeeWei : ℕ) (resuming : Bool) : Except String Unit :=
  let ceiling := body.maxBaseFeeWei.getD body.quotedBaseFeeWei
  ensure (resuming = true ∨ liveBaseFeeWei ≤ ceiling)
    (s!"base fee increased beyond approved allowance: allowed {ceiling} wei, " ++
      s!"live {liveBaseFeeWei} wei; refresh and approve the quote before submitting")

/-- The quote at a live base fee, valid for another day. -/
def repriceQuote (quote : SellerQuote) (baseFeeWei now baseFeeBufferBps : ℕ) :
    Except String SellerQuote := do
  validateQuote lib quote quote.digest true now
  ensure (baseFeeBufferBps ≤ 10000) "invalid base fee buffer"
  let budget ← calculateBudget [quote.body.proverGasUnits] quote.body.maxPricePerPguWei baseFeeWei 0
  let maxBaseFeeWei := baseFeeCeiling baseFeeWei baseFeeBufferBps
  let bufferedBudget ←
    calculateBudget [quote.body.proverGasUnits] quote.body.maxPricePerPguWei maxBaseFeeWei 0
  let body := { quote.body with
    generatedAt := now
    expiresAt := some (now + 24 * 60 * 60 * 1000)
    quotedBaseFeeWei := baseFeeWei
    estimatedCostWei := budget.totalAtPriceCapWei
    baseFeeBufferBps := some baseFeeBufferBps
    maxBaseFeeWei := some maxBaseFeeWei
    maxEstimatedCostWei := some bufferedBudget.totalAtPriceCapWei
    previousQuoteDigest := some quote.digest }
  return ⟨body, lib.quoteDigest body⟩

/-! ## Batches -/

/-- The batch is the approved one, with every seller once. -/
def validateBatch (quote : BatchQuote) (approval : B256) : Except String Unit := do
  ensure (quote.body.version = 1 ∧ quote.body.kind = "frozen-seller-batch-approval" ∧
    quote.digest = lib.batchDigest quote.body ∧ approval = quote.digest)
    "batch digest approval mismatch"
  ensure (quote.body.entries ≠ [] ∧ quote.body.proofCount = quote.body.entries.length ∧
    (quote.body.entries.map (·.seller)).Nodup ∧ quote.body.aip4Compliant = false ∧
    quote.body.concurrency = 1) "invalid batch scope"
  ensure (validRequester quote.body.requester = true) "invalid requester"

end Digests

end LoopProof.Proving
