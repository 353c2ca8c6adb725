import LoopProof.Planner.Canonical
import LoopProof.Proving.SellerEvidence

/-!
# Cost quotes

A cost quote caps what the proofs of a bundle may cost. It is built from the arguments of a run and
approved by its digest, which is taken over its canonical text; amounts in dollars are decimal
texts with six places.
-/

namespace LoopProof.Proving

open Canonical (key natJson optionalField textValue utf8)

/-! ## Amounts -/

/-- The smallest parts of a dollar. -/
def usdScale : ℕ := 1000000

/-- The largest unsigned integer of eight bytes. -/
def maxU64 : ℕ := 18446744073709551615

/-- The digits in front of the point, and those behind it if there is one. -/
def usdParts (value : List Char) : List Char × Option (List Char) :=
  (value.takeWhile (· != '.'), (value.dropWhile (· != '.')).tail?)

/-- The smallest parts of an amount in dollars with at most six places. -/
def parseUsd (value : List Char) (label : String) : Except String ℕ :=
  let (whole, fraction) := usdParts value
  if (whole ≠ [] ∧ whole.all Char.isDigit = true) ∧
      fraction.all (fun digits => digits ≠ [] ∧ digits.length ≤ 6 ∧
        digits.all Char.isDigit = true) = true then
    .ok (Nat.ofDigitChars 10 whole 0 * usdScale +
      Nat.ofDigitChars 10 ((fraction.getD []).rightpad 6 '0') 0)
  else .error s!"{label} must be a nonnegative USD amount with at most six decimals"

/-- An amount with all six places. -/
def formatUsd (micros : ℕ) : List Char :=
  Nat.toDigits 10 (micros / usdScale) ++
    '.' :: (Nat.toDigits 10 (micros % usdScale)).leftpad 6 '0'

/-- A decimal number of at most eight bytes. -/
def parseU64 (value : List Char) (label : String) : Except String ℕ := do
  ensure (value ≠ [] ∧ value.all Char.isDigit = true) s!"{label} must be an unsigned integer string"
  let parsed := Nat.ofDigitChars 10 value 0
  ensure (parsed ≤ maxU64) s!"{label} exceeds uint64"
  return parsed

/-- A positive integer that the script represents exactly. -/
def positiveInteger (value : ℤ) (label : String) : Except String ℤ := do
  ensure (value.natAbs ≤ maxSafeInteger ∧ 1 ≤ value) s!"{label} must be a positive integer"
  return value

/-! ## Quotes -/

/-- The approved bundle as it was read, with the subjects of each claim. -/
structure CostBundle where
  version : ℤ
  kind : String
  chainId : ℤ
  claims : List (List Address)
  json : Json

/-- A text that is read as a date, and its time in milliseconds if it is one. -/
structure DateText where
  text : List Char
  time : Option ℤ
  deriving DecidableEq, Repr

/-- What is approved. A mode that is missing is left out; the other missing values are null. -/
structure CostQuoteBody where
  version : ℤ
  kind : String
  chainId : ℤ
  approvalMode : Option String
  currency : Option String
  provider : String
  generatedAt : List Char
  expiresAt : DateText
  seller : Option Address
  sellerProofs : ℕ
  sellerProofUsd : Option (List Char)
  aggregateMaxCostUsd : Option (List Char)
  maxPricePerPguWei : List Char
  proofTimeoutSeconds : ℤ
  auctionTimeoutSeconds : ℤ
  proofBundleSha256 : B256
  proofPlanSha256 : B256
  deriving DecidableEq, Repr

/-- A quote and the digest it was written with. -/
@[ext] structure CostQuote where
  body : CostQuoteBody
  digest : Option B256
  deriving DecidableEq, Repr

/-- The hash of texts, and the texts of times. -/
structure CostQuoteLib where
  sha256 : Bytes → B256
  isoText : ℤ → List Char

/-- The arguments of a run; an expiration that is no date has no time. -/
structure CostQuoteArguments where
  proofBundle : CostBundle
  proofPlanSha256 : B256
  sellerProofUnitUsd : Option (List Char)
  maxPricePerPguWei : List Char
  proofTimeoutSeconds : ℤ
  auctionTimeoutSeconds : ℤ
  provider : String
  expiresAt : Option ℤ
  seller : Option Address
  now : ℤ

/-- The sellers of a bundle. -/
def CostBundle.sellers (bundle : CostBundle) : List Address := bundle.claims.flatten.dedup

/-- How many proofs a run over the bundle needs. -/
def CostBundle.proofs (bundle : CostBundle) (seller : Option Address) : ℕ :=
  if seller = none then bundle.sellers.length else 1

/-! ## Digests -/

/-- An integer of the script that it prints without an exponent. -/
def intJson (n : ℤ) : Json :=
  .number ⟨(if n < 0 then ['-'] else []) ++ Nat.toDigits 10 n.natAbs,
    List.append_ne_nil_of_right_ne_nil _ Nat.toDigits_ne_nil, by
      rw [List.forall_mem_append]
      refine ⟨by split <;> simp [isNumeric], fun char hchar => ?_⟩
      have hdigit := Nat.isDigit_of_mem_toDigits (by decide) (by decide) hchar
      simp [isNumeric, hdigit]⟩

/-- A value that is null where there is none. -/
def orNull {α : Type} (value : Option α) (toJson : α → Json) : Json := (value.map toJson).getD .null

/-- A quote as it is written. -/
def costQuoteJson (body : CostQuoteBody) : Json :=
  .object <|
    [(key "version", intJson body.version), (key "kind", textValue body.kind.toList),
      (key "chainId", intJson body.chainId)] ++
    optionalField "approvalMode" body.approvalMode (fun mode => textValue mode.toList) ++
    [(key "currency", orNull body.currency fun currency => textValue currency.toList),
      (key "provider", textValue body.provider.toList),
      (key "generatedAt", textValue body.generatedAt),
      (key "expiresAt", textValue body.expiresAt.text),
      (key "scope", .object
        [(key "seller", orNull body.seller fun seller => textValue (addressText seller).toList)]),
      (key "counts", .object [(key "sellerProofs", natJson body.sellerProofs)]),
      (key "unitMaxCostUsd", orNull body.sellerProofUsd fun unit =>
        .object [(key "sellerProofUsd", textValue unit)]),
      (key "aggregateMaxCostUsd", orNull body.aggregateMaxCostUsd textValue),
      (key "networkLimits", .object [(key "maxPricePerPguWei", textValue body.maxPricePerPguWei),
        (key "proofTimeoutSeconds", intJson body.proofTimeoutSeconds),
        (key "auctionTimeoutSeconds", intJson body.auctionTimeoutSeconds)]),
      (key "sources", .object
        [(key "proofBundleSha256", Canonical.hashValue body.proofBundleSha256),
          (key "proofPlanSha256", Canonical.hashValue body.proofPlanSha256)])]

variable (lib : CostQuoteLib)

/-- The hash of the canonical text of a bundle. -/
def CostQuoteLib.bundleDigest (bundle : CostBundle) : B256 :=
  lib.sha256 (utf8 bundle.json.canonicalJson)

/-- The hash of the canonical text of a quote. -/
def CostQuoteLib.quoteDigest (body : CostQuoteBody) : B256 :=
  lib.sha256 (utf8 (costQuoteJson body).canonicalJson)

/-- The date of a time: its text is read back as it. -/
def CostQuoteLib.isoDate (time : ℤ) : DateText := ⟨lib.isoText time, some time⟩

/-! ## Approval -/

/-- The quote of a run, valid from now until it expires. -/
def buildCostQuote (arguments : CostQuoteArguments) : Except String CostQuote := do
  let bundle := arguments.proofBundle
  ensure (bundle.version = 1 ∧ bundle.kind = "antseed-wash-trading-proof-bundle" ∧
    bundle.chainId = 8453 ∧ bundle.claims ≠ [])
    "proof bundle must contain a nonempty approved Base claim set"
  ensure (arguments.provider ≠ "") "cost quote provider is required"
  let expiration ← okOr arguments.expiresAt "cost quote expiration must be in the future"
  ensure (arguments.now < expiration) "cost quote expiration must be in the future"
  ensure (bundle.sellers ≠ []) "proof bundle has no sellers"
  let name := (arguments.seller.map addressText).getD ""
  ensure (arguments.seller.all (· ∈ bundle.sellers) = true) s!"{name}: seller is not approved"
  let unit ← arguments.sellerProofUnitUsd.mapM (parseUsd · "seller proof unit cost")
  let maxPrice ← parseU64 arguments.maxPricePerPguWei "max price per PGU"
  ensure (maxPrice ≠ 0) "max price per PGU must be nonzero"
  let proofTimeout ← positiveInteger arguments.proofTimeoutSeconds "proof timeout"
  let auctionTimeout ← positiveInteger arguments.auctionTimeoutSeconds "auction timeout"
  let body : CostQuoteBody := {
    version := 6
    kind := "antseed-sp1-proof-cost-quote"
    chainId := 8453
    approvalMode :=
      some (if unit.isSome then "usd-and-network-limits" else "network-price-cap-only")
    currency := if unit.isSome then some "USD" else none
    provider := arguments.provider
    generatedAt := lib.isoText arguments.now
    expiresAt := lib.isoDate expiration
    seller := arguments.seller
    sellerProofs := bundle.proofs arguments.seller
    sellerProofUsd := unit.map formatUsd
    aggregateMaxCostUsd := unit.map fun cost => formatUsd (cost * bundle.proofs arguments.seller)
    maxPricePerPguWei := Nat.toDigits 10 maxPrice
    proofTimeoutSeconds := proofTimeout
    auctionTimeoutSeconds := auctionTimeout
    proofBundleSha256 := lib.bundleDigest bundle
    proofPlanSha256 := arguments.proofPlanSha256 }
  return ⟨body, some (lib.quoteDigest body)⟩

/-- The limits in dollars, in either mode. -/
def checkUsdLimits (body : CostQuoteBody) : Except String Unit := do
  let approvalMode := body.approvalMode.getD "usd-and-network-limits"
  if approvalMode = "usd-and-network-limits" then
    ensure (body.currency = some "USD") "USD proving cost quote has invalid currency"
    let unit ← okOr body.sellerProofUsd
      "seller proof unit cost must be a nonnegative USD amount with at most six decimals"
    let cost ← parseUsd unit "seller proof unit cost"
    ensure (some (formatUsd (cost * body.sellerProofs)) = body.aggregateMaxCostUsd)
      "proving cost quote aggregate is invalid"
  else if approvalMode = "network-price-cap-only" then
    ensure (body.currency = none ∧ body.sellerProofUsd = none ∧ body.aggregateMaxCostUsd = none)
      "network-price-cap-only quote must not claim USD limits"
  else .error "unsupported proving cost approval mode"

/-- The quote is accepted under its digest; an expiration that is no date is never over. -/
def approveCostQuote (quote : CostQuote) (approvedDigest : Option B256) (sellerProofs : ℕ)
    (seller : Option Address) (now : ℤ) : Except String CostQuote := do
  ensure (quote.body.version = 6 ∧ quote.body.kind = "antseed-sp1-proof-cost-quote" ∧
    quote.body.chainId = 8453) "unsupported proving cost quote"
  let digest := lib.quoteDigest quote.body
  ensure (quote.digest = some digest) "proving cost quote digest mismatch"
  let text := hashText digest
  ensure (approvedDigest = some digest) s!"explicit approval requires --approve-cost-digest {text}"
  ensure (quote.body.expiresAt.time.all (now < ·) = true) "proving cost quote has expired"
  ensure (quote.body.sellerProofs = sellerProofs) "proving cost quote sellerProofs mismatch"
  ensure (quote.body.seller = seller) "proving cost quote seller scope mismatch"
  checkUsdLimits quote.body
  let _ ← parseU64 quote.body.maxPricePerPguWei "max price per PGU"
  let _ ← positiveInteger quote.body.proofTimeoutSeconds "proof timeout"
  let _ ← positiveInteger quote.body.auctionTimeoutSeconds "auction timeout"
  return quote

end LoopProof.Proving
