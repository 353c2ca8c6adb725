import LoopProof.Proving.CostQuote
import Mathlib.Data.Set.Function

/-!
# What an approval approves

An amount that is written is read back, so the aggregate of a quote is its unit cost times the
number of its proofs. The digest of a built quote approves that quote and no other, for its own
scope and until it expires.
-/

namespace LoopProof.Proving

open Canonical (key natJson textValue)

/-! ## Amounts -/

section Amounts

/-- The digits of a number are digits. -/
theorem all_isDigit_toDigits (n : ℕ) : (Nat.toDigits 10 n).all Char.isDigit = true :=
  List.all_eq_true.mpr fun _ h => Nat.isDigit_of_mem_toDigits (by decide) (by decide) h

/-- No digit is a point. -/
theorem ne_point_of_isDigit {digits : List Char} (h : digits.all Char.isDigit = true) :
    ∀ c ∈ digits, (c != '.') = true := by
  intro c hc
  have hdigit := List.all_eq_true.mp h c hc
  rw [bne_iff_ne]
  rintro rfl
  cases hdigit

/-- The parts in front of and behind the point. -/
theorem usdParts_append {whole fraction : List Char} (h : whole.all Char.isDigit = true) :
    usdParts (whole ++ '.' :: fraction) = (whole, some fraction) := by
  have hpoint := ne_point_of_isDigit h
  rw [usdParts, List.takeWhile_append_of_pos hpoint, List.dropWhile_append_of_pos hpoint,
    List.takeWhile_cons_of_neg (by decide), List.dropWhile_cons_of_neg (by decide),
    List.append_nil, List.tail?_cons]

/-- Digits below the scale, filled up to six places. -/
theorem leftpad_fraction {n : ℕ} (h : n < usdScale) :
    ((Nat.toDigits 10 n).leftpad 6 '0').length = 6 ∧
      ((Nat.toDigits 10 n).leftpad 6 '0').all Char.isDigit = true ∧
      Nat.ofDigitChars 10 ((Nat.toDigits 10 n).leftpad 6 '0') 0 = n := by
  have hlength : (Nat.toDigits 10 n).length ≤ 6 :=
    (Nat.length_toDigits_le_iff (by decide) (by decide)).mpr h
  refine ⟨?_, ?_, ?_⟩
  · rw [List.length_leftpad]
    exact max_eq_left hlength
  · rw [List.leftpad, List.all_append, all_isDigit_toDigits, Bool.and_true, List.all_replicate]
    split <;> rfl
  · rw [List.leftpad, Nat.ofDigitChars_append, Nat.ofDigitChars_replicate_zero, Nat.mul_zero,
      Nat.ofDigitChars_ten_toDigits]

/-- A written amount is read back. -/
theorem parseUsd_formatUsd (micros : ℕ) (label : String) :
    parseUsd (formatUsd micros) label = .ok micros := by
  obtain ⟨hlength, hdigits, hvalue⟩ :=
    leftpad_fraction (Nat.mod_lt micros (by decide : 0 < usdScale))
  have hfraction : ((Nat.toDigits 10 (micros % usdScale)).leftpad 6 '0') ≠ [] := by
    intro hnil
    rw [hnil] at hlength
    cases hlength
  have hwhole : (Nat.toDigits 10 (micros / usdScale) ≠ [] ∧
      (Nat.toDigits 10 (micros / usdScale)).all Char.isDigit = true) :=
    ⟨Nat.toDigits_ne_nil, all_isDigit_toDigits _⟩
  rw [parseUsd, formatUsd, usdParts_append (all_isDigit_toDigits _)]
  simp only [Option.all_some, decide_eq_true_eq, Option.getD_some, List.rightpad]
  rw [if_pos ⟨hwhole, hfraction, hlength.le, hdigits⟩, Nat.ofDigitChars_ten_toDigits, hlength,
    Nat.sub_self, List.replicate_zero, List.append_nil, hvalue, Nat.div_add_mod']

/-- A written number is read back. -/
theorem parseU64_toDigits {n : ℕ} (h : n ≤ maxU64) (label : String) :
    parseU64 (Nat.toDigits 10 n) label = .ok n := by
  simp only [parseU64, bind_eq_ok, ensure_eq_ok, pure_eq_ok, exists_const,
    Nat.ofDigitChars_ten_toDigits, and_true]
  exact ⟨⟨Nat.toDigits_ne_nil, all_isDigit_toDigits n⟩, h⟩

/-- What is read has 64 bits. -/
theorem parseU64_le {value : List Char} {label : String} {n : ℕ}
    (h : parseU64 value label = .ok n) : n ≤ maxU64 := by
  simp only [parseU64, bind_eq_ok, ensure_eq_ok, pure_eq_ok, exists_const] at h
  obtain ⟨-, hle, rfl⟩ := h
  exact hle

/-- A positive integer is read as it is. -/
theorem positiveInteger_eq_ok {value parsed : ℤ} {label : String} :
    positiveInteger value label = .ok parsed ↔
      (value.natAbs ≤ maxSafeInteger ∧ 1 ≤ value) ∧ value = parsed := by
  simp only [positiveInteger, bind_eq_ok, ensure_eq_ok, pure_eq_ok, exists_const]

end Amounts

/-! ## Approvals -/

section Approvals

variable {lib : CostQuoteLib} {arguments : CostQuoteArguments} {quote built approved : CostQuote}
  {approvedDigest : Option B256} {sellerProofs : ℕ} {seller : Option Address} {now : ℤ}

/-- A quote the approval accepts. -/
structure Approvable (lib : CostQuoteLib) (quote : CostQuote) (approvedDigest : Option B256)
    (sellerProofs : ℕ) (seller : Option Address) (now : ℤ) : Prop where
  supported : quote.body.version = 6 ∧ quote.body.kind = "antseed-sp1-proof-cost-quote" ∧
    quote.body.chainId = 8453
  digest : quote.digest = some (lib.quoteDigest quote.body) ∧ approvedDigest = quote.digest
  current : quote.body.expiresAt.time.all (now < ·) = true
  scope : quote.body.sellerProofs = sellerProofs ∧ quote.body.seller = seller
  limits : checkUsdLimits quote.body = .ok ()
  network : (∃ price, parseU64 quote.body.maxPricePerPguWei "max price per PGU" = .ok price) ∧
    (quote.body.proofTimeoutSeconds.natAbs ≤ maxSafeInteger ∧
      1 ≤ quote.body.proofTimeoutSeconds) ∧
    (quote.body.auctionTimeoutSeconds.natAbs ≤ maxSafeInteger ∧
      1 ≤ quote.body.auctionTimeoutSeconds)

/-- A quote is approved exactly if it is approvable. -/
theorem approveCostQuote_eq_ok :
    approveCostQuote lib quote approvedDigest sellerProofs seller now = .ok approved ↔
      Approvable lib quote approvedDigest sellerProofs seller now ∧ approved = quote := by
  simp only [approveCostQuote, bind_eq_ok, ensure_eq_ok, pure_eq_ok, exists_const,
    positiveInteger_eq_ok]
  constructor
  · rintro ⟨hsupported, hdigest, hgiven, hcurrent, hproofs, hseller, _, hlimits, price, hprice, _,
      ⟨hproof, rfl⟩, _, ⟨hauction, rfl⟩, rfl⟩
    exact ⟨⟨hsupported, ⟨hdigest, hgiven.trans hdigest.symm⟩, hcurrent, ⟨hproofs, hseller⟩, hlimits,
      ⟨price, hprice⟩, hproof, hauction⟩, rfl⟩
  · rintro ⟨⟨hsupported, ⟨hdigest, hgiven⟩, hcurrent, ⟨hproofs, hseller⟩, hlimits,
      ⟨price, hprice⟩, hproof, hauction⟩, rfl⟩
    exact ⟨hsupported, hdigest, hgiven.trans hdigest, hcurrent, hproofs, hseller, _, hlimits, price,
      hprice, _, ⟨hproof, rfl⟩, _, ⟨hauction, rfl⟩, rfl⟩

/-- The limits in dollars hold if the aggregate is that of the unit cost. -/
theorem checkUsdLimits_usd {body : CostQuoteBody}
    (hmode : body.approvalMode.getD "usd-and-network-limits" = "usd-and-network-limits") :
    checkUsdLimits body = .ok () ↔ body.currency = some "USD" ∧ ∃ unit,
      body.sellerProofUsd = some unit ∧ ∃ cost, parseUsd unit "seller proof unit cost" = .ok cost ∧
      some (formatUsd (cost * body.sellerProofs)) = body.aggregateMaxCostUsd := by
  simp only [checkUsdLimits, hmode, ite_true, bind_eq_ok, ensure_eq_ok, okOr_eq_ok, exists_const]

/-- The aggregate of a quote within limits is the unit cost times the number of proofs. -/
theorem checkUsdLimits_aggregate {body : CostQuoteBody} (h : checkUsdLimits body = .ok ())
    {text : List Char} (htext : body.aggregateMaxCostUsd = some text) :
    ∃ unit cost, body.sellerProofUsd = some unit ∧
      parseUsd unit "seller proof unit cost" = .ok cost ∧
      ∀ label, parseUsd text label = .ok (cost * body.sellerProofs) := by
  by_cases husd : body.approvalMode.getD "usd-and-network-limits" = "usd-and-network-limits"
  · obtain ⟨-, unit, hunit, cost, hcost, htotal⟩ := (checkUsdLimits_usd husd).mp h
    obtain rfl := Option.some.inj (htotal.trans htext)
    exact ⟨unit, cost, hunit, hcost, parseUsd_formatUsd _⟩
  · rw [checkUsdLimits, if_neg husd] at h
    split at h
    · rw [ensure_eq_ok] at h
      cases h.2.2.symm.trans htext
    · cases h

/-- What a built quote carries. -/
structure Built (lib : CostQuoteLib) (arguments : CostQuoteArguments) (quote : CostQuote) :
    Prop where
  supported : quote.body.version = 6 ∧ quote.body.kind = "antseed-sp1-proof-cost-quote" ∧
    quote.body.chainId = 8453
  digest : quote.digest = some (lib.quoteDigest quote.body)
  current : quote.body.expiresAt.time = arguments.expiresAt ∧ arguments.expiresAt.isSome = true
  scope : quote.body.sellerProofs = arguments.proofBundle.proofs arguments.seller ∧
    quote.body.seller = arguments.seller
  limits : checkUsdLimits quote.body = .ok ()
  network : (∃ price, parseU64 quote.body.maxPricePerPguWei "max price per PGU" = .ok price) ∧
    (quote.body.proofTimeoutSeconds.natAbs ≤ maxSafeInteger ∧
      1 ≤ quote.body.proofTimeoutSeconds) ∧
    (quote.body.auctionTimeoutSeconds.natAbs ≤ maxSafeInteger ∧
      1 ≤ quote.body.auctionTimeoutSeconds)

/-- A quote that is built can be approved. -/
theorem built_of_build (hbuild : buildCostQuote lib arguments = .ok built) :
    Built lib arguments built := by
  simp only [buildCostQuote, bind_eq_ok, ensure_eq_ok, pure_eq_ok, exists_const,
    positiveInteger_eq_ok, okOr_eq_ok] at hbuild
  obtain ⟨-, -, expiration, hexpires, -, -, -, unit, -, price, hprice, -, _, ⟨hproof, rfl⟩, _,
    ⟨hauction, rfl⟩, rfl⟩ := hbuild
  have hsome : arguments.expiresAt.isSome = true := Option.isSome_iff_exists.mpr ⟨_, hexpires⟩
  refine ⟨⟨rfl, rfl, rfl⟩, rfl, ⟨hexpires.symm, hsome⟩, ⟨rfl, rfl⟩, ?_,
    ⟨price, parseU64_toDigits (parseU64_le hprice) _⟩, hproof, hauction⟩
  cases unit with
  | none => rfl
  | some cost =>
    refine (checkUsdLimits_usd rfl).mpr ⟨rfl, formatUsd cost, rfl, cost, ?_, rfl⟩
    exact parseUsd_formatUsd cost _

/-- Where there is a value, it is the only one. -/
theorem all_iff_any {α : Type} {value : Option α} {p : α → Bool} (h : value.isSome = true) :
    value.all p = true ↔ value.any p = true := by
  obtain ⟨found, rfl⟩ := Option.isSome_iff_exists.mp h
  rfl

/-- The digest of a built quote approves that quote and no other, until it expires and for the
scope it was built for. -/
theorem approval_exact (hbuild : buildCostQuote lib arguments = .ok built)
    (hash : Set.InjOn lib.quoteDigest {quote.body, built.body}) :
    approveCostQuote lib quote built.digest sellerProofs seller now = .ok approved ↔
      (approved = quote ∧ quote = built) ∧ arguments.expiresAt.any (now < ·) = true ∧
      sellerProofs = arguments.proofBundle.proofs arguments.seller ∧
      seller = arguments.seller := by
  have hbuilt := built_of_build hbuild
  have hcurrent : built.body.expiresAt.time.all (now < ·) = true ↔
      arguments.expiresAt.any (now < ·) = true := by
    rw [hbuilt.current.1]
    exact all_iff_any hbuilt.current.2
  rw [approveCostQuote_eq_ok]
  constructor
  · rintro ⟨happrovable, rfl⟩
    obtain ⟨hdigest, hgiven⟩ := happrovable.digest
    have hsame : lib.quoteDigest approved.body = lib.quoteDigest built.body :=
      Option.some.inj (hdigest.symm.trans (hgiven.symm.trans hbuilt.digest))
    have hbody : approved.body = built.body :=
      hash (Set.mem_insert _ _) (Set.mem_insert_of_mem _ rfl) hsame
    obtain rfl : approved = built := CostQuote.ext hbody hgiven.symm
    obtain ⟨hproofs, hseller⟩ := happrovable.scope
    exact ⟨⟨rfl, rfl⟩, hcurrent.mp happrovable.current, hproofs.symm.trans hbuilt.scope.1,
      hseller.symm.trans hbuilt.scope.2⟩
  · rintro ⟨⟨rfl, rfl⟩, hnow, rfl, rfl⟩
    exact ⟨⟨hbuilt.supported, ⟨hbuilt.digest, rfl⟩, hcurrent.mpr hnow, hbuilt.scope,
      hbuilt.limits, hbuilt.network⟩, rfl⟩

/-- The aggregate an approved quote shows is the unit cost it shows times the proofs of the run. -/
theorem approval_aggregate
    (h : approveCostQuote lib quote approvedDigest sellerProofs seller now = .ok approved)
    {text : List Char} (htext : approved.body.aggregateMaxCostUsd = some text) :
    ∃ unit cost, approved.body.sellerProofUsd = some unit ∧
      parseUsd unit "seller proof unit cost" = .ok cost ∧
      ∀ label, parseUsd text label = .ok (cost * sellerProofs) := by
  obtain ⟨happrovable, rfl⟩ := approveCostQuote_eq_ok.mp h
  exact happrovable.scope.1 ▸ checkUsdLimits_aggregate happrovable.limits htext

end Approvals

/-! ## A quote for two sellers -/

/-- A bundle whose second claim names the seller of the first one again. -/
def twoSellerBundle : CostBundle where
  version := 1
  kind := "antseed-wash-trading-proof-bundle"
  chainId := 8453
  claims := [[21], [22, 21]]
  json := .object
    [(key "version", natJson 1),
      (key "kind", textValue "antseed-wash-trading-proof-bundle".toList),
      (key "chainId", natJson 8453), (key "claims", .array (([[21], [22, 21]] : List _).map
        fun subjects => .object [(key "subjects", .array (subjects.map
          fun subject => textValue (addressText subject).toList))]))]

/-- The arguments for both sellers, at a unit cost of one and a half dollars. -/
def twoProofs : CostQuoteArguments where
  proofBundle := twoSellerBundle
  proofPlanSha256 := 5
  sellerProofUnitUsd := some "1.5".toList
  maxPricePerPguWei := "400000000".toList
  proofTimeoutSeconds := 3600
  auctionTimeoutSeconds := 60
  provider := "sp1-network"
  expiresAt := some 200
  seller := none
  now := 100

/-- Checksums of texts, and the texts of the times of the first second. -/
def checksumLib : CostQuoteLib where
  sha256 bytes := Fin.ofNat (2 ^ 256) (bytes.map UInt8.toNat).sum
  isoText time := "1970-01-01T00:00:00.".toList ++
    ((Nat.toDigits 10 time.toNat).leftpad 3 '0' ++ ['Z'])

/-- The same quote with a later expiration, under its own digest. -/
def CostQuote.extended (quote : CostQuote) : CostQuote :=
  let body := { quote.body with expiresAt := checksumLib.isoDate 300 }
  ⟨body, some (checksumLib.quoteDigest body)⟩

private theorem twoProofs_accepted : (buildCostQuote checksumLib twoProofs).toOption.map
    (fun quote => (decide (checksumLib.quoteDigest quote.extended.body =
        checksumLib.quoteDigest quote.body),
      (approveCostQuote checksumLib quote quote.digest 2 none 150).toOption.map
        fun approved => approved.body.aggregateMaxCostUsd)) =
      some (false, some (some "3.000000".toList)) := by
  decide +kernel

/-- The quote of two proofs is approved by its digest before it expires; the extended one is not
approved by that digest. -/
theorem twoProofs_approved : ∃ quote, buildCostQuote checksumLib twoProofs = .ok quote ∧
    approveCostQuote checksumLib quote quote.digest 2 none 150 = .ok quote ∧
    ∀ approved, approveCostQuote checksumLib quote.extended quote.digest 2 none 150 ≠
      .ok approved := by
  obtain ⟨quote, hquote, hfound⟩ := toOption_map_eq_some.mp twoProofs_accepted
  have hdiffer := of_decide_eq_false (Prod.mk.inj hfound).1
  have hsame : Set.InjOn checksumLib.quoteDigest {quote.body, quote.body} := by
    rw [Set.pair_eq_singleton]
    exact Set.injOn_singleton _ _
  refine ⟨quote, hquote, (approval_exact hquote hsame).mpr ⟨⟨rfl, rfl⟩, by decide, by decide, rfl⟩,
    fun approved happroved => ?_⟩
  generalize quote.extended = offered at hdiffer happroved
  have hash : Set.InjOn checksumLib.quoteDigest {offered.body, quote.body} :=
    Set.injOn_pair.mpr fun h => absurd h hdiffer
  apply hdiffer
  rw [((approval_exact hquote hash).mp happroved).1.2]

/-- Its aggregate of three dollars is twice the unit cost. -/
theorem twoProofs_aggregate : ∃ quote approved,
    buildCostQuote checksumLib twoProofs = .ok quote ∧
    approveCostQuote checksumLib quote quote.digest 2 none 150 = .ok approved ∧
    ∃ unit cost, approved.body.sellerProofUsd = some unit ∧
      parseUsd unit "seller proof unit cost" = .ok cost ∧
      ∀ label, parseUsd "3.000000".toList label = .ok (cost * 2) := by
  obtain ⟨quote, hquote, hfound⟩ := toOption_map_eq_some.mp twoProofs_accepted
  obtain ⟨approved, happroved, htext⟩ := toOption_map_eq_some.mp (Prod.mk.inj hfound).2
  exact ⟨quote, approved, hquote, happroved, approval_aggregate happroved htext⟩

end LoopProof.Proving
