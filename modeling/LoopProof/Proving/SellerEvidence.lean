import LoopProof.Core.Foundation
import LoopProof.Lib.Fallible
import LoopProof.Lib.Hex

/-!
# Evidence of the sellers

The scripts around the provers give every seller of a bundle the evidence entry of the one claim
that names it.
-/

namespace LoopProof.Proving

/-- A file of evidence with the claim it is for. -/
structure EvidenceEntry where
  claimId : B256
  kind : String
  witnessPath : List Char
  deriving DecidableEq, Repr

/-- A claim of the bundle with the sellers it names. -/
structure SubjectClaim where
  claimId : B256
  subjects : List Address
  deriving DecidableEq, Repr

/-- The digits of a hash. -/
def hashText (hash : B256) : String := String.ofList ('0' :: 'x' :: hexDigits 64 hash.val)

/-- The digits of an address. -/
def addressText (address : Address) : String :=
  String.ofList ('0' :: 'x' :: hexDigits 40 address.val)

/-- An entry behind those before it, which have other claims. -/
def indexEntry (byClaim : List EvidenceEntry) (entry : EvidenceEntry) :
    Except String (List EvidenceEntry) := do
  let text := hashText entry.claimId
  ensure (entry.claimId ∉ byClaim.map (·.claimId)) s!"{text}: duplicate evidence entry"
  return byClaim ++ [entry]

/-- The entry of a seller that has none yet. -/
def addSubject (entry : EvidenceEntry) (result : List (Address × EvidenceEntry))
    (seller : Address) : Except String (List (Address × EvidenceEntry)) := do
  let text := addressText seller
  ensure (seller ∉ result.map (·.1))
    s!"{text}: exactly one evidence bundle is supported per seller proof"
  return result ++ [(seller, entry)]

/-- The entry of a claim for each of its subjects. -/
def addClaim (byClaim : List EvidenceEntry) (result : List (Address × EvidenceEntry))
    (claim : SubjectClaim) : Except String (List (Address × EvidenceEntry)) := do
  let text := hashText claim.claimId
  let entry ← okOr (byClaim.find? (·.claimId = claim.claimId))
    s!"{text}: approved evidence is missing"
  claim.subjects.foldlM (addSubject entry) result

/-- The one entry of every subject of the claims. -/
def sellerEvidenceByAddress (claims : List SubjectClaim) (entries : List EvidenceEntry) :
    Except String (List (Address × EvidenceEntry)) := do
  let byClaim ← entries.foldlM indexEntry []
  claims.foldlM (addClaim byClaim) []

end LoopProof.Proving
