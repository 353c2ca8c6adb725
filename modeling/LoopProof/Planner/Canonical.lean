import LoopProof.Lib.Json
import LoopProof.Lib.MerkleSet

/-!
# Canonical claims

Claims and dependencies as JSON values, hashed over their canonical texts. A claim is finalized to
the hashes of its dependencies without repetition, in the order of their ids; a bundle of finalized
claims has the root of their leaf hashes.
-/

namespace LoopProof.Canonical

/-- What the hashes of claims take from their platform. -/
structure Platform where
  sha256 : Bytes → B256
  localeCompare : List Char → List Char → Ordering

/-- The UTF-8 bytes of a text. -/
def utf8 (text : List Char) : Bytes := text.flatMap String.utf8EncodeChar

/-- A string of the script whose characters are single code units. -/
def jsText (text : List Char) : JsString := text.map fun char => UInt16.ofNat char.toNat

/-- A name as a key. -/
def key (name : String) : JsString := jsText name.toList

/-- A hash as a JSON value. -/
def hashValue (hash : B256) : Json := .string (jsText ('0' :: 'x' :: hexText (beBytes 32 hash.val)))

/-- A text as a JSON value. -/
def textValue (text : List Char) : Json := .string (text.flatMap JsString.charUnits)

/-- A number of the script as a JSON value. -/
def natJson (n : ℕ) : Json :=
  .number ⟨Nat.toDigits 10 n, Nat.toDigits_ne_nil, by
    intro char hchar
    have hdigit := Nat.isDigit_of_mem_toDigits (by decide) (by decide) hchar
    simp [isNumeric, hdigit]⟩

/-- A field that is left out where there is no value. -/
def optionalField {α : Type} (name : String) (value : Option α) (toJson : α → Json) :
    List (JsString × Json) := (value.map fun value => (key name, toJson value)).toList

/-- What is hashed for a value under a domain. -/
def canonicalInput (domain : String) (input : Json) : Bytes :=
  utf8 domain.toList ++ [0] ++ utf8 (Json.canonicalJson input)

/-- What is hashed for two nodes. -/
def nodeInput (left right : B256) : Bytes := 1 :: (beBytes 32 left.val ++ beBytes 32 right.val)

section Hashes

variable (platform : Platform)

/-- The hash of a value under a domain. -/
def hashCanonical (domain : String) (input : Json) : B256 :=
  platform.sha256 (canonicalInput domain input)

/-- The hash of two nodes. -/
def hashNodes (left right : B256) : B256 := platform.sha256 (nodeInput left right)

/-- The root over the sorted hashes; odd last entries are paired with themselves. -/
def merkleRoot (hashes : List B256) : B256 :=
  Merkle.setRoot (hashNodes platform) (platform.sha256 [0]) hashes

end Hashes

/-- A claim before it is finalized: its dependencies and all its other fields. -/
structure Claim where
  fields : List (JsString × Json)
  dependencies : List Json
  keys : (fields.map Prod.fst).Nodup
  fresh : ∀ name ∈ ["dependencies", "dependencyRoot", "claimId", "leafHash"],
    key name ∉ fields.map Prod.fst
  lawful : ∀ entry ∈ fields, entry.2.Lawful
  lawfulDependencies : ∀ dependency ∈ dependencies, dependency.Lawful

/-- A dependency with the id that is added to its fields. -/
structure IdentifiedDependency where
  value : Json
  dependencyId : B256

/-- A claim with its ids and hashes. -/
structure FinalizedClaim where
  fields : List (JsString × Json)
  dependencyRoot : B256
  claimId : B256
  leafHash : B256
  dependencies : List IdentifiedDependency

section Finalize

variable (platform : Platform)

/-- One dependency of every canonical text, in the order of the texts. -/
def dedupeDependencies (values : List Json) : List Json :=
  sortBy (fun left right =>
    platform.localeCompare (Json.canonicalJson left) (Json.canonicalJson right))
    (dedupeBy Json.canonicalJson values)

/-- The fields of a claim with the root of its dependencies. -/
def claimBody (claim : Claim) (dependencyRoot : B256) : List (JsString × Json) :=
  claim.fields ++ [(key "dependencyRoot", hashValue dependencyRoot)]

/-- The body of a claim with its id. -/
def claimLeaf (claim : Claim) (dependencyRoot claimId : B256) : List (JsString × Json) :=
  claimBody claim dependencyRoot ++ [(key "claimId", hashValue claimId)]

/-- The dependencies of a claim with their ids, in the order of these. -/
def identifiedDependencies (claim : Claim) : List IdentifiedDependency :=
  sortBy (compareOn IdentifiedDependency.dependencyId)
    ((dedupeDependencies platform claim.dependencies).map fun dependency =>
      ⟨dependency, hashCanonical platform "dependency" dependency⟩)

/-- A claim with the root of its dependencies, its id and its leaf hash. -/
def finalizeClaim (claim : Claim) : FinalizedClaim :=
  let dependencies := identifiedDependencies platform claim
  let dependencyRoot := merkleRoot platform
    (dependencies.map IdentifiedDependency.dependencyId)
  let claimId := hashCanonical platform "claim-id" (.object (claimBody claim dependencyRoot))
  let leafHash := hashCanonical platform "claim-leaf"
    (.object (claimLeaf claim dependencyRoot claimId))
  ⟨claim.fields, dependencyRoot, claimId, leafHash, dependencies⟩

/-! ## Bundles -/

/-- A claim of a bundle; one that has its leaf hash is left as it is. -/
inductive BundleClaim where
  | finalized (claim : FinalizedClaim)
  | draft (claim : Claim)

/-- How many claims of each type there are. -/
structure ClaimCounts where
  closedLoop : ℕ
  reciprocal : ℕ
  total : ℕ

/-- The finalized claims in order with the root over them. -/
structure FinalizedBundle where
  claimCounts : ClaimCounts
  reportRoot : B256
  claims : List FinalizedClaim

/-- A claim of a bundle, finalized unless it is already. -/
def finalizeBundleClaim : BundleClaim → FinalizedClaim
  | .finalized claim => claim
  | .draft claim => finalizeClaim platform claim

/-- The claim's field of its type has the given name. -/
def FinalizedClaim.hasType (claim : FinalizedClaim) (name : String) : Bool :=
  claim.fields.any fun entry =>
    entry.1 == key "type" && match entry.2 with
      | .string value => value == key name
      | _ => false

/-- The claims of a bundle in the order of their ids, with their root. -/
def finalizeBundle (bundle : List BundleClaim) : FinalizedBundle :=
  let claims := sortBy (compareOn FinalizedClaim.claimId)
    (bundle.map (finalizeBundleClaim platform))
  { claimCounts := {
      closedLoop := (claims.filter (·.hasType "P0_CLOSED_LOOP")).length
      reciprocal := (claims.filter (·.hasType "P0_RECIPROCAL")).length
      total := claims.length }
    reportRoot := merkleRoot platform (claims.map FinalizedClaim.leafHash)
    claims }

end Finalize

end LoopProof.Canonical
