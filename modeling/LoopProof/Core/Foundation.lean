import LoopProof.Lib.Fallible
import LoopProof.Lib.Word
import Mathlib.Data.Set.Function

/-!
# Foundations of the evidence primitives

Outcomes of the authentication code, the part of a consensus header it reads, and
the third-party primitives it calls. The primitives are parameters: hashing, RLP
header decoding and Merkle-Patricia proof checking are not part of the repository.
-/

namespace LoopProof

/-- How a call can fail: an error value, a panic at an indexing site, or a loop that
the supplied buffer cannot feed any longer. -/
inductive Failure where
  /-- The `Err` variant with its text. -/
  | err (message : String)
  /-- An out-of-range index, slice or conversion. -/
  | panic (site : String)
  /-- A parsing loop whose decoder made no progress. -/
  | outOfFuel
  deriving DecidableEq, Repr

/-- The result of a call of the program. -/
abbrev Outcome := Except Failure

/-- Rewrite an error text, as `map_err` does; a panic is not an error value. -/
def Failure.mapErr (f : String → String) : Failure → Failure
  | .err message => .err (f message)
  | .panic site => .panic site
  | .outOfFuel => .outOfFuel

/-- Index a vector, panicking when out of range. -/
def indexAt {α : Type*} (site : String) (xs : List α) (i : ℕ) : Outcome α :=
  okOr xs[i]? (.panic site)

/-- Take the half-open range of a slice, panicking when out of range. -/
def sliceAt {α : Type*} (site : String) (xs : List α) (lo hi : ℕ) : Outcome (List α) :=
  if lo ≤ hi ∧ hi ≤ xs.length then .ok ((xs.drop lo).take (hi - lo)) else .error (.panic site)

/-- A big-endian slice of at most 32 bytes as a word; longer slices panic. -/
def u256FromBeSlice (bytes : Bytes) : Outcome U256 :=
  if bytes.length ≤ 32 then .ok (Fin.ofNat (2 ^ 256) (beNat bytes))
  else .error (.panic "U256::from_be_slice")

/-- Exactly 32 bytes as a hash word; any other length panics. -/
def b256FromSlice (bytes : Bytes) : Outcome B256 :=
  if bytes.length = 32 then .ok (Fin.ofNat (2 ^ 256) (beNat bytes))
  else .error (.panic "B256::from_slice")

/-- Exactly 20 bytes as an address; any other length panics. -/
def addressFromSlice (bytes : Bytes) : Outcome Address :=
  if bytes.length = 20 then .ok (Fin.ofNat (2 ^ 160) (beNat bytes))
  else .error (.panic "Address::from_slice")

/-- A consensus header: the fields the predicates read, and the remaining fields,
which only the header hash covers. -/
structure Header where
  number : U64
  timestamp : U64
  stateRoot : B256
  transactionsRoot : B256
  receiptsRoot : B256
  /-- RLP of every other consensus field. -/
  remaining : Bytes
  deriving DecidableEq, Repr

/-- The header of one RLP item. -/
structure RlpHeader where
  list : Bool
  payloadLength : ℕ
  deriving DecidableEq, Repr

/-- A trie path of half-bytes. -/
abbrev Nibbles := List UInt8

/-- Split every byte into its high and low half. -/
def Nibbles.unpack (bytes : Bytes) : Nibbles :=
  bytes.flatMap fun (b : UInt8) => [b >>> 4, b &&& 0x0f]

/-- Third-party primitives of the authentication code. -/
structure CoreLib where
  /-- The keccak-256 hash. -/
  keccak256 : Bytes → B256
  /-- Hash of the RLP encoding of a header. -/
  hashSlow : Header → B256
  /-- Decode one RLP item header, returning the advanced buffer. -/
  rlpHeader : Bytes → Except String (RlpHeader × Bytes)
  /-- Check a Merkle-Patricia inclusion (`some`) or exclusion (`none`) proof. -/
  verifyProof : B256 → Nibbles → Option Bytes → List Bytes → Except String Unit
  /-- Checksummed text of an address. -/
  showAddress : Address → String
  /-- Hexadecimal text of a 32-byte string. -/
  showB256 : B256 → String

/-- The hash behaves ideally on the given byte strings: no collision and no zero. -/
structure CollisionFree (hash : Bytes → B256) (preimages : Set Bytes) : Prop where
  injective : Set.InjOn hash preimages
  nonzero : ∀ bytes ∈ preimages, hash bytes ≠ 0

theorem CollisionFree.mono {hash : Bytes → B256} {preimages preimages' : Set Bytes}
    (h : CollisionFree hash preimages') (hsub : preimages ⊆ preimages') :
    CollisionFree hash preimages :=
  ⟨h.injective.mono hsub, fun bytes hbytes => h.nonzero bytes (hsub hbytes)⟩

end LoopProof
