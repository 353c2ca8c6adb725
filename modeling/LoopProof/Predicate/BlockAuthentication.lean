import LoopProof.Lib.Merkle
import LoopProof.Predicate.Shared

/-!
# Block-authentication chunks

Block references are committed as a Merkle root over chunks of at most one hundred
references, so that a contract can authenticate them against block history chunk by
chunk. The last node of an odd level is paired with itself.
-/

namespace LoopProof

/-- A 32-bit unsigned word. -/
abbrev U32 := Fin (2 ^ 32)

/-- How many references are authenticated at a time. -/
def blockAuthenticationChunkSize : ℕ := 100

/-- A block that evidence was taken from, by its number and its hash. -/
structure HistoricalBlockRef where
  number : U64
  blockHash : B256
  deriving DecidableEq, Repr

/-- A chunk of references with the proof that the root holds it. -/
structure BlockAuthenticationChunk where
  index : U32
  references : List HistoricalBlockRef
  proof : List B256
  deriving DecidableEq, Repr

/-- Consecutive pieces of the given size; only the last one may be shorter. -/
def chunks {α : Type*} (size : ℕ) (xs : List α) : List (List α) :=
  (List.range ((xs.length + size - 1) / size)).map fun i => (xs.drop (size * i)).take size

/-- The bytes hashed for one leaf: index, array offset, length, then two words each. -/
def leafPreimage (index : U32) (refs : List HistoricalBlockRef) : Bytes :=
  abiWords (index.val :: 64 :: refs.length ::
    refs.flatMap fun reference => [reference.number.val, reference.blockHash.val])

/-- The bytes hashed for one inner node: two static words. -/
def nodePreimage (left right : B256) : Bytes := abiWords [left.val, right.val]

variable (lib : CoreLib)

/-- The hash of a chunk at its position. -/
def blockAuthenticationLeaf (index : U32) (refs : List HistoricalBlockRef) : B256 :=
  lib.keccak256 (leafPreimage index refs)

/-- The hash of two nodes. -/
def merkleNode (left right : B256) : B256 := lib.keccak256 (nodePreimage left right)

/-- Reduce levels until one node is left; each level at least halves, so the number of
leaves bounds the rounds. -/
def merkleRootLoop : ℕ → List B256 → Option B256
  | 0, level => level.head?
  | fuel + 1, level =>
    if level.length > 1 then merkleRootLoop fuel (Merkle.nextLevel (merkleNode lib) level)
    else level.head?

/-- The root over leaves, if there are any. -/
def merkleRoot (leaves : List B256) : Option B256 :=
  if leaves.isEmpty then none else merkleRootLoop lib leaves.length leaves

/-- The sibling of a position; an even last node is its own sibling. -/
def merkleSibling (level : List B256) (index : ℕ) : Outcome B256 :=
  if index % 2 = 0 then do
    let own ← indexAt "merkle_proof level[index]" level index
    return level[index + 1]?.getD own
  else indexAt "merkle_proof level[index - 1]" level (index - 1)

/-- The siblings of a leaf, one for each level. -/
def merkleProofLoop : ℕ → List B256 → ℕ → Outcome (List B256)
  | 0, _, _ => .ok []
  | fuel + 1, level, index =>
    if level.length > 1 then do
      let sibling ← merkleSibling level index
      let rest ← merkleProofLoop fuel (Merkle.nextLevel (merkleNode lib) level) (index / 2)
      return sibling :: rest
    else .ok []

/-- The proof of the leaf at a position. -/
def merkleProof (leaves : List B256) (leafIndex : ℕ) : Outcome (List B256) :=
  merkleProofLoop lib leaves.length leaves leafIndex

/-- Whether some adjacent pair fails to increase, as a scan over windows of two. -/
def outOfOrder (refs : List HistoricalBlockRef) : Bool :=
  (refs.zip refs.tail).any fun pair => pair.2.number ≤ pair.1.number

/-- The leaf hashes of the chunked references. -/
def authenticationLeaves (refs : List HistoricalBlockRef) : List B256 :=
  (chunks blockAuthenticationChunkSize refs).zipIdx.map fun (chunk, index) =>
    blockAuthenticationLeaf lib (Fin.ofNat (2 ^ 32) index) chunk

/-- The chunks of references that are in order, each with its proof. -/
def blockAuthenticationChunks (refs : List HistoricalBlockRef) :
    Outcome (List BlockAuthenticationChunk) := do
  ensure (refs ≠ []) (.err "seller proof: no block references")
  ensure (refs.any (·.blockHash == 0) = false ∧ outOfOrder refs = false)
    (.err "seller proof: invalid block references")
  let leaves := authenticationLeaves lib refs
  (chunks blockAuthenticationChunkSize refs).zipIdx.mapM fun (chunk, index) => do
    let proof ← merkleProof lib leaves index
    return ⟨Fin.ofNat (2 ^ 32) index, chunk, proof⟩

/-- The root over the chunks of references. -/
def blockAuthenticationRoot (refs : List HistoricalBlockRef) : Option B256 :=
  merkleRoot lib (authenticationLeaves lib refs)

/-- The checks of the carried references, then the fold of the proof from the leaf hash. -/
def verifyBlockAuthenticationChunk (root : B256) (chunk : BlockAuthenticationChunk) : Bool :=
  if root = 0 ∨ chunk.references = [] ∨
      chunk.references.length > blockAuthenticationChunkSize ∨
      chunk.references.any (·.blockHash == 0) = true ∨ outOfOrder chunk.references = true then false
  else
    Merkle.foldProof (merkleNode lib) (blockAuthenticationLeaf lib chunk.index chunk.references)
      chunk.index.val chunk.proof == root

end LoopProof
