import LoopProof.Predicate.Seller
import LoopProof.Proving.Prover

/-!
# The block-authentication file

A script takes the chunks of block references out of the artifact of a seller proof, checks their
shape, and writes them with their offsets in the list of all references.
-/

namespace LoopProof.Proving

/-- A block as the script reads it. -/
structure ChunkReference where
  number : ℤ
  blockHash : B256
  deriving DecidableEq, Repr

/-- A chunk as the artifact has it. -/
structure ArtifactChunk where
  index : ℤ
  references : List ChunkReference
  proof : List B256
  deriving DecidableEq, Repr

/-- The fields of an artifact that the script reads. -/
structure ChunkedArtifact where
  version : ℤ
  kind : String
  proofArchitecture : String
  chainId : ℤ
  seller : Address
  evidenceDigest : B256
  blockReferenceCount : ℤ
  blockAuthenticationRoot : B256
  blockAuthenticationChunkSize : ℤ
  blockAuthenticationChunkCount : ℤ
  blockAuthenticationChunks : List ArtifactChunk
  deriving DecidableEq, Repr

/-- A chunk with the position of its first reference. -/
structure FileChunk extends ArtifactChunk where
  offset : ℤ
  deriving DecidableEq, Repr

/-- What the script writes for an artifact. -/
structure ChunkFile where
  version : ℤ
  kind : String
  proofArchitecture : String
  chainId : ℤ
  seller : Address
  evidenceDigest : B256
  blockReferenceCount : ℤ
  blockAuthenticationRoot : B256
  chunkSize : ℤ
  chunkCount : ℤ
  chunks : List FileChunk
  deriving DecidableEq, Repr

/-! ## Artifacts -/

/-- A committed reference as it is written. -/
def ChunkReference.of (reference : HistoricalBlockRef) : ChunkReference :=
  ⟨reference.number, reference.blockHash⟩

/-- A committed chunk as it is written. -/
def ArtifactChunk.of (chunk : BlockAuthenticationChunk) : ArtifactChunk :=
  ⟨chunk.index.val, chunk.references.map .of, chunk.proof⟩

/-- The part of the prover's artifact that the script reads. -/
def chunkedArtifact (verified : VerifiedSeller) (chunks : List BlockAuthenticationChunk) :
    ChunkedArtifact where
  version := artifactVersion
  kind := "antseed-wash-trading-seller-proof"
  proofArchitecture := "direct-seller-v1"
  chainId := verified.journal.chainId.val
  seller := verified.journal.seller
  evidenceDigest := verified.journal.evidenceDigest
  blockReferenceCount := verified.journal.blockReferenceCount.val
  blockAuthenticationRoot := verified.journal.blockAuthenticationRoot
  blockAuthenticationChunkSize := verified.journal.blockAuthenticationChunkSize.val
  blockAuthenticationChunkCount := verified.journal.blockAuthenticationChunkCount.val
  blockAuthenticationChunks := chunks.map .of

/-! ## The script -/

/-- One reference, behind those read so far. -/
def readReference (index : ℕ) (references : List ChunkReference) (reference : ChunkReference) :
    Except String (List ChunkReference) := do
  ensure (reference.number.natAbs ≤ maxSafeInteger ∧ 0 < reference.number)
    s!"invalid block number in chunk {index}"
  ensure (references.getLast?.all (·.number < reference.number) = true)
    "block references must be strictly ordered"
  return references ++ [reference]

/-- The references of a chunk behind those before it. -/
def readChunkReferences (chunkSize : ℤ) (references : List ChunkReference)
    (entry : ArtifactChunk × ℕ) : Except String (List ChunkReference) := do
  let (chunk, index) := entry
  ensure (chunk.index = index ∧ chunk.references ≠ [] ∧ chunk.references.length ≤ chunkSize)
    "invalid block-authentication chunk"
  chunk.references.foldlM (readReference index) references

/-- The chunk at its offset. -/
def fileChunk (chunkSize : ℤ) (chunk : ArtifactChunk) : FileChunk :=
  ⟨chunk, chunk.index * chunkSize⟩

/-- The chunks of an artifact whose counts, positions and order hold. -/
def buildBlockAuthenticationChunks (sellerProof : ChunkedArtifact) (chunkSize : ℤ) :
    Except String ChunkFile := do
  ensure (sellerProof.version = 3 ∧ sellerProof.kind = "antseed-wash-trading-seller-proof" ∧
    sellerProof.proofArchitecture = "direct-seller-v1") "invalid direct seller proof artifact"
  ensure (chunkSize.natAbs ≤ maxSafeInteger ∧ 0 < chunkSize) "chunk size must be positive"
  ensure (chunkSize = sellerProof.blockAuthenticationChunkSize)
    "chunk size differs from SP1 commitment"
  let chunks := sellerProof.blockAuthenticationChunks
  ensure (chunks.length = sellerProof.blockAuthenticationChunkCount)
    "seller block-authentication chunk count mismatch"
  let references ← chunks.zipIdx.foldlM (readChunkReferences chunkSize) []
  ensure (references.length = sellerProof.blockReferenceCount)
    "seller block-reference count mismatch"
  return {
    version := 2
    kind := "antseed-wash-trading-seller-block-authentication-chunks"
    proofArchitecture := "direct-seller-v1"
    chainId := sellerProof.chainId
    seller := sellerProof.seller
    evidenceDigest := sellerProof.evidenceDigest
    blockReferenceCount := references.length
    blockAuthenticationRoot := sellerProof.blockAuthenticationRoot
    chunkSize := chunkSize
    chunkCount := chunks.length
    chunks := chunks.map (fileChunk chunkSize) }

end LoopProof.Proving
