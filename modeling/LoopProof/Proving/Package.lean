import LoopProof.Lib.AbiWords
import LoopProof.Lib.Hex
import LoopProof.Proving.ChunkFile

/-!
# The published package

A package lists its artifacts in a manifest, with the volumes each proof commits. A script unpacks
every artifact, compares the words of its public values with the manifest, and adds the volumes.
-/

namespace LoopProof.Proving

/-! ## Public values -/

/-- The words of a journal, in the order of its fields. -/
def journalWords (journal : SellerJournal) : List ℕ := [
  journal.schemaVersion.val, journal.chainId.val, journal.periodStartBlock.val,
  journal.periodEndBlock.val, journal.seller.val, journal.provenWashVolume.val,
  journal.totalSellerVolume.val, journal.evidenceDigest.val, journal.blockReferenceCount.val,
  journal.blockAuthenticationChunkSize.val, journal.blockAuthenticationChunkCount.val,
  journal.blockAuthenticationRoot.val]

/-- The public values a seller proof commits. -/
def journalBytes (journal : SellerJournal) : Bytes := abiWords (journalWords journal)

/-! ## The package -/

/-- An artifact as it is published. -/
structure PublishedArtifact extends ChunkedArtifact where
  securityMode : SecurityMode
  proved : Bool
  verified : Bool
  sellerProgramVKey : B256
  publicValues : Bytes
  proofBytes : Bytes
  provenWashVolumeRaw : ℤ
  totalSellerVolumeRaw : ℤ
  deriving DecidableEq, Repr

/-- The artifact of a production proof, with the fields that the package reads. -/
def publishedArtifact (verified : VerifiedSeller) (chunks : List BlockAuthenticationChunk)
    (sellerProgramVKey : B256) (proofBytes : Bytes) : PublishedArtifact where
  toChunkedArtifact := chunkedArtifact verified chunks
  securityMode := .production
  proved := true
  verified := true
  sellerProgramVKey := sellerProgramVKey
  publicValues := journalBytes verified.journal
  proofBytes := proofBytes
  provenWashVolumeRaw := verified.journal.provenWashVolume.val
  totalSellerVolumeRaw := verified.journal.totalSellerVolume.val

/-- What the manifest says of one artifact. -/
structure ManifestEntry where
  seller : Address
  file : List Char
  gzipSha256 : B256
  uncompressedBytes : ℤ
  sha256 : B256
  provenWashVolumeRaw : ℤ
  totalSellerVolumeRaw : ℤ
  blockReferenceCount : ℤ
  blockAuthenticationChunkCount : ℤ
  deriving DecidableEq, Repr

/-- What all artifacts of a package share. -/
structure PackageConfiguration where
  sellerProgramVKey : B256
  periodStartBlock : ℤ
  periodEndBlock : ℤ
  verifierHash : B256
  deriving DecidableEq, Repr

/-- The artifacts of a package with their totals. -/
structure PackageManifest where
  version : ℤ
  kind : String
  chainId : ℤ
  proofCount : ℤ
  configuration : PackageConfiguration
  artifacts : List ManifestEntry
  totalProvenWashVolumeRaw : ℤ
  totalSellerVolumeRaw : ℤ
  deriving DecidableEq, Repr

/-- What a package is read with: the digest, the decompression with its limit, and the parser of
artifacts. -/
structure PackageLib where
  sha256 : Bytes → B256
  gunzip : Bytes → Option Bytes
  parse : Bytes → Option PublishedArtifact

/-- An artifact that was unpacked and passed its checks. -/
structure LoadedArtifact where
  entry : ManifestEntry
  bytes : Bytes
  artifact : PublishedArtifact

variable (lib : PackageLib)

/-- The artifact in a compressed file whose digests are those of its entry. -/
def unpackArtifact (compressed : Bytes) (entry : ManifestEntry) :
    Except String (Bytes × PublishedArtifact) := do
  ensure (lib.sha256 compressed = entry.gzipSha256) "compressed artifact checksum mismatch"
  let bytes ← okOr (lib.gunzip compressed) "incorrect header check"
  ensure (bytes.length = entry.uncompressedBytes ∧ lib.sha256 bytes = entry.sha256)
    "original artifact checksum mismatch"
  let artifact ← okOr (lib.parse bytes) "Unexpected token in JSON"
  return (bytes, artifact)

/-- A word of the public values. -/
def integer (artifact : PublishedArtifact) (index : ℕ) : ℤ :=
  (readWords 12 artifact.publicValues)[index]?.getD 0

/-- One chunk in its place. -/
def countReferences (references : ℕ) (entry : ArtifactChunk × ℕ) : Except String ℕ := do
  ensure (entry.1.index = entry.2) "chunk order mismatch"
  return references + entry.1.references.length

/-- The artifact is a proof for production, and its public values are those of its entry. -/
def validateArtifact (artifact : PublishedArtifact) (entry : ManifestEntry)
    (configuration : PackageConfiguration) : Except String Unit := do
  ensure (artifact.version = 3 ∧ artifact.kind = "antseed-wash-trading-seller-proof" ∧
      artifact.proofArchitecture = "direct-seller-v1" ∧ artifact.securityMode = .production ∧
      artifact.proved = true ∧ artifact.verified = true ∧ artifact.seller = entry.seller ∧
      artifact.sellerProgramVKey = configuration.sellerProgramVKey ∧
      artifact.publicValues.length = 384 ∧ artifact.proofBytes ≠ [])
    "invalid production artifact"
  ensure (integer artifact 0 = 1 ∧ integer artifact 1 = 8453 ∧
      integer artifact 2 = configuration.periodStartBlock ∧
      integer artifact 3 = configuration.periodEndBlock ∧
      integer artifact 4 = entry.seller.val ∧
      integer artifact 5 = entry.provenWashVolumeRaw ∧
      integer artifact 6 = entry.totalSellerVolumeRaw ∧
      integer artifact 5 = artifact.provenWashVolumeRaw ∧
      integer artifact 6 = artifact.totalSellerVolumeRaw ∧
      integer artifact 7 = artifact.evidenceDigest.val ∧
      integer artifact 8 = entry.blockReferenceCount ∧
      integer artifact 8 = artifact.blockReferenceCount ∧
      integer artifact 9 = artifact.blockAuthenticationChunkSize ∧
      integer artifact 10 = entry.blockAuthenticationChunkCount ∧
      integer artifact 10 = artifact.blockAuthenticationChunks.length ∧
      integer artifact 11 = artifact.blockAuthenticationRoot.val ∧
      artifact.proofBytes.take 4 = (abiWord configuration.verifierHash.val).take 4)
    "proof journal or verifier does not match the package manifest"
  let references ← artifact.blockAuthenticationChunks.zipIdx.foldlM countReferences 0
  ensure ((references : ℤ) = entry.blockReferenceCount) "reference count mismatch"

/-- The path of the artifact of a seller. -/
def artifactPath (seller : Address) : List Char :=
  "artifacts/0x".toList ++ (hexDigits 40 seller.val ++ ".json.gz".toList)

/-- The artifacts that were loaded so far, with their sellers and totals. -/
structure PackageState where
  artifacts : List LoadedArtifact
  sellers : List Address
  volume : ℤ
  total : ℤ

/-- One entry of the manifest. -/
def loadEntry (files : List Char → Option Bytes) (configuration : PackageConfiguration)
    (s : PackageState) (entry : ManifestEntry) : Except String PackageState := do
  ensure (entry.file = artifactPath entry.seller ∧ entry.seller ∉ s.sellers)
    "invalid or duplicate artifact path/seller"
  let compressed ← okOr (files entry.file) "no such file or directory"
  let (bytes, artifact) ← unpackArtifact lib compressed entry
  validateArtifact artifact entry configuration
  return ⟨s.artifacts ++ [⟨entry, bytes, artifact⟩], s.sellers ++ [entry.seller],
    s.volume + entry.provenWashVolumeRaw, s.total + entry.totalSellerVolumeRaw⟩

/-- All artifacts of a manifest, whose totals must be those of the artifacts. -/
def loadPackage (files : List Char → Option Bytes) (manifest : PackageManifest) :
    Except String (List LoadedArtifact) := do
  ensure (manifest.version = 1 ∧ manifest.kind = "antseed-published-seller-proofs" ∧
      manifest.chainId = 8453 ∧ manifest.proofCount = manifest.artifacts.length)
    "invalid package manifest"
  let s ← manifest.artifacts.foldlM (loadEntry lib files manifest.configuration) ⟨[], [], 0, 0⟩
  ensure (s.volume = manifest.totalProvenWashVolumeRaw ∧ s.total = manifest.totalSellerVolumeRaw)
    "package totals mismatch"
  return s.artifacts

end LoopProof.Proving
