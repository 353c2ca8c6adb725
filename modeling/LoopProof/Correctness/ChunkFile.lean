import LoopProof.Correctness.Seller
import LoopProof.Predicate.Exemplar
import LoopProof.Proving.ChunkFile

/-!
# The chunks that are written

The script accepts an artifact exactly if its chunks are numbered, nonempty and within the size,
and their references increase across all of them. It writes an offset for each chunk, which is its
place in the list of references exactly if no chunk but the last is short; the chunks of a verified
seller are cut that way.
-/

namespace LoopProof.Proving

/-! ## Reading the references -/

section Reading

variable {done references all : List ChunkReference} {reference : ChunkReference} {index k : ℕ}
  {chunkSize : ℤ} {chunks : List ArtifactChunk}

/-- A block number the script takes. -/
def ChunkReference.Safe (reference : ChunkReference) : Prop :=
  0 < reference.number ∧ reference.number ≤ maxSafeInteger

/-- References the script has read: safe numbers in increasing order. -/
structure ReadReferences (references : List ChunkReference) : Prop where
  safe : ∀ reference ∈ references, reference.Safe
  increasing : references.IsChain fun a b => a.number < b.number

/-- No references are read. -/
theorem readReferences_nil : ReadReferences [] where
  safe := fun _ h => absurd h List.not_mem_nil
  increasing := .nil

/-- A further reference must be safe and greater than the last one. -/
theorem readReferences_concat : ReadReferences (done ++ [reference]) ↔
    ReadReferences done ∧ reference.Safe ∧
      ∀ last ∈ done.getLast?, last.number < reference.number := by
  constructor
  · rintro ⟨hsafe, hincreasing⟩
    rw [List.forall_mem_append, List.forall_mem_singleton] at hsafe
    obtain ⟨hchain, -, hlast⟩ := List.isChain_append.mp hincreasing
    exact ⟨⟨hsafe.1, hchain⟩, hsafe.2, fun last h => hlast last h reference rfl⟩
  · rintro ⟨⟨hsafe, hchain⟩, hreference, hlast⟩
    constructor
    · rw [List.forall_mem_append, List.forall_mem_singleton]
      exact ⟨hsafe, hreference⟩
    · refine List.isChain_append.mpr ⟨hchain, .singleton reference, ?_⟩
      intro last h next hnext
      obtain rfl := Option.some.inj hnext
      exact hlast last h

/-- A reference is read if it is safe and greater than the last one. -/
theorem readReference_eq_ok : readReference index done reference = .ok all ↔
    reference.Safe ∧ (∀ last ∈ done.getLast?, last.number < reference.number) ∧
      all = done ++ [reference] := by
  simp only [readReference, bind_eq_ok, ensure_eq_ok, pure_eq_ok, exists_const,
    ChunkReference.Safe, Option.all_eq_true, decide_eq_true_eq, Option.mem_def]
  constructor
  · rintro ⟨hsafe, hlast, rfl⟩
    exact ⟨by omega, hlast, rfl⟩
  · rintro ⟨hsafe, hlast, rfl⟩
    exact ⟨by omega, hlast, rfl⟩

/-- The loop over the references of a chunk refines the growing list. -/
theorem readReference_refines (index : ℕ) :
    StepRefines (readReference index) Eq ReadReferences Eq where
  sound := by
    rintro _ done reference all hdone rfl hstep
    obtain ⟨hsafe, hlast, rfl⟩ := readReference_eq_ok.mp hstep
    exact ⟨reference, rfl, readReferences_concat.mpr ⟨hdone, hsafe, hlast⟩, rfl⟩
  complete := by
    rintro _ done reference _ rfl rfl hread
    obtain ⟨-, hsafe, hlast⟩ := readReferences_concat.mp hread
    exact ⟨_, readReference_eq_ok.mpr ⟨hsafe, hlast, rfl⟩, rfl⟩
  prefix_closed := fun h => (readReferences_concat.mp h).1

/-- The references of a chunk are read if they go on in order. -/
theorem readReferences_eq_ok (hdone : ReadReferences done) :
    references.foldlM (readReference index) done = .ok all ↔
      ReadReferences (done ++ references) ∧ all = done ++ references := by
  constructor
  · intro h
    obtain ⟨items, hitems, hread, rfl⟩ := (readReference_refines index).run_sound rfl hdone h
    rw [List.forall₂_eq_eq_eq] at hitems
    subst hitems
    exact ⟨hread, rfl⟩
  · rintro ⟨hread, rfl⟩
    obtain ⟨_, hrun, rfl⟩ := (readReference_refines index).run_complete
      (List.forall₂_same.mpr fun _ _ => rfl) rfl hread
    exact hrun

/-- The shape of a chunk at its position. -/
def ChunkShaped (chunkSize : ℤ) (entry : ArtifactChunk × ℕ) : Prop :=
  entry.1.index = entry.2 ∧ entry.1.references ≠ [] ∧ entry.1.references.length ≤ chunkSize

/-- A chunk is read if it is in its place and its references go on in order. -/
theorem readChunkReferences_eq_ok (hdone : ReadReferences done) {entry : ArtifactChunk × ℕ} :
    readChunkReferences chunkSize done entry = .ok all ↔ ChunkShaped chunkSize entry ∧
      ReadReferences (done ++ entry.1.references) ∧ all = done ++ entry.1.references := by
  simp only [readChunkReferences, bind_eq_ok, ensure_eq_ok, exists_const,
    readReferences_eq_ok hdone, ChunkShaped]

/-- References that are read behind others leave these read. -/
theorem readReferences_left (h : ReadReferences (done ++ references)) : ReadReferences done where
  safe := fun reference hmem => h.safe reference (List.mem_append_left _ hmem)
  increasing := (List.isChain_append.mp h.increasing).1

/-- All chunks are read when each has its shape and the references increase through all of them. -/
theorem readChunks_eq_ok (hdone : ReadReferences done) :
    (chunks.zipIdx k).foldlM (readChunkReferences chunkSize) done = .ok all ↔
      (∀ entry ∈ chunks.zipIdx k, ChunkShaped chunkSize entry) ∧
      ReadReferences (done ++ chunks.flatMap (·.references)) ∧
      all = done ++ chunks.flatMap (·.references) := by
  induction chunks generalizing done k with
  | nil =>
    simp only [List.zipIdx_nil, List.foldlM_nil, pure_eq_ok, List.flatMap_nil, List.append_nil,
      hdone, true_and, List.not_mem_nil, false_imp_iff, implies_true]
    exact eq_comm
  | cons chunk chunks ih =>
    simp only [List.zipIdx_cons, List.foldlM_cons, bind_eq_ok, readChunkReferences_eq_ok hdone,
      List.forall_mem_cons, List.flatMap_cons, ← List.append_assoc]
    constructor
    · rintro ⟨_, ⟨hshaped, hread, rfl⟩, hrest⟩
      obtain ⟨hothers, hall, rfl⟩ := (ih hread).mp hrest
      exact ⟨⟨hshaped, hothers⟩, hall, rfl⟩
    · rintro ⟨⟨hshaped, hothers⟩, hall, rfl⟩
      have hread := readReferences_left hall
      exact ⟨_, ⟨hshaped, hread, rfl⟩, (ih hread).mpr ⟨hothers, hall, rfl⟩⟩

end Reading

/-! ## What is accepted -/

section Accepting

variable {sellerProof : ChunkedArtifact} {chunkSize : ℤ} {file : ChunkFile}

/-- An artifact the script accepts. -/
structure ChunksAccepted (sellerProof : ChunkedArtifact) (chunkSize : ℤ) : Prop where
  artifact : sellerProof.version = 3 ∧ sellerProof.kind = "antseed-wash-trading-seller-proof" ∧
    sellerProof.proofArchitecture = "direct-seller-v1"
  size : (0 < chunkSize ∧ chunkSize ≤ maxSafeInteger) ∧
    chunkSize = sellerProof.blockAuthenticationChunkSize
  count : sellerProof.blockAuthenticationChunks.length = sellerProof.blockAuthenticationChunkCount
  shaped : ∀ entry ∈ sellerProof.blockAuthenticationChunks.zipIdx, ChunkShaped chunkSize entry
  read : ReadReferences (sellerProof.blockAuthenticationChunks.flatMap (·.references))
  total : (sellerProof.blockAuthenticationChunks.flatMap (·.references)).length =
    sellerProof.blockReferenceCount

/-- The file that is written for an accepted artifact. -/
def chunkFile (sellerProof : ChunkedArtifact) (chunkSize : ℤ) : ChunkFile where
  version := 2
  kind := "antseed-wash-trading-seller-block-authentication-chunks"
  proofArchitecture := "direct-seller-v1"
  chainId := sellerProof.chainId
  seller := sellerProof.seller
  evidenceDigest := sellerProof.evidenceDigest
  blockReferenceCount := (sellerProof.blockAuthenticationChunks.flatMap (·.references)).length
  blockAuthenticationRoot := sellerProof.blockAuthenticationRoot
  chunkSize := chunkSize
  chunkCount := sellerProof.blockAuthenticationChunks.length
  chunks := sellerProof.blockAuthenticationChunks.map (fileChunk chunkSize)

/-- The file that is written for an accepted artifact. -/
theorem buildBlockAuthenticationChunks_eq_ok :
    buildBlockAuthenticationChunks sellerProof chunkSize = .ok file ↔
      ChunksAccepted sellerProof chunkSize ∧ file = chunkFile sellerProof chunkSize := by
  simp only [buildBlockAuthenticationChunks, bind_eq_ok, ensure_eq_ok, pure_eq_ok, exists_const,
    readChunks_eq_ok readReferences_nil, List.nil_append]
  constructor
  · rintro ⟨hartifact, hpositive, hsize, hcount, _, ⟨hshaped, hread, rfl⟩, htotal, rfl⟩
    exact ⟨⟨hartifact, ⟨by omega, hsize⟩, hcount, hshaped, hread, htotal⟩, rfl⟩
  · rintro ⟨⟨hartifact, ⟨hpositive, hsize⟩, hcount, hshaped, hread, htotal⟩, rfl⟩
    exact ⟨hartifact, by omega, hsize, hcount, _, ⟨hshaped, hread, rfl⟩, htotal, rfl⟩

/-- The offset that is written is the position times the size. -/
theorem offset_eq (haccepted : ChunksAccepted sellerProof chunkSize) {k : ℕ} {chunk : FileChunk}
    (hchunk : (chunkFile sellerProof chunkSize).chunks[k]? = some chunk) :
    chunk.offset = k * chunkSize := by
  rw [chunkFile, List.getElem?_map, Option.map_eq_some_iff] at hchunk
  obtain ⟨source, hsource, rfl⟩ := hchunk
  have hshaped := haccepted.shaped (source, k) (List.mk_mem_zipIdx_iff_getElem?.mpr hsource)
  rw [fileChunk, hshaped.1]

/-- How many references stand in front of a chunk. -/
def referencesBefore (chunks : List FileChunk) (k : ℕ) : ℕ :=
  ((chunks.take k).flatMap (·.references)).length

/-- The references before the next chunk. -/
theorem referencesBefore_succ {chunks : List FileChunk} {k : ℕ} {chunk : FileChunk}
    (h : chunks[k]? = some chunk) :
    referencesBefore chunks (k + 1) = referencesBefore chunks k + chunk.references.length := by
  rw [referencesBefore, referencesBefore, List.take_add_one, h, Option.toList_some,
    List.flatMap_append, List.length_append, List.flatMap_singleton]

/-- Positions times the size are the right offsets exactly if all chunks but the last are full. -/
theorem offsets_iff {chunks : List FileChunk}
    (hoffset : ∀ (k : ℕ) (chunk : FileChunk), chunks[k]? = some chunk →
      chunk.offset = k * chunkSize) :
    (∀ (k : ℕ) (chunk : FileChunk), chunks[k]? = some chunk →
        chunk.offset = referencesBefore chunks k) ↔
      ∀ (k : ℕ) (chunk : FileChunk), chunks[k]? = some chunk → k + 1 < chunks.length →
        chunk.references.length = chunkSize := by
  constructor
  · intro h k chunk hchunk hlt
    have hnext := List.getElem?_eq_getElem hlt
    have hhere := (hoffset k _ hchunk).symm.trans (h k _ hchunk)
    have hthere := (hoffset (k + 1) _ hnext).symm.trans (h (k + 1) _ hnext)
    rw [referencesBefore_succ hchunk] at hthere
    push_cast at hthere
    linarith
  · intro h
    have hbefore : ∀ k < chunks.length, (referencesBefore chunks k : ℤ) = k * chunkSize := by
      intro k
      induction k with
      | zero =>
        intro _
        rw [Nat.cast_zero, zero_mul]
        rfl
      | succ k ih =>
        intro hlt
        have hchunk := List.getElem?_eq_getElem (Nat.lt_of_succ_lt hlt)
        have hfull := h k _ hchunk hlt
        rw [referencesBefore_succ hchunk, Nat.cast_add, ih (Nat.lt_of_succ_lt hlt), hfull]
        push_cast
        ring
    intro k chunk hchunk
    obtain ⟨hlt, -⟩ := List.getElem?_eq_some_iff.mp hchunk
    rw [hoffset k chunk hchunk, hbefore k hlt]

/-- Every accepted artifact is written with its own chunks, whose references increase and are as
many as the artifact says; the offsets are right exactly if no chunk but the last is short. -/
theorem buildBlockAuthenticationChunks_sound
    (h : buildBlockAuthenticationChunks sellerProof chunkSize = .ok file) :
    file.chunks.map (·.toArtifactChunk) = sellerProof.blockAuthenticationChunks ∧
    (file.chunks.flatMap (·.references)).Pairwise (fun a b => a.number < b.number) ∧
    (file.chunks.flatMap (·.references)).length = sellerProof.blockReferenceCount ∧
    ((∀ (k : ℕ) (chunk : FileChunk), file.chunks[k]? = some chunk →
        chunk.offset = referencesBefore file.chunks k) ↔
      ∀ (k : ℕ) (chunk : FileChunk), file.chunks[k]? = some chunk → k + 1 < file.chunks.length →
        chunk.references.length = chunkSize) := by
  obtain ⟨haccepted, rfl⟩ := buildBlockAuthenticationChunks_eq_ok.mp h
  have hreferences : (chunkFile sellerProof chunkSize).chunks.flatMap (·.references) =
      sellerProof.blockAuthenticationChunks.flatMap (·.references) := List.flatMap_map ..
  refine ⟨?_, ?_, ?_, offsets_iff fun k chunk => offset_eq haccepted⟩
  · rw [chunkFile, List.map_map]
    exact List.map_id _
  · have : IsTrans ChunkReference fun a b => a.number < b.number := ⟨fun _ _ _ => lt_trans⟩
    rw [hreferences]
    exact List.isChain_iff_pairwise.mp haccepted.read.increasing
  · rw [hreferences]
    exact haccepted.total

end Accepting

/-- Three references in chunks of two. -/
def shortArtifact : ChunkedArtifact where
  version := 3
  kind := "antseed-wash-trading-seller-proof"
  proofArchitecture := "direct-seller-v1"
  chainId := 8453
  seller := 153
  evidenceDigest := 68
  blockReferenceCount := 3
  blockAuthenticationRoot := 85
  blockAuthenticationChunkSize := 2
  blockAuthenticationChunkCount := 2
  blockAuthenticationChunks := [⟨0, [⟨10, 17⟩, ⟨20, 34⟩], [102]⟩, ⟨1, [⟨30, 51⟩], [119]⟩]

/-- The last chunk is short, and both offsets are right. -/
theorem shortArtifact_sound : ∃ file,
    buildBlockAuthenticationChunks shortArtifact 2 = .ok file ∧
    (file.chunks.flatMap (·.references)).Pairwise (fun a b => a.number < b.number) ∧
    (file.chunks.flatMap (·.references)).length = (3 : ℤ) ∧
    ((∀ (k : ℕ) (chunk : FileChunk), file.chunks[k]? = some chunk →
        chunk.offset = referencesBefore file.chunks k) ↔
      ∀ (k : ℕ) (chunk : FileChunk), file.chunks[k]? = some chunk → k + 1 < file.chunks.length →
        (chunk.references.length : ℤ) = 2) := by
  have hbuild : buildBlockAuthenticationChunks shortArtifact 2 = .ok (chunkFile shortArtifact 2) :=
    by decide +kernel
  have hsound := buildBlockAuthenticationChunks_sound hbuild
  exact ⟨_, hbuild, hsound.2.1, hsound.2.2.1, hsound.2.2.2⟩

/-! ## The artifact of a verified seller -/

section Verified

variable {lib : Lib} {input : SellerProofInput} {verified : VerifiedSeller}
  {built : List BlockAuthenticationChunk}

/-- References that are chunked are valid. -/
theorem validRefs_of_chunks {core : CoreLib} {refs : List HistoricalBlockRef}
    (h : blockAuthenticationChunks core refs = .ok built) : ValidRefs refs := by
  simp only [blockAuthenticationChunks, bind_eq_ok, ensure_eq_ok, exists_const] at h
  obtain ⟨hne, ⟨hzero, hsorted⟩, -⟩ := h
  exact ⟨hne, anyZero_eq_false.mp hzero, outOfOrder_eq_false.mp hsorted⟩

/-- The verifier has chunked the references it returns. -/
theorem exists_chunks (h : verifySeller lib input = .ok verified) :
    ∃ built, blockAuthenticationChunks lib.toCoreLib verified.blockRefs = .ok built := by
  simp only [verifySeller, validateInput, bind_eq_ok, ensure_eq_ok, okOr_eq_ok, pure_eq_ok,
    Prod.exists, lengthU32_eq_some] at h
  obtain ⟨_, _, _, _, _, _, _, _, _, _, _, _, _, _, built, hbuilt, _, _, _, _, _, _, rfl⟩ := h
  exact ⟨built, hbuilt⟩

/-- The constants of the journal, and what it commits about the references. -/
structure JournalCounts (core : CoreLib) (verified : VerifiedSeller) : Prop where
  schema : verified.journal.schemaVersion = sellerJournalSchemaVersion
  chain : verified.journal.chainId = baseChainId
  references : verified.journal.blockReferenceCount.val = verified.blockRefs.length
  size : verified.journal.blockAuthenticationChunkSize.val = blockAuthenticationChunkSize
  chunks : verified.journal.blockAuthenticationChunkCount.val = chunkCount verified.blockRefs
  fits : chunkCount verified.blockRefs < 2 ^ 32
  root : blockAuthenticationRoot core verified.blockRefs =
    some verified.journal.blockAuthenticationRoot

/-- The journal counts the committed references and chunks. -/
theorem journalCounts (h : verifySeller lib input = .ok verified) :
    JournalCounts lib.toCoreLib verified := by
  obtain ⟨_, journal, subject, counter, settlements, refs, root, haccepts, rfl⟩ :=
    verifySeller_eq_ok.mp h
  have hlength : (committedRefs refs).length < 2 ^ 32 := by
    have hle := length_committedRefs_le haccepts.references
    have hmax := verifyEvidence_refs_le haccepts.evidence
    rw [List.length_append, List.length_singleton] at hle
    unfold maxBlockRefs at hmax
    omega
  have hcount := (chunkCount_le_length (committedRefs refs)).trans_lt hlength
  exact ⟨rfl, rfl, ofNat_val hlength, rfl, ofNat_val hcount, hcount, haccepts.root⟩

/-- A block number above zero that JavaScript holds exactly. -/
def SafeBlock (reference : HistoricalBlockRef) : Prop :=
  0 < reference.number.val ∧ reference.number.val ≤ maxSafeInteger

instance : DecidablePred SafeBlock := fun reference =>
  inferInstanceAs (Decidable (0 < reference.number.val ∧ reference.number.val ≤ maxSafeInteger))

/-- The written chunks have the committed references. -/
theorem flatMap_references_of (built : List BlockAuthenticationChunk) :
    (built.map ArtifactChunk.of).flatMap (·.references) =
      (built.flatMap (·.references)).map .of := by
  rw [List.flatMap_map, List.map_flatMap]
  rfl

/-- Committed references are read if their numbers are safe. -/
theorem readReferences_of {refs : List HistoricalBlockRef} (hrefs : ValidRefs refs) :
    ReadReferences (refs.map .of) ↔ ∀ reference ∈ refs, SafeBlock reference := by
  constructor
  · intro h reference hmem
    obtain ⟨hpositive, hsafe⟩ := h.safe _ (List.mem_map_of_mem hmem)
    exact ⟨Int.natCast_pos.mp hpositive, Int.ofNat_le.mp hsafe⟩
  · intro h
    constructor
    · intro reference hmem
      obtain ⟨source, hsource, rfl⟩ := List.mem_map.mp hmem
      obtain ⟨hpositive, hsafe⟩ := h source hsource
      exact ⟨Int.natCast_pos.mpr hpositive, Int.ofNat_le.mpr hsafe⟩
    · apply List.Pairwise.isChain
      rw [List.pairwise_map]
      exact hrefs.sorted.imp fun hlt => Int.ofNat_lt.mpr hlt

/-- The chunks of an artifact as the verifier built them. -/
structure ChunksBuilt (verified : VerifiedSeller) (built : List BlockAuthenticationChunk) : Prop
    where
  count : built.length = chunkCount verified.blockRefs
  shaped : ∀ entry ∈ (built.map ArtifactChunk.of).zipIdx,
    ChunkShaped blockAuthenticationChunkSize entry
  references : (built.map ArtifactChunk.of).flatMap (·.references) = verified.blockRefs.map .of

/-- What holds of the chunks of an accepted input. -/
theorem chunksBuilt (hcounts : JournalCounts lib.toCoreLib verified)
    (hbuilt : blockAuthenticationChunks lib.toCoreLib verified.blockRefs = .ok built) :
    ChunksBuilt verified built := by
  obtain ⟨_, hrun, hlength, hchunks⟩ :=
    blockAuthenticationChunks_spec lib.toCoreLib (validRefs_of_chunks hbuilt)
  obtain rfl := Except.ok.inj (hbuilt.symm.trans hrun)
  constructor
  case count => exact hlength
  case shaped =>
    rintro ⟨chunk, k⟩ hentry
    have hchunk := List.mk_mem_zipIdx_iff_getElem?.mp hentry
    rw [List.getElem?_map, Option.map_eq_some_iff] at hchunk
    obtain ⟨source, hsource, rfl⟩ := hchunk
    have hmade := (hchunks k source).mp hsource
    obtain ⟨hne, hsmall, -⟩ := mem_chunks (by decide) (List.mem_of_getElem? hmade.piece)
    refine ⟨?_, ?_, ?_⟩
    · rw [ArtifactChunk.of, hmade.index, ofNat_val (hmade.lt_chunkCount.trans hcounts.fits)]
    · rw [ArtifactChunk.of]
      exact fun hnil => hne (List.map_eq_nil_iff.mp hnil)
    · rw [ArtifactChunk.of, List.length_map]
      exact Int.ofNat_le.mpr hsmall
  case references =>
    rw [flatMap_references_of, built_references hlength hchunks]

/-- The chunks of a verified seller are accepted exactly if its block numbers are safe. -/
theorem chunksAccepted_iff (hcounts : JournalCounts lib.toCoreLib verified)
    (hbuilt : blockAuthenticationChunks lib.toCoreLib verified.blockRefs = .ok built) :
    ChunksAccepted (chunkedArtifact verified built) blockAuthenticationChunkSize ↔
      ∀ reference ∈ verified.blockRefs, SafeBlock reference := by
  have hrefs := validRefs_of_chunks hbuilt
  have hchunks := chunksBuilt hcounts hbuilt
  have hflat : (chunkedArtifact verified built).blockAuthenticationChunks.flatMap (·.references) =
      verified.blockRefs.map .of := hchunks.references
  constructor
  · intro h
    exact (readReferences_of hrefs).mp (hflat ▸ h.read)
  · intro h
    constructor
    case artifact => exact ⟨rfl, rfl, rfl⟩
    case size =>
      refine ⟨by decide, ?_⟩
      rw [chunkedArtifact, hcounts.size]
    case count =>
      rw [chunkedArtifact, List.length_map, hchunks.count, hcounts.chunks]
    case shaped => exact hchunks.shaped
    case read =>
      rw [hflat]
      exact (readReferences_of hrefs).mpr h
    case total =>
      rw [hflat, List.length_map]
      exact congrArg Nat.cast hcounts.references.symm

/-- All built chunks but the last are full. -/
theorem built_full {core : CoreLib} {refs : List HistoricalBlockRef} {k : ℕ}
    {chunk : BlockAuthenticationChunk} (h : IsChunk core refs k chunk)
    (hlast : k + 1 < chunkCount refs) :
    chunk.references.length = blockAuthenticationChunkSize := by
  obtain ⟨-, hpiece⟩ := chunks_getElem? h.piece
  rw [hpiece, List.length_take, List.length_drop]
  unfold chunkCount at hlast
  unfold blockAuthenticationChunkSize at hlast ⊢
  omega

/-- The file of a verified seller is written exactly if its block numbers are safe. It lists the
references of the seller in order, every offset is right, its root is that of the journal, and every
chunk leads to it. -/
theorem sellerChunks_written (hverified : verifySeller lib input = .ok verified) : ∃ built,
    blockAuthenticationChunks lib.toCoreLib verified.blockRefs = .ok built ∧
    ((∃ file, buildBlockAuthenticationChunks (chunkedArtifact verified built) 100 = .ok file) ↔
      ∀ reference ∈ verified.blockRefs, SafeBlock reference) ∧
    ∀ file, buildBlockAuthenticationChunks (chunkedArtifact verified built) 100 = .ok file →
      file.chunks = built.map (fun chunk => fileChunk 100 (.of chunk)) ∧
      file.chunks.flatMap (·.references) = verified.blockRefs.map .of ∧
      (∀ (k : ℕ) (chunk : FileChunk), file.chunks[k]? = some chunk →
        chunk.offset = referencesBefore file.chunks k) ∧
      file.blockAuthenticationRoot = verified.journal.blockAuthenticationRoot ∧
      ∀ chunk ∈ built, Merkle.foldProof (merkleNode lib.toCoreLib)
        (blockAuthenticationLeaf lib.toCoreLib chunk.index chunk.references) chunk.index.val
        chunk.proof = file.blockAuthenticationRoot := by
  obtain ⟨built, hbuilt⟩ := exists_chunks hverified
  refine ⟨built, hbuilt, ?_⟩
  have hcounts := journalCounts hverified
  have haccepted := chunksAccepted_iff hcounts hbuilt
  have hrefs := validRefs_of_chunks hbuilt
  obtain ⟨_, hrun, hlength, hchunks⟩ := blockAuthenticationChunks_spec lib.toCoreLib hrefs
  obtain rfl := Except.ok.inj (hbuilt.symm.trans hrun)
  constructor
  · constructor
    · rintro ⟨file, hfile⟩
      exact haccepted.mp (buildBlockAuthenticationChunks_eq_ok.mp hfile).1
    · intro hsafe
      exact ⟨_, buildBlockAuthenticationChunks_eq_ok.mpr ⟨haccepted.mpr hsafe, rfl⟩⟩
  intro file hfile
  obtain ⟨hshaped, rfl⟩ := buildBlockAuthenticationChunks_eq_ok.mp hfile
  have hwritten : (chunkFile (chunkedArtifact verified built) 100).chunks =
      built.map (fun chunk => fileChunk 100 (.of chunk)) := by
    rw [chunkFile, chunkedArtifact, List.map_map]
    rfl
  refine ⟨hwritten, ?_, ?_, rfl, ?_⟩
  · rw [hwritten, List.flatMap_map, ← built_references hlength hchunks, List.map_flatMap]
    rfl
  · refine (offsets_iff fun k chunk => offset_eq hshaped).mpr fun k chunk hchunk hlt => ?_
    rw [hwritten, List.length_map, hlength] at hlt
    rw [hwritten, List.getElem?_map, Option.map_eq_some_iff] at hchunk
    obtain ⟨source, hsource, rfl⟩ := hchunk
    rw [fileChunk, ArtifactChunk.of, List.length_map,
      built_full ((hchunks k source).mp hsource) hlt]
    rfl
  · intro chunk hmem
    obtain ⟨k, hk⟩ := List.getElem?_of_mem hmem
    exact (((hchunks k chunk).mp hk).fold hcounts.fits hcounts.root).1

end Verified

/-- The blocks of the exemplary seller proof have safe numbers. -/
private theorem circuit_safeBlocks :
    (verifySeller (circuitExemplar none).lib (circuitSeller none)).toOption.map
      (fun verified => decide (∀ reference ∈ verified.blockRefs, SafeBlock reference)) =
        some true := by
  decide +kernel

/-- The exemplary seller proof has a file, with its references in order and the right offsets. -/
theorem circuit_written : ∃ verified built file,
    verifySeller (circuitExemplar none).lib (circuitSeller none) = .ok verified ∧
    buildBlockAuthenticationChunks (chunkedArtifact verified built) 100 = .ok file ∧
    file.chunks.flatMap (·.references) = verified.blockRefs.map .of ∧
    (∀ (k : ℕ) (chunk : FileChunk), file.chunks[k]? = some chunk →
      chunk.offset = referencesBefore file.chunks k) ∧
    file.blockAuthenticationRoot = verified.journal.blockAuthenticationRoot := by
  obtain ⟨verified, hverified, hsafe⟩ := toOption_map_eq_some.mp circuit_safeBlocks
  obtain ⟨built, -, hwritten, hfile⟩ := sellerChunks_written hverified
  obtain ⟨file, hbuild⟩ := hwritten.mpr (of_decide_eq_true hsafe)
  obtain ⟨-, hreferences, hoffsets, hroot, -⟩ := hfile file hbuild
  exact ⟨verified, built, file, hverified, hbuild, hreferences, hoffsets, hroot⟩

end LoopProof.Proving
