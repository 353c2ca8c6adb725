import LoopProof.Correctness.ChunkFile
import LoopProof.Proving.Package

/-!
# The published package is what its proofs commit

An artifact is accepted exactly if its public values are the words its manifest entry states, and
the totals of an accepted package are the sums of the words of its artifacts, one seller each. The
artifact of a verified seller is accepted exactly if its entry states the journal.
-/

namespace LoopProof.Proving

/-! ## One artifact -/

section Artifact

variable {artifact : PublishedArtifact} {entry : ManifestEntry}
  {configuration : PackageConfiguration} {chunks : List ArtifactChunk} {k references total : ℕ}

/-- The references of chunks in order are counted. -/
theorem countReferences_eq_ok :
    (chunks.zipIdx k).foldlM countReferences references = .ok total ↔
      (∀ entry ∈ chunks.zipIdx k, entry.1.index = entry.2) ∧
      total = references + (chunks.flatMap (·.references)).length := by
  induction chunks generalizing k references with
  | nil =>
    simp only [List.zipIdx_nil, List.foldlM_nil, pure_eq_ok, List.not_mem_nil, false_imp_iff,
      implies_true, true_and, List.flatMap_nil, List.length_nil, add_zero]
    exact eq_comm
  | cons chunk chunks ih =>
    simp only [List.zipIdx_cons, List.foldlM_cons, countReferences, bind_eq_ok, ensure_eq_ok,
      pure_eq_ok, exists_const, List.forall_mem_cons, List.flatMap_cons, List.length_append]
    constructor
    · rintro ⟨_, ⟨hindex, rfl⟩, hrest⟩
      obtain ⟨hothers, rfl⟩ := ih.mp hrest
      exact ⟨⟨hindex, hothers⟩, by omega⟩
    · rintro ⟨⟨hindex, hothers⟩, rfl⟩
      exact ⟨_, ⟨hindex, rfl⟩, ih.mpr ⟨hothers, by omega⟩⟩

/-- The words an entry of the manifest and its artifact state. -/
def statedWords (artifact : PublishedArtifact) (entry : ManifestEntry)
    (configuration : PackageConfiguration) : List ℤ := [
  1, 8453, configuration.periodStartBlock, configuration.periodEndBlock, entry.seller.val,
  entry.provenWashVolumeRaw, entry.totalSellerVolumeRaw, artifact.evidenceDigest.val,
  entry.blockReferenceCount, artifact.blockAuthenticationChunkSize,
  entry.blockAuthenticationChunkCount, artifact.blockAuthenticationRoot.val]

/-- An artifact that agrees with its entry. -/
structure ArtifactAgrees (artifact : PublishedArtifact) (entry : ManifestEntry)
    (configuration : PackageConfiguration) : Prop where
  production : artifact.version = 3 ∧ artifact.kind = "antseed-wash-trading-seller-proof" ∧
    artifact.proofArchitecture = "direct-seller-v1" ∧ artifact.securityMode = .production ∧
    artifact.proved = true ∧ artifact.verified = true
  program : artifact.seller = entry.seller ∧
    artifact.sellerProgramVKey = configuration.sellerProgramVKey
  length : artifact.publicValues.length = 384
  words : (readWords 12 artifact.publicValues).map Nat.cast =
    statedWords artifact entry configuration
  volumes : entry.provenWashVolumeRaw = artifact.provenWashVolumeRaw ∧
    entry.totalSellerVolumeRaw = artifact.totalSellerVolumeRaw
  counts : entry.blockReferenceCount = artifact.blockReferenceCount ∧
    entry.blockAuthenticationChunkCount = artifact.blockAuthenticationChunks.length
  verifier : artifact.proofBytes ≠ [] ∧
    artifact.proofBytes.take 4 = (abiWord configuration.verifierHash.val).take 4
  numbered : ∀ chunk ∈ artifact.blockAuthenticationChunks.zipIdx, chunk.1.index = chunk.2
  references : (artifact.blockAuthenticationChunks.flatMap (·.references)).length =
    entry.blockReferenceCount

/-- A public value is the word at its index. -/
theorem integer_eq (artifact : PublishedArtifact) (index : ℕ) : integer artifact index =
    ((readWords 12 artifact.publicValues).map (Nat.cast : ℕ → ℤ))[index]?.getD 0 := by
  rw [integer, List.getElem?_map]
  cases (readWords 12 artifact.publicValues)[index]? <;> rfl

/-- An artifact is accepted if it agrees with its entry. -/
theorem validateArtifact_eq_ok : validateArtifact artifact entry configuration = .ok () ↔
    ArtifactAgrees artifact entry configuration := by
  simp only [validateArtifact, bind_eq_ok, ensure_eq_ok, exists_const, countReferences_eq_ok,
    Nat.zero_add]
  constructor
  · rintro ⟨⟨hversion, hkind, harchitecture, hmode, hproved, hverified, hseller, hkey, hlength,
      hproof⟩, ⟨h0, h1, h2, h3, h4, h5, h6, h5', h6', h7, h8, h8', h9, h10, h10', h11, hverifier⟩,
      _, ⟨hnumbered, rfl⟩, hreferences⟩
    refine ⟨⟨hversion, hkind, harchitecture, hmode, hproved, hverified⟩, ⟨hseller, hkey⟩, hlength,
      ?_, ⟨h5.symm.trans h5', h6.symm.trans h6'⟩, ⟨h8.symm.trans h8', h10.symm.trans h10'⟩,
      ⟨hproof, hverifier⟩, hnumbered, hreferences⟩
    rw [statedWords, ← h0, ← h1, ← h2, ← h3, ← h4, ← h5, ← h6, ← h7, ← h8, ← h9, ← h10, ← h11]
    rfl
  · intro h
    have hword : ∀ index, integer artifact index =
        (statedWords artifact entry configuration)[index]?.getD 0 := by
      intro index
      rw [integer_eq, h.words]
    obtain ⟨hversion, hkind, harchitecture, hmode, hproved, hverified⟩ := h.production
    exact ⟨⟨hversion, hkind, harchitecture, hmode, hproved, hverified, h.program.1, h.program.2,
      h.length, h.verifier.1⟩, ⟨hword 0, hword 1, hword 2, hword 3, hword 4, hword 5, hword 6,
      (hword 5).trans h.volumes.1, (hword 6).trans h.volumes.2, hword 7, hword 8,
      (hword 8).trans h.counts.1, hword 9, hword 10, (hword 10).trans h.counts.2, hword 11,
      h.verifier.2⟩, _, ⟨h.numbered, rfl⟩, h.references⟩

end Artifact

/-! ## Whole packages -/

section Package

variable {lib : PackageLib} {files : List Char → Option Bytes}
  {configuration : PackageConfiguration} {manifest : PackageManifest} {entry : ManifestEntry}
  {loaded : LoadedArtifact} {artifacts : List LoadedArtifact}

/-- An entry of the manifest and the artifact that is loaded for it. -/
structure EntryLoads (lib : PackageLib) (files : List Char → Option Bytes)
    (configuration : PackageConfiguration) (entry : ManifestEntry) (loaded : LoadedArtifact) :
    Prop where
  source : loaded.entry = entry
  path : entry.file = artifactPath entry.seller
  unpacked : ∃ compressed, files entry.file = some compressed ∧
    unpackArtifact lib compressed entry = .ok (loaded.bytes, loaded.artifact)
  agrees : ArtifactAgrees loaded.artifact entry configuration

/-- The state of the loop after some artifacts. -/
def packageState (artifacts : List LoadedArtifact) : PackageState where
  artifacts := artifacts
  sellers := artifacts.map (·.entry.seller)
  volume := (artifacts.map (·.entry.provenWashVolumeRaw)).sum
  total := (artifacts.map (·.entry.totalSellerVolumeRaw)).sum

/-- A further artifact is loaded behind the others. -/
theorem packageState_concat (artifacts : List LoadedArtifact) (loaded : LoadedArtifact) :
    packageState (artifacts ++ [loaded]) = ⟨artifacts ++ [loaded],
      artifacts.map (·.entry.seller) ++ [loaded.entry.seller],
      (artifacts.map (·.entry.provenWashVolumeRaw)).sum + loaded.entry.provenWashVolumeRaw,
      (artifacts.map (·.entry.totalSellerVolumeRaw)).sum + loaded.entry.totalSellerVolumeRaw⟩ := by
  simp only [packageState, List.map_append, List.map_singleton, List.sum_append,
    List.sum_singleton]

/-- An entry is loaded if its artifact agrees and its seller is new. -/
theorem loadEntry_eq_ok {s : PackageState} :
    loadEntry lib files configuration (packageState artifacts) entry = .ok s ↔
      ∃ loaded, EntryLoads lib files configuration entry loaded ∧
        entry.seller ∉ artifacts.map (·.entry.seller) ∧
        s = packageState (artifacts ++ [loaded]) := by
  simp only [loadEntry, bind_eq_ok, ensure_eq_ok, okOr_eq_ok, pure_eq_ok, exists_const,
    Prod.exists]
  constructor
  · rintro ⟨⟨hpath, hnew⟩, compressed, hread, bytes, artifact, hunpacked, _, hvalid, rfl⟩
    have hagrees := validateArtifact_eq_ok.mp hvalid
    exact ⟨⟨entry, bytes, artifact⟩, ⟨rfl, hpath, ⟨compressed, hread, hunpacked⟩, hagrees⟩, hnew,
      (packageState_concat artifacts _).symm⟩
  · rintro ⟨⟨_, bytes, artifact⟩, ⟨rfl, hpath, ⟨compressed, hread, hunpacked⟩, hagrees⟩, hnew, rfl⟩
    exact ⟨⟨hpath, hnew⟩, compressed, hread, bytes, artifact, hunpacked, _,
      validateArtifact_eq_ok.mpr hagrees, (packageState_concat artifacts _).symm⟩

/-- The loop over the manifest refines the growing list of artifacts of different sellers. -/
theorem loadEntry_refines (lib : PackageLib) (files : List Char → Option Bytes)
    (configuration : PackageConfiguration) :
    StepRefines (loadEntry lib files configuration) (EntryLoads lib files configuration)
      (fun artifacts => (artifacts.map (·.entry.seller)).Nodup)
      (fun s artifacts => s = packageState artifacts) where
  sound := by
    rintro _ done entry s hdone rfl hstep
    obtain ⟨loaded, hloads, hnew, rfl⟩ := loadEntry_eq_ok.mp hstep
    refine ⟨loaded, hloads, ?_, rfl⟩
    rw [nodup_map_concat, hloads.source]
    exact ⟨hdone, hnew⟩
  complete := by
    rintro _ done entry loaded rfl hloads hdone
    rw [nodup_map_concat, hloads.source] at hdone
    exact ⟨_, loadEntry_eq_ok.mpr ⟨loaded, hloads, hdone.2, rfl⟩, rfl⟩
  prefix_closed := fun hdone => (nodup_map_concat.mp hdone).1

/-- A package is accepted exactly if its entries load to different sellers and add up. -/
theorem loadPackage_eq_ok : loadPackage lib files manifest = .ok artifacts ↔
    (manifest.version = 1 ∧ manifest.kind = "antseed-published-seller-proofs" ∧
      manifest.chainId = 8453 ∧ manifest.proofCount = manifest.artifacts.length) ∧
    List.Forall₂ (EntryLoads lib files manifest.configuration) manifest.artifacts artifacts ∧
    (artifacts.map (·.entry.seller)).Nodup ∧
    (artifacts.map (·.entry.provenWashVolumeRaw)).sum = manifest.totalProvenWashVolumeRaw ∧
    (artifacts.map (·.entry.totalSellerVolumeRaw)).sum = manifest.totalSellerVolumeRaw := by
  have hrefines := loadEntry_refines lib files manifest.configuration
  simp only [loadPackage, bind_eq_ok, ensure_eq_ok, pure_eq_ok, exists_const]
  constructor
  · rintro ⟨hmanifest, s, hrun, ⟨hvolume, htotal⟩, rfl⟩
    obtain ⟨items, hitems, hnodup, rfl⟩ := hrefines.run_sound_nil rfl List.nodup_nil hrun
    exact ⟨hmanifest, hitems, hnodup, hvolume, htotal⟩
  · rintro ⟨hmanifest, hitems, hnodup, hvolume, htotal⟩
    obtain ⟨_, hrun, rfl⟩ := hrefines.run_complete_nil hitems rfl hnodup
    exact ⟨hmanifest, _, hrun, ⟨hvolume, htotal⟩, rfl⟩

/-- The totals of an accepted package are the sums of what the public values of its artifacts
commit: each is the encoding of the words its entry states, and no two name one seller. -/
theorem loadPackage_totals (h : loadPackage lib files manifest = .ok artifacts) :
    artifacts.length = manifest.proofCount ∧
    (artifacts.map fun loaded => integer loaded.artifact 4).Nodup ∧
    (artifacts.map fun loaded => integer loaded.artifact 5).sum =
      manifest.totalProvenWashVolumeRaw ∧
    (artifacts.map fun loaded => integer loaded.artifact 6).sum =
      manifest.totalSellerVolumeRaw ∧
    ∀ loaded ∈ artifacts, ∃ words : List ℕ, loaded.artifact.publicValues = abiWords words ∧
      words.map Nat.cast = statedWords loaded.artifact loaded.entry manifest.configuration := by
  obtain ⟨⟨-, -, -, hcount⟩, hloads, hnodup, hvolume, htotal⟩ := loadPackage_eq_ok.mp h
  have hagrees : ∀ loaded ∈ artifacts,
      ArtifactAgrees loaded.artifact loaded.entry manifest.configuration := by
    intro loaded hmem
    obtain ⟨entry, -, hentry⟩ := forall₂_exists_left hloads hmem
    exact hentry.source ▸ hentry.agrees
  have hword : ∀ loaded ∈ artifacts, ∀ index, integer loaded.artifact index =
      (statedWords loaded.artifact loaded.entry manifest.configuration)[index]?.getD 0 := by
    intro loaded hmem index
    rw [integer_eq, (hagrees loaded hmem).words]
  refine ⟨?_, ?_, ?_, ?_, ?_⟩
  · rw [hcount, hloads.length_eq]
  · have hsellers : (artifacts.map fun loaded => integer loaded.artifact 4) =
        (artifacts.map (·.entry.seller)).map fun seller => (seller.val : ℤ) := by
      rw [List.map_map]
      exact List.map_congr_left fun loaded hmem => hword loaded hmem 4
    rw [hsellers]
    exact hnodup.map fun a b hab => Fin.ext (Int.ofNat_inj.mp hab)
  · rw [← hvolume]
    exact congrArg List.sum (List.map_congr_left fun loaded hmem => hword loaded hmem 5)
  · rw [← htotal]
    exact congrArg List.sum (List.map_congr_left fun loaded hmem => hword loaded hmem 6)
  · intro loaded hmem
    have hentry := hagrees loaded hmem
    exact ⟨_, (abiWords_readWords hentry.length).symm, hentry.words⟩

end Package

/-! ## The artifact of a verified seller -/

section Verified

variable {lib : Lib} {input : SellerProofInput} {verified : VerifiedSeller}
  {entry : ManifestEntry} {configuration : PackageConfiguration} {sellerProgramVKey : B256}
  {proofBytes : Bytes}

/-- The words of a journal have 256 bits. -/
theorem journalWords_lt {journal : SellerJournal} {n : ℕ} (h : n ∈ journalWords journal) :
    n < 2 ^ 256 := by
  simp only [journalWords, List.mem_cons, List.not_mem_nil, or_false] at h
  rcases h with rfl | rfl | rfl | rfl | rfl | rfl | rfl | rfl | rfl | rfl | rfl | rfl <;>
    exact val_lt_abi (by decide) _

/-- The words of the public values are those of the journal. -/
theorem readWords_journalBytes (journal : SellerJournal) :
    readWords 12 (journalBytes journal) = journalWords journal := by
  have hread := @readWords_abiWords (journalWords journal) fun _ h => journalWords_lt h
  have hlength : (journalWords journal).length = 12 := rfl
  rwa [hlength] at hread

/-- An entry of the manifest that states a journal. -/
structure EntryStates (journal : SellerJournal) (sellerProgramVKey : B256) (proofBytes : Bytes)
    (entry : ManifestEntry) (configuration : PackageConfiguration) : Prop where
  seller : entry.seller = journal.seller
  program : configuration.sellerProgramVKey = sellerProgramVKey
  period : configuration.periodStartBlock = journal.periodStartBlock.val ∧
    configuration.periodEndBlock = journal.periodEndBlock.val
  volumes : entry.provenWashVolumeRaw = journal.provenWashVolume.val ∧
    entry.totalSellerVolumeRaw = journal.totalSellerVolume.val
  counts : entry.blockReferenceCount = journal.blockReferenceCount.val ∧
    entry.blockAuthenticationChunkCount = journal.blockAuthenticationChunkCount.val
  verifier : proofBytes ≠ [] ∧
    proofBytes.take 4 = (abiWord configuration.verifierHash.val).take 4

/-- The artifact of a verified seller is accepted exactly if its entry states the journal. -/
theorem sellerArtifact_accepted (hverified : verifySeller lib input = .ok verified) : ∃ built,
    blockAuthenticationChunks lib.toCoreLib verified.blockRefs = .ok built ∧
    (validateArtifact (publishedArtifact verified built sellerProgramVKey proofBytes) entry
        configuration = .ok () ↔
      EntryStates verified.journal sellerProgramVKey proofBytes entry configuration) := by
  obtain ⟨built, hbuilt⟩ := exists_chunks hverified
  have hcounts := journalCounts hverified
  have hchunks := chunksBuilt hcounts hbuilt
  refine ⟨built, hbuilt, ?_⟩
  rw [validateArtifact_eq_ok]
  have hvalues : (publishedArtifact verified built sellerProgramVKey proofBytes).publicValues =
      journalBytes verified.journal := by rw [publishedArtifact]
  constructor
  · intro h
    have hstated := h.words
    have hprogram := h.program
    have hverifier := h.verifier
    rw [hvalues, readWords_journalBytes] at hstated
    simp only [publishedArtifact, chunkedArtifact] at hprogram hverifier
    simp only [journalWords, statedWords, List.map_cons, List.map_nil, List.cons.injEq] at hstated
    obtain ⟨-, -, hstart, hend, -, hproven, htotal, -, hreferences, -, hcount, -⟩ := hstated
    exact ⟨hprogram.1.symm, hprogram.2.symm, ⟨hstart.symm, hend.symm⟩,
      ⟨hproven.symm, htotal.symm⟩, ⟨hreferences.symm, hcount.symm⟩, hverifier⟩
  · intro h
    constructor
    case production => exact ⟨rfl, rfl, rfl, rfl, rfl, rfl⟩
    case program => exact ⟨h.seller.symm, h.program.symm⟩
    case length =>
      rw [hvalues, journalBytes, length_abiWords]
      rfl
    case words =>
      rw [hvalues, readWords_journalBytes]
      simp only [journalWords, statedWords, List.map_cons, List.map_nil, List.cons.injEq, h.seller,
        h.period, h.volumes, h.counts, hcounts.schema, hcounts.chain, publishedArtifact,
        chunkedArtifact, and_true]
      exact ⟨rfl, rfl⟩
    case volumes => exact h.volumes
    case counts =>
      simp only [publishedArtifact, chunkedArtifact, List.length_map, hchunks.count,
        ← hcounts.chunks]
      exact h.counts
    case verifier => exact h.verifier
    case numbered => exact fun chunk hmem => (hchunks.shaped chunk hmem).1
    case references =>
      simp only [publishedArtifact, chunkedArtifact]
      rw [hchunks.references, List.length_map, h.counts.1, hcounts.references]

end Verified

/-- An entry that states the journal of the exemplary seller proof is accepted with its artifact. -/
theorem circuit_accepted : ∃ verified built,
    verifySeller (circuitExemplar none).lib (circuitSeller none) = .ok verified ∧
    validateArtifact (publishedArtifact verified built 7 [0, 0, 0, 9])
      ⟨verified.journal.seller, [], 0, 0, 0, verified.journal.provenWashVolume.val,
        verified.journal.totalSellerVolume.val, verified.journal.blockReferenceCount.val,
        verified.journal.blockAuthenticationChunkCount.val⟩
      ⟨7, verified.journal.periodStartBlock.val, verified.journal.periodEndBlock.val,
        9 * 2 ^ 224⟩ = .ok () := by
  obtain ⟨verified, hverified, _⟩ := toOption_map_eq_some.mp circuitSeller_volume
  obtain ⟨built, -, haccepted⟩ := sellerArtifact_accepted hverified
  have hverifier : ([0, 0, 0, 9] : Bytes).take 4 = (abiWord (9 * 2 ^ 224 : B256).val).take 4 := by
    decide +kernel
  refine ⟨verified, built, hverified, haccepted.mpr ?_⟩
  exact ⟨rfl, rfl, ⟨rfl, rfl⟩, ⟨rfl, rfl⟩, ⟨rfl, rfl⟩, List.cons_ne_nil _ _, hverifier⟩

/-! ## A package of two sellers -/

/-- The journal of a seller with three references in chunks of two. -/
def pairJournal (seller : Address) (proven total : U128) : SellerJournal where
  schemaVersion := 1
  chainId := 8453
  periodStartBlock := 10
  periodEndBlock := 40
  seller := seller
  provenWashVolume := proven
  totalSellerVolume := total
  evidenceDigest := 68
  blockReferenceCount := 3
  blockAuthenticationChunkSize := 2
  blockAuthenticationChunkCount := 2
  blockAuthenticationRoot := 85

/-- The artifact of a seller with its volumes. -/
def pairArtifact (seller : Address) (proven total : U128) : PublishedArtifact :=
  { shortArtifact with
    seller := seller
    securityMode := .production
    proved := true
    verified := true
    sellerProgramVKey := 7
    publicValues := journalBytes (pairJournal seller proven total)
    proofBytes := [0, 0, 0, 9]
    provenWashVolumeRaw := proven.val
    totalSellerVolumeRaw := total.val }

/-- Digests that spell their bytes, no compression, and artifacts of one byte. -/
def pairLib : PackageLib where
  sha256 := fun bytes => Fin.ofNat (2 ^ 256) (beNat bytes)
  gunzip := some
  parse
    | [21] => some (pairArtifact 21 100 200)
    | [22] => some (pairArtifact 22 50 80)
    | _ => none

/-- The entry of a seller in the manifest. -/
def pairEntry (seller : Address) (proven total : ℤ) : ManifestEntry :=
  ⟨seller, artifactPath seller, Fin.ofNat (2 ^ 256) seller.val, 1, Fin.ofNat (2 ^ 256) seller.val,
    proven, total, 3, 2⟩

/-- A manifest of two sellers. -/
def pairManifest : PackageManifest where
  version := 1
  kind := "antseed-published-seller-proofs"
  chainId := 8453
  proofCount := 2
  configuration := ⟨7, 10, 40, 9 * 2 ^ 224⟩
  artifacts := [pairEntry 21 100 200, pairEntry 22 50 80]
  totalProvenWashVolumeRaw := 150
  totalSellerVolumeRaw := 280

/-- The files of the two sellers. -/
def pairFiles (path : List Char) : Option Bytes :=
  if path = artifactPath 21 then some [21]
  else if path = artifactPath 22 then some [22]
  else none

private theorem pairPackage_loads :
    (loadPackage pairLib pairFiles pairManifest).toOption.map List.length = some 2 := by
  decide +kernel

/-- Two artifacts are loaded, and their words add up to the totals of the manifest. -/
theorem pairPackage_totals : ∃ artifacts,
    loadPackage pairLib pairFiles pairManifest = .ok artifacts ∧ artifacts.length = 2 ∧
    (artifacts.map fun loaded => integer loaded.artifact 4).Nodup ∧
    (artifacts.map fun loaded => integer loaded.artifact 5).sum = 150 ∧
    (artifacts.map fun loaded => integer loaded.artifact 6).sum = 280 := by
  obtain ⟨artifacts, hloads, hlength⟩ := toOption_map_eq_some.mp pairPackage_loads
  obtain ⟨-, hnodup, hvolume, htotal, -⟩ := loadPackage_totals hloads
  exact ⟨artifacts, hloads, hlength, hnodup, hvolume, htotal⟩

end LoopProof.Proving
