import LoopProof.Correctness.Chunks
import LoopProof.Predicate.Exemplar

/-!
# Block authentication accepts exactly the built chunks

The builder computes the tree over the chunk leaves, so the verifier's fold reaches the
root from every built chunk, and the tree pins every chunk that reaches it.
-/

namespace LoopProof

variable {lib : CoreLib} {refs : List HistoricalBlockRef}

/-! ## The builder computes the tree -/

/-- The loop reaches the root with enough fuel. -/
theorem merkleRootLoop_eq {d fuel : ℕ} {level : List B256} {root : B256}
    (h : Merkle.Climbs (merkleNode lib) d level root) (hfuel : d ≤ fuel) :
    merkleRootLoop lib fuel level = some root := by
  induction h generalizing fuel with
  | top root =>
    cases fuel with
    | zero => rfl
    | succ fuel => simp [merkleRootLoop]
  | up hlong _ ih =>
    cases fuel with
    | zero => omega
    | succ fuel =>
      rw [merkleRootLoop, if_pos hlong]
      exact ih (by omega)

/-- The sibling of a position within the level. -/
theorem merkleSibling_eq {level : List B256} {i : ℕ} {s : B256} (hi : i < level.length)
    (hs : Merkle.sibling level i = some s) : merkleSibling level i = .ok s := by
  unfold merkleSibling
  unfold Merkle.sibling at hs
  split
  · rename_i heven
    rw [if_pos heven, List.getElem?_eq_getElem hi] at hs
    rw [bind_eq_ok]
    refine ⟨level[i], by rw [indexAt, List.getElem?_eq_getElem hi]; rfl, ?_⟩
    rw [pure_eq_ok]
    cases hnext : level[i + 1]? with
    | none => simpa [hnext] using hs
    | some w => simpa [hnext] using hs
  · rename_i hodd
    rw [if_neg hodd] at hs
    rw [indexAt, hs]
    rfl

/-- The loop lists the siblings with enough fuel. -/
theorem merkleProofLoop_eq {d fuel i : ℕ} {level proof : List B256} {root : B256}
    (h : Merkle.Climbs (merkleNode lib) d level root) (hfuel : d ≤ fuel) (hi : i < level.length)
    (hproof : Merkle.IsProof (merkleNode lib) level i proof) :
    merkleProofLoop lib fuel level i = .ok proof := by
  induction hproof generalizing d fuel with
  | top root =>
    cases fuel with
    | zero => rfl
    | succ fuel => simp [merkleProofLoop]
  | up hlong hsibling _ ih =>
    cases h with
    | top => simp at hlong
    | up _ habove =>
      cases fuel with
      | zero => omega
      | succ fuel =>
        rw [merkleProofLoop, if_pos hlong, bind_eq_ok]
        refine ⟨_, merkleSibling_eq hi hsibling, ?_⟩
        rw [bind_eq_ok]
        refine ⟨_, ih habove (by omega) ?_, rfl⟩
        rw [Merkle.length_nextLevel]
        omega

/-! ## The built chunks -/

/-- The chunk the builder makes at a position. -/
structure IsChunk (lib : CoreLib) (refs : List HistoricalBlockRef) (i : ℕ)
    (chunk : BlockAuthenticationChunk) : Prop where
  index : chunk.index = Fin.ofNat (2 ^ 32) i
  piece : (chunks blockAuthenticationChunkSize refs)[i]? = some chunk.references
  proof : Merkle.IsProof (merkleNode lib) (authenticationLeaves lib refs) i chunk.proof

/-- The number of chunks of a reference list. -/
def chunkCount (refs : List HistoricalBlockRef) : ℕ :=
  (refs.length + blockAuthenticationChunkSize - 1) / blockAuthenticationChunkSize

/-- There is one leaf for each chunk. -/
theorem length_authenticationLeaves (lib : CoreLib) (refs : List HistoricalBlockRef) :
    (authenticationLeaves lib refs).length = chunkCount refs := by
  rw [authenticationLeaves, List.length_map, List.length_zipIdx, length_chunks, chunkCount]

/-- The leaf at a position is that of its chunk. -/
theorem authenticationLeaves_getElem? {i : ℕ} {leaf : B256} :
    (authenticationLeaves lib refs)[i]? = some leaf ↔
      ∃ piece, (chunks blockAuthenticationChunkSize refs)[i]? = some piece ∧
        blockAuthenticationLeaf lib (Fin.ofNat (2 ^ 32) i) piece = leaf := by
  simp [authenticationLeaves, List.getElem?_map, List.getElem?_zipIdx]

/-- References have a chunk. -/
theorem chunkCount_pos (hne : refs ≠ []) : 0 < chunkCount refs := by
  have hlen := List.length_pos_of_ne_nil hne
  exact Nat.div_pos (by omega) (by decide)

/-- The tree over the chunk leaves has a root, which is the committed one. -/
theorem blockAuthenticationRoot_climbs (lib : CoreLib) (hne : refs ≠ []) :
    ∃ d root, d ≤ chunkCount refs ∧
      Merkle.Climbs (merkleNode lib) d (authenticationLeaves lib refs) root ∧
      blockAuthenticationRoot lib refs = some root := by
  have hleaves : authenticationLeaves lib refs ≠ [] := by
    apply List.ne_nil_of_length_pos
    rw [length_authenticationLeaves]
    exact chunkCount_pos hne
  obtain ⟨d, root, hclimb, hd⟩ := Merkle.exists_climbs (merkleNode lib) _ hleaves
  refine ⟨d, root, by rw [length_authenticationLeaves] at hd; omega, hclimb, ?_⟩
  rw [blockAuthenticationRoot, merkleRoot, if_neg (by simpa using hleaves)]
  exact merkleRootLoop_eq hclimb hd.le

/-- A position has one chunk. -/
theorem IsChunk.unique {i : ℕ} {chunk chunk' : BlockAuthenticationChunk}
    (h : IsChunk lib refs i chunk) (h' : IsChunk lib refs i chunk') : chunk = chunk' := by
  obtain ⟨index, references, proof⟩ := chunk
  obtain ⟨index', references', proof'⟩ := chunk'
  obtain rfl : index = index' := h.index.trans h'.index.symm
  obtain rfl : references = references' := Option.some.inj (h.piece.symm.trans h'.piece)
  obtain rfl : proof = proof' := h.proof.unique h'.proof
  rfl

/-- A chunk is within the count. -/
theorem IsChunk.lt_chunkCount {i : ℕ} {chunk : BlockAuthenticationChunk}
    (h : IsChunk lib refs i chunk) : i < chunkCount refs :=
  (chunks_getElem? h.piece).1

/-- One pass of the builder over the numbered pieces. -/
def buildChunk (lib : CoreLib) (refs : List HistoricalBlockRef)
    (entry : List HistoricalBlockRef × ℕ) : Outcome BlockAuthenticationChunk := do
  let proof ← merkleProof lib (authenticationLeaves lib refs) entry.2
  return ⟨Fin.ofNat (2 ^ 32) entry.2, entry.1, proof⟩

/-- Every piece of the references becomes a chunk. -/
theorem buildChunk_spec (lib : CoreLib) (hne : refs ≠ []) {piece : List HistoricalBlockRef} {i : ℕ}
    (hpiece : (chunks blockAuthenticationChunkSize refs)[i]? = some piece) :
    ∃ chunk, buildChunk lib refs (piece, i) = .ok chunk ∧ IsChunk lib refs i chunk := by
  obtain ⟨d, root, hd, hclimb, _⟩ := blockAuthenticationRoot_climbs lib hne
  rw [← length_authenticationLeaves lib] at hd
  have hi : i < (authenticationLeaves lib refs).length := by
    rw [length_authenticationLeaves]
    exact (chunks_getElem? hpiece).1
  obtain ⟨proof, hproof⟩ := hclimb.exists_proof hi
  refine ⟨⟨Fin.ofNat (2 ^ 32) i, piece, proof⟩, ?_, ⟨rfl, hpiece, hproof⟩⟩
  rw [buildChunk, bind_eq_ok]
  exact ⟨proof, merkleProofLoop_eq hclimb hd hi hproof, rfl⟩

/-- Valid references are chunked, and the chunks are those of the tree. -/
theorem blockAuthenticationChunks_spec (lib : CoreLib) (hrefs : ValidRefs refs) :
    ∃ built, blockAuthenticationChunks lib refs = .ok built ∧ built.length = chunkCount refs ∧
      ∀ i chunk, built[i]? = some chunk ↔ IsChunk lib refs i chunk := by
  have hbuilds : ∀ entry ∈ (chunks blockAuthenticationChunkSize refs).zipIdx,
      ∃ chunk, buildChunk lib refs entry = .ok chunk ∧ IsChunk lib refs entry.2 chunk :=
    fun entry hentry => buildChunk_spec lib hrefs.nonempty
      (List.mk_mem_zipIdx_iff_getElem?.mp hentry)
  obtain ⟨built, hbuilt⟩ := exists_forall₂ hbuilds
  have hlen : built.length = chunkCount refs := by
    rw [← hbuilt.length_eq, List.length_zipIdx, length_chunks, chunkCount]
  have hmade : ∀ i chunk, built[i]? = some chunk → IsChunk lib refs i chunk := by
    intro i chunk hchunk
    obtain ⟨⟨piece, j⟩, hentry, _, hspec⟩ := forall₂_getElem? hbuilt hchunk
    rw [List.getElem?_zipIdx, Option.map_eq_some_iff] at hentry
    obtain ⟨_, _, heq⟩ := hentry
    obtain ⟨-, rfl⟩ := Prod.mk.inj heq
    simpa only [Nat.zero_add] using hspec
  refine ⟨built, ?_, hlen, fun i chunk => ⟨hmade i chunk, fun hchunk => ?_⟩⟩
  · unfold blockAuthenticationChunks
    rw [bind_eq_ok]
    refine ⟨(), ensure_eq_ok.mpr hrefs.nonempty, ?_⟩
    rw [bind_eq_ok]
    refine ⟨(), ensure_eq_ok.mpr ⟨anyZero_eq_false.mpr hrefs.hashes,
      outOfOrder_eq_false.mpr hrefs.sorted⟩, ?_⟩
    exact mapM_eq_ok.mpr (hbuilt.imp fun _ _ h => h.1)
  · have hi : i < built.length := hlen ▸ hchunk.lt_chunkCount
    rw [List.getElem?_eq_getElem hi]
    exact congrArg some ((hmade i _ (List.getElem?_eq_getElem hi)).unique hchunk)

/-! ## What is hashed -/

/-- The byte strings hashed to commit to the references: every leaf and every node. -/
def treePreimages (lib : CoreLib) (refs : List HistoricalBlockRef) : Set Bytes :=
  {bytes | ∃ i piece, (chunks blockAuthenticationChunkSize refs)[i]? = some piece ∧
      bytes = leafPreimage (Fin.ofNat (2 ^ 32) i) piece} ∪
    {bytes | ∃ pair ∈ Merkle.treePairs (merkleNode lib) (chunkCount refs)
      (authenticationLeaves lib refs), bytes = nodePreimage pair.1 pair.2}

/-- The byte strings hashed to check a chunk: its leaf and the nodes of its fold. -/
def walkPreimages (lib : CoreLib) (chunk : BlockAuthenticationChunk) : Set Bytes :=
  {leafPreimage chunk.index chunk.references} ∪
    {bytes | ∃ pair ∈ Merkle.walkPairs (merkleNode lib)
      (blockAuthenticationLeaf lib chunk.index chunk.references) chunk.index.val chunk.proof,
      bytes = nodePreimage pair.1 pair.2}

/-- An index of 32 bits is kept. -/
theorem ofNat_val {i : ℕ} (hi : i < 2 ^ 32) : (Fin.ofNat (2 ^ 32) i).val = i :=
  Nat.mod_eq_of_lt hi

/-- A built chunk folds to the root and hashes nothing the tree did not hash. -/
theorem IsChunk.fold {i : ℕ} {chunk : BlockAuthenticationChunk} {root : B256}
    (hcount : chunkCount refs < 2 ^ 32) (hroot : blockAuthenticationRoot lib refs = some root)
    (h : IsChunk lib refs i chunk) :
    Merkle.foldProof (merkleNode lib) (blockAuthenticationLeaf lib chunk.index chunk.references)
        chunk.index.val chunk.proof = root ∧
      walkPreimages lib chunk ⊆ treePreimages lib refs := by
  have hne : refs ≠ [] := by
    rintro rfl
    exact absurd h.lt_chunkCount (by simp [chunkCount, blockAuthenticationChunkSize])
  obtain ⟨d, root', hd, hclimb, hroot'⟩ := blockAuthenticationRoot_climbs lib hne
  obtain rfl : root' = root := Option.some.inj (hroot'.symm.trans hroot)
  have hindex : chunk.index.val = i := by
    rw [h.index]
    exact ofNat_val (h.lt_chunkCount.trans hcount)
  have hleaf : (authenticationLeaves lib refs)[i]? =
      some (blockAuthenticationLeaf lib chunk.index chunk.references) :=
    authenticationLeaves_getElem?.mpr ⟨_, h.piece, by rw [h.index]⟩
  obtain ⟨hfold, hwalk⟩ := hclimb.fold_proof hd hleaf h.proof
  rw [hindex]
  refine ⟨hfold, Set.union_subset ?_ ?_⟩
  · rw [Set.singleton_subset_iff]
    exact Set.mem_union_left _
      ⟨i, chunk.references, h.piece, congrArg (leafPreimage · chunk.references) h.index⟩
  · intro bytes hbytes
    obtain ⟨pair, hpair, hpreimage⟩ := hbytes
    rw [hindex] at hpair
    exact Set.mem_union_right _ ⟨pair, hwalk pair hpair, hpreimage⟩

/-- The root is a hash of one of the tree's byte strings. -/
theorem root_ne_zero {root : B256} (hrefs : ValidRefs refs) (hcount : chunkCount refs < 2 ^ 32)
    (hroot : blockAuthenticationRoot lib refs = some root)
    (hash : CollisionFree lib.keccak256 (treePreimages lib refs)) : root ≠ 0 := by
  obtain ⟨built, _, hlen, hbuilt⟩ := blockAuthenticationChunks_spec lib hrefs
  have hpos : 0 < built.length := hlen ▸ chunkCount_pos hrefs.nonempty
  have hfirst := (hbuilt 0 built[0]).mp (List.getElem?_eq_getElem hpos)
  obtain ⟨hfold, hsub⟩ := hfirst.fold hcount hroot
  rw [← hfold]
  by_cases hproof : built[0].proof = []
  · rw [hproof, Merkle.foldProof, blockAuthenticationLeaf]
    exact hash.nonzero _ (hsub (Set.mem_union_left _ (Set.mem_singleton _)))
  · obtain ⟨pair, hpair, hnode⟩ := Merkle.foldProof_node (merkleNode lib)
      (blockAuthenticationLeaf lib built[0].index built[0].references) built[0].index.val hproof
    rw [hnode, merkleNode]
    exact hash.nonzero _ (hsub (Set.mem_union_right _ ⟨pair, hpair, rfl⟩))

/-! ## The verifier -/

/-- What the verifier requires of a chunk. -/
theorem verifyBlockAuthenticationChunk_eq_true {root : B256} {chunk : BlockAuthenticationChunk} :
    verifyBlockAuthenticationChunk lib root chunk = true ↔
      root ≠ 0 ∧ ValidRefs chunk.references ∧
        chunk.references.length ≤ blockAuthenticationChunkSize ∧
        Merkle.foldProof (merkleNode lib)
          (blockAuthenticationLeaf lib chunk.index chunk.references) chunk.index.val
          chunk.proof = root := by
  unfold verifyBlockAuthenticationChunk
  split
  · rename_i hbad
    simp only [Bool.false_eq_true, false_iff]
    rintro ⟨hroot, hvalid, hlen, _⟩
    rcases hbad with h | h | h | h | h
    · exact hroot h
    · exact hvalid.nonempty h
    · omega
    · simp [anyZero_eq_false.mpr hvalid.hashes] at h
    · simp [outOfOrder_eq_false.mpr hvalid.sorted] at h
  · rename_i hgood
    simp only [not_or, not_lt, Bool.not_eq_true] at hgood
    obtain ⟨hroot, hne, hlen, hzero, horder⟩ := hgood
    rw [beq_iff_eq]
    constructor
    · intro hfold
      exact ⟨hroot, ⟨hne, anyZero_eq_false.mp hzero, outOfOrder_eq_false.mp horder⟩, hlen, hfold⟩
    · rintro ⟨_, _, _, hfold⟩
      exact hfold

/-- A chunk that folds to the root of the references was built for them. -/
theorem isChunk_of_fold {root : B256} {chunk : BlockAuthenticationChunk} (hne : refs ≠ [])
    (hcount : chunkCount refs < 2 ^ 32) (hroot : blockAuthenticationRoot lib refs = some root)
    (hash : CollisionFree lib.keccak256 (treePreimages lib refs ∪ walkPreimages lib chunk))
    (hlen : chunk.references.length ≤ blockAuthenticationChunkSize)
    (hfold : Merkle.foldProof (merkleNode lib)
      (blockAuthenticationLeaf lib chunk.index chunk.references) chunk.index.val
      chunk.proof = root) : IsChunk lib refs chunk.index.val chunk := by
  obtain ⟨d, root', hd, hclimb, hroot'⟩ := blockAuthenticationRoot_climbs lib hne
  obtain rfl : root' = root := Option.some.inj (hroot'.symm.trans hroot)
  let pairs : Set (B256 × B256) :=
    {pair | nodePreimage pair.1 pair.2 ∈ treePreimages lib refs ∪ walkPreimages lib chunk}
  have hinj : Set.InjOn (fun pair => merkleNode lib pair.1 pair.2) pairs := by
    intro a ha b hb hab
    obtain ⟨h1, h2⟩ := nodePreimage_injective (hash.injective ha hb hab)
    exact Prod.ext h1 h2
  have hpiece {i : ℕ} {piece : List HistoricalBlockRef}
      (h : (chunks blockAuthenticationChunkSize refs)[i]? = some piece) :
      leafPreimage (Fin.ofNat (2 ^ 32) i) piece ∈
        treePreimages lib refs ∪ walkPreimages lib chunk :=
    .inl (.inl ⟨i, piece, h, rfl⟩)
  have hleaf : ∀ pair ∈ pairs,
      merkleNode lib pair.1 pair.2 ≠ blockAuthenticationLeaf lib chunk.index chunk.references ∧
        merkleNode lib pair.1 pair.2 ∉ authenticationLeaves lib refs := by
    intro pair hpair
    constructor
    · intro heq
      exact leafPreimage_ne_nodePreimage _ _ _ _
        (hash.injective hpair (.inr (.inl rfl)) heq).symm
    · intro hmem
      obtain ⟨i, hi⟩ := List.getElem?_of_mem hmem
      obtain ⟨piece, hpc, heq⟩ := authenticationLeaves_getElem?.mp hi
      exact leafPreimage_ne_nodePreimage _ _ _ _ (hash.injective (hpiece hpc) hpair heq)
  obtain ⟨i, hi, hreal⟩ := hclimb.pinned hd hinj
    (fun pair hpair => .inl (.inr ⟨pair, hpair, rfl⟩))
    (fun pair hpair => .inr (.inr ⟨pair, hpair, rfl⟩)) hleaf hfold
  obtain ⟨piece, hpc, heq⟩ := authenticationLeaves_getElem?.mp hi
  have hsmall := (mem_chunks (by decide) (List.mem_of_getElem? hpc)).2.1
  have hbound : blockAuthenticationChunkSize < 2 ^ 256 := by decide
  obtain ⟨hindex, rfl⟩ := leafPreimage_injective (hsmall.trans_lt hbound) (hlen.trans_lt hbound)
    (hash.injective (hpiece hpc) (.inr (.inl rfl)) heq)
  have hilt : i < chunkCount refs := (chunks_getElem? hpc).1
  have hval : chunk.index.val = i := by
    rw [← hindex]
    exact ofNat_val (hilt.trans hcount)
  rw [hval] at hreal ⊢
  obtain ⟨_, hproof⟩ := hreal (by rw [length_authenticationLeaves]; exact hilt)
  exact ⟨hindex.symm, hpc, hproof⟩

/-! ## Exactness -/

/-- The positions of the built chunks, in order. -/
theorem built_indices {built : List BlockAuthenticationChunk} (hcount : chunkCount refs < 2 ^ 32)
    (hlen : built.length = chunkCount refs)
    (hbuilt : ∀ i chunk, built[i]? = some chunk ↔ IsChunk lib refs i chunk) :
    built.map (·.index.val) = List.range (chunkCount refs) := by
  apply List.ext_getElem (by rw [List.length_map, hlen, List.length_range])
  intro i hi hi'
  rw [List.length_map] at hi
  rw [List.getElem_map, List.getElem_range,
    ((hbuilt i built[i]).mp (List.getElem?_eq_getElem hi)).index]
  exact ofNat_val ((hlen ▸ hi).trans hcount)

/-- The references of the built chunks concatenate to the list. -/
theorem built_references {built : List BlockAuthenticationChunk}
    (hlen : built.length = chunkCount refs)
    (hbuilt : ∀ i chunk, built[i]? = some chunk ↔ IsChunk lib refs i chunk) :
    built.flatMap (·.references) = refs := by
  have hpieces : built.map (·.references) = chunks blockAuthenticationChunkSize refs := by
    apply List.ext_getElem?
    intro i
    cases hi : built[i]? with
    | none =>
      have hout : built.length ≤ i := List.getElem?_eq_none_iff.mp hi
      rw [List.getElem?_map, hi,
        List.getElem?_eq_none (by rw [length_chunks]; exact hlen.symm.trans_le hout)]
      rfl
    | some chunk =>
      rw [List.getElem?_map, hi, ((hbuilt i chunk).mp hi).piece]
      rfl
  rw [List.flatMap_def, hpieces]
  exact chunks_flatten (by decide) refs

/-- The verifier accepts exactly the built chunks. -/
theorem verify_iff_mem_built {root : B256} {built : List BlockAuthenticationChunk}
    (hrefs : ValidRefs refs) (hcount : chunkCount refs < 2 ^ 32)
    (hroot : blockAuthenticationRoot lib refs = some root)
    (hbuilt : ∀ i chunk, built[i]? = some chunk ↔ IsChunk lib refs i chunk)
    {chunk : BlockAuthenticationChunk}
    (hash : CollisionFree lib.keccak256 (treePreimages lib refs ∪ walkPreimages lib chunk)) :
    verifyBlockAuthenticationChunk lib root chunk = true ↔ chunk ∈ built := by
  rw [verifyBlockAuthenticationChunk_eq_true]
  constructor
  · rintro ⟨_, _, hlen, hfold⟩
    have hmade := isChunk_of_fold hrefs.nonempty hcount hroot hash hlen hfold
    exact List.mem_of_getElem? ((hbuilt _ _).mpr hmade)
  · intro hmem
    obtain ⟨i, hi⟩ := List.getElem?_of_mem hmem
    have hmade := (hbuilt i chunk).mp hi
    obtain ⟨hne, hsmall, hsub⟩ := mem_chunks (by decide) (List.mem_of_getElem? hmade.piece)
    exact ⟨root_ne_zero hrefs hcount hroot (hash.mono Set.subset_union_left),
      hrefs.sublist hne hsub, hsmall, (hmade.fold hcount hroot).1⟩

/-- A chunk built for a list under the same root was built for the other list too. -/
theorem isChunk_transfer {refs' : List HistoricalBlockRef} {root : B256}
    (hrefs : ValidRefs refs) (hcount : chunkCount refs < 2 ^ 32)
    (hcount' : chunkCount refs' < 2 ^ 32)
    (hroot : blockAuthenticationRoot lib refs = some root)
    (hroot' : blockAuthenticationRoot lib refs' = some root)
    (hash : CollisionFree lib.keccak256 (treePreimages lib refs ∪ treePreimages lib refs'))
    {i : ℕ} {chunk : BlockAuthenticationChunk} (h : IsChunk lib refs' i chunk) :
    IsChunk lib refs i chunk := by
  obtain ⟨hfold, hsub⟩ := h.fold hcount' hroot'
  have hsmall := (mem_chunks (by decide) (List.mem_of_getElem? h.piece)).2.1
  have hindex : chunk.index.val = i := by
    rw [h.index]
    exact ofNat_val (h.lt_chunkCount.trans hcount')
  rw [← hindex]
  exact isChunk_of_fold hrefs.nonempty hcount hroot
    (hash.mono (Set.union_subset_union_right _ hsub)) hsmall hfold

/-- Under a hash without collisions and zeros the verifier accepts a chunk exactly when the
builder made it. The built chunks are numbered in order and concatenate to the references,
and no other valid list has the same root. -/
theorem blockAuthentication_exact {lib : CoreLib} {refs : List HistoricalBlockRef}
    (hrefs : ValidRefs refs) (hcount : chunkCount refs < 2 ^ 32) :
    ∃ root built, blockAuthenticationRoot lib refs = some root ∧
      blockAuthenticationChunks lib refs = .ok built ∧
      built.map (·.index.val) = List.range (chunkCount refs) ∧
      built.flatMap (·.references) = refs ∧
      (∀ chunk,
        CollisionFree lib.keccak256 (treePreimages lib refs ∪ walkPreimages lib chunk) →
        (verifyBlockAuthenticationChunk lib root chunk = true ↔ chunk ∈ built)) ∧
      ∀ refs', ValidRefs refs' → chunkCount refs' < 2 ^ 32 →
        CollisionFree lib.keccak256 (treePreimages lib refs ∪ treePreimages lib refs') →
        blockAuthenticationRoot lib refs' = some root → refs' = refs := by
  obtain ⟨_, root, _, _, hroot⟩ := blockAuthenticationRoot_climbs lib hrefs.nonempty
  obtain ⟨built, hrun, hlen, hbuilt⟩ := blockAuthenticationChunks_spec lib hrefs
  refine ⟨root, built, hroot, hrun, built_indices hcount hlen hbuilt,
    built_references hlen hbuilt, fun chunk hash =>
      verify_iff_mem_built hrefs hcount hroot hbuilt hash, ?_⟩
  intro refs' hrefs' hcount' hash hroot'
  obtain ⟨built', _, hlen', hbuilt'⟩ := blockAuthenticationChunks_spec lib hrefs'
  have hsame : built' = built := by
    apply List.ext_getElem?
    intro i
    ext chunk
    rw [hbuilt, hbuilt']
    constructor
    · exact isChunk_transfer hrefs hcount hcount' hroot hroot' hash
    · rw [Set.union_comm] at hash
      exact isChunk_transfer hrefs' hcount' hcount hroot' hroot hash
  rw [← built_references hlen' hbuilt', hsame, built_references hlen hbuilt]

/-! ## A list of two chunks -/

/-- The references of a run of consecutive blocks. -/
def consecutiveRefs (n : ℕ) : List HistoricalBlockRef :=
  (List.range n).map fun i => ⟨Fin.ofNat (2 ^ 64) (1000 + i), Fin.ofNat (2 ^ 256) (1 + i)⟩

/-- The byte strings hashed for the references of one hundred and one blocks. -/
private def twoChunkPreimages (lib : CoreLib) : List Bytes :=
  let first := consecutiveRefs 100
  let second := (consecutiveRefs 101).drop 100
  [leafPreimage 0 first, leafPreimage 1 second,
    nodePreimage (blockAuthenticationLeaf lib 0 first) (blockAuthenticationLeaf lib 1 second)]

private theorem pair_getElem? {α : Type*} {a b x : α} {i : ℕ} (h : [a, b][i]? = some x) :
    i = 0 ∧ x = a ∨ i = 1 ∧ x = b := by
  match i, h with
  | 0, h => exact .inl ⟨rfl, (Option.some.inj h).symm⟩
  | 1, h => exact .inr ⟨rfl, (Option.some.inj h).symm⟩

private theorem treePreimages_twoChunks (lib : CoreLib) :
    treePreimages lib (consecutiveRefs 101) ⊆ {bytes | bytes ∈ twoChunkPreimages lib} := by
  have hchunks : chunks blockAuthenticationChunkSize (consecutiveRefs 101) =
      [consecutiveRefs 100, (consecutiveRefs 101).drop 100] := rfl
  have hpairs : Merkle.treePairs (merkleNode lib) (chunkCount (consecutiveRefs 101))
      (authenticationLeaves lib (consecutiveRefs 101)) =
      [(blockAuthenticationLeaf lib 0 (consecutiveRefs 100),
        blockAuthenticationLeaf lib 1 ((consecutiveRefs 101).drop 100))] := rfl
  intro bytes hbytes
  rcases hbytes with ⟨i, piece, hpiece, heq⟩ | ⟨pair, hpair, heq⟩
  · rw [heq]
    rw [hchunks] at hpiece
    rcases pair_getElem? hpiece with ⟨hi, hp⟩ | ⟨hi, hp⟩
    · rw [hi, hp]
      exact List.mem_cons_self ..
    · rw [hi, hp]
      exact List.mem_cons_of_mem _ (List.mem_cons_self ..)
  · rw [heq]
    rw [hpairs, List.mem_singleton] at hpair
    rw [hpair]
    exact List.mem_cons_of_mem _ (List.mem_cons_of_mem _ (List.mem_cons_self ..))

/-- Both chunks of one hundred and one references verify against their root. -/
theorem two_chunks_verify : ∃ root built,
    blockAuthenticationRoot (circuitExemplar none).lib.toCoreLib (consecutiveRefs 101) = some root ∧
      blockAuthenticationChunks (circuitExemplar none).lib.toCoreLib (consecutiveRefs 101) =
        .ok built ∧ built.length = 2 ∧
      ∀ chunk ∈ built, verifyBlockAuthenticationChunk (circuitExemplar none).lib.toCoreLib root
        chunk = true := by
  have hrefs : ValidRefs (consecutiveRefs 101) := ⟨by decide, by decide, by decide +kernel⟩
  have hcount : chunkCount (consecutiveRefs 101) = 2 := by decide
  obtain ⟨root, built, hroot, hrun, hindices, _, hexact, _⟩ :=
    @blockAuthentication_exact (circuitExemplar none).lib.toCoreLib _ hrefs
      (by rw [hcount]; norm_num)
  have hlen : built.length = 2 := by
    rw [← List.length_map, hindices, List.length_range, hcount]
  obtain ⟨built', hrun', _, hbuilt⟩ :=
    blockAuthenticationChunks_spec (circuitExemplar none).lib.toCoreLib hrefs
  obtain rfl : built' = built := Except.ok.inj (hrun'.symm.trans hrun)
  have hnodup :
      ((twoChunkPreimages (circuitExemplar none).lib.toCoreLib).map exemplarHash).Nodup := by
    decide +kernel
  have hash : CollisionFree exemplarHash
      (treePreimages (circuitExemplar none).lib.toCoreLib (consecutiveRefs 101)) := by
    refine CollisionFree.mono ⟨?_, fun bytes _ => exemplarHash_ne_zero bytes⟩
      (treePreimages_twoChunks _)
    exact fun a ha b hb hab => List.inj_on_of_nodup_map hnodup ha hb hab
  refine ⟨root, built', hroot, hrun, hlen, fun chunk hmem => ?_⟩
  obtain ⟨i, hi⟩ := List.getElem?_of_mem hmem
  obtain ⟨_, hsub⟩ := ((hbuilt i chunk).mp hi).fold (by rw [hcount]; norm_num) hroot
  refine (hexact chunk ?_).mpr hmem
  rw [Set.union_eq_self_of_subset_right hsub]
  exact hash

end LoopProof
