import LoopProof.Predicate.BlockAuthentication

/-!
# Block-authentication chunks are exact

The builder's root and proofs are those of the tree over the chunk leaves. A leaf is never
a node, since their preimages differ in length, and a leaf names its own position, so the
verifier accepts exactly the chunks the builder made.
-/

namespace LoopProof

variable {lib : CoreLib}

/-! ## Chunks -/

section Chunking

variable {α : Type*} {size : ℕ} {xs : List α}

private theorem flatMap_range_take (size k : ℕ) (xs : List α) :
    ((List.range k).map fun i => (xs.drop (size * i)).take size).flatten = xs.take (size * k) := by
  induction k with
  | zero => simp
  | succ k ih =>
    rw [List.range_succ, List.map_append, List.flatten_append, ih, List.map_singleton,
      List.flatten_singleton, Nat.mul_succ, List.take_add]

/-- The number of chunks covers the list. -/
private theorem length_le_chunks (hsize : 0 < size) (n : ℕ) :
    n ≤ size * ((n + size - 1) / size) := by
  have hmod := Nat.mod_lt (n + size - 1) hsize
  have hdiv := Nat.div_add_mod (n + size - 1) size
  omega

/-- The chunks of a list concatenate to it. -/
theorem chunks_flatten (hsize : 0 < size) (xs : List α) : (chunks size xs).flatten = xs := by
  rw [chunks, flatMap_range_take]
  exact List.take_of_length_le (length_le_chunks hsize xs.length)

/-- The number of chunks, rounded up. -/
theorem length_chunks (size : ℕ) (xs : List α) :
    (chunks size xs).length = (xs.length + size - 1) / size := by
  rw [chunks, List.length_map, List.length_range]

/-- The chunk at a position. -/
theorem chunks_getElem? {i : ℕ} {chunk : List α} (h : (chunks size xs)[i]? = some chunk) :
    i < (xs.length + size - 1) / size ∧ chunk = (xs.drop (size * i)).take size := by
  rw [chunks, List.getElem?_map, Option.map_eq_some_iff] at h
  obtain ⟨j, hj, rfl⟩ := h
  obtain ⟨hlt, hij⟩ := List.getElem?_eq_some_iff.mp hj
  rw [List.getElem_range] at hij
  subst hij
  exact ⟨by simpa using hlt, rfl⟩

/-- A chunk is a nonempty piece of the list, no longer than the size. -/
theorem mem_chunks (hsize : 0 < size) {chunk : List α} (h : chunk ∈ chunks size xs) :
    chunk ≠ [] ∧ chunk.length ≤ size ∧ chunk.Sublist xs := by
  obtain ⟨i, hi⟩ := List.getElem?_of_mem h
  obtain ⟨hlt, rfl⟩ := chunks_getElem? hi
  have hmul := Nat.div_mul_le_self (xs.length + size - 1) size
  have hstep := Nat.mul_le_mul_left size (Nat.succ_le_of_lt hlt)
  rw [Nat.mul_comm] at hmul
  have hstart : size * i < xs.length := by
    rw [Nat.mul_succ] at hstep
    omega
  refine ⟨?_, List.length_take_le _ _, (List.take_sublist _ _).trans (List.drop_sublist _ _)⟩
  intro hnil
  have hlen := congrArg List.length hnil
  rw [List.length_take, List.length_drop, List.length_nil] at hlen
  omega

end Chunking

/-! ## References -/

/-- The references a verifier accepts: nonzero hashes in strictly increasing order. -/
structure ValidRefs (refs : List HistoricalBlockRef) : Prop where
  nonempty : refs ≠ []
  hashes : ∀ r ∈ refs, r.blockHash ≠ 0
  sorted : refs.Pairwise fun a b => a.number < b.number

/-- References are in order if their numbers increase strictly. -/
theorem outOfOrder_eq_false {refs : List HistoricalBlockRef} :
    outOfOrder refs = false ↔ refs.Pairwise fun a b => a.number < b.number := by
  have : IsTrans HistoricalBlockRef fun a b => a.number < b.number := ⟨fun _ _ _ => lt_trans⟩
  rw [← List.isChain_iff_pairwise]
  induction refs with
  | nil => simp [outOfOrder]
  | cons a rest ih =>
    cases rest with
    | nil => simp [outOfOrder]
    | cons b rest =>
      rw [List.isChain_cons_cons]
      refine Iff.trans ?_ (and_congr_right fun _ => ih)
      simp [outOfOrder]

/-- No reference has the hash zero. -/
theorem anyZero_eq_false {refs : List HistoricalBlockRef} :
    refs.any (·.blockHash == 0) = false ↔ ∀ r ∈ refs, r.blockHash ≠ 0 := by
  simp [List.any_eq_false]

/-- A nonempty piece of valid references is valid. -/
theorem ValidRefs.sublist {refs piece : List HistoricalBlockRef} (h : ValidRefs refs)
    (hne : piece ≠ []) (hsub : piece.Sublist refs) : ValidRefs piece :=
  ⟨hne, fun r hr => h.hashes r (hsub.subset hr), h.sorted.sublist hsub⟩

/-! ## Preimages -/

/-- The length of what a leaf is hashed from. -/
theorem length_leafPreimage (index : U32) (refs : List HistoricalBlockRef) :
    (leafPreimage index refs).length = 96 + 64 * refs.length := by
  rw [leafPreimage, length_abiWords, List.length_cons, List.length_cons, List.length_cons,
    List.length_flatMap]
  simp only [List.length_cons, List.length_nil, List.map_const', List.sum_replicate_nat]
  omega

/-- The length of what a node is hashed from. -/
theorem length_nodePreimage (a b : B256) : (nodePreimage a b).length = 64 := by
  rw [nodePreimage, length_abiWords, List.length_cons, List.length_cons, List.length_nil]

/-- A leaf is never hashed from the bytes of a node. -/
theorem leafPreimage_ne_nodePreimage (index : U32) (refs : List HistoricalBlockRef) (a b : B256) :
    leafPreimage index refs ≠ nodePreimage a b := by
  intro h
  have hlen := congrArg List.length h
  rw [length_leafPreimage, length_nodePreimage] at hlen
  omega

/-- Different pairs of nodes are hashed from different bytes. -/
theorem nodePreimage_injective {a b c d : B256} (h : nodePreimage a b = nodePreimage c d) :
    a = c ∧ b = d := by
  have hfit (x y : B256) : ∀ n ∈ [x.val, y.val], n < 2 ^ 256 := by
    simp only [List.forall_mem_cons, List.not_mem_nil, false_implies, implies_true]
    exact ⟨x.isLt, y.isLt, trivial⟩
  have hw := abiWords_injective (hfit a b) (hfit c d) h
  simpa only [List.cons.injEq, Fin.val_inj, and_true] using hw

private theorem refWords_injective {refs refs' : List HistoricalBlockRef}
    (h : (refs.flatMap fun r => [r.number.val, r.blockHash.val]) =
      refs'.flatMap fun r => [r.number.val, r.blockHash.val]) : refs = refs' := by
  induction refs generalizing refs' with
  | nil =>
    cases refs' with
    | nil => rfl
    | cons r' refs' => simp at h
  | cons r refs ih =>
    cases refs' with
    | nil => simp at h
    | cons r' refs' =>
      simp only [List.flatMap_cons, List.cons_append, List.nil_append, List.cons.injEq,
        Fin.val_inj] at h
      obtain ⟨hnumber, hhash, hrest⟩ := h
      obtain ⟨number, hash⟩ := r
      obtain ⟨number', hash'⟩ := r'
      simp only at hnumber hhash
      rw [hnumber, hhash, ih hrest]

/-- A leaf names its index and its references. -/
theorem leafPreimage_injective {index index' : U32} {refs refs' : List HistoricalBlockRef}
    (hlen : refs.length < 2 ^ 256) (hlen' : refs'.length < 2 ^ 256)
    (h : leafPreimage index refs = leafPreimage index' refs') : index = index' ∧ refs = refs' := by
  have hfit (i : U32) (rs : List HistoricalBlockRef) (hrs : rs.length < 2 ^ 256) :
      ∀ n ∈ i.val :: 64 :: rs.length ::
        rs.flatMap fun r => [r.number.val, r.blockHash.val], n < 2 ^ 256 := by
    simp only [List.forall_mem_cons, List.mem_flatMap]
    refine ⟨val_lt_abi (by decide) i, by norm_num, hrs, ?_⟩
    rintro n ⟨r, _, hn⟩
    simp only [List.mem_cons, List.not_mem_nil, or_false] at hn
    rcases hn with rfl | rfl
    · exact val_lt_abi (by decide) r.number
    · exact r.blockHash.isLt
  have hw := abiWords_injective (hfit index refs hlen) (hfit index' refs' hlen') h
  simp only [List.cons.injEq, Fin.val_inj, true_and] at hw
  exact ⟨hw.1, refWords_injective hw.2.2⟩

end LoopProof
