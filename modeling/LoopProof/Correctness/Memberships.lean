import LoopProof.Lib.MerkleSet
import LoopProof.Planner.Bundle
import Mathlib.Data.List.GetD

/-!
# Memberships verify and bind

The root and the memberships of a bundle are made by different loops over the same tree of sorted
hashes. A membership folds to the root; where hashes do not collide, the root determines the
hashes and no other hash has a membership.
-/

namespace LoopProof.Planner

/-- A step as a sibling with its side. -/
def MerkleStep.toPair (step : MerkleStep) : B256 × Bool := (step.sibling, step.siblingOnLeft)

section Trees

variable {lib : HashLib}

theorem merkleRootLoop_eq (fuel : ℕ) (level : List B256) :
    merkleRootLoop lib fuel level = Merkle.reduce lib.node lib.emptyRoot fuel level := by
  induction fuel generalizing level with
  | zero => rfl
  | succ fuel ih => rw [merkleRootLoop, Merkle.reduce, ih]

/-- The root of a bundle is the root of a set of hashes. -/
theorem merkleRoot_eq (hashes : List B256) :
    merkleRoot lib hashes = Merkle.setRoot lib.node lib.emptyRoot hashes := by
  rw [merkleRoot, Merkle.setRoot, merkleRootLoop_eq]

theorem merkleLevels_ne_nil (fuel : ℕ) (level : List B256) : merkleLevels lib fuel level ≠ [] := by
  cases fuel with
  | zero => exact List.cons_ne_nil _ _
  | succ fuel =>
    rw [merkleLevels]
    split <;> exact List.cons_ne_nil _ _

/-- The index of the sibling that a step takes from its level. -/
theorem sibling_eq {level : List B256} {i : ℕ} (hi : i < level.length) :
    Merkle.sibling level i = some (level.getD
      (if i % 2 = 0 then min (i + 1) (level.length - 1) else i - 1) lib.emptyRoot) := by
  unfold Merkle.sibling
  by_cases heven : i % 2 = 0
  · rw [if_pos heven, if_pos heven]
    by_cases hnext : i + 1 < level.length
    · have hmin : min (i + 1) (level.length - 1) = i + 1 := by omega
      rw [hmin, List.getElem?_eq_getElem hnext, Option.some_or, List.getD_eq_getElem _ _ hnext]
    · have hmin : min (i + 1) (level.length - 1) = i := by omega
      rw [hmin, List.getElem?_eq_none (by omega), Option.none_or, List.getElem?_eq_getElem hi,
        List.getD_eq_getElem _ _ hi]
  · have hprevious : i - 1 < level.length := by omega
    rw [if_neg heven, if_neg heven, List.getElem?_eq_getElem hprevious,
      List.getD_eq_getElem _ _ hprevious]

/-- A step stands on the left exactly where its position is odd. -/
theorem siblingOnLeft_iff {level : List B256} {i : ℕ} (hi : i < level.length) :
    ((if i % 2 = 0 then min (i + 1) (level.length - 1) else i - 1) < i) ↔ i % 2 ≠ 0 := by
  split <;> omega

/-- The steps of a position are its proof in the tree, with the sides of its parities. -/
theorem isProof_merkleSteps {d fuel : ℕ} {level : List B256} {root : B256}
    (h : Merkle.Climbs lib.node d level root) (hfuel : d ≤ fuel) {i : ℕ} (hi : i < level.length) :
    let steps := merkleSteps lib (merkleLevels lib fuel level).dropLast i
    Merkle.IsProof lib.node level i (steps.map MerkleStep.sibling) ∧
      ∀ value, Merkle.foldSteps lib.node value (steps.map MerkleStep.toPair) =
        Merkle.foldProof lib.node value i (steps.map MerkleStep.sibling) := by
  induction h generalizing fuel i with
  | top root =>
    have hlevels : merkleLevels lib fuel [root] = [[root]] := by cases fuel <;> rfl
    rw [hlevels]
    exact ⟨.top root i, fun _ => rfl⟩
  | @up d level root hlong _ ih =>
    obtain ⟨fuel, rfl⟩ : ∃ k, fuel = k + 1 := ⟨fuel - 1, by omega⟩
    have hhalf : i / 2 < (Merkle.nextLevel lib.node level).length := by
      rw [Merkle.length_nextLevel]
      omega
    obtain ⟨hproof, hfold⟩ := ih (Nat.le_of_succ_le_succ hfuel) hhalf
    rw [merkleLevels, if_pos hlong, List.dropLast_cons_of_ne_nil (merkleLevels_ne_nil _ _)]
    refine ⟨.up hlong (sibling_eq hi) hproof, ?_⟩
    intro value
    have hside := siblingOnLeft_iff hi
    rw [merkleSteps, List.map_cons, List.map_cons, Merkle.foldProof, ← hfold]
    simp only [MerkleStep.toPair]
    generalize (if i % 2 = 0 then min (i + 1) (level.length - 1) else i - 1) =
      siblingIndex at hside ⊢
    rw [Merkle.foldSteps_cons, decide_eq_decide.mpr hside]
    by_cases heven : i % 2 = 0
    · rw [if_pos heven, decide_eq_false (not_not.mpr heven)]
      rfl
    · rw [if_neg heven, decide_eq_true heven]
      rfl

/-- The earlier membership takes the same steps. -/
theorem legacySteps_eq (fuel : ℕ) (level : List B256) (i : ℕ) :
    legacySteps lib fuel level i = merkleSteps lib (merkleLevels lib fuel level).dropLast i := by
  induction fuel generalizing level i with
  | zero => rfl
  | succ fuel ih =>
    rw [legacySteps, merkleLevels]
    split
    · rw [List.dropLast_cons_of_ne_nil (merkleLevels_ne_nil _ _), merkleSteps, ih]
    · rfl

/-- Either membership is the steps of the hash's position. -/
theorem merkleMembership_eq {hashes : List B256} (hnodup : hashes.Nodup) {target : B256} {i : ℕ}
    (hi : (hashes.insertionSort (· ≤ ·))[i]? = some target) :
    merkleMembership lib hashes target = .ok (merkleSteps lib
        (merkleLevels lib hashes.length (hashes.insertionSort (· ≤ ·))).dropLast i) ∧
      legacyMerkleMembership lib hashes target = merkleMembership lib hashes target := by
  have hsorted : (hashes.insertionSort (· ≤ ·)).Nodup :=
    (List.perm_insertionSort _ _).nodup_iff.mpr hnodup
  have hstored : storeAll (hashes.insertionSort (· ≤ ·)).zipIdx target = some i := by
    rw [storeAll_eq_some (by rw [List.zipIdx_map_fst]; exact hsorted)]
    exact List.mem_zipIdx_iff_getElem?.mpr hi
  have hfound : (hashes.insertionSort (· ≤ ·)).findIdx? (· == target) = some i := by
    obtain ⟨hlt, heq⟩ := List.getElem?_eq_some_iff.mp hi
    rw [List.findIdx?_eq_some_iff_getElem]
    refine ⟨hlt, by rw [heq]; exact BEq.rfl, ?_⟩
    intro j hj hsame
    have hother : (hashes.insertionSort (· ≤ ·))[j] = target := LawfulBEq.eq_of_beq hsame
    have hindex := (@List.Nodup.getElem_inj_iff _ _ hsorted _ (hj.trans hlt) _ hlt).mp
      (hother.trans heq.symm)
    omega
  rw [legacyMerkleMembership, merkleMembership, hstored, hfound]
  simp only [legacySteps_eq, List.length_insertionSort]
  exact ⟨rfl, trivial⟩

end Trees

/-- Memberships verify and bind. A membership of a set of distinct hashes folds to its root, in
any order of the hashes and by either loop. Where hashes do not collide, the root determines the
set, and whatever steps fold from a leaf hash to the root, the leaf is in the set. -/
theorem merkleMembership_binds {lib : HashLib} {pairs : Set (B256 × B256)} {leaves : Set B256}
    (hhash : Merkle.Collisionless lib.node pairs leaves) (hempty : lib.emptyRoot ∉ leaves)
    (hnode : ∀ pair ∈ pairs, lib.node pair.1 pair.2 ≠ lib.emptyRoot) :
    (∀ hashes : List B256, hashes.Nodup → ∀ target ∈ hashes, ∃ steps,
      Merkle.foldSteps lib.node target (steps.map MerkleStep.toPair) = merkleRoot lib hashes ∧
      ∀ order : List B256, order.Perm hashes →
        merkleMembership lib order target = .ok steps ∧
        legacyMerkleMembership lib order target = .ok steps ∧
        merkleRoot lib order = merkleRoot lib hashes) ∧
    (∀ left right : List B256, left.Nodup → right.Nodup →
      (∀ leaf ∈ left ++ right, leaf ∈ leaves) →
      (∀ pair ∈ Merkle.setPairs lib.node left ++ Merkle.setPairs lib.node right, pair ∈ pairs) →
      merkleRoot lib left = merkleRoot lib right → left.Perm right) ∧
    ∀ (hashes : List B256) (leaf : B256) (steps : List MerkleStep), hashes ≠ [] →
      (∀ hash ∈ leaf :: hashes, hash ∈ leaves) →
      (∀ pair ∈ Merkle.setPairs lib.node hashes ++
        Merkle.stepPairs lib.node leaf (steps.map MerkleStep.toPair), pair ∈ pairs) →
      Merkle.foldSteps lib.node leaf (steps.map MerkleStep.toPair) = merkleRoot lib hashes →
      leaf ∈ hashes := by
  refine ⟨?_, ?_, ?_⟩
  · intro hashes hnodup target htarget
    obtain ⟨d, hd, hclimb⟩ := @Merkle.climbs_setRoot _ lib.node lib.emptyRoot _ _
      (List.ne_nil_of_mem htarget)
    obtain ⟨i, hi⟩ := List.getElem?_of_mem ((List.mem_insertionSort (· ≤ ·)).mpr htarget)
    obtain ⟨hlt, _⟩ := List.getElem?_eq_some_iff.mp hi
    obtain ⟨hproof, hfold⟩ := isProof_merkleSteps hclimb hd hlt
    refine ⟨_, (hfold target).trans ?_, ?_⟩
    · rw [merkleRoot_eq]
      exact (hclimb.fold_proof le_rfl hi hproof).1
    · intro order horder
      have hsorted : order.insertionSort (· ≤ ·) = hashes.insertionSort (· ≤ ·) :=
        Merkle.insertionSort_perm horder
      obtain ⟨hsteps, hlegacy⟩ := @merkleMembership_eq lib _ (horder.nodup_iff.mpr hnodup) target i
        (by rw [hsorted]; exact hi)
      rw [hsorted, horder.length_eq] at hsteps
      exact ⟨hsteps, hlegacy.trans hsteps,
        by rw [merkleRoot_eq, merkleRoot_eq, Merkle.setRoot_perm horder]⟩
  · intro left right hleft hright hknown hpairs hroot
    rw [merkleRoot_eq, merkleRoot_eq] at hroot
    obtain ⟨hknownLeft, hknownRight⟩ := List.forall_mem_append.mp hknown
    obtain ⟨hpairsLeft, hpairsRight⟩ := List.forall_mem_append.mp hpairs
    exact Merkle.perm_of_setRoot hhash hpairsLeft hknownLeft hpairsRight hknownRight hempty hnode
      hleft hright hroot
  · intro hashes leaf steps hne hknown hpairs hfold
    rw [merkleRoot_eq] at hfold
    obtain ⟨hleaf, hknown⟩ := List.forall_mem_cons.mp hknown
    obtain ⟨htree, hwalk⟩ := List.forall_mem_append.mp hpairs
    exact Merkle.mem_of_foldSteps hhash htree hknown hne hleaf hwalk hfold

/-- Hashes that do not collide on the tree of three leaves. -/
def sampleHashes : HashLib where
  hashDependency := fun _ => 0
  hashClaimId := fun _ => 0
  hashClaimLeaf := fun _ => 0
  compareJson := fun _ _ => .eq
  node left right := 1000 * left + right
  emptyRoot := 0

/-- What is hashed for the root of three leaves and on the way from a fourth one. -/
def samplePairs : List (B256 × B256) := [(1, 2), (3, 3), (1002, 3003), (1, 4), (1004, 3003)]

/-- The membership of the second of three hashes folds to their root, and its steps do not lead a
fourth hash there. -/
theorem threeHashes_bind :
    (∃ steps, merkleMembership sampleHashes [3, 1, 2] 2 = .ok steps ∧
      Merkle.foldSteps sampleHashes.node 2 (steps.map MerkleStep.toPair) =
        merkleRoot sampleHashes [3, 1, 2]) ∧
    Merkle.foldSteps sampleHashes.node 4 [(1, true), (3003, false)] ≠
      merkleRoot sampleHashes [3, 1, 2] := by
  -- A test over the list is decided along the list, not over all pairs of hashes.
  have hinjective : samplePairs.all (fun left => samplePairs.all fun right =>
      decide (sampleHashes.node left.1 left.2 = sampleHashes.node right.1 right.2 →
        left = right)) = true := by
    decide +kernel
  have happart : samplePairs.all (fun pair =>
      decide (sampleHashes.node pair.1 pair.2 ∉ [1, 2, 3, 4])) = true := by
    decide +kernel
  have hnode : samplePairs.all (fun pair =>
      decide (sampleHashes.node pair.1 pair.2 ≠ sampleHashes.emptyRoot)) = true := by
    decide +kernel
  simp only [List.all_eq_true, decide_eq_true_eq] at hinjective happart hnode
  have hhash : Merkle.Collisionless sampleHashes.node {pair | pair ∈ samplePairs}
      {leaf | leaf ∈ [1, 2, 3, 4]} :=
    ⟨fun left hleft right hright => hinjective left hleft right hright, happart⟩
  have hbinds := merkleMembership_binds hhash (by decide +kernel) hnode
  obtain ⟨steps, hfold, hsteps⟩ := hbinds.1 [3, 1, 2] (by decide +kernel) 2 (by decide +kernel)
  refine ⟨⟨steps, (hsteps _ (List.Perm.refl _)).1, hfold⟩, ?_⟩
  intro hroot
  have hknown : ∀ hash ∈ ([4, 3, 1, 2] : List B256), hash ∈ ([1, 2, 3, 4] : List B256) := by
    simp
  have hpairs : ∀ pair ∈ Merkle.setPairs sampleHashes.node [3, 1, 2] ++
      Merkle.stepPairs sampleHashes.node 4 [(1, true), (3003, false)], pair ∈ samplePairs := by
    have htree : Merkle.setPairs sampleHashes.node [3, 1, 2] = samplePairs.take 3 := by
      decide +kernel
    have hwalk : Merkle.stepPairs sampleHashes.node 4 [(1, true), (3003, false)] =
        samplePairs.drop 3 := by
      decide +kernel
    rw [htree, hwalk, List.take_append_drop]
    exact fun _ => id
  have hmem := hbinds.2.2 [3, 1, 2] 4 [⟨1, true⟩, ⟨3003, false⟩] (List.cons_ne_nil _ _) hknown
    hpairs hroot
  revert hmem
  decide +kernel

end LoopProof.Planner
