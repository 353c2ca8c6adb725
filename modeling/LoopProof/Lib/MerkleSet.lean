import LoopProof.Lib.Merkle
import Mathlib.Data.List.Sort

/-!
# Merkle trees over sets of leaves

The tree over the sorted leaves of a set, and proofs that say of every sibling on which side it
stands. Where node hashing is injective on the hashed pairs and leaves are never node values, a
proof that reaches the root starts at a leaf of the set, and the root determines the set.
-/

namespace LoopProof.Merkle

variable {α : Type*} (node : α → α → α) (empty : α)

/-- The root of a level, for at most as many levels as there is fuel. -/
def reduce : ℕ → List α → α
  | 0, level => level.headD empty
  | fuel + 1, level =>
    if 1 < level.length then reduce fuel (nextLevel node level) else level.headD empty

/-! ## Proofs with sides -/

/-- Fold a proof from a value; each sibling comes with whether it stands on the left. -/
def foldSteps (value : α) (steps : List (α × Bool)) : α :=
  steps.foldl (fun v step => if step.2 then node step.1 v else node v step.1) value

/-- The pairs hashed by a fold. -/
def stepPairs : α → List (α × Bool) → List (α × α)
  | _, [] => []
  | v, (s, true) :: steps => (s, v) :: stepPairs (node s v) steps
  | v, (s, false) :: steps => (v, s) :: stepPairs (node v s) steps

/-- The position whose parities are the sides of a proof. -/
def stepIndex : List (α × Bool) → ℕ
  | [] => 0
  | (_, true) :: steps => 2 * stepIndex steps + 1
  | (_, false) :: steps => 2 * stepIndex steps

variable {node empty}

theorem foldSteps_cons (value s : α) (onLeft : Bool) (steps : List (α × Bool)) :
    foldSteps node value ((s, onLeft) :: steps) =
      foldSteps node (if onLeft then node s value else node value s) steps := rfl

theorem Climbs.reduce_eq {d fuel : ℕ} {level : List α} {root : α} (h : Climbs node d level root)
    (hfuel : d ≤ fuel) : reduce node empty fuel level = root := by
  induction h generalizing fuel with
  | top root => cases fuel <;> rfl
  | up hlong _ ih =>
    obtain ⟨fuel, rfl⟩ : ∃ k, fuel = k + 1 := ⟨fuel - 1, by omega⟩
    rw [reduce, if_pos hlong]
    exact ih (by omega)

/-- A proof with sides is the proof of its position. -/
theorem foldSteps_eq (value : α) (steps : List (α × Bool)) :
    foldSteps node value steps =
      foldProof node value (stepIndex steps) (steps.map Prod.fst) := by
  induction steps generalizing value with
  | nil => rfl
  | cons step steps ih =>
    obtain ⟨s, onLeft⟩ := step
    cases onLeft with
    | true =>
      have hodd : ¬ (2 * stepIndex steps + 1) % 2 = 0 := by omega
      have hhalf : (2 * stepIndex steps + 1) / 2 = stepIndex steps := by omega
      rw [List.map_cons, stepIndex, foldProof, if_neg hodd, hhalf, ← ih]
      rfl
    | false =>
      have heven : 2 * stepIndex steps % 2 = 0 := by omega
      have hhalf : 2 * stepIndex steps / 2 = stepIndex steps := by omega
      rw [List.map_cons, stepIndex, foldProof, if_pos heven, hhalf, ← ih]
      rfl

theorem stepPairs_eq (value : α) (steps : List (α × Bool)) :
    stepPairs node value steps =
      walkPairs node value (stepIndex steps) (steps.map Prod.fst) := by
  induction steps generalizing value with
  | nil => rfl
  | cons step steps ih =>
    obtain ⟨s, onLeft⟩ := step
    cases onLeft with
    | true =>
      have hodd : ¬ (2 * stepIndex steps + 1) % 2 = 0 := by omega
      have hhalf : (2 * stepIndex steps + 1) / 2 = stepIndex steps := by omega
      rw [List.map_cons, stepIndex, walkPairs, if_neg hodd, if_neg hodd, hhalf, ← ih]
      rfl
    | false =>
      have heven : 2 * stepIndex steps % 2 = 0 := by omega
      have hhalf : 2 * stepIndex steps / 2 = stepIndex steps := by omega
      rw [List.map_cons, stepIndex, walkPairs, if_pos heven, if_pos heven, hhalf, ← ih]
      rfl

/-! ## Trees of sets -/

variable [LinearOrder α]

variable (node empty) in
/-- The root of the tree over sorted leaves; no leaves have a root of their own. -/
def setRoot (leaves : List α) : α :=
  if leaves = [] then empty
  else reduce node empty leaves.length (leaves.insertionSort (· ≤ ·))

variable (node) in
/-- The pairs hashed for the root of a set. -/
def setPairs (leaves : List α) : List (α × α) :=
  treePairs node leaves.length (leaves.insertionSort (· ≤ ·))

/-- Where hashes do not collide: on the hashed pairs, and with the leaves. -/
structure Collisionless (node : α → α → α) (pairs : Set (α × α)) (leaves : Set α) : Prop where
  injective : Set.InjOn (fun pair => node pair.1 pair.2) pairs
  apart : ∀ pair ∈ pairs, node pair.1 pair.2 ∉ leaves

/-- A set's leaves are sorted in one way. -/
theorem insertionSort_perm {left right : List α} (h : left.Perm right) :
    left.insertionSort (· ≤ ·) = right.insertionSort (· ≤ ·) :=
  List.Perm.eq_of_pairwise (fun _ _ _ _ => le_antisymm) (List.pairwise_insertionSort _ _)
    (List.pairwise_insertionSort _ _)
    (((List.perm_insertionSort _ _).trans h).trans (List.perm_insertionSort _ _).symm)

theorem setRoot_perm {left right : List α} (h : left.Perm right) :
    setRoot node empty left = setRoot node empty right := by
  have hempty : left = [] ↔ right = [] := by
    rw [← List.length_eq_zero_iff, h.length_eq, List.length_eq_zero_iff]
  simp only [setRoot, insertionSort_perm h, h.length_eq, hempty]

/-- A set's sorted leaves reduce to its root. -/
theorem climbs_setRoot {leaves : List α} (hne : leaves ≠ []) :
    ∃ d, d ≤ leaves.length ∧
      Climbs node d (leaves.insertionSort (· ≤ ·)) (setRoot node empty leaves) := by
  have hsorted : leaves.insertionSort (· ≤ ·) ≠ [] := by
    intro hnil
    exact hne ((hnil ▸ List.perm_insertionSort (· ≤ ·) leaves).symm.eq_nil)
  obtain ⟨d, root, hclimb, hd⟩ := exists_climbs node _ hsorted
  rw [List.length_insertionSort] at hd
  refine ⟨d, hd.le, ?_⟩
  rw [setRoot, if_neg hne, hclimb.reduce_eq hd.le]
  exact hclimb

section Binding

variable {pairs : Set (α × α)} {known : Set α} {leaves : List α}
  (hhash : Collisionless node pairs known) (htree : ∀ pair ∈ setPairs node leaves, pair ∈ pairs)
  (hleaves : ∀ leaf ∈ leaves, leaf ∈ known)

include hhash htree hleaves

/-- Only proofs from a leaf of the set reach its root. -/
theorem mem_of_foldProof (hne : leaves ≠ []) {leaf : α} {i : ℕ} {proof : List α}
    (hleaf : leaf ∈ known) (hwalk : ∀ pair ∈ walkPairs node leaf i proof, pair ∈ pairs)
    (hfold : foldProof node leaf i proof = setRoot node empty leaves) : leaf ∈ leaves := by
  obtain ⟨d, hd, hclimb⟩ := @climbs_setRoot _ node empty _ _ hne
  have happart : ∀ pair ∈ pairs, node pair.1 pair.2 ≠ leaf ∧
      node pair.1 pair.2 ∉ leaves.insertionSort (· ≤ ·) := by
    intro pair hpair
    refine ⟨fun heq => hhash.apart pair hpair (heq ▸ hleaf), fun hmem => ?_⟩
    exact hhash.apart pair hpair (hleaves _ ((List.mem_insertionSort _).mp hmem))
  obtain ⟨position, hposition, _⟩ :=
    hclimb.pinned hd hhash.injective htree hwalk happart hfold
  exact (List.mem_insertionSort _).mp (List.mem_of_getElem? hposition)

/-- Only steps from a leaf of the set reach its root. -/
theorem mem_of_foldSteps (hne : leaves ≠ []) {leaf : α} {steps : List (α × Bool)}
    (hleaf : leaf ∈ known) (hwalk : ∀ pair ∈ stepPairs node leaf steps, pair ∈ pairs)
    (hfold : foldSteps node leaf steps = setRoot node empty leaves) : leaf ∈ leaves := by
  rw [foldSteps_eq] at hfold
  rw [stepPairs_eq] at hwalk
  exact mem_of_foldProof hhash htree hleaves hne hleaf hwalk hfold

omit hhash in
/-- The root of a set is one of its leaves or the node of a hashed pair. -/
theorem setRoot_cases (hne : leaves ≠ []) :
    setRoot node empty leaves ∈ known ∨
      ∃ pair ∈ pairs, node pair.1 pair.2 = setRoot node empty leaves := by
  obtain ⟨leaf, hleaf⟩ := List.exists_mem_of_ne_nil _ hne
  obtain ⟨d, hd, hclimb⟩ := @climbs_setRoot _ node empty _ _ hne
  obtain ⟨i, hi⟩ := List.getElem?_of_mem ((List.mem_insertionSort (· ≤ ·)).mpr hleaf)
  obtain ⟨hlt, _⟩ := List.getElem?_eq_some_iff.mp hi
  obtain ⟨proof, hproof⟩ := hclimb.exists_proof hlt
  obtain ⟨hfold, hwalk⟩ := hclimb.fold_proof hd hi hproof
  by_cases hnil : proof = []
  · rw [hnil] at hfold
    exact .inl (hfold ▸ hleaves leaf hleaf)
  · obtain ⟨pair, hpair, hnode⟩ := foldProof_node node leaf i hnil
    exact .inr ⟨pair, htree pair (hwalk pair hpair), hnode.symm.trans hfold⟩

variable {other : List α} (hother : ∀ pair ∈ setPairs node other, pair ∈ pairs)
  (hothers : ∀ leaf ∈ other, leaf ∈ known)

include hother hothers in
theorem subset_of_setRoot (hne : leaves ≠ []) (hne' : other ≠ [])
    (hroot : setRoot node empty leaves = setRoot node empty other) : other ⊆ leaves := by
  intro leaf hleaf
  obtain ⟨d, hd, hclimb⟩ := @climbs_setRoot _ node empty _ _ hne'
  obtain ⟨i, hi⟩ := List.getElem?_of_mem ((List.mem_insertionSort (· ≤ ·)).mpr hleaf)
  obtain ⟨hlt, _⟩ := List.getElem?_eq_some_iff.mp hi
  obtain ⟨proof, hproof⟩ := hclimb.exists_proof hlt
  obtain ⟨hfold, hwalk⟩ := hclimb.fold_proof hd hi hproof
  apply mem_of_foldProof hhash htree hleaves hne (hothers leaf hleaf)
    (fun pair hpair => hother pair (hwalk pair hpair))
  exact hfold.trans hroot.symm

include hother hothers in
/-- Sets of leaves with one root are equal, where the empty set's root is no leaf or node. -/
theorem perm_of_setRoot (hempty : empty ∉ known)
    (hnode : ∀ pair ∈ pairs, node pair.1 pair.2 ≠ empty) (hnodup : leaves.Nodup)
    (hnodup' : other.Nodup) (hroot : setRoot node empty leaves = setRoot node empty other) :
    leaves.Perm other := by
  have hnonempty {xs : List α} (hne : xs ≠ []) (hpairs : ∀ pair ∈ setPairs node xs, pair ∈ pairs)
      (hmem : ∀ leaf ∈ xs, leaf ∈ known) : setRoot node empty xs ≠ empty := by
    intro heq
    rcases @setRoot_cases _ node empty _ _ _ _ hpairs hmem hne with hleaf | ⟨pair, hpair, h⟩
    · exact hempty (heq ▸ hleaf)
    · exact hnode pair hpair (h.trans heq)
  by_cases hne : leaves = []
  · by_cases hne' : other = []
    · rw [hne, hne']
    · rw [hne] at hroot
      exact absurd hroot.symm (hnonempty hne' hother hothers)
  · by_cases hne' : other = []
    · rw [hne'] at hroot
      exact absurd hroot (hnonempty hne htree hleaves)
    · apply (List.perm_ext_iff_of_nodup hnodup hnodup').mpr
      intro leaf
      exact ⟨fun h => subset_of_setRoot hhash hother hothers htree hleaves hne' hne hroot.symm h,
        fun h => subset_of_setRoot hhash htree hleaves hother hothers hne hne' hroot h⟩

end Binding

end LoopProof.Merkle
