import Mathlib.Data.List.Basic
import Mathlib.Data.Set.Function
import Mathlib.Tactic.Common
import Mathlib.Tactic.Ring

/-!
# Merkle trees with duplicated odd nodes

Trees over an arbitrary node function: each level pairs its entries, and an odd last entry
is paired with itself. A proof is folded by the parity of an index, whatever its length.
`Climbs.pinned` compares such a fold with the root of a tree: where node hashing is
injective on the hashed pairs and leaves are never node values, only the tree's own proofs
reach the root.
-/

namespace LoopProof.Merkle

variable {α : Type*}

/-! ## Levels -/

/-- The pairs hashed for one level; an odd last entry is paired with itself. -/
def levelPairs : List α → List (α × α)
  | [] => []
  | [a] => [(a, a)]
  | a :: b :: rest => (a, b) :: levelPairs rest

/-- The level above. -/
def nextLevel (node : α → α → α) (level : List α) : List α :=
  (levelPairs level).map fun pair => node pair.1 pair.2

/-- The entry paired with a position: the next one, or itself at an odd end, for an even
position; the previous one for an odd position. -/
def sibling (level : List α) (i : ℕ) : Option α :=
  if i % 2 = 0 then level[i + 1]?.or level[i]? else level[i - 1]?

/-- The pair at a position; an odd last node is paired with itself. -/
theorem levelPairs_getElem? {level : List α} {c : ℕ} {a b : α} :
    (levelPairs level)[c]? = some (a, b) ↔
      level[2 * c]? = some a ∧ level[2 * c + 1]?.or level[2 * c]? = some b := by
  induction level using levelPairs.induct generalizing c with
  | case1 => simp [levelPairs]
  | case2 x =>
    cases c with
    | zero => simp [levelPairs]
    | succ c => simp [levelPairs, Nat.mul_add]
  | case3 x y rest ih =>
    cases c with
    | zero => simp [levelPairs]
    | succ c => simpa [levelPairs, Nat.mul_add] using ih

/-- Half as many pairs as nodes, rounded up. -/
theorem length_levelPairs (level : List α) :
    (levelPairs level).length = (level.length + 1) / 2 := by
  induction level using levelPairs.induct with
  | case1 => simp [levelPairs]
  | case2 x => simp [levelPairs]
  | case3 x y rest ih =>
    simp only [levelPairs, List.length_cons, ih]
    omega

/-- The next level has half as many nodes, rounded up. -/
@[simp] theorem length_nextLevel (node : α → α → α) (level : List α) :
    (nextLevel node level).length = (level.length + 1) / 2 := by
  rw [nextLevel, List.length_map, length_levelPairs]

/-- An entry of the level above is the node of its pair. -/
theorem nextLevel_getElem? {node : α → α → α} {level : List α} {c : ℕ} {w : α}
    (h : (nextLevel node level)[c]? = some w) :
    ∃ pair ∈ levelPairs level, node pair.1 pair.2 = w ∧ level[2 * c]? = some pair.1 ∧
      level[2 * c + 1]?.or level[2 * c]? = some pair.2 := by
  rw [nextLevel, List.getElem?_map, Option.map_eq_some_iff] at h
  obtain ⟨⟨a, b⟩, hpair, hnode⟩ := h
  exact ⟨(a, b), List.mem_of_getElem? hpair, hnode, levelPairs_getElem?.mp hpair⟩

/-! ## Trees -/

variable (node : α → α → α)

/-- The level reduces to the root in the given number of steps. -/
inductive Climbs : ℕ → List α → α → Prop
  | top (root : α) : Climbs 0 [root] root
  | up {d : ℕ} {level : List α} {root : α} (hlong : 1 < level.length)
      (habove : Climbs d (nextLevel node level) root) : Climbs (d + 1) level root

/-- The pairs hashed while a level is reduced, up to the given number of steps. -/
def treePairs : ℕ → List α → List (α × α)
  | 0, _ => []
  | n + 1, level =>
    if 1 < level.length then levelPairs level ++ treePairs n (nextLevel node level) else []

/-- The proof of a position: its siblings, level by level. -/
inductive IsProof : List α → ℕ → List α → Prop
  | top (root : α) (i : ℕ) : IsProof [root] i []
  | up {level : List α} {i : ℕ} {s : α} {proof : List α} (hlong : 1 < level.length)
      (hsibling : sibling level i = some s)
      (habove : IsProof (nextLevel node level) (i / 2) proof) : IsProof level i (s :: proof)

/-- Every nonempty level reduces to a root, in fewer steps than it has entries. -/
theorem exists_climbs (level : List α) (hne : level ≠ []) :
    ∃ d root, Climbs node d level root ∧ d < level.length := by
  induction hn : level.length using Nat.strong_induction_on generalizing level with
  | _ n ih =>
    match level, hne with
    | [root], _ => exact ⟨0, root, .top root, by simp at hn; omega⟩
    | a :: b :: rest, _ =>
      have hlong : 1 < (a :: b :: rest).length := by simp
      have hshorter : (nextLevel node (a :: b :: rest)).length < n := by
        rw [length_nextLevel]
        omega
      have hnonempty : nextLevel node (a :: b :: rest) ≠ [] := by simp [nextLevel, levelPairs]
      obtain ⟨d, root, hclimb, hd⟩ := ih _ hshorter _ hnonempty rfl
      refine ⟨d + 1, root, .up hlong hclimb, ?_⟩
      rw [length_nextLevel] at hd
      omega

variable {node}

/-- A level climbs to one root. -/
theorem Climbs.unique {d d' : ℕ} {level : List α} {root root' : α} (h : Climbs node d level root)
    (h' : Climbs node d' level root') : root = root' := by
  induction h generalizing d' with
  | top root =>
    cases h' with
    | top => rfl
    | up hlong _ => simp at hlong
  | up hlong _ ih =>
    cases h' with
    | top => simp at hlong
    | up _ habove => exact ih habove

/-- Every position of a level has a proof. -/
theorem Climbs.exists_proof {d : ℕ} {level : List α} {root : α} (h : Climbs node d level root)
    {i : ℕ} (hi : i < level.length) : ∃ proof, IsProof node level i proof := by
  induction h generalizing i with
  | top root => exact ⟨[], .top root i⟩
  | @up d level root hlong _ ih =>
    obtain ⟨proof, hproof⟩ := ih (i := i / 2) (by rw [length_nextLevel]; omega)
    obtain ⟨s, hs⟩ : ∃ s, sibling level i = some s := by
      unfold sibling
      split
      · rw [List.getElem?_eq_getElem hi]
        cases level[i + 1]? with
        | none => exact ⟨_, rfl⟩
        | some s => exact ⟨s, rfl⟩
      · exact ⟨_, List.getElem?_eq_getElem (by omega)⟩
    exact ⟨s :: proof, .up hlong hs hproof⟩

/-- A position has one proof. -/
theorem IsProof.unique {level : List α} {i : ℕ} {p q : List α} (hp : IsProof node level i p)
    (hq : IsProof node level i q) : p = q := by
  induction hp generalizing q with
  | top root i =>
    cases hq with
    | top => rfl
    | up hlong _ _ => simp at hlong
  | up hlong hsibling _ ih =>
    cases hq with
    | top => simp at hlong
    | up _ hsibling' habove => rw [Option.some.inj (hsibling.symm.trans hsibling'), ih habove]

/-! ## Folding a proof -/

variable (node) in
/-- Fold a proof from a value, ordering each pair by the parity of the index. -/
def foldProof : α → ℕ → List α → α
  | v, _, [] => v
  | v, i, s :: proof =>
    foldProof (if i % 2 = 0 then node v s else node s v) (i / 2) proof

variable (node) in
/-- The pairs hashed by a fold. -/
def walkPairs : α → ℕ → List α → List (α × α)
  | _, _, [] => []
  | v, i, s :: proof =>
    (if i % 2 = 0 then (v, s) else (s, v)) ::
      walkPairs (if i % 2 = 0 then node v s else node s v) (i / 2) proof

/-- A proof is folded in two parts. -/
theorem foldProof_append (v : α) (i : ℕ) (p q : List α) :
    foldProof node v i (p ++ q) = foldProof node (foldProof node v i p) (i / 2 ^ p.length) q := by
  induction p generalizing v i with
  | nil => simp [foldProof]
  | cons s p ih =>
    simp only [List.cons_append, foldProof, ih, List.length_cons, Nat.pow_succ',
      Nat.div_div_eq_div_mul]

/-- The pairs of a proof are walked in two parts. -/
theorem walkPairs_append (v : α) (i : ℕ) (p q : List α) :
    walkPairs node v i (p ++ q) =
      walkPairs node v i p ++ walkPairs node (foldProof node v i p) (i / 2 ^ p.length) q := by
  induction p generalizing v i with
  | nil => simp [walkPairs, foldProof]
  | cons s p ih =>
    simp only [List.cons_append, walkPairs, foldProof, ih, List.length_cons, Nat.pow_succ',
      Nat.div_div_eq_div_mul]

/-- A fold over a nonempty proof ends in a node of one of its pairs. -/
theorem foldProof_node (node : α → α → α) (v : α) (i : ℕ) {p : List α} (hne : p ≠ []) :
    ∃ pair ∈ walkPairs node v i p, foldProof node v i p = node pair.1 pair.2 := by
  induction p generalizing v i with
  | nil => exact absurd rfl hne
  | cons s p ih =>
    cases p with
    | nil =>
      refine ⟨_, List.mem_cons_self .., ?_⟩
      simp only [foldProof]
      split <;> rfl
    | cons s' p =>
      obtain ⟨pair, hpair, hfold⟩ :=
        ih (if i % 2 = 0 then node v s else node s v) (i / 2) (List.cons_ne_nil s' p)
      exact ⟨pair, List.mem_cons_of_mem _ hpair, hfold⟩

/-- The pair of a position and its sibling is a pair of the level. -/
theorem sibling_pair {level : List α} {i : ℕ} {v s : α} (hv : level[i]? = some v)
    (hs : sibling level i = some s) :
    (levelPairs level)[i / 2]? = some (if i % 2 = 0 then (v, s) else (s, v)) := by
  unfold sibling at hs
  split at hs
  · rename_i heven
    have hi : 2 * (i / 2) = i := by omega
    rw [if_pos heven, levelPairs_getElem?, hi]
    exact ⟨hv, hs⟩
  · rename_i hodd
    have hi : 2 * (i / 2) = i - 1 := by omega
    have hnext : i - 1 + 1 = i := by omega
    rw [if_neg hodd, levelPairs_getElem?, hi, hnext, hv]
    exact ⟨hs, rfl⟩

/-- The node of a position and its sibling is the entry above. -/
theorem nextLevel_sibling {level : List α} {i : ℕ} {v s : α} (hv : level[i]? = some v)
    (hs : sibling level i = some s) :
    (nextLevel node level)[i / 2]? = some (if i % 2 = 0 then node v s else node s v) := by
  rw [nextLevel, List.getElem?_map, sibling_pair hv hs]
  split <;> rfl

/-- A tree's own proof folds to its root and hashes only pairs of the tree. -/
theorem Climbs.fold_proof {d n : ℕ} {level : List α} {root : α} (h : Climbs node d level root)
    (hn : d ≤ n) {i : ℕ} {v : α} {proof : List α} (hv : level[i]? = some v)
    (hproof : IsProof node level i proof) :
    foldProof node v i proof = root ∧
      ∀ pair ∈ walkPairs node v i proof, pair ∈ treePairs node n level := by
  induction h generalizing n i v proof with
  | top root =>
    cases hproof with
    | top =>
      obtain ⟨_, rfl⟩ : i = 0 ∧ root = v := by
        cases i with
        | zero => exact ⟨rfl, by simpa using hv⟩
        | succ i => simp at hv
      exact ⟨rfl, by simp [walkPairs]⟩
    | up hlong _ _ => simp at hlong
  | @up d level root hlong _ ih =>
    cases hproof with
    | top => simp at hlong
    | @up _ _ s proof _ hs habove =>
      obtain ⟨n, rfl⟩ : ∃ m, n = m + 1 := ⟨n - 1, by omega⟩
      obtain ⟨hfold, hwalk⟩ := ih (n := n) (by omega) (nextLevel_sibling hv hs) habove
      refine ⟨hfold, ?_⟩
      intro pair hpair
      rw [treePairs, if_pos hlong, List.mem_append]
      rw [walkPairs, List.mem_cons] at hpair
      rcases hpair with rfl | hpair
      · exact .inl (List.mem_of_getElem? (sibling_pair hv hs))
      · exact .inr (hwalk pair hpair)

/-! ## Soundness -/

/-- A fold as long as the tree is high starts at an entry of the level, and at a real
position it uses the tree's own siblings. -/
theorem Climbs.pinned_of_length {d n : ℕ} {level : List α} {root : α}
    (h : Climbs node d level root) (hn : d ≤ n) {pairs : Set (α × α)}
    (hinj : Set.InjOn (fun pair => node pair.1 pair.2) pairs)
    (htree : ∀ pair ∈ treePairs node n level, pair ∈ pairs) {v : α} {j : ℕ} {proof : List α}
    (hwalk : ∀ pair ∈ walkPairs node v j proof, pair ∈ pairs) (hlen : proof.length = d)
    (hfold : foldProof node v j proof = root) :
    ∃ i, level[i]? = some v ∧ (j < level.length → i = j ∧ IsProof node level j proof) := by
  induction h generalizing n v j proof with
  | top root =>
    obtain rfl := List.length_eq_zero_iff.mp hlen
    obtain rfl : v = root := hfold
    refine ⟨0, rfl, fun hj => ?_⟩
    obtain rfl : j = 0 := by simpa using hj
    exact ⟨rfl, .top v 0⟩
  | @up d level root hlong _ ih =>
    obtain ⟨n, rfl⟩ : ∃ m, n = m + 1 := ⟨n - 1, by omega⟩
    obtain ⟨s, proof, rfl⟩ := List.exists_cons_of_length_eq_add_one hlen
    rw [treePairs, if_pos hlong] at htree
    obtain ⟨c, hc, hreal⟩ := ih (n := n) (by omega)
      (fun pair hpair => htree pair (List.mem_append_right _ hpair))
      (fun pair hpair => hwalk pair (List.mem_cons_of_mem _ hpair))
      (by simpa using hlen) hfold
    obtain ⟨⟨a, b⟩, hpair, hnode, ha, hb⟩ := nextLevel_getElem? hc
    have hab : (a, b) ∈ pairs := htree _ (List.mem_append_left _ hpair)
    have hvs := hwalk _ (List.mem_cons_self ..)
    have hrange : j < level.length → j / 2 < (nextLevel node level).length := by
      intro hj
      rw [length_nextLevel]
      omega
    by_cases heven : j % 2 = 0
    · rw [if_pos heven] at hnode hvs
      obtain ⟨rfl, rfl⟩ := Prod.mk.inj (hinj hab hvs hnode)
      refine ⟨2 * c, ha, fun hj => ?_⟩
      obtain ⟨rfl, habove⟩ := hreal (hrange hj)
      have hindex : 2 * (j / 2) = j := by omega
      rw [hindex] at hb ⊢
      exact ⟨rfl, .up hlong (by rw [sibling, if_pos heven]; exact hb) habove⟩
    · rw [if_neg heven] at hnode hvs
      obtain ⟨rfl, rfl⟩ := Prod.mk.inj (hinj hab hvs hnode)
      have hentry : ∃ i : ℕ, level[i]? = some b := by
        cases hnext : level[2 * c + 1]? with
        | none => exact ⟨2 * c, by simpa [hnext] using hb⟩
        | some w => exact ⟨2 * c + 1, by rw [hnext]; simpa [hnext] using hb⟩
      by_cases hj : j < level.length
      · obtain ⟨rfl, habove⟩ := hreal (hrange hj)
        have hindex : 2 * (j / 2) + 1 = j := by omega
        have hprevious : 2 * (j / 2) = j - 1 := by omega
        rw [hindex, List.getElem?_eq_getElem hj, Option.some_or] at hb
        rw [hprevious] at ha
        refine ⟨j, by rw [List.getElem?_eq_getElem hj, hb], fun _ => ⟨rfl, ?_⟩⟩
        exact .up hlong (by rw [sibling, if_neg heven]; exact ha) habove
      · obtain ⟨i, hi⟩ := hentry
        exact ⟨i, hi, fun h => absurd h hj⟩

/-- Above the leaves every level consists of node values of the tree. -/
theorem Climbs.above {k m n : ℕ} {level : List α} {root : α}
    (h : Climbs node (k + (m + 1)) level root) (hn : k + (m + 1) ≤ n) :
    ∃ upper, Climbs node k upper root ∧
      (∀ v ∈ upper, ∃ pair ∈ treePairs node n level, node pair.1 pair.2 = v) ∧
      ∃ n', k ≤ n' ∧ ∀ pair ∈ treePairs node n' upper, pair ∈ treePairs node n level := by
  induction m generalizing level n with
  | zero =>
    cases h with
    | up hlong habove =>
      obtain ⟨n, rfl⟩ : ∃ m, n = m + 1 := ⟨n - 1, by omega⟩
      rw [treePairs, if_pos hlong]
      refine ⟨_, habove, ?_, n, by omega, fun pair hpair => List.mem_append_right _ hpair⟩
      intro v hv
      obtain ⟨pair, hpair, hnode⟩ := List.mem_map.mp hv
      exact ⟨pair, List.mem_append_left _ hpair, hnode⟩
  | succ m ih =>
    cases h with
    | up hlong habove =>
      obtain ⟨n, rfl⟩ : ∃ m, n = m + 1 := ⟨n - 1, by omega⟩
      rw [treePairs, if_pos hlong]
      obtain ⟨upper, hupper, hnodes, n', hn', hpairs⟩ := ih (n := n) habove (by omega)
      refine ⟨upper, hupper, ?_, n', hn', fun pair hpair =>
        List.mem_append_right _ (hpairs pair hpair)⟩
      intro v hv
      obtain ⟨pair, hpair, hnode⟩ := hnodes v hv
      exact ⟨pair, List.mem_append_right _ hpair, hnode⟩

/-- A fold of any length that reaches the root started at a leaf of the tree, and at a real
position it used the tree's own proof. -/
theorem Climbs.pinned {d n : ℕ} {leaves : List α} {root : α} (h : Climbs node d leaves root)
    (hn : d ≤ n) {pairs : Set (α × α)}
    (hinj : Set.InjOn (fun pair => node pair.1 pair.2) pairs)
    (htree : ∀ pair ∈ treePairs node n leaves, pair ∈ pairs) {v : α} {j : ℕ} {proof : List α}
    (hwalk : ∀ pair ∈ walkPairs node v j proof, pair ∈ pairs)
    (hleaf : ∀ pair ∈ pairs, node pair.1 pair.2 ≠ v ∧ node pair.1 pair.2 ∉ leaves)
    (hfold : foldProof node v j proof = root) :
    ∃ i, leaves[i]? = some v ∧ (j < leaves.length → i = j ∧ IsProof node leaves j proof) := by
  rcases lt_trichotomy proof.length d with hshort | heq | hlong
  · -- Too short: the value would be a node of a level above the leaves.
    obtain ⟨m, rfl⟩ : ∃ m, d = proof.length + (m + 1) := ⟨d - proof.length - 1, by omega⟩
    obtain ⟨upper, hupper, hnodes, n', hn', hpairs⟩ := h.above hn
    obtain ⟨i, hi, _⟩ := hupper.pinned_of_length hn' hinj
      (fun pair hpair => htree pair (hpairs pair hpair)) hwalk rfl hfold
    obtain ⟨pair, hpair, hnode⟩ := hnodes v (List.mem_of_getElem? hi)
    exact absurd hnode (hleaf pair (htree pair hpair)).1
  · exact h.pinned_of_length hn hinj htree hwalk heq hfold
  · -- Too long: a node value would be a leaf.
    have hsplit := List.take_append_drop (proof.length - d) proof
    rw [← hsplit, foldProof_append] at hfold
    rw [← hsplit, walkPairs_append] at hwalk
    obtain ⟨i, hi, _⟩ := h.pinned_of_length hn hinj htree
      (fun pair hpair => hwalk pair (List.mem_append_right _ hpair))
      (by rw [List.length_drop]; omega) hfold
    have hne : proof.take (proof.length - d) ≠ [] := by
      intro hnil
      have := congrArg List.length hnil
      rw [List.length_take, List.length_nil] at this
      omega
    obtain ⟨pair, hpair, hnode⟩ := foldProof_node node v j hne
    refine absurd ?_ (hleaf pair (hwalk pair (List.mem_append_left _ hpair))).2
    rw [← hnode]
    exact List.mem_of_getElem? hi

end LoopProof.Merkle
