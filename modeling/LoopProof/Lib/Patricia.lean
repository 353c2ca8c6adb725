import Mathlib.Data.List.Basic
import Mathlib.Data.List.Induction
import Mathlib.Tactic.Common

/-!
# Patricia tries over keys of one length

A trie as its nodes: leaves and extensions carry path segments, a branch has one child per
symbol. A lookup walks one path; a proof of it lists the root and those nodes of the path
that are stored on their own, while smaller nodes travel inside their parents.
-/

namespace LoopProof.Patricia

universe u v

/-- A trie node. Keys have one length, so no key ends in a branch. -/
inductive Node (σ : Type u) (ν : Type v) where
  | empty
  | leaf (path : List σ) (value : ν)
  | extension (path : List σ) (child : Node σ ν)
  | branch (children : σ → Node σ ν)

namespace Node

variable {σ : Type u} {ν : Type v} [DecidableEq σ]

/-- Every key of the trie has the given number of symbols. -/
def Keyed : ℕ → Node σ ν → Prop
  | _, .empty => True
  | n, .leaf path _ => path.length = n
  | n, .extension path child => path.length ≤ n ∧ child.Keyed (n - path.length)
  | n, .branch children => 0 < n ∧ ∀ s, (children s).Keyed (n - 1)

/-- The leaf a key ends in: its own path segment, and the value. -/
def find : Node σ ν → List σ → Option (List σ × ν)
  | .empty, _ => none
  | .leaf path value, key => if key = path then some (path, value) else none
  | .extension path child, key =>
    if path.isPrefixOf key then child.find (key.drop path.length) else none
  | .branch _, [] => none
  | .branch children, s :: key => (children s).find key

/-- The value of a key. -/
def get (node : Node σ ν) (key : List σ) : Option ν := (node.find key).map (·.2)

/-- The nodes a lookup visits, from the given one downwards. -/
def visited : Node σ ν → List σ → List (Node σ ν)
  | .empty, _ => []
  | .leaf path value, _ => [.leaf path value]
  | .extension path child, key =>
    .extension path child ::
      if path.isPrefixOf key then child.visited (key.drop path.length) else []
  | .branch children, [] => [.branch children]
  | .branch children, s :: key => .branch children :: (children s).visited key

/-- A node that carries a value. -/
def isLeaf : Node σ ν → Bool
  | .leaf .. => true
  | _ => false

/-- The listed nodes of a lookup: the root, then the visited nodes stored on their own. -/
def listing (stored : Node σ ν → Bool) (node : Node σ ν) (key : List σ) : List (Node σ ν) :=
  match node.visited key with
  | [] => []
  | root :: rest => root :: rest.filter stored

/-- Visited nodes are keyed by what is left of the key. -/
theorem Keyed.of_visited {n : ℕ} {node visitor : Node σ ν} {key : List σ} (h : node.Keyed n)
    (hmem : visitor ∈ node.visited key) : ∃ m, m ≤ n ∧ visitor.Keyed m := by
  induction node generalizing n key with
  | empty => cases hmem
  | leaf path value =>
    rw [visited, List.mem_singleton] at hmem
    exact ⟨n, Nat.le_refl n, hmem ▸ h⟩
  | extension path child ih =>
    rw [visited, List.mem_cons] at hmem
    rcases hmem with rfl | hmem
    · exact ⟨n, Nat.le_refl n, h⟩
    · split at hmem
      · obtain ⟨m, hm, hkeyed⟩ := ih h.2 hmem
        exact ⟨m, Nat.le_trans hm (Nat.sub_le _ _), hkeyed⟩
      · cases hmem
  | branch children ih =>
    cases key with
    | nil =>
      rw [visited, List.mem_singleton] at hmem
      exact ⟨n, Nat.le_refl n, hmem ▸ h⟩
    | cons s key =>
      rw [visited, List.mem_cons] at hmem
      rcases hmem with rfl | hmem
      · exact ⟨n, Nat.le_refl n, h⟩
      · obtain ⟨m, hm, hkeyed⟩ := ih s (h.2 s) hmem
        exact ⟨m, Nat.le_trans hm (Nat.sub_le _ _), hkeyed⟩

/-- A visited node is not the empty one. -/
theorem ne_empty_of_visited {node visitor : Node σ ν} {key : List σ}
    (hmem : visitor ∈ node.visited key) : visitor ≠ .empty := by
  rintro rfl
  induction node generalizing key with
  | empty => cases hmem
  | leaf path value =>
    rw [visited, List.mem_singleton] at hmem
    cases hmem
  | extension path child ih =>
    rw [visited, List.mem_cons] at hmem
    rcases hmem with hmem | hmem
    · cases hmem
    · split at hmem
      · exact ih hmem
      · cases hmem
  | branch children ih =>
    cases key with
    | nil =>
      rw [visited, List.mem_singleton] at hmem
      cases hmem
    | cons s key =>
      rw [visited, List.mem_cons] at hmem
      rcases hmem with hmem | hmem
      · cases hmem
      · exact ih s hmem

/-- A successful lookup ends in its leaf, and passes no other leaf. -/
theorem visited_of_find {node : Node σ ν} {key path : List σ} {value : ν}
    (h : node.find key = some (path, value)) :
    ∃ above, node.visited key = above ++ [.leaf path value] ∧ ∀ n ∈ above, n.isLeaf = false := by
  induction node generalizing key with
  | empty => cases h
  | leaf path' value' =>
    rw [find] at h
    split at h
    · cases h
      exact ⟨[], rfl, by simp⟩
    · cases h
  | extension segment child ih =>
    rw [find] at h
    split at h
    · rename_i hprefix
      obtain ⟨above, hvisited, habove⟩ := ih h
      refine ⟨.extension segment child :: above, ?_, ?_⟩
      · rw [visited, if_pos hprefix, hvisited, List.cons_append]
      · intro n hn
        rcases List.mem_cons.mp hn with rfl | hn
        · rfl
        · exact habove n hn
    · cases h
  | branch children ih =>
    cases key with
    | nil => cases h
    | cons s key =>
      rw [find] at h
      obtain ⟨above, hvisited, habove⟩ := ih s h
      refine ⟨.branch children :: above, ?_, ?_⟩
      · rw [visited, hvisited, List.cons_append]
      · intro n hn
        rcases List.mem_cons.mp hn with rfl | hn
        · rfl
        · exact habove n hn

/-- The root is listed, whether stored on its own or not. -/
theorem listing_of_find {stored : Node σ ν → Bool} {node : Node σ ν} {key path : List σ}
    {value : ν} (h : node.find key = some (path, value)) :
    (node = .leaf path value ∨ stored (.leaf path value) = true →
      (node.listing stored key).getLast? = some (.leaf path value)) ∧
    (node ≠ .leaf path value → stored (.leaf path value) = false →
      ∃ last, (node.listing stored key).getLast? = some last ∧ last ∈ node.visited key ∧
        last.isLeaf = false) := by
  obtain ⟨above, hvisited, habove⟩ := visited_of_find h
  cases above with
  | nil =>
    have hroot : node = .leaf path value := by
      cases node with
      | empty => cases h
      | leaf path' value' =>
        rw [visited, List.nil_append, List.cons.injEq] at hvisited
        exact hvisited.1
      | extension segment child =>
        rw [visited, List.nil_append, List.cons.injEq] at hvisited
        cases hvisited.1
      | branch children =>
        cases key with
        | nil => cases h
        | cons s key =>
          rw [visited, List.nil_append, List.cons.injEq] at hvisited
          cases hvisited.1
    constructor
    · intro _
      rw [listing, hvisited]
      rfl
    · intro hne
      exact absurd hroot hne
  | cons root above =>
    have hne : node ≠ .leaf path value := by
      rintro rfl
      rw [visited] at hvisited
      have := congrArg List.length hvisited
      simp at this
    have hlisting : node.listing stored key =
        root :: (above ++ [leaf path value]).filter stored := by
      rw [listing, hvisited]
      rfl
    constructor
    · rintro (hroot | hstored)
      · exact absurd hroot hne
      · rw [hlisting, List.filter_append, List.filter_cons_of_pos hstored, List.filter_nil,
          ← List.cons_append, List.getLast?_append, List.getLast?_singleton]
        rfl
    · intro _ hstored
      rw [List.filter_append, List.filter_cons_of_neg (by simp [hstored]), List.filter_nil,
        List.append_nil] at hlisting
      have hlast := List.getLast_mem (List.cons_ne_nil root (above.filter stored))
      have hmem : (root :: above.filter stored).getLast (List.cons_ne_nil _ _) ∈ root :: above := by
        rcases List.mem_cons.mp hlast with heq | hmem
        · rw [heq]
          exact List.mem_cons_self ..
        · exact List.mem_cons_of_mem _ (List.mem_of_mem_filter hmem)
      refine ⟨_, by rw [hlisting, List.getLast?_eq_getLast_of_ne_nil], ?_, habove _ hmem⟩
      rw [hvisited]
      exact List.mem_append_left _ hmem

end Node

end LoopProof.Patricia
