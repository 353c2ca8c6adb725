import Mathlib.Data.List.Basic

/-!
# Searches that remember dead ends

A depth-first search for a goal may remember a key of every node that it searched in vain, and skip
the nodes whose key it remembers. Where the key is coarser than the node, a skipped node may lead to
the goal. A search that ends without a goal misses one exactly if it skipped such a node.
-/

namespace LoopProof.DeadEnds

universe u v w

variable {ν : Type u} {τ : Type v} {κ : Type w}

/-- What a node leads to: the goal by a last step, or other nodes by their steps. -/
inductive Onward (ν : Type u) (τ : Type v) where
  | goal (step : τ)
  | next (children : List (τ × ν))

section Searches

variable (expand : ν → Onward ν τ)

/-- The first chain of steps to the goal, no longer than the depth. -/
def plain : ℕ → ν → Option (List τ)
  | 0, _ => none
  | n + 1, node =>
    match expand node with
    | .goal step => some [step]
    | .next children => children.findSome? fun entry => (plain n entry.2).map (entry.1 :: ·)

/-- Try the children in order. -/
def firstFound (go : ν → List κ → Option (List τ) × List κ) :
    List (τ × ν) → List κ → Option (List τ) × List κ
  | [], known => (none, known)
  | (step, child) :: rest, known =>
    match go child known with
    | (some chain, known) => (some (step :: chain), known)
    | (none, known) => firstFound go rest known

/-- What is skipped below the children that are tried. -/
def skippedAmong {ι : Type*} (go : ν → List κ → Option (List τ) × List κ)
    (skip : ν → List κ → List ι) : List (τ × ν) → List κ → List ι
  | [], _ => []
  | (_, child) :: rest, known =>
    skip child known ++
      match go child known with
      | (some _, _) => []
      | (none, known) => skippedAmong go skip rest known

variable [DecidableEq κ] (key : ℕ → ν → κ)

/-- The search that remembers, with the keys it remembers afterwards. -/
def search : ℕ → ν → List κ → Option (List τ) × List κ
  | 0, _, known => (none, known)
  | n + 1, node, known =>
    if key (n + 1) node ∈ known then (none, known)
    else
      match expand node with
      | .goal step => (some [step], known)
      | .next children =>
        match firstFound (search n) children known with
        | (some chain, known) => (some chain, known)
        | (none, known) => (none, key (n + 1) node :: known)

/-- The nodes that the search skips, each with the depth that was left. -/
def skipped : ℕ → ν → List κ → List (ℕ × ν)
  | 0, _, _ => []
  | n + 1, node, known =>
    if key (n + 1) node ∈ known then [(n + 1, node)]
    else
      match expand node with
      | .goal _ => []
      | .next children => skippedAmong (search expand key n) (skipped n) children known

end Searches

/-! ## What skipping misses -/

/-- A result differs from the expected one only through what was skipped. -/
structure Explains {ι : Type*} (found : ι → Prop) (skips : List ι)
    (result expected : Option (List τ)) : Prop where
  sound : result ≠ none → expected ≠ none
  missed : result = none → (expected ≠ none ↔ ∃ skip ∈ skips, found skip)
  same : (∀ skip ∈ skips, ¬ found skip) → result = expected

section Children

variable {ι : Type*} {found : ι → Prop} {go : ν → List κ → Option (List τ) × List κ}
  {skip : ν → List κ → List ι} {expected : ν → Option (List τ)}

/-- Where every child is explained, so is the list of children. -/
theorem explains_firstFound
    (h : ∀ child known, Explains found (skip child known) (go child known).1 (expected child))
    (children : List (τ × ν)) (known : List κ) :
    Explains found (skippedAmong go skip children known) (firstFound go children known).1
      (children.findSome? fun entry => (expected entry.2).map (entry.1 :: ·)) := by
  induction children generalizing known with
  | nil =>
    constructor
    · exact id
    · intro _
      simp only [skippedAmong, List.findSome?_nil, ne_eq, not_true_eq_false, List.not_mem_nil,
        false_and, exists_false]
    · exact fun _ => rfl
  | cons entry rest ih =>
    obtain ⟨step, child⟩ := entry
    have hchild := h child known
    rcases hgo : go child known with ⟨result, known'⟩
    simp only [firstFound, skippedAmong, List.findSome?_cons, hgo]
    rw [hgo] at hchild
    cases result with
    | some chain =>
      have hsome := hchild.sound (Option.some_ne_none chain)
      obtain ⟨expectedChain, hexpected⟩ := Option.ne_none_iff_exists'.mp hsome
      rw [hexpected, Option.map_some]
      refine ⟨fun _ => Option.some_ne_none _, fun hnone => absurd hnone (Option.some_ne_none _), ?_⟩
      intro hskips
      rw [List.append_nil] at hskips
      have hsame := hchild.same hskips
      rw [hexpected] at hsame
      obtain rfl := Option.some.inj hsame
      rfl
    | none =>
      have hrest := ih known'
      have hmissed := hchild.missed rfl
      cases hexpected : expected child with
      | none =>
        rw [hexpected] at hmissed
        rw [Option.map_none]
        have hnothing : ∀ y ∈ skip child known, ¬ found y := by
          intro y hy hfound
          exact hmissed.mpr ⟨y, hy, hfound⟩ rfl
        refine ⟨hrest.sound, ?_, ?_⟩
        · intro hnone
          refine (hrest.missed hnone).trans ?_
          constructor
          · intro hlater
            obtain ⟨y, hy, hfound⟩ := hlater
            exact ⟨y, List.mem_append_right _ hy, hfound⟩
          · intro hany
            obtain ⟨y, hy, hfound⟩ := hany
            rcases List.mem_append.mp hy with hhere | hlater
            · exact absurd hfound (hnothing y hhere)
            · exact ⟨y, hlater, hfound⟩
        · intro hskips
          exact hrest.same fun y hy => hskips y (List.mem_append_right _ hy)
      | some chain =>
        rw [hexpected] at hmissed
        obtain ⟨y, hy, hfound⟩ := hmissed.mp (Option.some_ne_none chain)
        rw [Option.map_some]
        refine ⟨fun _ => Option.some_ne_none _, ?_, ?_⟩
        · intro _
          constructor
          · exact fun _ => ⟨y, List.mem_append_left _ hy, hfound⟩
          · exact fun _ => Option.some_ne_none _
        · intro hskips
          exact absurd hfound (hskips y (List.mem_append_left _ hy))

end Children

variable {expand : ν → Onward ν τ} [DecidableEq κ] {key : ℕ → ν → κ}

/-- A search differs from the one without memory only through what it skips. -/
theorem search_explains (n : ℕ) (node : ν) (known : List κ) :
    Explains (fun skip : ℕ × ν => plain expand skip.1 skip.2 ≠ none)
      (skipped expand key n node known) (search expand key n node known).1
      (plain expand n node) := by
  induction n generalizing node known with
  | zero =>
    constructor
    · exact id
    · intro _
      simp only [skipped, plain, ne_eq, not_true_eq_false, List.not_mem_nil, false_and,
        exists_false]
    · exact fun _ => rfl
  | succ n ih =>
    rw [search, skipped]
    by_cases hknown : key (n + 1) node ∈ known
    · rw [if_pos hknown, if_pos hknown]
      constructor
      · exact fun h => absurd rfl h
      · intro _
        simp only [List.mem_singleton, exists_eq_left]
      · intro h
        exact (not_not.mp (h _ (List.mem_singleton_self _))).symm
    · rw [if_neg hknown, if_neg hknown, plain]
      cases expand node with
      | goal step =>
        refine ⟨fun _ => Option.some_ne_none _, fun h => absurd h (Option.some_ne_none _), ?_⟩
        exact fun _ => rfl
      | next children =>
        have hchildren := explains_firstFound ih children known
        dsimp only
        rcases hfirst : firstFound (search expand key n) children known with ⟨result, known'⟩
        rw [hfirst] at hchildren
        cases result with
        | none => exact hchildren
        | some chain => exact hchildren

end LoopProof.DeadEnds
