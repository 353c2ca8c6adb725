import LoopProof.Correctness.Planned

/-!
# The evidence of a plan

The fundings, settlements and totals of a strategy are entries of different types among the
dependencies. The entries of one type are found again in the selected evidence, whatever else it
holds.
-/

namespace LoopProof.Planner

section Kinds

variable {dependencies : List Dependency} {type : EvidenceType}

/-- The entries of a type are a part of the dependencies. -/
theorem ofType_sublist :
    ((ofType type dependencies).map Dependency.entry).Sublist dependencies := by
  induction dependencies with
  | nil => exact List.Sublist.refl []
  | cons d rest ih =>
    cases d with
    | relayPath p => exact ih.cons _
    | entry e =>
      by_cases htype : e.evidenceType = type
      · simpa [ofType, Dependency.ofType?, htype] using ih
      · simpa [ofType, Dependency.ofType?, htype] using ih.cons (.entry e)

/-- What is an entry of a type. -/
theorem mem_ofType {entry : Entry} :
    entry ∈ ofType type dependencies ↔
      Dependency.entry entry ∈ dependencies ∧ entry.evidenceType = type := by
  rw [ofType, List.mem_filterMap]
  constructor
  · intro h
    obtain ⟨d, hd, htype⟩ := h
    cases d with
    | relayPath p => cases htype
    | entry e =>
      simp only [Dependency.ofType?, Option.ite_none_right_eq_some, Option.some.injEq] at htype
      obtain ⟨htype, rfl⟩ := htype
      exact ⟨hd, htype⟩
  · intro h
    exact ⟨_, h.1, by simp [Dependency.ofType?, h.2]⟩

/-- The entries of a type in a joined list. -/
theorem ofType_append {xs ys : List Dependency} :
    ofType type (xs ++ ys) = ofType type xs ++ ofType type ys :=
  List.filterMap_append

/-- The order of the dependencies does not matter to the entries of a type. -/
theorem ofType_perm {xs ys : List Dependency} (h : xs.Perm ys) :
    (ofType type xs).Perm (ofType type ys) :=
  h.filterMap _

/-- Entries of the type are all found again. -/
theorem ofType_map_entry {entries : List Entry} (h : ∀ e ∈ entries, e.evidenceType = type) :
    ofType type (entries.map Dependency.entry) = entries := by
  induction entries with
  | nil => rfl
  | cons e rest ih =>
    obtain ⟨he, hrest⟩ := List.forall_mem_cons.mp h
    have hfirst : Dependency.ofType? type (.entry e) = some e := by
      simp [Dependency.ofType?, he]
    rw [List.map_cons, ofType, List.filterMap_cons, hfirst]
    exact congrArg (e :: ·) (ih hrest)

/-- Dependencies of other kinds hold no entry of the type. -/
theorem ofType_eq_nil {xs : List Dependency}
    (h : ∀ e, Dependency.entry e ∈ xs → e.evidenceType ≠ type) : ofType type xs = [] := by
  rw [List.eq_nil_iff_forall_not_mem]
  intro e he
  obtain ⟨hmem, htype⟩ := mem_ofType.mp he
  exact h e hmem htype

end Kinds

end LoopProof.Planner
