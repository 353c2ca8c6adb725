import LoopProof.Loop.Model
import Mathlib.Data.Set.Basic

/-!
# Cuts of the return flow

A path from the seller to the funder leaves every set of accounts that holds the first and
not the second. Each path is credited with its smallest hop, so what crosses a cut is at
least the credit of all paths together.
-/

namespace LoopProof.Loop

variable {α κ : Type*} [LT κ]

/-- The hop leaves the set of accounts. -/
def Crosses (cut : Set α) (hop : Transfer α κ) : Prop := hop.sender ∈ cut ∧ hop.recipient ∉ cut

omit [LT κ] in
/-- A chain of hops that starts inside and ends outside leaves the set somewhere. -/
theorem exists_crosses {cut : Set α} {first : Transfer α κ} {rest : List (Transfer α κ)}
    (hchain : (first :: rest).IsChain fun a b => a.recipient = b.sender)
    (hstart : first.sender ∈ cut)
    (hend : ∀ last ∈ (first :: rest).getLast?, last.recipient ∉ cut) :
    ∃ hop ∈ first :: rest, Crosses cut hop := by
  induction rest generalizing first with
  | nil => exact ⟨first, List.mem_singleton_self first, hstart, hend first rfl⟩
  | cons next rest ih =>
    by_cases hinside : first.recipient ∈ cut
    · rw [List.isChain_cons_cons] at hchain
      obtain ⟨hop, hhop, hcross⟩ := ih hchain.2 (hchain.1 ▸ hinside) fun last hlast =>
        hend last (by rwa [List.getLast?_cons_cons])
      exact ⟨hop, List.mem_cons_of_mem _ hhop, hcross⟩
    · exact ⟨first, List.mem_cons_self .., hstart, hinside⟩

omit [LT κ] in
/-- A path is credited with no more than any of its hops. -/
theorem credit_le {path : List (Transfer α κ)} {hop : Transfer α κ} (h : hop ∈ path) :
    credit path ≤ hop.amount := by
  unfold credit
  cases hmin : (path.map (·.amount)).min? with
  | none => exact Nat.zero_le _
  | some least =>
    exact List.le_min?_iff hmin |>.mp le_rfl _ (List.mem_map_of_mem h)

/-- Every complete return path crosses the cut. -/
theorem PathOk.exists_crosses {rule : Rule} {seller funder : α}
    {settlements : List (Settlement α κ)} {path : List (Transfer α κ)}
    (h : PathOk rule seller funder settlements path) {cut : Set α} (hseller : seller ∈ cut)
    (hfunder : funder ∉ cut) : ∃ hop ∈ path, Crosses cut hop := by
  cases path with
  | nil => exact absurd rfl h.nonempty
  | cons first rest =>
    refine Loop.exists_crosses (h.chained.imp fun _ _ hab => hab.1) ?_ fun last hlast => ?_
    · rw [h.starts first rfl]
      exact hseller
    · rw [h.ends last hlast]
      exact hfunder

open Classical in
/-- The hops of all paths that leave the set. -/
noncomputable def crossing (cut : Set α) (paths : List (List (Transfer α κ))) :
    List (Transfer α κ) :=
  paths.flatten.filter fun hop => Crosses cut hop

omit [LT κ] in
theorem mem_crossing {cut : Set α} {paths : List (List (Transfer α κ))} {hop : Transfer α κ} :
    hop ∈ crossing cut paths ↔ (∃ path ∈ paths, hop ∈ path) ∧ Crosses cut hop := by
  classical
  rw [crossing, List.mem_filter, List.mem_flatten, decide_eq_true_eq]

/-- The value that leaves the set is at least the credited value of all paths. -/
theorem returnedTotal_le_crossing {rule : Rule} {seller funder : α}
    {settlements : List (Settlement α κ)} {paths : List (List (Transfer α κ))}
    (h : ∀ path ∈ paths, PathOk rule seller funder settlements path) {cut : Set α}
    (hseller : seller ∈ cut) (hfunder : funder ∉ cut) :
    returnedTotal paths ≤ ((crossing cut paths).map (·.amount)).sum := by
  induction paths with
  | nil => exact Nat.zero_le _
  | cons path paths ih =>
    rw [List.forall_mem_cons] at h
    obtain ⟨hop, hhop, hcross⟩ := h.1.exists_crosses hseller hfunder
    have hown : credit path ≤ ((crossing cut [path]).map (·.amount)).sum :=
      (credit_le hhop).trans (List.le_sum_of_mem (List.mem_map_of_mem
        (mem_crossing.mpr ⟨⟨path, List.mem_singleton_self path, hhop⟩, hcross⟩)))
    have hsplit : crossing cut (path :: paths) = crossing cut [path] ++ crossing cut paths := by
      simp only [crossing, List.flatten_cons, List.flatten_nil, List.append_nil,
        List.filter_append]
    rw [hsplit, List.map_append, List.sum_append, ← List.singleton_append, returnedTotal_append,
      returnedTotal_singleton]
    exact Nat.add_le_add hown (ih h.2)

end LoopProof.Loop
