import Mathlib.Algebra.BigOperators.Group.List.Basic
import Mathlib.Algebra.Order.BigOperators.Group.List
import Mathlib.Algebra.Order.Ring.Nat
import Mathlib.Data.List.Perm.Subperm

/-!
# Covers

Covering a required weight with entries of a list: no entries weigh more than as many of the
largest ones, so taking the largest ones first covers with the fewest.
-/

namespace LoopProof

universe u v

variable {α : Type u} (weight : α → ℕ)

/-- Entries that together reach a required weight, no more of them than allowed. -/
structure Covers (limit required : ℕ) (xs cover : List α) : Prop where
  part : cover.Subperm xs
  few : cover.length ≤ limit
  enough : required ≤ (cover.map weight).sum

section Largest

variable {weight} {xs ys : List α}

private theorem sum_take_succ_le {bound : ℕ} (h : ∀ x ∈ xs, weight x ≤ bound) (n : ℕ) :
    ((xs.take (n + 1)).map weight).sum ≤ bound + ((xs.take n).map weight).sum := by
  rw [List.take_add_one, List.map_append, List.sum_append, Nat.add_comm]
  apply Nat.add_le_add_right
  cases hn : xs[n]? with
  | none => simp
  | some x => simpa using h x (List.mem_of_getElem? hn)

private theorem sum_sublist_le (hsorted : xs.Pairwise fun a b => weight b ≤ weight a)
    (h : ys.Sublist xs) : (ys.map weight).sum ≤ ((xs.take ys.length).map weight).sum := by
  induction h with
  | slnil => exact le_rfl
  | @cons ys xs x hsublist ih =>
    obtain ⟨hlargest, hsorted⟩ := List.pairwise_cons.mp hsorted
    cases ys with
    | nil => exact Nat.zero_le _
    | cons y ys =>
      apply (ih hsorted).trans
      rw [List.length_cons, List.take_succ_cons, List.map_cons, List.sum_cons]
      exact sum_take_succ_le hlargest ys.length
  | @cons_cons ys xs x hsublist ih =>
    rw [List.length_cons, List.take_succ_cons, List.map_cons, List.sum_cons, List.map_cons,
      List.sum_cons]
    exact Nat.add_le_add_left (ih (List.pairwise_cons.mp hsorted).2) _

/-- No entries weigh more than as many of the largest ones. -/
theorem sum_le_sum_take (hsorted : xs.Pairwise fun a b => weight b ≤ weight a)
    (h : ys.Subperm xs) : (ys.map weight).sum ≤ ((xs.take ys.length).map weight).sum := by
  obtain ⟨zs, hperm, hsublist⟩ := h
  rw [← (hperm.map weight).sum_eq, ← hperm.length_eq]
  exact sum_sublist_le hsorted hsublist

end Largest

/-- Take entries in order until they weigh enough or there are as many as allowed. -/
def takeEnough (limit required : ℕ) : ℕ → ℕ → List α → List α
  | _, _, [] => []
  | taken, total, x :: xs =>
    if limit ≤ taken ∨ required ≤ total then []
    else x :: takeEnough limit required (taken + 1) (total + weight x) xs

section Enough

variable {weight} {limit required : ℕ} {xs cover : List α}

theorem takeEnough_of_stop {taken total : ℕ} (h : limit ≤ taken ∨ required ≤ total) :
    takeEnough weight limit required taken total xs = [] := by
  cases xs with
  | nil => rfl
  | cons x xs => rw [takeEnough, if_pos h]

/-- Only the weights of the entries matter. -/
theorem takeEnough_map {β : Type v} (f : β → α) (taken total : ℕ) (xs : List β) :
    takeEnough weight limit required taken total (xs.map f) =
      (takeEnough (fun x => weight (f x)) limit required taken total xs).map f := by
  induction xs generalizing taken total with
  | nil => rfl
  | cons x xs ih =>
    rw [List.map_cons, takeEnough, takeEnough]
    split
    · rfl
    · rw [List.map_cons, ih]

theorem takeEnough_eq_take (taken total : ℕ) (xs : List α) :
    takeEnough weight limit required taken total xs =
      xs.take (takeEnough weight limit required taken total xs).length := by
  induction xs generalizing taken total with
  | nil => rfl
  | cons x xs ih =>
    rw [takeEnough]
    split
    · rfl
    · rw [List.length_cons, List.take_succ_cons, ← ih]

theorem length_takeEnough_le {taken : ℕ} (h : taken ≤ limit) (total : ℕ) (xs : List α) :
    taken + (takeEnough weight limit required taken total xs).length ≤ limit := by
  induction xs generalizing taken total with
  | nil => exact h
  | cons x xs ih =>
    rw [takeEnough]
    split
    · exact h
    · rename_i hmore
      rw [List.length_cons, Nat.add_comm _ 1, ← Nat.add_assoc]
      exact ih (Nat.lt_of_not_le fun hle => hmore (.inl hle)) _

/-- The entries stop at the first number of them that is enough. -/
theorem length_takeEnough_le_of_enough {taken total n : ℕ}
    (h : required ≤ total + ((xs.take n).map weight).sum) :
    (takeEnough weight limit required taken total xs).length ≤ n := by
  induction xs generalizing taken total n with
  | nil => exact Nat.zero_le n
  | cons x xs ih =>
    rw [takeEnough]
    split
    · exact Nat.zero_le n
    · rename_i hmore
      cases n with
      | zero => exact absurd (.inr h) hmore
      | succ n =>
        rw [List.take_succ_cons, List.map_cons, List.sum_cons, ← Nat.add_assoc] at h
        exact Nat.succ_le_succ (ih h)

/-- If some allowed number of entries is enough, the entries that are taken are. -/
theorem takeEnough_enough {taken total n : ℕ} (hn : taken + n ≤ limit)
    (h : required ≤ total + ((xs.take n).map weight).sum) :
    required ≤ total + ((takeEnough weight limit required taken total xs).map weight).sum := by
  induction xs generalizing taken total n with
  | nil => simpa [takeEnough] using h
  | cons x xs ih =>
    rw [takeEnough]
    split
    · rename_i hstop
      rcases hstop with hlimit | htotal
      · obtain rfl : n = 0 := by omega
        simpa using h
      · exact htotal.trans (Nat.le_add_right _ _)
    · rename_i hmore
      rw [List.map_cons, List.sum_cons, ← Nat.add_assoc]
      cases n with
      | zero => exact absurd (.inr h) hmore
      | succ n =>
        rw [List.take_succ_cons, List.map_cons, List.sum_cons, ← Nat.add_assoc] at h
        exact ih (by omega) h

variable (hsorted : xs.Pairwise fun a b => weight b ≤ weight a)

include hsorted in
/-- Of entries from the largest on, the ones taken are enough whenever any are. -/
theorem takeEnough_covers_iff :
    required ≤ ((takeEnough weight limit required 0 0 xs).map weight).sum ↔
      ∃ cover, Covers weight limit required xs cover := by
  constructor
  · intro henough
    refine ⟨takeEnough weight limit required 0 0 xs, ?_, ?_, henough⟩
    · rw [takeEnough_eq_take]
      exact (List.take_sublist _ xs).subperm
    · simpa using length_takeEnough_le (Nat.zero_le limit) 0 xs
  · intro hcover
    obtain ⟨cover, hpart, hfew, henough⟩ := hcover
    have hlargest : required ≤ 0 + ((xs.take cover.length).map weight).sum := by
      rw [Nat.zero_add]
      exact henough.trans (sum_le_sum_take hsorted hpart)
    simpa using @takeEnough_enough _ weight limit required xs 0 0 _ (by omega) hlargest

include hsorted in
/-- Entries of no weight are never taken when the ones taken are enough. -/
theorem pos_of_mem_takeEnough {taken total : ℕ} {y : α}
    (henough : required ≤
      total + ((takeEnough weight limit required taken total xs).map weight).sum)
    (hy : y ∈ takeEnough weight limit required taken total xs) : 0 < weight y := by
  induction xs generalizing taken total with
  | nil => cases hy
  | cons x xs ih =>
    obtain ⟨hlargest, hsorted⟩ := List.pairwise_cons.mp hsorted
    rw [takeEnough] at henough hy
    split at hy
    · cases hy
    · rename_i hmore
      rw [if_neg hmore, List.map_cons, List.sum_cons, ← Nat.add_assoc] at henough
      rcases List.mem_cons.mp hy with rfl | hy
      · by_contra hzero
        have hnothing : ((takeEnough weight limit required (taken + 1) (total + weight y) xs).map
            weight).sum = 0 := by
          apply List.sum_eq_zero
          intro n hn
          obtain ⟨z, hz, rfl⟩ := List.mem_map.mp hn
          rw [takeEnough_eq_take] at hz
          have hle := hlargest z (List.mem_of_mem_take hz)
          omega
        exact hmore (.inr (by omega))
      · exact ih hsorted henough hy

include hsorted in
/-- Of entries from the largest on, no cover has fewer than the ones taken. -/
theorem length_takeEnough_le_of_covers (h : Covers weight limit required xs cover) :
    (takeEnough weight limit required 0 0 xs).length ≤ cover.length := by
  apply length_takeEnough_le_of_enough
  rw [Nat.zero_add]
  exact h.enough.trans (sum_le_sum_take hsorted h.part)

end Enough

end LoopProof
