import Mathlib.Data.List.Basic
import Mathlib.Order.Basic

/-!
# Binary search

The search for the first element of a list that a test does not pass, where the elements that
pass it come first.
-/

namespace LoopProof

variable {α : Type*}

/-- Halve the range between two positions until it is empty. -/
def binarySearch (test : α → Bool) (xs : List α) : ℕ → ℕ → ℕ → ℕ
  | 0, lower, _ => lower
  | fuel + 1, lower, upper =>
    if upper ≤ lower then lower
    else if xs[(lower + upper) / 2]?.any test then
      binarySearch test xs fuel ((lower + upper) / 2 + 1) upper
    else binarySearch test xs fuel lower ((lower + upper) / 2)

/-- The position from which on no element passes the test. -/
def lowerBound (test : α → Bool) (xs : List α) : ℕ :=
  binarySearch test xs xs.length 0 xs.length

variable {test : α → Bool} {xs : List α}

/-- Where an element passes the test, so do the ones before it. -/
def PassesFirst (test : α → Bool) (xs : List α) : Prop :=
  xs.Pairwise fun a b => test b = true → test a = true

/-- The elements up to one that passes the test pass it. -/
theorem take_passes (hsorted : PassesFirst test xs) {middle : ℕ}
    (hmiddle : xs[middle]?.any test = true) : ∀ x ∈ xs.take (middle + 1), test x = true := by
  intro x hx
  obtain ⟨hbound, hpivot⟩ : ∃ h : middle < xs.length, test xs[middle] = true := by
    by_cases hbound : middle < xs.length
    · rw [List.getElem?_eq_getElem hbound] at hmiddle
      exact ⟨hbound, hmiddle⟩
    · rw [List.getElem?_eq_none (Nat.le_of_not_lt hbound)] at hmiddle
      cases hmiddle
  obtain ⟨i, hi, rfl⟩ := List.mem_take_iff_getElem.mp hx
  rcases Nat.lt_or_ge i middle with hlt | hge
  · exact List.pairwise_iff_getElem.mp hsorted i middle (by omega) hbound hlt hpivot
  · have heq : i = middle := by omega
    subst heq
    exact hpivot

/-- Every element before the found position passes the test. -/
theorem binarySearch_take (hsorted : PassesFirst test xs) {fuel lower upper : ℕ}
    (hlower : ∀ x ∈ xs.take lower, test x = true) :
    ∀ x ∈ xs.take (binarySearch test xs fuel lower upper), test x = true := by
  induction fuel generalizing lower upper with
  | zero => exact hlower
  | succ fuel ih =>
    rw [binarySearch]
    split
    · exact hlower
    · split
      · rename_i hmiddle
        apply ih
        exact take_passes hsorted hmiddle
      · exact ih hlower

theorem lowerBound_take (hsorted : PassesFirst test xs) :
    ∀ x ∈ xs.take (lowerBound test xs), test x = true :=
  binarySearch_take hsorted (by simp)

end LoopProof
