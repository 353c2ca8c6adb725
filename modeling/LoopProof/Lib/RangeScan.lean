import Mathlib.Data.List.Basic
import Mathlib.Order.Basic

/-!
# Scans of a range in pieces

The items of a list that stand at a place within bounds. Where the list is ordered by place, the
pieces of a range that are read one after the other make up the range.
-/

namespace LoopProof

variable {α : Type*} (place : α → ℕ)

/-- The items at places from the first to the last. -/
def itemsBetween (items : List α) (first last : ℕ) : List α :=
  items.filter fun item => first ≤ place item ∧ place item ≤ last

variable {place} {items : List α}

theorem mem_itemsBetween {first last : ℕ} {item : α} :
    item ∈ itemsBetween place items first last ↔
      item ∈ items ∧ first ≤ place item ∧ place item ≤ last := by
  rw [itemsBetween, List.mem_filter, decide_eq_true_iff]

theorem itemsBetween_eq_nil {first last : ℕ} (h : last < first) :
    itemsBetween place items first last = [] := by
  rw [itemsBetween, List.filter_eq_nil_iff]
  intro item _ hbetween
  have hbounds := of_decide_eq_true hbetween
  omega

/-- Where every item stands early, the items of a range are those of any later range. -/
private theorem itemsBetween_cons_late {item : α}
    (hlate : ∀ other ∈ items, place item ≤ place other)
    {first middle : ℕ} (h : middle < place item) : itemsBetween place items first middle = [] := by
  rw [itemsBetween, List.filter_eq_nil_iff]
  intro other hother hbetween
  have hbounds := of_decide_eq_true hbetween
  have hle := hlate other hother
  omega

/-- A range of an ordered list is read in two pieces. -/
theorem itemsBetween_append (hsorted : items.Pairwise fun a b => place a ≤ place b)
    {first middle last : ℕ} (hfirst : first ≤ middle + 1) (hlast : middle ≤ last) :
    itemsBetween place items first middle ++ itemsBetween place items (middle + 1) last =
      itemsBetween place items first last := by
  induction items with
  | nil => rfl
  | cons item rest ih =>
    obtain ⟨hitem, hrest⟩ := List.pairwise_cons.mp hsorted
    have hih := ih hrest
    by_cases hmiddle : place item ≤ middle
    · have hnext : ¬ (middle + 1 ≤ place item ∧ place item ≤ last) := by omega
      have hsame : (first ≤ place item ∧ place item ≤ middle) ↔
          (first ≤ place item ∧ place item ≤ last) := by omega
      simp only [itemsBetween, List.filter_cons, hnext, decide_false, Bool.false_eq_true, if_false,
        hsame] at hih ⊢
      split
      · rw [List.cons_append, hih]
      · exact hih
    · have hnone : itemsBetween place rest first middle = [] :=
        itemsBetween_cons_late hitem (Nat.lt_of_not_le hmiddle)
      have hhead : ¬ (first ≤ place item ∧ place item ≤ middle) := by omega
      have hsame : (middle + 1 ≤ place item ∧ place item ≤ last) ↔
          (first ≤ place item ∧ place item ≤ last) := by omega
      rw [hnone, List.nil_append] at hih
      simp only [itemsBetween, List.filter_cons, hhead, decide_false, Bool.false_eq_true, if_false,
        hsame] at hnone hih ⊢
      rw [hnone, List.nil_append, hih]

/-- A piece of a range of an ordered list is a part of it. -/
theorem filter_itemsBetween (p : α → Bool) {first last : ℕ} :
    itemsBetween place (items.filter p) first last =
      (itemsBetween place items first last).filter p := by
  rw [itemsBetween, itemsBetween, List.filter_comm]

/-- Windows that make up a range, each beginning where the one before it ended. -/
def Tiles (last : ℕ) : ℕ → List (ℕ × ℕ) → Prop
  | first, [] => last < first
  | first, window :: rest =>
    window.1 = first ∧ first ≤ window.2 ∧ window.2 ≤ last ∧ Tiles last (window.2 + 1) rest

variable {first last : ℕ} {windows : List (ℕ × ℕ)}

/-- The windows stand within the range. -/
theorem Tiles.bounds (h : Tiles last first windows) {window : ℕ × ℕ} (hmem : window ∈ windows) :
    first ≤ window.1 ∧ window.1 ≤ window.2 ∧ window.2 ≤ last := by
  induction windows generalizing first with
  | nil => cases hmem
  | cons head rest ih =>
    obtain ⟨hfirst, hle, hlast, hrest⟩ := h
    rcases List.mem_cons.mp hmem with rfl | hmem
    · exact ⟨Nat.le_of_eq hfirst.symm, hfirst ▸ hle, hlast⟩
    · have hbounds := ih hrest hmem
      omega

/-- No window reaches into a later one. -/
theorem Tiles.disjoint (h : Tiles last first windows) :
    windows.Pairwise fun window later => window.2 < later.1 := by
  induction windows generalizing first with
  | nil => exact List.Pairwise.nil
  | cons head rest ih =>
    obtain ⟨_, _, _, hrest⟩ := h
    apply List.Pairwise.cons
    · intro later hlater
      have hbounds := hrest.bounds hlater
      omega
    · exact ih hrest

/-- The windows cover the range and nothing else. -/
theorem Tiles.mem_iff (h : Tiles last first windows) (n : ℕ) :
    (∃ window ∈ windows, window.1 ≤ n ∧ n ≤ window.2) ↔ first ≤ n ∧ n ≤ last := by
  induction windows generalizing first with
  | nil =>
    have hempty : last < first := h
    constructor
    · rintro ⟨_, hmem, _⟩
      cases hmem
    · intro hn
      omega
  | cons head rest ih =>
    obtain ⟨hfirst, hle, hlast, hrest⟩ := h
    rw [List.exists_mem_cons_iff, ih hrest]
    omega

/-- What the windows hold of an ordered list is what the range holds of it. -/
theorem Tiles.flatMap_itemsBetween (h : Tiles last first windows)
    (hsorted : items.Pairwise fun a b => place a ≤ place b) :
    (windows.flatMap fun window => itemsBetween place items window.1 window.2) =
      itemsBetween place items first last := by
  induction windows generalizing first with
  | nil => rw [itemsBetween_eq_nil h, List.flatMap_nil]
  | cons head rest ih =>
    obtain ⟨hfirst, hle, hlast, hrest⟩ := h
    rw [List.flatMap_cons, ih hrest, hfirst]
    exact itemsBetween_append hsorted (by omega) hlast

end LoopProof
