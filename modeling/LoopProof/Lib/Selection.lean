import Mathlib.Algebra.BigOperators.Group.List.Basic
import Mathlib.Algebra.Order.BigOperators.Group.List
import Mathlib.Algebra.Order.Ring.Nat
import Mathlib.Data.List.Dedup
import Mathlib.Data.List.Perm.Subperm
import Mathlib.Data.List.Sort

/-!
# Selections

Sorting by a comparator, and selecting entries of a list: greedily within a capacity, repeatedly
until the selection is stable, and by key with the last entry of a key winning. Weights are
natural numbers.
-/

namespace LoopProof

universe u v

section Sorting

variable {α : Type u} (cmp : α → α → Ordering)

/-- Stable sort by a comparator. -/
def sortBy (xs : List α) : List α := xs.insertionSort fun a b => (cmp a b).isLE

variable {cmp}

/-- Sorting permutes. -/
theorem sortBy_perm (xs : List α) : (sortBy cmp xs).Perm xs := List.perm_insertionSort _ xs

/-- Sorting keeps the elements. -/
@[simp] theorem mem_sortBy {xs : List α} {x : α} : x ∈ sortBy cmp xs ↔ x ∈ xs :=
  (sortBy_perm xs).mem_iff

/-- Only the empty list is sorted into it. -/
@[simp] theorem sortBy_eq_nil {xs : List α} : sortBy cmp xs = [] ↔ xs = [] :=
  ⟨fun h => (h ▸ @sortBy_perm _ cmp xs).symm.eq_nil, fun h => by rw [h]; rfl⟩

/-- Comparators that agree on a list sort it alike. -/
theorem sortBy_congr {other : α → α → Ordering} {xs : List α}
    (h : ∀ a ∈ xs, ∀ b ∈ xs, cmp a b = other a b) : sortBy cmp xs = sortBy other xs := by
  have hinsert (x : α) (ys : List α) (hx : ∀ y ∈ ys, cmp x y = other x y) :
      ys.orderedInsert (fun a b => (cmp a b).isLE) x =
        ys.orderedInsert (fun a b => (other a b).isLE) x := by
    induction ys with
    | nil => rfl
    | cons y ys ih =>
      obtain ⟨hy, hys⟩ := List.forall_mem_cons.mp hx
      rw [List.orderedInsert_cons, List.orderedInsert_cons, hy, ih hys]
  induction xs with
  | nil => rfl
  | cons x xs ih =>
    have hxs := ih fun a ha b hb => h a (List.mem_cons_of_mem x ha) b (List.mem_cons_of_mem x hb)
    have hsorted := hinsert x (sortBy cmp xs) fun y hy =>
      h x (List.mem_cons_self ..) y (List.mem_cons_of_mem x (mem_sortBy.mp hy))
    rw [hxs] at hsorted
    change (sortBy cmp xs).orderedInsert _ x = (sortBy other xs).orderedInsert _ x
    rw [hxs]
    exact hsorted

section Lawful

variable [Std.TransCmp cmp]

/-- A comparator of what a function takes from its arguments. -/
theorem transCmp_on {β : Type v} (f : β → α) : Std.TransCmp fun a b => cmp (f a) (f b) where
  eq_swap := by
    intro a b
    exact Std.OrientedCmp.eq_swap
  isLE_trans := by
    intro a b c hab hbc
    exact Std.TransCmp.isLE_trans hab hbc

/-- A comparator the other way round. -/
theorem transCmp_reverse : Std.TransCmp fun a b => cmp b a where
  eq_swap := by
    intro a b
    exact Std.OrientedCmp.eq_swap
  isLE_trans := by
    intro a b c hab hbc
    exact Std.TransCmp.isLE_trans hbc hab

instance totalIsLE : Std.Total fun a b => (cmp a b).isLE = true where
  total a b := by
    rw [@Std.OrientedCmp.eq_swap _ cmp _ b]
    cases cmp a b <;> simp [Ordering.isLE]

instance isTransIsLE : IsTrans α fun a b => (cmp a b).isLE = true where
  trans _ _ _ := Std.TransCmp.isLE_trans

/-- A sorted list is in order. -/
theorem pairwise_sortBy (xs : List α) :
    (sortBy cmp xs).Pairwise fun a b => (cmp a b).isLE = true :=
  List.pairwise_insertionSort _ xs

/-- A sorted list is left as it is. -/
theorem sortBy_sortBy (xs : List α) : sortBy cmp (sortBy cmp xs) = sortBy cmp xs :=
  (pairwise_sortBy xs).insertionSort_eq

/-- Entries that the comparator tells apart are sorted in one way only. -/
theorem sortBy_eq_of_perm {xs ys : List α} (h : xs.Perm ys)
    (hties : ∀ a ∈ xs, ∀ b ∈ xs, cmp a b = .eq → a = b) : sortBy cmp xs = sortBy cmp ys := by
  apply List.Perm.eq_of_pairwise _ (pairwise_sortBy xs) (pairwise_sortBy ys)
    ((sortBy_perm xs).trans (h.trans (sortBy_perm ys).symm))
  intro a b ha hb hab hba
  apply hties a (mem_sortBy.mp ha) b (h.symm.subset (mem_sortBy.mp hb))
  exact Std.OrientedCmp.isLE_antisymm hab hba

end Lawful

/-- A comparator that is a strict total order on the entries of a list. -/
structure OrdersStrictly (cmp : α → α → Ordering) (xs : List α) : Prop where
  self : ∀ a ∈ xs, cmp a a = .eq
  swap : ∀ a ∈ xs, ∀ b ∈ xs, cmp a b = (cmp b a).swap
  same : ∀ a ∈ xs, ∀ b ∈ xs, cmp a b = .eq → a = b
  trans : ∀ a ∈ xs, ∀ b ∈ xs, ∀ c ∈ xs, cmp a b = .lt → cmp b c = .lt → cmp a c = .lt

/-- What orders a list orders each part of it. -/
theorem OrdersStrictly.mono {xs ys : List α} (h : OrdersStrictly cmp ys)
    (hsub : ∀ a ∈ xs, a ∈ ys) : OrdersStrictly cmp xs where
  self a ha := h.self a (hsub a ha)
  swap a ha b hb := h.swap a (hsub a ha) b (hsub b hb)
  same a ha b hb := h.same a (hsub a ha) b (hsub b hb)
  trans a ha b hb c hc := h.trans a (hsub a ha) b (hsub b hb) c (hsub c hc)

/-- On the entries of the list alone the comparator is lawful. -/
theorem OrdersStrictly.transCmp {xs : List α} (h : OrdersStrictly cmp xs) :
    Std.TransCmp fun a b : { a // a ∈ xs } => cmp a.val b.val where
  eq_swap := by
    intro a b
    exact h.swap _ a.property _ b.property
  isLE_trans := by
    intro a b c hab hbc
    rcases Ordering.isLE_iff_eq_lt_or_eq_eq.mp hab with hab | hab
    · rcases Ordering.isLE_iff_eq_lt_or_eq_eq.mp hbc with hbc | hbc
      · rw [h.trans _ a.property _ b.property _ c.property hab hbc]
        rfl
      · rw [← h.same _ b.property _ c.property hbc, hab]
        rfl
    · rw [h.same _ a.property _ b.property hab]
      exact hbc

/-- A list that the comparator orders strictly is sorted in one way only. -/
theorem OrdersStrictly.sortBy_eq_of_perm {xs ys : List α} (h : OrdersStrictly cmp xs)
    (hperm : xs.Perm ys) : sortBy cmp xs = sortBy cmp ys := by
  have hlawful := h.transCmp
  obtain ⟨zs, rfl⟩ : ∃ zs : List { a // a ∈ xs }, zs.map Subtype.val = ys :=
    ⟨ys.attachWith (· ∈ xs) fun y hy => hperm.symm.subset hy, List.attachWith_map_subtype_val _⟩
  have hsubtype : xs.attach.Perm zs := by
    rw [← List.map_perm_map_iff Subtype.val_injective, List.attach_map_subtype_val]
    exact hperm
  have hmap (ws : List { a // a ∈ xs }) : sortBy cmp (ws.map Subtype.val) =
      (sortBy (fun a b : { a // a ∈ xs } => cmp a.val b.val) ws).map Subtype.val :=
    (List.map_insertionSort _ _ Subtype.val ws fun _ _ _ _ => Iff.rfl).symm
  have hties : ∀ a ∈ xs.attach, ∀ b ∈ xs.attach, cmp a.val b.val = .eq → a = b := by
    intro a _ b _ heq
    exact Subtype.ext (h.same _ a.property _ b.property heq)
  calc sortBy cmp xs
      = sortBy cmp (xs.attach.map Subtype.val) := by rw [List.attach_map_subtype_val]
    _ = (sortBy (fun a b : { a // a ∈ xs } => cmp a.val b.val) xs.attach).map Subtype.val :=
      hmap xs.attach
    _ = (sortBy (fun a b : { a // a ∈ xs } => cmp a.val b.val) zs).map Subtype.val := by
      rw [LoopProof.sortBy_eq_of_perm hsubtype hties]
    _ = sortBy cmp (zs.map Subtype.val) := (hmap zs).symm

end Sorting

section SortedSet

variable {α : Type u} [LinearOrder α]

/-- The members of a list in order. -/
def sortedSet (xs : List α) : List α := xs.dedup.insertionSort (· ≤ ·)

/-- The sorted set has the same elements. -/
@[simp] theorem mem_sortedSet {xs : List α} {x : α} : x ∈ sortedSet xs ↔ x ∈ xs := by
  rw [sortedSet, List.mem_insertionSort, List.mem_dedup]

/-- The sorted set has each element once. -/
theorem nodup_sortedSet (xs : List α) : (sortedSet xs).Nodup :=
  (List.perm_insertionSort _ _).nodup_iff.mpr (List.nodup_dedup xs)

/-- The sorted set is in order. -/
theorem pairwise_sortedSet (xs : List α) : (sortedSet xs).Pairwise (· ≤ ·) :=
  List.pairwise_insertionSort _ _

/-- Ordered members without repetition that are as many as a set's are the set. -/
theorem eq_sortedSet {xs ys : List α} (hsorted : xs.Pairwise (· ≤ ·)) (hnodup : xs.Nodup)
    (hmem : xs ⊆ sortedSet ys) (hlength : (sortedSet ys).length ≤ xs.length) :
    xs = sortedSet ys :=
  ((List.subperm_of_subset hnodup hmem).perm_of_length_le hlength).eq_of_pairwise
    (fun _ _ _ _ => le_antisymm) hsorted (pairwise_sortedSet ys)

end SortedSet

section Greedy

variable {α : Type u} (weight : α → ℕ)

/-- Keep every entry that still fits, in order. -/
def greedyWithin (capacity : ℕ) : ℕ → List α → List α
  | _, [] => []
  | spent, x :: xs =>
    if capacity < spent + weight x then greedyWithin capacity spent xs
    else x :: greedyWithin capacity (spent + weight x) xs

variable {weight}

/-- What is kept is a part of the list, in its order. -/
theorem greedyWithin_sublist (capacity spent : ℕ) (xs : List α) :
    (greedyWithin weight capacity spent xs).Sublist xs := by
  induction xs generalizing spent with
  | nil => exact List.Sublist.refl []
  | cons x xs ih =>
    rw [greedyWithin]
    split
    · exact (ih spent).cons x
    · exact (ih (spent + weight x)).cons_cons x

/-- The kept entries fit. -/
theorem sum_greedyWithin_le {capacity spent : ℕ} (h : spent ≤ capacity) (xs : List α) :
    spent + ((greedyWithin weight capacity spent xs).map weight).sum ≤ capacity := by
  induction xs generalizing spent with
  | nil => simpa [greedyWithin] using h
  | cons x xs ih =>
    rw [greedyWithin]
    split
    · exact ih h
    · rename_i hfits
      rw [List.map_cons, List.sum_cons, ← Nat.add_assoc]
      exact ih (Nat.not_lt.mp hfits)

/-- From the heaviest to the lightest, an entry is kept if it fits beside all entries as heavy. -/
theorem mem_greedyWithin {capacity spent : ℕ} {xs : List α} {x : α} (hx : x ∈ xs)
    (hsorted : xs.Pairwise fun y z => weight z ≤ weight y)
    (h : spent + ((xs.filter fun y => weight x ≤ weight y).map weight).sum ≤ capacity) :
    x ∈ greedyWithin weight capacity spent xs := by
  induction xs generalizing spent with
  | nil => exact absurd hx List.not_mem_nil
  | cons y ys ih =>
    have hy : weight x ≤ weight y := by
      rcases List.mem_cons.mp hx with rfl | hmem
      · exact Nat.le_refl _
      · exact List.rel_of_pairwise_cons hsorted hmem
    simp only [List.filter_cons, hy, decide_true, ite_true, List.map_cons, List.sum_cons] at h
    rw [greedyWithin, if_neg (by omega)]
    rcases List.mem_cons.mp hx with rfl | hmem
    · exact List.mem_cons_self ..
    · exact List.mem_cons_of_mem _ (ih hmem hsorted.of_cons (by omega))

end Greedy

section Stable

variable {α : Type u} {β : Type v} [DecidableEq β] (key : α → β) (step : List α → List α)

/-- Select again until the keys of the selection repeat, for as many passes as there is fuel. -/
def selectUntilStable : ℕ → Option (List β) → List α → Option (List α)
  | 0, _, _ => none
  | _ + 1, _, [] => some []
  | fuel + 1, previous, xs@(_ :: _) =>
    let retained := step xs
    if previous = some (retained.map key) then some retained
    else selectUntilStable fuel (some (retained.map key)) retained

variable {key step}

/-- Every selection is made of the entries it started from. -/
theorem selectUntilStable_subperm (hstep : ∀ xs, (step xs).Subperm xs) {fuel : ℕ}
    {previous : Option (List β)} {xs ys : List α}
    (h : selectUntilStable key step fuel previous xs = some ys) : ys.Subperm xs := by
  induction fuel generalizing previous xs with
  | zero => cases h
  | succ fuel ih =>
    cases xs with
    | nil =>
      obtain rfl := Option.some.inj h
      exact List.Subperm.refl []
    | cons x xs =>
      rw [selectUntilStable] at h
      split at h
      · rw [← Option.some.inj h]
        exact hstep (x :: xs)
      · exact (ih h).trans (hstep (x :: xs))

/-- A selection that settled settles alike with more fuel. -/
theorem selectUntilStable_mono {fuel more : ℕ} (hmore : fuel ≤ more)
    {previous : Option (List β)} {xs ys : List α}
    (h : selectUntilStable key step fuel previous xs = some ys) :
    selectUntilStable key step more previous xs = some ys := by
  induction fuel generalizing more previous xs with
  | zero => cases h
  | succ fuel ih =>
    obtain ⟨more, rfl⟩ : ∃ n, more = n + 1 := ⟨more - 1, by omega⟩
    cases xs with
    | nil => exact h
    | cons x xs =>
      rw [selectUntilStable] at h ⊢
      split at h
      · rename_i hsame
        rw [if_pos hsame, h]
      · rename_i hdiffers
        rw [if_neg hdiffers]
        exact ih (Nat.le_of_succ_le_succ hmore) h

variable (hshort : ∀ xs, (step xs).length ≤ xs.length)
  (hstable : ∀ xs, (step (step xs)).length = (step xs).length →
    (step (step xs)).map key = (step xs).map key)

include hshort hstable in
/-- From the second pass on, a pass that drops nothing repeats the keys. -/
private theorem selectUntilStable_again {fuel : ℕ} {xs : List α}
    (hfuel : (step xs).length < fuel) :
    selectUntilStable key step fuel (some ((step xs).map key)) (step xs) = some [] ∨
      ∃ ys, (step ys).length = ys.length ∧
        selectUntilStable key step fuel (some ((step xs).map key)) (step xs) = some (step ys) := by
  induction fuel generalizing xs with
  | zero => exact absurd hfuel (Nat.not_lt_zero _)
  | succ fuel ih =>
    cases hxs : step xs with
    | nil => exact .inl rfl
    | cons y ys =>
      rw [selectUntilStable, ← hxs]
      split
      · rename_i hsame
        have hlength := congrArg List.length (Option.some.inj hsame)
        rw [List.length_map, List.length_map] at hlength
        exact .inr ⟨step xs, hlength.symm, rfl⟩
      · rename_i hdiffers
        refine ih (lt_of_lt_of_le ?_ (Nat.le_of_lt_succ hfuel))
        apply lt_of_le_of_ne (hshort (step xs))
        intro hlength
        exact hdiffers (congrArg some (hstable xs hlength).symm)

include hshort hstable in
/-- A pass for every entry and two more are enough: the repeated selection ends with a pass that
dropped nothing. -/
theorem selectUntilStable_settles {fuel : ℕ} {xs : List α} (hfuel : xs.length + 1 < fuel) :
    selectUntilStable key step fuel none xs = some [] ∨
      ∃ ys, (step ys).length = ys.length ∧
        selectUntilStable key step fuel none xs = some (step ys) := by
  cases fuel with
  | zero => exact absurd hfuel (Nat.not_lt_zero _)
  | succ fuel =>
    cases xs with
    | nil => exact .inl rfl
    | cons x xs =>
      rw [selectUntilStable, if_neg nofun]
      exact selectUntilStable_again hshort hstable
        (lt_of_le_of_lt (hshort _) (Nat.lt_of_succ_lt_succ hfuel))

end Stable

section Dedupe

variable {α : Type u} {β : Type v} [DecidableEq β] (key : α → β)

/-- Store an entry under its key: in place of an earlier entry, else at the end. -/
def storeByKey (stored : List α) (x : α) : List α :=
  if stored.any fun y => key y = key x then stored.map fun y => if key y = key x then x else y
  else stored ++ [x]

/-- The entries by key, the last one of a key at the place of the first. -/
def dedupeBy (xs : List α) : List α := xs.foldl (storeByKey key) []

variable {key}

private theorem foldl_storeByKey (xs stored : List α)
    (h : ((stored ++ xs).map key).Nodup) : xs.foldl (storeByKey key) stored = stored ++ xs := by
  induction xs generalizing stored with
  | nil => rw [List.foldl_nil, List.append_nil]
  | cons x xs ih =>
    have hnew : ¬ stored.any (fun y => key y = key x) = true := by
      rw [List.any_eq_true]
      intro hstored
      obtain ⟨y, hy, hkey⟩ := hstored
      rw [List.map_append, List.map_cons, List.nodup_append] at h
      exact h.2.2 _ (List.mem_map_of_mem hy) _ (List.mem_cons_self ..) (of_decide_eq_true hkey)
    have happend : stored ++ x :: xs = stored ++ [x] ++ xs := by
      rw [List.append_assoc, List.singleton_append]
    rw [List.foldl_cons, storeByKey, if_neg hnew, happend]
    exact ih _ (happend ▸ h)

/-- Entries with different keys are kept as they are. -/
theorem dedupeBy_eq_self {xs : List α} (h : (xs.map key).Nodup) : dedupeBy key xs = xs :=
  foldl_storeByKey xs [] h

private theorem map_storeByKey (stored : List α) (x : α) :
    (storeByKey key stored x).map key =
      if key x ∈ stored.map key then stored.map key else stored.map key ++ [key x] := by
  unfold storeByKey
  by_cases hstored : key x ∈ stored.map key
  · rw [if_pos hstored, if_pos]
    · rw [List.map_map]
      apply List.map_congr_left
      intro y _
      by_cases hy : key y = key x
      · simp [hy]
      · simp [hy]
    · obtain ⟨y, hy, hkey⟩ := List.mem_map.mp hstored
      exact List.any_eq_true.mpr ⟨y, hy, decide_eq_true hkey⟩
  · rw [if_neg hstored, if_neg, List.map_append, List.map_singleton]
    rw [List.any_eq_true]
    intro hany
    obtain ⟨y, hy, hkey⟩ := hany
    exact hstored (of_decide_eq_true hkey ▸ List.mem_map_of_mem hy)

private theorem dedupe_invariant (xs stored : List α) (h : (stored.map key).Nodup) :
    ((xs.foldl (storeByKey key) stored).map key).Nodup ∧
      ∀ k, k ∈ (xs.foldl (storeByKey key) stored).map key ↔
        k ∈ stored.map key ∨ k ∈ xs.map key := by
  induction xs generalizing stored with
  | nil => simpa using h
  | cons x xs ih =>
    have hnodup : ((storeByKey key stored x).map key).Nodup := by
      rw [map_storeByKey]
      split
      · exact h
      · rename_i hnew
        rw [← List.concat_eq_append]
        exact h.concat hnew
    obtain ⟨hall, hmem⟩ := ih _ hnodup
    refine ⟨hall, fun k => ?_⟩
    rw [List.foldl_cons, hmem, map_storeByKey, List.map_cons, List.mem_cons]
    split
    · rename_i hstored
      constructor
      · intro hk
        exact hk.imp_right Or.inr
      · rintro (hk | rfl | hk)
        · exact .inl hk
        · exact .inl hstored
        · exact .inr hk
    · rw [List.mem_append, List.mem_singleton]
      exact or_assoc

/-- Every key is stored once. -/
theorem nodup_dedupeBy (xs : List α) : ((dedupeBy key xs).map key).Nodup :=
  (dedupe_invariant xs [] List.nodup_nil).1

/-- The keys of a list are the stored keys. -/
theorem mem_map_dedupeBy {xs : List α} {k : β} :
    k ∈ (dedupeBy key xs).map key ↔ k ∈ xs.map key := by
  rw [dedupeBy, (dedupe_invariant xs [] List.nodup_nil).2]
  simp

end Dedupe

section Weights

variable {α : Type u} {weight : α → ℕ} {xs ys : List α}

/-- A part of a list weighs no more than the list. -/
theorem sum_map_le_of_subperm (h : xs.Subperm ys) : (xs.map weight).sum ≤ (ys.map weight).sum := by
  obtain ⟨zs, hperm, hsublist⟩ := h
  rw [← (hperm.map weight).sum_eq]
  exact (hsublist.map weight).sum_le_sum fun _ _ => Nat.zero_le _

/-- The entries of a new key weigh on top of those of the other keys. -/
theorem sum_filter_mem_cons {β : Type v} [DecidableEq β] {key : α → β} {k : β} {ks : List β}
    (h : k ∉ ks) (xs : List α) :
    ((xs.filter fun x => key x ∈ k :: ks).map weight).sum =
      ((xs.filter fun x => key x = k).map weight).sum +
        ((xs.filter fun x => key x ∈ ks).map weight).sum := by
  induction xs with
  | nil => rfl
  | cons x xs ih =>
    by_cases hkey : key x = k
    · simp only [List.filter_cons, hkey, List.mem_cons_self, h, decide_true, decide_false, ite_true,
        Bool.false_eq_true, ite_false, List.map_cons, List.sum_cons, ih, Nat.add_assoc]
    · by_cases hmem : key x ∈ ks
      · simp only [List.filter_cons, List.mem_cons, hkey, hmem, or_true, decide_true, decide_false,
          ite_true, Bool.false_eq_true, ite_false, List.map_cons, List.sum_cons]
        simp only [List.mem_cons] at ih
        omega
      · simp only [List.filter_cons, List.mem_cons, hkey, hmem, or_false, decide_false,
          Bool.false_eq_true, ite_false]
        simpa only [List.mem_cons] using ih

end Weights

end LoopProof
