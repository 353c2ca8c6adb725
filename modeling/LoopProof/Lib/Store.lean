import Mathlib.Data.List.Induction
import Mathlib.Data.List.Nodup
import Mathlib.Logic.Function.Basic

/-!
# Stores filled entry by entry

A store maps keys to values; an entry that is stored later replaces the value of its key. Entries of
different keys keep their values.
-/

namespace LoopProof

universe u v

variable {κ : Type u} {ν : Type v} [DecidableEq κ]

/-- The store after one more entry. -/
def storeEntry (store : κ → Option ν) (entry : κ × ν) : κ → Option ν :=
  Function.update store entry.1 (some entry.2)

/-- The store that the entries fill in order. -/
def storeAll (entries : List (κ × ν)) : κ → Option ν :=
  entries.foldl storeEntry fun _ => none

theorem storeAll_append_singleton (entries : List (κ × ν)) (entry : κ × ν) (key : κ) :
    storeAll (entries ++ [entry]) key =
      if key = entry.1 then some entry.2 else storeAll entries key := by
  rw [storeAll, List.foldl_append, List.foldl_cons, List.foldl_nil, storeEntry,
    Function.update_apply]
  rfl

/-- A key that no entry has is not in the store. -/
theorem storeAll_eq_none {entries : List (κ × ν)} {key : κ} :
    storeAll entries key = none ↔ key ∉ entries.map Prod.fst := by
  induction entries using List.reverseRecOn with
  | nil => simp [storeAll]
  | append_singleton entries entry ih =>
    rw [storeAll_append_singleton]
    by_cases hkey : key = entry.1
    · simp [hkey]
    · simp [hkey, ih]

/-- What is in the store was stored. -/
theorem mem_of_storeAll {entries : List (κ × ν)} {key : κ} {value : ν}
    (h : storeAll entries key = some value) : (key, value) ∈ entries := by
  induction entries using List.reverseRecOn with
  | nil => cases h
  | append_singleton entries entry ih =>
    rw [storeAll_append_singleton] at h
    by_cases hkey : key = entry.1
    · rw [if_pos hkey] at h
      obtain rfl := Option.some.inj h
      rw [hkey]
      exact List.mem_append_right _ (List.mem_singleton.mpr rfl)
    · rw [if_neg hkey] at h
      exact List.mem_append_left _ (ih h)

/-- Entries of different keys keep their values. -/
theorem storeAll_eq_some {entries : List (κ × ν)} (hnodup : (entries.map Prod.fst).Nodup)
    {key : κ} {value : ν} : storeAll entries key = some value ↔ (key, value) ∈ entries := by
  constructor
  · exact mem_of_storeAll
  · intro hmem
    cases hstored : storeAll entries key with
    | none => exact absurd (List.mem_map_of_mem hmem) (storeAll_eq_none.mp hstored)
    | some other =>
      have hother := mem_of_storeAll hstored
      have heq := List.inj_on_of_nodup_map hnodup hother hmem rfl
      exact congrArg some (Prod.ext_iff.mp heq).2

/-- Entries grouped under different keys, with different keys within every group. -/
theorem storeAll_groups {ι : Type u} {γ : Type v} [DecidableEq ι] {groups : List (κ × γ)}
    {items : γ → List (ι × ν)} (hgroups : (groups.map Prod.fst).Nodup)
    (hitems : ∀ group ∈ groups, ((items group.2).map Prod.fst).Nodup) {key : κ} {index : ι}
    {value : ν} :
    storeAll (groups.flatMap fun group =>
        (items group.2).map fun item => ((group.1, item.1), item.2)) (key, index) = some value ↔
      ∃ group, (key, group) ∈ groups ∧ (index, value) ∈ items group := by
  rw [storeAll_eq_some]
  · simp only [List.mem_flatMap, List.mem_map, Prod.mk.injEq, Prod.exists]
    constructor
    · intro h
      obtain ⟨key, group, hgroup, index, value, hitem, ⟨rfl, rfl⟩, rfl⟩ := h
      exact ⟨group, hgroup, hitem⟩
    · intro h
      obtain ⟨group, hgroup, hitem⟩ := h
      exact ⟨key, group, hgroup, index, value, hitem, ⟨rfl, rfl⟩, rfl⟩
  · simp only [List.map_flatMap, List.map_map]
    rw [List.nodup_flatMap]
    constructor
    · intro group hgroup
      have hmap : (items group.2).map (Prod.fst ∘ fun item => ((group.1, item.1), item.2)) =
          ((items group.2).map Prod.fst).map fun index => (group.1, index) := by
        rw [List.map_map]
        rfl
      rw [hmap]
      exact (hitems group hgroup).map fun _ _ h => (Prod.mk.inj h).2
    · apply (List.pairwise_map.mp hgroups).imp
      intro group group' hne entry hentry hentry'
      obtain ⟨item, _, rfl⟩ := List.mem_map.mp hentry
      obtain ⟨item', _, heq⟩ := List.mem_map.mp hentry'
      exact hne (congrArg (fun entry => entry.1) heq).symm

end LoopProof
