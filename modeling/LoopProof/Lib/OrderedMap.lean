import Mathlib.Data.List.Perm.Basic
import Mathlib.Order.Fin.Basic
import Std.Data.ExtTreeMap

/-!
# Ordered maps as sets of entries

A map built by insertions holds exactly the entries that were inserted. Its listing is
then a sorted permutation of them, so it does not depend on the order of insertion.
-/

namespace LoopProof

open Std

section Holds

variable {κ ν : Type} [Ord κ]

/-- The map holds exactly the listed entries. -/
def Holds [TransOrd κ] (map : ExtTreeMap κ ν compare) (entries : List (κ × ν)) : Prop :=
  ∀ k v, map[k]? = some v ↔ (k, v) ∈ entries

variable [TransOrd κ] {map map' : ExtTreeMap κ ν compare} {entries entries' : List (κ × ν)}
  {k : κ} {v : ν}

theorem holds_empty : Holds (∅ : ExtTreeMap κ ν compare) [] := by
  intro k v
  simp

theorem Holds.mem_iff (h : Holds map entries) : k ∈ map ↔ ∃ v, (k, v) ∈ entries := by
  rw [← ExtTreeMap.isSome_getElem?_iff_mem, Option.isSome_iff_exists]
  exact exists_congr fun v => h k v

variable [LawfulEqOrd κ]

/-- Inserting an entry that agrees with the held ones adds it. -/
theorem Holds.insert (h : Holds map entries) (hagree : ∀ v', (k, v') ∈ entries → v' = v) :
    Holds (map.insert k v) (entries ++ [(k, v)]) := by
  intro k' v'
  rw [ExtTreeMap.getElem?_insert, List.mem_append, List.mem_singleton, Prod.mk.injEq]
  by_cases hk : compare k k' = .eq
  · rw [if_pos hk]
    obtain rfl := LawfulEqOrd.eq_of_compare hk
    constructor
    · intro heq
      exact .inr ⟨rfl, (Option.some.inj heq).symm⟩
    · rintro (hmem | ⟨_, rfl⟩)
      · rw [hagree v' hmem]
      · rfl
  · rw [if_neg hk, h k' v']
    constructor
    · exact .inl
    · rintro (hmem | ⟨rfl, _⟩)
      · exact hmem
      · exact absurd ReflOrd.compare_self hk

/-- The listing of a map has exactly the held entries. -/
theorem Holds.mem_toList (h : Holds map entries) {entry : κ × ν} :
    entry ∈ map.toList ↔ entry ∈ entries := by
  obtain ⟨k, v⟩ := entry
  rw [ExtTreeMap.mem_toList_iff_getElem?_eq_some, h k v]

/-- Maps that hold the same entries are equal. -/
theorem Holds.map_eq (h : Holds map entries) (h' : Holds map' entries')
    (hsame : ∀ entry, entry ∈ entries ↔ entry ∈ entries') : map = map' := by
  refine ExtTreeMap.ext_getElem? fun k => Option.ext fun v => ?_
  exact (h k v).trans ((hsame (k, v)).trans (h' k v).symm)

omit [LawfulEqOrd κ] in
/-- No entry is listed twice. -/
theorem nodup_toList (map : ExtTreeMap κ ν compare) : map.toList.Nodup := by
  refine map.distinct_keys_toList.imp ?_
  rintro a b hab rfl
  exact hab ReflOrd.compare_self

/-- The listing is a permutation of entries that repeat none. -/
theorem Holds.toList_perm (h : Holds map entries) (hnodup : entries.Nodup) :
    map.toList.Perm entries :=
  (List.perm_ext_iff_of_nodup (nodup_toList map) hnodup).mpr fun _ => h.mem_toList

end Holds

section InsertAll

variable {κ ν : Type} [Ord κ] [TransOrd κ]

/-- A map with further entries. -/
def insertAll (map : ExtTreeMap κ ν compare) (entries : List (κ × ν)) : ExtTreeMap κ ν compare :=
  entries.foldl (fun map entry => map.insert entry.1 entry.2) map

variable [LawfulEqOrd κ] {map : ExtTreeMap κ ν compare} {k : κ} {v : ν}

/-- Entries of different keys replace what the map holds for them. -/
theorem getElem?_insertAll {entries : List (κ × ν)} (hnodup : (entries.map Prod.fst).Nodup) :
    (insertAll map entries)[k]? = some v ↔
      (k, v) ∈ entries ∨ k ∉ entries.map Prod.fst ∧ map[k]? = some v := by
  induction entries generalizing map with
  | nil => simp [insertAll]
  | cons entry entries ih =>
    obtain ⟨key, value⟩ := entry
    obtain ⟨hnew, hnodup⟩ := List.nodup_cons.mp hnodup
    rw [insertAll, List.foldl_cons]
    change (insertAll (map.insert key value) entries)[k]? = some v ↔ _
    rw [ih hnodup, ExtTreeMap.getElem?_insert, List.map_cons, List.mem_cons, List.mem_cons,
      Prod.mk.injEq]
    by_cases hkey : compare key k = .eq
    · obtain rfl := LawfulEqOrd.eq_of_compare hkey
      have hrest : (key, v) ∉ entries := fun hmem =>
        hnew (List.mem_map.mpr ⟨(key, v), hmem, rfl⟩)
      rw [if_pos hkey, Option.some.injEq]
      simp only [hrest, hnew, not_false_iff, true_and, false_or, or_false, not_true,
        false_and]
      exact eq_comm
    · have hne : k ≠ key := by
        intro h
        rw [h] at hkey
        exact hkey ReflOrd.compare_self
      rw [if_neg hkey]
      simp only [hne, false_and, false_or]

end InsertAll

section Sorted

variable {n : ℕ} {ν : Type} {map : ExtTreeMap (Fin n) ν compare}

/-- The listing of a word-keyed map is strictly increasing. -/
theorem toList_sorted (map : ExtTreeMap (Fin n) ν compare) :
    map.toList.Pairwise fun a b => a.1 < b.1 := by
  refine map.ordered_keys_toList.imp ?_
  intro a b hab
  exact compare_lt_iff_lt.mp hab

end Sorted

end LoopProof
