import LoopProof.Lib.Cover

/-!
# Covers of groups

Entries in groups, each group with a requirement of its own, and a requirement over all groups.
Covering every group from its largest entry on and then topping up with the largest spare entries
of any group covers whenever that is possible, with the fewest entries.
-/

namespace LoopProof

universe u

variable {α : Type u} (weight : α → ℕ)

/-- Entries of one group, from the largest on, with the weight that the group requires. -/
structure CoverGroup where
  required : ℕ
  entries : List α
  sorted : entries.Pairwise fun a b => weight b ≤ weight a

namespace CoverGroup

variable {weight} (group : CoverGroup weight)

/-- The largest entries that meet the group's requirement. -/
def chosen : List α := takeEnough weight group.entries.length group.required 0 0 group.entries

/-- The entries that the group does not need. -/
def spare : List α := group.entries.drop group.chosen.length

theorem chosen_append_spare : group.chosen ++ group.spare = group.entries := by
  have hchosen : group.chosen = group.entries.take group.chosen.length := takeEnough_eq_take _ _ _
  rw [spare]
  conv_lhs => rw [hchosen]
  rw [List.length_take, Nat.min_eq_left, List.take_append_drop]
  rw [hchosen, List.length_take]
  exact Nat.min_le_right _ _

/-- A share of the group: some of its entries that meet its requirement. -/
structure Share (share : List α) : Prop where
  part : share.Subperm group.entries
  enough : group.required ≤ (share.map weight).sum

variable {group} {share : List α}

theorem Share.covers (h : group.Share share) :
    Covers weight group.entries.length group.required group.entries share :=
  ⟨h.part, h.part.length_le, h.enough⟩

/-- A group that has a share has its chosen entries as one. -/
theorem Share.chosen_enough (h : group.Share share) :
    group.required ≤ (group.chosen.map weight).sum :=
  (takeEnough_covers_iff group.sorted).mpr ⟨share, h.covers⟩

/-- Every share is weighed up by the chosen entries with as many spare ones as it has more. -/
theorem Share.exchange (h : group.Share share) :
    ∃ extra : List α, extra.Subperm group.spare ∧
      group.chosen.length + extra.length ≤ share.length ∧
      (share.map weight).sum ≤ (group.chosen.map weight).sum + (extra.map weight).sum := by
  have hfewer : group.chosen.length ≤ share.length :=
    length_takeEnough_le_of_covers group.sorted h.covers
  have htop : group.entries.take share.length =
      group.chosen ++ group.spare.take (share.length - group.chosen.length) := by
    conv_lhs => rw [← group.chosen_append_spare]
    rw [List.take_append, List.take_of_length_le hfewer]
  refine ⟨group.spare.take (share.length - group.chosen.length), (List.take_sublist _ _).subperm,
    ?_, ?_⟩
  · rw [List.length_take]
    omega
  · have hlargest := sum_le_sum_take group.sorted h.part
    rwa [htop, List.map_append, List.sum_append] at hlargest

end CoverGroup

variable {weight} {groups : List (CoverGroup weight)} {shares : List (List α)} {required : ℕ}

/-- A share of every group, together meeting the requirement over all groups. -/
structure GroupCover (required : ℕ) (groups : List (CoverGroup weight)) (shares : List (List α)) :
    Prop where
  share : List.Forall₂ CoverGroup.Share groups shares
  enough : required ≤ (shares.flatten.map weight).sum

/-- Shares of all groups are weighed up by the chosen entries with some spare ones. -/
theorem exchange_of_shares (h : List.Forall₂ CoverGroup.Share groups shares) :
    ∃ extra : List α, extra.Subperm (groups.flatMap CoverGroup.spare) ∧
      (groups.flatMap CoverGroup.chosen).length + extra.length ≤ shares.flatten.length ∧
      (shares.flatten.map weight).sum ≤
        ((groups.flatMap CoverGroup.chosen).map weight).sum + (extra.map weight).sum := by
  induction h with
  | nil => exact ⟨[], List.Subperm.refl _, le_rfl, le_rfl⟩
  | cons hshare _ ih =>
    obtain ⟨first, hfirst, hfirstLength, hfirstWeight⟩ := hshare.exchange
    obtain ⟨rest, hrest, hrestLength, hrestWeight⟩ := ih
    refine ⟨first ++ rest, ?_, ?_, ?_⟩
    · rw [List.flatMap_cons]
      exact hfirst.append hrest
    · simp only [List.flatMap_cons, List.flatten_cons, List.length_append]
      omega
    · simp only [List.flatMap_cons, List.flatten_cons, List.map_append, List.sum_append]
      omega

/-- Entries of joined lists are joined entries of each list. -/
theorem exists_forall₂_of_subperm_flatMap {β : Type u} {f : β → List α} {xs : List β} {ys : List α}
    (h : ys.Subperm (xs.flatMap f)) :
    ∃ parts : List (List α), List.Forall₂ (fun x part => part.Subperm (f x)) xs parts ∧
      ys.Perm parts.flatten := by
  induction xs generalizing ys with
  | nil => exact ⟨[], .nil, List.subperm_nil.mp h ▸ List.Perm.refl _⟩
  | cons x xs ih =>
    obtain ⟨zs, hperm, hsublist⟩ := h
    rw [List.flatMap_cons] at hsublist
    obtain ⟨first, rest, rfl, hfirst, hrest⟩ := List.sublist_append_iff.mp hsublist
    obtain ⟨parts, hparts, hflatten⟩ := ih hrest.subperm
    exact ⟨first :: parts, .cons hfirst.subperm hparts,
      hperm.symm.trans (hflatten.append_left first)⟩

/-- The spare entries, from the largest on, that the chosen ones need besides. -/
def topUp (required : ℕ) (groups : List (CoverGroup weight)) (rest : List α) : List α :=
  takeEnough weight rest.length required 0 ((groups.flatMap CoverGroup.chosen).map weight).sum rest

section TopUp

variable {rest : List α} (hrest : rest.Perm (groups.flatMap CoverGroup.spare))
  (hsorted : rest.Pairwise fun a b => weight b ≤ weight a)

include hrest hsorted

/-- The chosen entries and the topped up ones meet every requirement if any shares do. -/
theorem GroupCover.topUp_enough (h : GroupCover required groups shares) :
    required ≤ ((groups.flatMap CoverGroup.chosen).map weight).sum +
      ((topUp required groups rest).map weight).sum := by
  obtain ⟨extra, hextra, _, hweight⟩ := exchange_of_shares h.share
  have hpart : extra.Subperm rest := hextra.trans hrest.symm.subperm
  have hlength : 0 + extra.length ≤ rest.length := by
    rw [Nat.zero_add]
    exact hpart.length_le
  apply takeEnough_enough hlength
  exact (h.enough.trans hweight).trans (Nat.add_le_add_left (sum_le_sum_take hsorted hpart) _)

/-- No shares have fewer entries. -/
theorem GroupCover.length_topUp_le (h : GroupCover required groups shares) :
    (groups.flatMap CoverGroup.chosen).length + (topUp required groups rest).length ≤
      shares.flatten.length := by
  obtain ⟨extra, hextra, hlength, hweight⟩ := exchange_of_shares h.share
  have hpart : extra.Subperm rest := hextra.trans hrest.symm.subperm
  have hfew : (topUp required groups rest).length ≤ extra.length := by
    apply length_takeEnough_le_of_enough
    exact (h.enough.trans hweight).trans (Nat.add_le_add_left (sum_le_sum_take hsorted hpart) _)
  omega

omit hsorted in
/-- The chosen entries and the topped up ones are shares of the groups. -/
theorem groupCover_topUp
    (hchosen : ∀ group ∈ groups, group.required ≤ (group.chosen.map weight).sum)
    (henough : required ≤ ((groups.flatMap CoverGroup.chosen).map weight).sum +
      ((topUp required groups rest).map weight).sum) :
    ∃ shares, GroupCover required groups shares ∧
      (groups.flatMap CoverGroup.chosen ++ topUp required groups rest).Perm shares.flatten := by
  have hpart : (topUp required groups rest).Subperm (groups.flatMap CoverGroup.spare) := by
    rw [topUp, takeEnough_eq_take]
    exact (List.take_sublist _ _).subperm.trans hrest.subperm
  obtain ⟨parts, hparts, hperm⟩ := exists_forall₂_of_subperm_flatMap hpart
  obtain ⟨shares, hshares, hflatten⟩ : ∃ shares, List.Forall₂ CoverGroup.Share groups shares ∧
      (groups.flatMap CoverGroup.chosen ++ parts.flatten).Perm shares.flatten := by
    clear hperm hpart henough hrest
    induction hparts with
    | nil => exact ⟨[], .nil, List.Perm.refl _⟩
    | @cons group part groups parts hfirst _ ih =>
      obtain ⟨hgroup, hgroups⟩ := List.forall_mem_cons.mp hchosen
      obtain ⟨shares, hshares, hflatten⟩ := ih hgroups
      refine ⟨(group.chosen ++ part) :: shares, .cons ⟨?_, ?_⟩ hshares, ?_⟩
      · rw [← group.chosen_append_spare]
        exact (List.Subperm.refl _).append hfirst
      · rw [List.map_append, List.sum_append]
        exact hgroup.trans (Nat.le_add_right _ _)
      · rw [List.flatMap_cons, List.flatten_cons, List.flatten_cons, List.append_assoc,
          List.append_assoc]
        apply List.Perm.append_left
        rw [← List.append_assoc]
        exact (List.perm_append_comm.append_right _).trans
          (by rw [List.append_assoc]; exact hflatten.append_left part)
  have htotal := hperm.append_left (groups.flatMap CoverGroup.chosen)
  refine ⟨shares, ⟨hshares, ?_⟩, htotal.trans hflatten⟩
  rw [← ((htotal.trans hflatten).map weight).sum_eq, List.map_append, List.sum_append]
  exact henough

end TopUp

end LoopProof
