import LoopProof.Lib.Cover
import LoopProof.Planner.ReturnSelection

/-!
# The selection of returns covers greedily

The selected returns are valid and share no transfer, and their credits are what the selection
reports. Where no two valid candidates share a transfer, the selection reaches the required
amount whenever some returns do, and does so with the fewest. The order of the candidates does
not matter where their identities differ.
-/

namespace LoopProof.Planner

section Order

instance : Std.TransCmp compareKeyTexts :=
  inferInstanceAs (Std.TransCmp (compareLex _ _))

instance : Std.LawfulEqCmp compareKeyTexts where
  eq_of_compare {a b} h := by
    rw [compareKeyTexts, compareLex_eq_eq] at h
    obtain ⟨hhash, hlog⟩ := h
    have hhash : a.1 = b.1 := Std.LawfulEqCmp.eq_of_compare hhash
    have hlog : Nat.toDigits 10 a.2 = Nat.toDigits 10 b.2 := Std.LawfulEqCmp.eq_of_compare hlog
    apply Prod.ext hhash
    rw [← Nat.ofDigitChars_ten_toDigits (n := a.2), hlog, Nat.ofDigitChars_ten_toDigits]

instance : Std.TransCmp compareIdentities :=
  inferInstanceAs (Std.TransCmp (List.compareLex _))

instance : Std.LawfulEqCmp compareIdentities :=
  inferInstanceAs (Std.LawfulEqCmp (List.compareLex _))

variable {γ : Type} {atoms : γ → List Transfer}

instance : Std.TransCmp (compareReturnEvidence atoms) :=
  haveI : Std.TransCmp fun left right : γ =>
      compare (returnPathCreditRaw (atoms right)) (returnPathCreditRaw (atoms left)) :=
    @transCmp_on ℕ (fun left right => compare right left) transCmp_reverse γ fun path =>
      returnPathCreditRaw (atoms path)
  haveI : Std.TransCmp fun left right : γ =>
      compareIdentities (keysOf atoms left) (keysOf atoms right) := transCmp_on _
  inferInstanceAs (Std.TransCmp (compareLex _ _))

/-- What compares equal has the same transfers. -/
theorem keysOf_eq_of_compare {left right : γ}
    (h : compareReturnEvidence atoms left right = .eq) :
    keysOf atoms left = keysOf atoms right := by
  rw [compareReturnEvidence, compareLex_eq_eq] at h
  exact Std.LawfulEqCmp.eq_of_compare h.2

/-- Of two candidates in order, the first has the larger credit. -/
theorem credit_le_of_compare {left right : γ}
    (h : (compareReturnEvidence atoms left right).isLE) :
    returnPathCreditRaw (atoms right) ≤ returnPathCreditRaw (atoms left) := by
  by_contra hlt
  have hgt : compareReturnEvidence atoms left right = .gt := by
    rw [compareReturnEvidence, compareLex, Nat.compare_eq_gt.mpr (Nat.lt_of_not_le hlt)]
    rfl
  rw [hgt] at h
  cases h

end Order

section Selection

variable {γ : Type} {atoms : γ → List Transfer} {reserved : List TransferKey}
  {maxPaths required : ℕ} {candidates rest : List γ} {candidate : γ}
  {selected : SelectedReturns γ} {options : SelectionOptions}

/-- Two candidates that share no transfer. -/
def Apart (atoms : γ → List Transfer) (left right : γ) : Prop :=
  (keysOf atoms left).Disjoint (keysOf atoms right)

instance : DecidableRel (Apart atoms) := fun left right =>
  decidable_of_iff (∀ key ∈ keysOf atoms left, key ∉ keysOf atoms right) Iff.rfl

/-- The credit of several returns. -/
def creditOf (atoms : γ → List Transfer) (evidence : List γ) : ℕ :=
  (evidence.map fun path => returnPathCreditRaw (atoms path)).sum

/-- The credits of paths in a row add up. -/
@[simp] theorem creditOf_append (xs ys : List γ) :
    creditOf atoms (xs ++ ys) = creditOf atoms xs + creditOf atoms ys := by
  simp [creditOf]

/-- A selection whose returns share no transfer, and that reports their credit and transfers. -/
structure Sound (atoms : γ → List Transfer) (reserved : List TransferKey)
    (selected : SelectedReturns γ) : Prop where
  apart : selected.evidence.Pairwise (Apart atoms)
  unreserved : ∀ path ∈ selected.evidence, (keysOf atoms path).Disjoint reserved
  returned : selected.returnedRaw = creditOf atoms selected.evidence
  used : selected.usedKeys = reserved ++ selected.evidence.flatMap (keysOf atoms)

/-- Nothing is selected yet. -/
theorem sound_nil : Sound atoms reserved ⟨[], 0, reserved⟩ :=
  ⟨List.Pairwise.nil, nofun, rfl, (List.append_nil _).symm⟩

/-- A path without a used transfer can be selected. -/
theorem Sound.push (h : Sound atoms reserved selected)
    (hnew : (keysOf atoms candidate).Disjoint selected.usedKeys) :
    Sound atoms reserved (selected.push atoms candidate) := by
  rw [h.used, List.disjoint_append_right] at hnew
  constructor
  · rw [SelectedReturns.push, List.pairwise_append]
    refine ⟨h.apart, List.pairwise_singleton _ _, fun path hpath other hother => ?_⟩
    rw [List.mem_singleton.mp hother]
    intro key hkey hcandidate
    exact hnew.2 hcandidate (List.mem_flatMap.mpr ⟨path, hpath, hkey⟩)
  · intro path hpath
    rcases List.mem_append.mp hpath with hpath | hpath
    · exact h.unreserved path hpath
    · rw [List.mem_singleton.mp hpath]
      exact hnew.1
  · simp [SelectedReturns.push, h.returned, creditOf]
  · simp [SelectedReturns.push, h.used]

/-- A path without a used transfer passes the check. -/
theorem not_any_of_disjoint {used : List TransferKey}
    (h : (keysOf atoms candidate).Disjoint used) :
    ¬ (keysOf atoms candidate).any (· ∈ used) = true := by
  rw [List.any_eq_true]
  intro hshares
  obtain ⟨key, hkey, hused⟩ := hshares
  exact h hkey (of_decide_eq_true hused)

/-- A path that passes the check has no used transfer. -/
theorem disjoint_of_not_any {used : List TransferKey}
    (h : ¬ (keysOf atoms candidate).any (· ∈ used) = true) :
    (keysOf atoms candidate).Disjoint used := by
  intro key hkey hused
  exact h (List.any_eq_true.mpr ⟨key, hkey, decide_eq_true hused⟩)

/-- Selecting among further paths keeps the selection sound. -/
theorem selectReturns_sound (h : Sound atoms reserved selected) :
    Sound atoms reserved (selectReturns atoms maxPaths required rest selected) := by
  induction rest generalizing selected with
  | nil => exact h
  | cons candidate rest ih =>
    rw [selectReturns]
    split
    · exact h
    · split
      · exact ih h
      · rename_i hnew
        exact ih (h.push (disjoint_of_not_any hnew))

/-- The selection grows by candidates, in their order. -/
theorem selectReturns_sublist (rest : List γ) (selected : SelectedReturns γ) :
    ∃ kept, kept.Sublist rest ∧
      (selectReturns atoms maxPaths required rest selected).evidence =
        selected.evidence ++ kept := by
  induction rest generalizing selected with
  | nil => exact ⟨[], List.Sublist.refl [], (List.append_nil _).symm⟩
  | cons candidate rest ih =>
    rw [selectReturns]
    split
    · exact ⟨[], List.nil_sublist _, (List.append_nil _).symm⟩
    · split
      · obtain ⟨kept, hkept, heq⟩ := ih selected
        exact ⟨kept, hkept.cons candidate, heq⟩
      · obtain ⟨kept, hkept, heq⟩ := ih (selected.push atoms candidate)
        refine ⟨candidate :: kept, hkept.cons_cons candidate, ?_⟩
        rw [heq, SelectedReturns.push, List.append_assoc, List.singleton_append]

/-- No more paths are selected than allowed. -/
theorem length_selectReturns_le (h : selected.evidence.length ≤ maxPaths) (rest : List γ) :
    (selectReturns atoms maxPaths required rest selected).evidence.length ≤ maxPaths := by
  induction rest generalizing selected with
  | nil => exact h
  | cons candidate rest ih =>
    rw [selectReturns]
    split
    · exact h
    · rename_i hmore
      split
      · exact ih h
      · apply ih
        rw [SelectedReturns.push, List.length_append, List.length_singleton]
        exact Nat.lt_of_not_le fun hle => hmore (.inl hle)

/-- The candidates that share no transfer with the ones in use or with an earlier one. -/
def unshared (atoms : γ → List Transfer) : List TransferKey → List γ → List γ
  | _, [] => []
  | used, candidate :: rest =>
    if (keysOf atoms candidate).any (· ∈ used) then unshared atoms used rest
    else candidate :: unshared atoms (used ++ keysOf atoms candidate) rest

/-- The paths without shared transfers are a part of the candidates, in their order. -/
theorem unshared_sublist (used : List TransferKey) (xs : List γ) :
    (unshared atoms used xs).Sublist xs := by
  induction xs generalizing used with
  | nil => exact List.Sublist.refl []
  | cons x xs ih =>
    rw [unshared]
    split
    · exact (ih used).cons x
    · exact (ih _).cons_cons x

/-- Where no candidate shares a transfer, all of them are kept. -/
theorem unshared_eq_self {used : List TransferKey} {xs : List γ}
    (hapart : xs.Pairwise (Apart atoms)) (hfree : ∀ path ∈ xs, (keysOf atoms path).Disjoint used) :
    unshared atoms used xs = xs := by
  induction xs generalizing used with
  | nil => rfl
  | cons x xs ih =>
    obtain ⟨hfirst, hapart⟩ := List.pairwise_cons.mp hapart
    obtain ⟨hnew, hfree⟩ := List.forall_mem_cons.mp hfree
    rw [unshared, if_neg (not_any_of_disjoint hnew), ih hapart]
    intro path hpath
    rw [List.disjoint_append_right]
    exact ⟨hfree path hpath, (hfirst path hpath).symm⟩

/-- The selection takes the candidates that share no transfer from the first on. -/
theorem selectReturns_eq_takeEnough (rest : List γ) (selected : SelectedReturns γ) :
    (selectReturns atoms maxPaths required rest selected).evidence =
      selected.evidence ++ takeEnough (fun path => returnPathCreditRaw (atoms path)) maxPaths
        required selected.evidence.length selected.returnedRaw
        (unshared atoms selected.usedKeys rest) := by
  induction rest generalizing selected with
  | nil => exact (List.append_nil _).symm
  | cons candidate rest ih =>
    rw [selectReturns, unshared]
    by_cases hstop : maxPaths ≤ selected.evidence.length ∨ required ≤ selected.returnedRaw
    · rw [if_pos hstop, takeEnough_of_stop hstop, List.append_nil]
    · rw [if_neg hstop]
      split
      · exact ih selected
      · rw [ih, takeEnough, if_neg hstop]
        simp [SelectedReturns.push]

/-- The candidates that the selection considers. -/
def validCandidates (atoms : γ → List Transfer) (earliestSettlementTimestamp : Option ℕ)
    (candidates : List γ) : List γ :=
  candidates.filter fun candidate =>
    validReturnEvidence earliestSettlementTimestamp (atoms candidate)

/-- The sorted candidates are the valid ones. -/
theorem sortedCandidates_perm {earliest : Option ℕ} :
    (sortedCandidates atoms earliest candidates).Perm
      (validCandidates atoms earliest candidates) := sortBy_perm _

/-- The selected paths share no transfer with each other or with the reserved ones, and their
credits are summed. -/
theorem selectReturnEvidence_sound :
    Sound atoms options.reservedKeys (selectReturnEvidence atoms candidates options) :=
  selectReturns_sound sound_nil

/-- The selected returns are a part of the valid candidates. -/
theorem selectReturnEvidence_subperm :
    (selectReturnEvidence atoms candidates options).evidence.Subperm
      (validCandidates atoms options.earliestSettlementTimestamp candidates) := by
  obtain ⟨kept, hkept, heq⟩ := @selectReturns_sublist γ atoms options.maxPaths
    options.requiredRaw (sortedCandidates atoms options.earliestSettlementTimestamp candidates)
    ⟨[], 0, options.reservedKeys⟩
  rw [selectReturnEvidence, heq]
  exact hkept.subperm.trans sortedCandidates_perm.subperm

/-- Selected paths are valid candidates. -/
theorem mem_selectReturnEvidence {path : γ}
    (h : path ∈ (selectReturnEvidence atoms candidates options).evidence) :
    path ∈ candidates ∧
      validReturnEvidence options.earliestSettlementTimestamp (atoms path) = true := by
  have hmem := selectReturnEvidence_subperm.subset h
  rwa [validCandidates, List.mem_filter] at hmem

/-- No more paths are selected than allowed. -/
theorem length_selectReturnEvidence_le :
    (selectReturnEvidence atoms candidates options).evidence.length ≤ options.maxPaths :=
  length_selectReturns_le (Nat.zero_le _) _

/-- Covers of the required amount by valid candidates. -/
def CoversReturns (atoms : γ → List Transfer) (candidates : List γ) (options : SelectionOptions)
    (cover : List γ) : Prop :=
  Covers (fun path => returnPathCreditRaw (atoms path)) options.maxPaths options.requiredRaw
    (validCandidates atoms options.earliestSettlementTimestamp candidates) cover

section Disjoint

variable
  (hapart : (validCandidates atoms options.earliestSettlementTimestamp candidates).Pairwise
    (Apart atoms))
  (hfree : ∀ path ∈ validCandidates atoms options.earliestSettlementTimestamp candidates,
    (keysOf atoms path).Disjoint options.reservedKeys)

include hapart hfree in
private theorem selectReturnEvidence_eq_takeEnough :
    (selectReturnEvidence atoms candidates options).evidence =
      takeEnough (fun path => returnPathCreditRaw (atoms path)) options.maxPaths
        options.requiredRaw 0 0
        (sortedCandidates atoms options.earliestSettlementTimestamp candidates) := by
  rw [selectReturnEvidence, selectReturns_eq_takeEnough, unshared_eq_self]
  · rfl
  · exact sortedCandidates_perm.symm.pairwise hapart fun h => h.symm
  · intro path hpath
    exact hfree path (sortedCandidates_perm.subset hpath)

private theorem sortedCandidates_credits {earliest : Option ℕ} :
    (sortedCandidates atoms earliest candidates).Pairwise fun left right =>
      returnPathCreditRaw (atoms right) ≤ returnPathCreditRaw (atoms left) :=
  (pairwise_sortBy _).imp credit_le_of_compare

private theorem covers_sortedCandidates_iff {cover : List γ} :
    Covers (fun path => returnPathCreditRaw (atoms path)) options.maxPaths options.requiredRaw
        (sortedCandidates atoms options.earliestSettlementTimestamp candidates) cover ↔
      CoversReturns atoms candidates options cover := by
  constructor
  · intro h
    exact ⟨h.part.trans sortedCandidates_perm.subperm, h.few, h.enough⟩
  · intro h
    exact ⟨h.part.trans sortedCandidates_perm.symm.subperm, h.few, h.enough⟩

include hapart hfree in
/-- Candidates that share no transfer reach the required amount if and only if any do. -/
theorem complete_iff_covers :
    (selectReturnEvidence atoms candidates options).complete options.requiredRaw = true ↔
      ∃ cover, CoversReturns atoms candidates options cover := by
  rw [SelectedReturns.complete, decide_eq_true_iff, selectReturnEvidence_sound.returned, creditOf,
    selectReturnEvidence_eq_takeEnough hapart hfree,
    takeEnough_covers_iff sortedCandidates_credits]
  exact exists_congr fun cover => covers_sortedCandidates_iff

include hapart hfree in
/-- No returns that reach the required amount are fewer. -/
theorem length_le_of_covers {cover : List γ} (h : CoversReturns atoms candidates options cover) :
    (selectReturnEvidence atoms candidates options).evidence.length ≤ cover.length := by
  rw [selectReturnEvidence_eq_takeEnough hapart hfree]
  exact length_takeEnough_le_of_covers sortedCandidates_credits
    (covers_sortedCandidates_iff.mpr h)

end Disjoint

section Distinct

/-- A valid path has a transfer. -/
theorem keysOf_ne_nil {earliest : Option ℕ} {path : γ}
    (h : path ∈ validCandidates atoms earliest candidates) : keysOf atoms path ≠ [] := by
  rw [validCandidates, List.mem_filter, validReturnEvidence, decide_eq_true_iff] at h
  rw [keysOf, ne_eq, List.map_eq_nil_iff]
  exact h.2.1

/-- Where different candidates share no transfer, only repetitions are dropped. -/
private theorem exists_mem_unshared {used : List TransferKey} {xs : List γ} {path : γ}
    (hshare : ∀ a ∈ xs, ∀ b ∈ xs, atoms a = atoms b ∨ Apart atoms a b) (hmem : path ∈ xs)
    (hfree : (keysOf atoms path).Disjoint used) :
    ∃ kept ∈ unshared atoms used xs, atoms kept = atoms path := by
  induction xs generalizing used with
  | nil => cases hmem
  | cons x xs ih =>
    have hrest : ∀ a ∈ xs, ∀ b ∈ xs, atoms a = atoms b ∨ Apart atoms a b := fun a ha b hb =>
      hshare a (List.mem_cons_of_mem x ha) b (List.mem_cons_of_mem x hb)
    rw [unshared]
    split
    · rename_i hshares
      rcases List.mem_cons.mp hmem with rfl | hmem
      · exact absurd hshares (not_any_of_disjoint hfree)
      · exact ih hrest hmem hfree
    · rcases List.mem_cons.mp hmem with rfl | hmem
      · exact ⟨path, List.mem_cons_self .., rfl⟩
      · rcases hshare x (List.mem_cons_self ..) path (List.mem_cons_of_mem x hmem) with
          hsame | hapart
        · exact ⟨x, List.mem_cons_self .., hsame⟩
        · obtain ⟨kept, hkept, heq⟩ :=
            ih hrest hmem (List.disjoint_append_right.mpr ⟨hfree, hapart.symm⟩)
          exact ⟨kept, List.mem_cons_of_mem x hkept, heq⟩

/-- Different valid paths that cover the required amount. -/
structure CoversDistinct (atoms : γ → List Transfer) (candidates : List γ)
    (options : SelectionOptions) (cover : List (List Transfer)) : Prop where
  distinct : cover.Nodup
  valid : ∀ hops ∈ cover, ∃ path ∈ validCandidates atoms options.earliestSettlementTimestamp
    candidates, atoms path = hops
  few : cover.length ≤ options.maxPaths
  enough : options.requiredRaw ≤ (cover.map returnPathCreditRaw).sum

/-- Paths that share no transfer are different paths. -/
theorem coversDistinct_of_apart {paths : List γ} (hapart : paths.Pairwise (Apart atoms))
    (hvalid : ∀ path ∈ paths, path ∈
      validCandidates atoms options.earliestSettlementTimestamp candidates)
    (hfew : paths.length ≤ options.maxPaths)
    (henough : options.requiredRaw ≤ creditOf atoms paths) :
    CoversDistinct atoms candidates options (paths.map atoms) := by
  constructor
  · rw [List.Nodup, List.pairwise_map]
    apply hapart.imp_of_mem
    intro left right hleft _ hdisjoint hsame
    obtain ⟨key, hkey⟩ := List.exists_mem_of_ne_nil _ (keysOf_ne_nil (hvalid left hleft))
    exact hdisjoint hkey (by rwa [keysOf, ← hsame])
  · intro hops hhops
    obtain ⟨path, hpath, rfl⟩ := List.mem_map.mp hhops
    exact ⟨path, hvalid path hpath, rfl⟩
  · rwa [List.length_map]
  · rw [List.map_map]
    exact henough

/-- Where different valid candidates share no transfer, and none is reserved, the selection
reaches the required amount if and only if some of the different paths do. -/
theorem complete_iff_coversDistinct (hreserved : options.reservedKeys = [])
    (hshare : ∀ a ∈ validCandidates atoms options.earliestSettlementTimestamp candidates,
      ∀ b ∈ validCandidates atoms options.earliestSettlementTimestamp candidates,
        atoms a = atoms b ∨ Apart atoms a b) :
    (selectReturnEvidence atoms candidates options).complete options.requiredRaw = true ↔
      ∃ cover, CoversDistinct atoms candidates options cover := by
  constructor
  · intro hcomplete
    refine ⟨_, coversDistinct_of_apart selectReturnEvidence_sound.apart
      (fun path hpath => selectReturnEvidence_subperm.subset hpath)
      length_selectReturnEvidence_le ?_⟩
    rw [← selectReturnEvidence_sound.returned]
    exact of_decide_eq_true hcomplete
  · intro hcover
    obtain ⟨cover, hdistinct, hvalid, hfew, henough⟩ := hcover
    let sorted := sortedCandidates atoms options.earliestSettlementTimestamp candidates
    have hsorted : ((unshared atoms [] sorted).map atoms).Pairwise fun left right =>
        returnPathCreditRaw right ≤ returnPathCreditRaw left := by
      rw [List.pairwise_map]
      exact sortedCandidates_credits.sublist (unshared_sublist [] sorted)
    have hpart : cover.Subperm ((unshared atoms [] sorted).map atoms) := by
      apply List.subperm_of_subset hdistinct
      intro hops hhops
      obtain ⟨path, hpath, rfl⟩ := hvalid hops hhops
      obtain ⟨kept, hkept, hsame⟩ := exists_mem_unshared
        (fun a ha b hb => hshare a (sortedCandidates_perm.subset ha) b
          (sortedCandidates_perm.subset hb))
        (sortedCandidates_perm.symm.subset hpath) (List.disjoint_nil_right _)
      exact List.mem_map.mpr ⟨kept, hkept, hsame⟩
    have htaken := (takeEnough_covers_iff hsorted).mpr
      ⟨cover, hpart, hfew, henough⟩
    rw [SelectedReturns.complete, decide_eq_true_iff, selectReturnEvidence_sound.returned,
      selectReturnEvidence, selectReturns_eq_takeEnough, hreserved]
    rw [takeEnough_map, List.map_map] at htaken
    exact htaken

end Distinct

/-- Where identities differ, the order of the candidates does not matter. -/
theorem selectReturnEvidence_perm {other : List γ} (h : candidates.Perm other)
    (hidentities : ((validCandidates atoms options.earliestSettlementTimestamp candidates).map
      (keysOf atoms)).Nodup) :
    selectReturnEvidence atoms other options = selectReturnEvidence atoms candidates options := by
  have hsorted : sortedCandidates atoms options.earliestSettlementTimestamp candidates =
      sortedCandidates atoms options.earliestSettlementTimestamp other := by
    apply sortBy_eq_of_perm (h.filter _)
    intro left hleft right hright htie
    exact List.inj_on_of_nodup_map hidentities hleft hright (keysOf_eq_of_compare htie)
  rw [selectReturnEvidence, selectReturnEvidence, hsorted]

end Selection

/-- The selection of returns is a sound part of the valid candidates. Where these share no
transfer, it reaches the required amount whenever some of them do, with the fewest returns; and
where their identities differ, it does not depend on their order. -/
theorem selectReturnEvidence_greedyCover (candidates : List ReturnEvidence)
    (options : SelectionOptions) :
    let selected := selectReturnEvidence atomicReturnEvidence candidates options
    let valid := validCandidates atomicReturnEvidence options.earliestSettlementTimestamp candidates
    (selected.evidence.Subperm valid ∧ selected.evidence.length ≤ options.maxPaths ∧
      Sound atomicReturnEvidence options.reservedKeys selected) ∧
    (valid.Pairwise (Apart atomicReturnEvidence) →
      (∀ path ∈ valid, (keysOf atomicReturnEvidence path).Disjoint options.reservedKeys) →
      (selected.complete options.requiredRaw = true ↔
        ∃ cover, CoversReturns atomicReturnEvidence candidates options cover) ∧
      ∀ cover, CoversReturns atomicReturnEvidence candidates options cover →
        selected.evidence.length ≤ cover.length) ∧
    ∀ other, candidates.Perm other → (valid.map (keysOf atomicReturnEvidence)).Nodup →
      selectReturnEvidence atomicReturnEvidence other options = selected := by
  intro selected valid
  refine ⟨⟨selectReturnEvidence_subperm, length_selectReturnEvidence_le,
    selectReturnEvidence_sound⟩, ?_, ?_⟩
  · intro hapart hfree
    constructor
    · exact complete_iff_covers hapart hfree
    · intro cover hcover
      exact length_le_of_covers hapart hfree hcover
  · intro other hperm hidentities
    exact selectReturnEvidence_perm hperm hidentities

/-- A direct return of the given credit in a transaction of its own. -/
private def directReturn (transactionHash : B256) (amountRaw : ℕ) : ReturnEvidence :=
  .direct ⟨none, none, amountRaw, .seconds 10, transactionHash, some 0, none, none⟩

/-- Two direct returns that both count are selected in any order. -/
theorem directReturns_greedyCover :
    (selectReturnEvidence atomicReturnEvidence [directReturn 1 3, directReturn 2 5]
        (.ofRequired 8)).complete 8 = true ∧
      selectReturnEvidence atomicReturnEvidence [directReturn 2 5, directReturn 1 3]
          (.ofRequired 8) =
        selectReturnEvidence atomicReturnEvidence [directReturn 1 3, directReturn 2 5]
          (.ofRequired 8) := by
  have h := selectReturnEvidence_greedyCover [directReturn 1 3, directReturn 2 5] (.ofRequired 8)
  refine ⟨(h.2.1 (by decide) (fun _ _ => List.disjoint_nil_right _)).1.mpr ?_,
    h.2.2 _ (List.Perm.swap _ _ _) (by decide)⟩
  exact ⟨_, List.Subperm.refl _, by decide, by decide⟩

end LoopProof.Planner
