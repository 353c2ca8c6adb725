import LoopProof.Planner.Selection

/-!
# The ledger-aware selection of settlements

The repeated selection of each buyer settles, within the room that the fundings before its last
selected settlement leave; and the order of settlements and fundings does not matter.
-/

namespace LoopProof.Planner

section Order

instance : Std.TransCmp comparePositions :=
  inferInstanceAs (Std.TransCmp (compareLex _ (compareLex _ _)))

instance : Std.TransCmp compareEntries :=
  haveI : Std.TransCmp fun left right : Entry => comparePositions left.toAtom right.toAtom :=
    transCmp_on Entry.toAtom
  inferInstanceAs (Std.TransCmp (compareLex _ _))

variable {a b : Entry}

end Order

section Lists

variable {xs ys : List Entry} {buyer : Address}

/-- The sum does not depend on the order. -/
theorem sumRaw_perm (h : xs.Perm ys) : sumRaw xs = sumRaw ys := (h.map _).sum_eq

/-- The last entry of a list comes after none of it. -/
theorem latestOf_spec {latest : Entry} (h : latestOf xs = some latest) :
    latest ∈ xs ∧ ∀ entry ∈ xs, (compareEntries entry latest).isLE = true := by
  cases xs with
  | nil => cases h
  | cons first rest =>
    rw [latestOf, Option.some.injEq] at h
    rw [← h]
    clear h
    induction rest using List.reverseRecOn with
    | nil =>
      refine ⟨List.mem_singleton_self first, fun other hother => ?_⟩
      rw [List.mem_singleton.mp hother]
      exact Std.ReflCmp.isLE_rfl
    | append_singleton rest entry ih =>
      obtain ⟨hmem, hle⟩ := ih
      rw [List.foldl_append, List.foldl_cons, List.foldl_nil]
      split
      · rename_i hlt
        refine ⟨by simp, fun other hother => ?_⟩
        rcases List.mem_append.mp (List.cons_append .. ▸ hother) with hother | hother
        · exact Std.TransCmp.isLE_trans (hle other hother) (by rw [hlt]; rfl)
        · rw [List.mem_singleton.mp hother]
          exact Std.ReflCmp.isLE_rfl
      · rename_i hnlt
        refine ⟨List.cons_append .. ▸ List.mem_append_left [entry] hmem, fun other hother => ?_⟩
        rcases List.mem_append.mp (List.cons_append .. ▸ hother) with hother | hother
        · exact hle other hother
        · rw [List.mem_singleton.mp hother, @Std.OrientedCmp.eq_swap _ compareEntries]
          cases hcmp : compareEntries _ entry with
          | lt => exact absurd hcmp hnlt
          | eq => rfl
          | gt => rfl

/-- Entries have a last one. -/
theorem latestOf_isSome (h : xs ≠ []) : ∃ latest, latestOf xs = some latest := by
  cases xs with
  | nil => exact absurd rfl h
  | cons first rest => exact ⟨_, rfl⟩

/-- The same entries come before the last entry of a list in any order. -/
theorem latestOf_perm (h : xs.Perm ys) (entry : Entry) :
    (latestOf xs).any (compareEntries entry · = .lt) =
      (latestOf ys).any (compareEntries entry · = .lt) := by
  cases hxs : latestOf xs with
  | none =>
    have hnil : xs = [] := by
      by_contra hne
      obtain ⟨latest, hlatest⟩ := latestOf_isSome hne
      rw [hlatest] at hxs
      cases hxs
    rw [hnil] at h
    rw [← h.nil_eq]
    rfl
  | some latest =>
    obtain ⟨last, hys⟩ := latestOf_isSome fun hnil : ys = [] => by
      rw [hnil] at h
      rw [h.eq_nil] at hxs
      cases hxs
    obtain ⟨hmem, hle⟩ := latestOf_spec hxs
    obtain ⟨hmem', hle'⟩ := latestOf_spec hys
    have htie : compareEntries latest last = .eq := Std.OrientedCmp.isLE_antisymm
      (hle' latest (h.subset hmem)) (hle last (h.symm.subset hmem'))
    rw [hys, Option.any_some, Option.any_some, Std.TransCmp.congr_right htie]

end Lists

section Capacity

variable {settlements : List Entry} {capacity : ℕ}

/-- What is selected within a capacity is a part of the settlements. -/
theorem selectWithinCapacity_subperm :
    (selectWithinCapacity settlements capacity).Subperm settlements := by
  have hkept := (@greedyWithin_sublist _ (fun e : Entry => e.amountRaw) capacity 0
    (sortEntries settlements)).subperm
  exact ((sortBy_perm _).subperm.trans hkept).trans (sortBy_perm _).subperm

/-- The selection fits. -/
theorem sumRaw_selectWithinCapacity_le :
    sumRaw (selectWithinCapacity settlements capacity) ≤ capacity := by
  have hfits := @sum_greedyWithin_le _ (fun e : Entry => e.amountRaw) capacity 0
    (Nat.zero_le capacity) (sortEntries settlements)
  rw [Nat.zero_add] at hfits
  exact (sumRaw_perm (sortBy_perm _)).trans_le hfits

end Capacity

section Ledger

variable {records values : List Entry} {balanceEnd : ℕ}

/-- What was funded does not depend on the order of either list. -/
theorem fundedRaw_perm {other xs ys : List Entry} (hrecords : records.Perm other)
    (h : xs.Perm ys) : fundedRaw records xs = fundedRaw other ys := by
  rw [fundedRaw, funext (latestOf_perm h)]
  exact sumRaw_perm (hrecords.filter _)

/-- What is available does not depend on the order of either list. -/
theorem availableRaw_perm {other xs ys : List Entry} (hrecords : records.Perm other)
    (h : xs.Perm ys) : availableRaw records balanceEnd xs = availableRaw other balanceEnd ys := by
  rw [availableRaw, availableRaw, fundedRaw_perm hrecords h]

/-- One pass of the selection. -/
private def ledgerPass (records : List Entry) (balanceEnd : ℕ) (eligible : List Entry) :
    List Entry :=
  selectWithinCapacity eligible (availableRaw records balanceEnd eligible)

private theorem ledgerPass_stable {xs : List Entry}
    (hlength : (ledgerPass records balanceEnd (ledgerPass records balanceEnd xs)).length =
      (ledgerPass records balanceEnd xs).length) :
    ledgerPass records balanceEnd (ledgerPass records balanceEnd xs) =
      ledgerPass records balanceEnd xs := by
  have hsorted : sortEntries (ledgerPass records balanceEnd xs) =
      ledgerPass records balanceEnd xs := sortBy_sortBy _
  generalize ledgerPass records balanceEnd xs = ys at hlength hsorted ⊢
  rw [ledgerPass, selectWithinCapacity] at hlength ⊢
  have hkept : greedyWithin (fun e : Entry => e.amountRaw) (availableRaw records balanceEnd ys) 0
      (sortEntries ys) = sortEntries ys := by
    apply (greedyWithin_sublist _ 0 _).eq_of_length
    rw [← (sortBy_perm _).length_eq, hsorted]
    rw [hsorted] at hlength
    exact hlength
  rw [hkept, hsorted, hsorted]

/-- The selection of one buyer settles, and fits the room that its own fundings leave. -/
theorem ledgerSettlements_spec :
    ∃ kept, (∀ fuel, values.length + 2 ≤ fuel →
        ledgerPasses records balanceEnd fuel values = some kept) ∧
      kept.Subperm values ∧ sumRaw kept ≤ availableRaw records balanceEnd kept := by
  have hpart : ∀ xs, (ledgerPass records balanceEnd xs).Subperm xs :=
    fun xs => selectWithinCapacity_subperm
  have hfuel : (sortEntries values).length + 1 < values.length + 2 := by
    rw [show (sortEntries values).length = values.length from (sortBy_perm values).length_eq]
    exact Nat.lt_succ_self _
  obtain ⟨kept, hkept, hfits⟩ : ∃ kept,
      ledgerPasses records balanceEnd (values.length + 2) values = some kept ∧
        sumRaw kept ≤ availableRaw records balanceEnd kept := by
    rcases @selectUntilStable_settles _ _ _ (·.dependencyId) _ (fun xs => (hpart xs).length_le)
      (fun xs hlength => congrArg _ (ledgerPass_stable hlength)) _ _ hfuel with
      hnil | ⟨last, hlength, hsome⟩
    · exact ⟨[], hnil, Nat.zero_le _⟩
    · refine ⟨_, hsome, ?_⟩
      have hperm : (ledgerPass records balanceEnd last).Perm last :=
        (hpart last).perm_of_length_le hlength.ge
      rw [availableRaw_perm (List.Perm.refl records) hperm]
      exact sumRaw_selectWithinCapacity_le
  refine ⟨kept, fun fuel hmore => selectUntilStable_mono hmore hkept, ?_, hfits⟩
  exact (selectUntilStable_subperm hpart hkept).trans (sortBy_perm values).subperm

/-- What a ledger keeps is a part of its settlements and is available. -/
theorem ledgerSettlements_eq_some {kept : List Entry}
    (h : ledgerSettlements records balanceEnd values = some kept) :
    kept.Subperm values ∧ sumRaw kept ≤ availableRaw records balanceEnd kept := by
  obtain ⟨other, hsettles, hspec⟩ := @ledgerSettlements_spec records values balanceEnd
  rw [ledgerSettlements, hsettles _ (Nat.le_refl _), Option.some.injEq] at h
  rwa [← h]

end Ledger

section Selection

variable {settlements fundings : List Entry} {requiredBuyers : List Address}
  {approved maximum : Option ℕ} {selection : Selection}

/-- A selection carries its settlements, their buyers and their sum, which is the approved one. -/
theorem selectionOf_eq_some {mode : OptimizationMode}
    (h : selectionOf settlements requiredBuyers approved mode = some selection) :
    selection.settlements = settlements ∧ selection.buyers = buyersOf settlements ∧
      selection.volumeRaw = sumRaw settlements ∧ settlements ≠ [] ∧
      ∀ volume, approved = some volume → sumRaw settlements = volume := by
  unfold selectionOf at h
  dsimp only at h
  split at h
  · cases h
  · rename_i hne
    split at h
    · cases h
    · split at h
      · cases h
      · rename_i hvolume
        cases h
        refine ⟨rfl, rfl, rfl, hne, fun volume hsome => ?_⟩
        rw [hsome] at hvolume
        simpa using hvolume

/-- Every buyer has one group. -/
theorem nodup_groupKeys (entries : List Entry) : (groupKeys entries).Nodup := by
  simpa only [groupKeys, List.map_id] using @nodup_dedupeBy _ _ _ id (entries.filterMap (·.buyer))

/-- The buyers with a group are those of the entries. -/
theorem mem_groupKeys {entries : List Entry} {buyer : Address} :
    buyer ∈ groupKeys entries ↔ ∃ entry ∈ entries, entry.buyer = some buyer := by
  have hmem := @mem_map_dedupeBy _ _ _ id (entries.filterMap (·.buyer)) buyer
  rw [List.map_id, List.map_id] at hmem
  rw [groupKeys, hmem, List.mem_filterMap]

/-- The group of a buyer is what its ledger keeps of its settlements. -/
theorem buyerSettlements_eq_ok {fundingByBuyer : Address → Option (List Entry)}
    {ledgerBalances : Address → Option ℕ} {values group : List Entry} {buyer : Address} :
    buyerSettlements fundingByBuyer ledgerBalances values buyer = .ok group ↔
      ∃ balanceEnd, ledgerBalances buyer = some balanceEnd ∧
        ledgerSettlements (sortEntries ((fundingByBuyer buyer).getD [])) balanceEnd
          (values.filter (·.buyer = some buyer)) = some group := by
  simp only [buyerSettlements, bind_eq_ok, okOr_eq_ok]

/-- The ledger-aware selection is made of what each buyer's ledger leaves room for. -/
theorem selectLedgerAwareSettlements_eq_ok {fundingByBuyer : Address → Option (List Entry)}
    {ledgerBalances : Address → Option ℕ} {fixedBlocks : List ℕ} {result : Option Selection} :
    selectLedgerAwareSettlements settlements fundingByBuyer ledgerBalances fixedBlocks
        requiredBuyers approved maximum = .ok result ↔
      (∃ authenticated, fixedBlocks.mapM authenticationGroup = .ok authenticated) ∧
        ∃ groups, List.Forall₂ (fun buyer group => buyerSettlements fundingByBuyer ledgerBalances
            (settlements.filter (isFunded fundingByBuyer)) buyer = .ok group)
            (groupKeys (settlements.filter (isFunded fundingByBuyer))) groups ∧
          selectionOf (bounded maximum (sortEntries groups.flatten)) requiredBuyers approved
            .authenticatedLedgerCapacity = result := by
  simp only [selectLedgerAwareSettlements, bind_eq_ok, pure_eq_ok, mapM_eq_ok]
  constructor
  · intro h
    obtain ⟨authenticated, hblocks, groups, hgroups, hresult⟩ := h
    exact ⟨⟨authenticated, hblocks⟩, groups, hgroups, hresult⟩
  · intro h
    obtain ⟨⟨authenticated, hblocks⟩, groups, hgroups, hresult⟩ := h
    exact ⟨authenticated, hblocks, groups, hgroups, hresult⟩

/-- What a buyer's group is made of. -/
theorem buyerSettlements_subperm {fundingByBuyer : Address → Option (List Entry)}
    {ledgerBalances : Address → Option ℕ} {values group : List Entry} {buyer : Address}
    (h : buyerSettlements fundingByBuyer ledgerBalances values buyer = .ok group) :
    group.Subperm (values.filter (·.buyer = some buyer)) := by
  obtain ⟨balanceEnd, _, hkept⟩ := buyerSettlements_eq_ok.mp h
  exact (ledgerSettlements_eq_some hkept).1

/-- The group of a buyer has settlements of this buyer. -/
theorem buyer_of_mem_group {fundingByBuyer : Address → Option (List Entry)}
    {ledgerBalances : Address → Option ℕ} {values group : List Entry} {buyer : Address}
    (h : buyerSettlements fundingByBuyer ledgerBalances values buyer = .ok group) {entry : Entry}
    (hmem : entry ∈ group) : entry ∈ values ∧ entry.buyer = some buyer := by
  obtain ⟨hvalue, hbuyer⟩ := List.mem_filter.mp ((buyerSettlements_subperm h).subset hmem)
  exact ⟨hvalue, of_decide_eq_true hbuyer⟩

/-- Groups that are apart are found again among all of them. -/
theorem filter_flatten_groups {buyers : List Address} {groups : List (List Entry)}
    (hgroups : List.Forall₂ (fun buyer group => ∀ entry ∈ group, entry.buyer = some buyer)
      buyers groups) (hnodup : buyers.Nodup) {buyer : Address} {group : List Entry}
    (hmem : (buyer, group) ∈ buyers.zip groups) :
    groups.flatten.filter (·.buyer = some buyer) = group := by
  induction hgroups with
  | nil => cases hmem
  | @cons first own buyers groups hfirst hrest ih =>
    obtain ⟨hnew, hnodup⟩ := List.nodup_cons.mp hnodup
    rw [List.flatten_cons, List.filter_append]
    rcases List.mem_cons.mp hmem with heq | hmem
    · obtain ⟨rfl, rfl⟩ := Prod.mk.inj heq
      have hothers : groups.flatten.filter (·.buyer = some buyer) = [] := by
        rw [List.filter_eq_nil_iff]
        intro entry hentry hbuyer
        obtain ⟨other, hother, hentry⟩ := List.mem_flatten.mp hentry
        obtain ⟨owner, howner, hown⟩ := forall₂_exists_left hrest hother
        rw [hown entry hentry] at hbuyer
        exact hnew (Option.some.inj (of_decide_eq_true hbuyer) ▸ howner)
      rw [hothers, List.append_nil, List.filter_eq_self]
      intro entry hentry
      exact decide_eq_true (hfirst entry hentry)
    · have hown : own.filter (·.buyer = some buyer) = [] := by
        rw [List.filter_eq_nil_iff]
        intro entry hentry hbuyer
        rw [hfirst entry hentry] at hbuyer
        exact hnew (Option.some.inj (of_decide_eq_true hbuyer) ▸ (List.of_mem_zip hmem).1)
      rw [hown, List.nil_append]
      exact ih hnodup hmem

end Selection

section Claims

variable {settlements : List Entry} {fundingByBuyer : Address → Option (List Entry)}
  {ledgerBalances : Address → Option ℕ} {fixedBlocks : List ℕ} {requiredBuyers : List Address}
  {approved maximum : Option ℕ} {selection : Selection}

/-- Settlements of one buyer that fit the room its fundings before the last of them leave beside
its period-end balance. -/
def FitsLedger (fundingByBuyer : Address → Option (List Entry))
    (ledgerBalances : Address → Option ℕ) (buyer : Address) (own : List Entry) : Prop :=
  ∃ balanceEnd, ledgerBalances buyer = some balanceEnd ∧
    sumRaw own + balanceEnd ≤
      fundedRaw ((fundingByBuyer buyer).getD []) own * (10000 + epsilonLedgerBps) / 10000

/-- What is selected of each buyer fits its ledger. -/
theorem selectLedgerAwareSettlements_fits (hpositive : ∀ entry ∈ settlements, 0 < entry.amountRaw)
    (h : selectLedgerAwareSettlements settlements fundingByBuyer ledgerBalances fixedBlocks
      requiredBuyers approved none = .ok (some selection)) (buyer : Address)
    (hown : selection.settlements.filter (·.buyer = some buyer) ≠ []) :
    FitsLedger fundingByBuyer ledgerBalances buyer
      (selection.settlements.filter (·.buyer = some buyer)) := by
  obtain ⟨_, groups, hgroups, hselection⟩ := selectLedgerAwareSettlements_eq_ok.mp h
  have hall : selection.settlements.Perm groups.flatten := by
    rw [(selectionOf_eq_some hselection).1]
    exact sortBy_perm groups.flatten
  have hbuyer : buyer ∈ groupKeys (settlements.filter (isFunded fundingByBuyer)) := by
    obtain ⟨entry, hentry⟩ := List.exists_mem_of_ne_nil _ hown
    obtain ⟨hentry, hpaid⟩ := List.mem_filter.mp hentry
    obtain ⟨group, hgroup, hentry⟩ := List.mem_flatten.mp (hall.subset hentry)
    obtain ⟨owner, _, hok⟩ := forall₂_exists_left hgroups hgroup
    exact mem_groupKeys.mpr ⟨entry, (buyer_of_mem_group hok hentry).1, of_decide_eq_true hpaid⟩
  obtain ⟨group, hzip, hok⟩ := forall₂_exists_zip hgroups hbuyer
  have hgroup : (selection.settlements.filter (·.buyer = some buyer)).Perm group := by
    rw [← filter_flatten_groups (hgroups.imp fun owner group hok entry hentry =>
      (buyer_of_mem_group hok hentry).2) (nodup_groupKeys _) hzip]
    exact hall.filter _
  obtain ⟨balanceEnd, hbalance, hkept⟩ := buyerSettlements_eq_ok.mp hok
  have hfits := (ledgerSettlements_eq_some hkept).2
  have hrecords : (sortEntries ((fundingByBuyer buyer).getD [])).Perm
      ((fundingByBuyer buyer).getD []) := sortBy_perm _
  rw [← sumRaw_perm hgroup, availableRaw_perm hrecords hgroup.symm, availableRaw] at hfits
  have hsome : 0 < sumRaw (selection.settlements.filter (·.buyer = some buyer)) := by
    obtain ⟨entry, hentry⟩ := List.exists_mem_of_ne_nil _ hown
    have hvalue := (buyer_of_mem_group hok (hgroup.subset hentry)).1
    have hle := List.single_le_sum (fun _ _ => Nat.zero_le _) _
      (List.mem_map_of_mem (f := fun e : Entry => e.amountRaw) hentry)
    exact (hpositive entry (List.mem_of_mem_filter hvalue)).trans_le hle
  exact ⟨balanceEnd, hbalance, by omega⟩

/-- The repeated selection of every buyer settles. -/
theorem ledgerPasses_settle (records : List Entry) (balanceEnd : ℕ) (values : List Entry) :
    ∃ kept, ∀ fuel, values.length + 2 ≤ fuel →
      ledgerPasses records balanceEnd fuel values = some kept := by
  obtain ⟨kept, hsettles, _⟩ := @ledgerSettlements_spec records values balanceEnd
  exact ⟨kept, hsettles⟩

/-! ## Order -/

/-- The buyers do not depend on the order of the entries. -/
theorem groupKeys_perm {xs ys : List Entry} (h : xs.Perm ys) :
    (groupKeys xs).Perm (groupKeys ys) := by
  apply (List.perm_ext_iff_of_nodup (nodup_groupKeys xs) (nodup_groupKeys ys)).mpr
  intro buyer
  rw [mem_groupKeys, mem_groupKeys]
  exact exists_congr fun entry => and_congr_left' h.mem_iff

/-- Entries with different ids are sorted in one way. -/
theorem sortEntries_perm {xs ys : List Entry} (h : xs.Perm ys)
    (hdistinct : ∀ a ∈ xs, ∀ b ∈ xs, a.dependencyId = b.dependencyId → a = b) :
    sortEntries xs = sortEntries ys := by
  apply sortBy_eq_of_perm h
  intro a ha b hb htie
  rw [compareEntries, compareLex_eq_eq] at htie
  exact hdistinct a ha b hb (Std.LawfulEqCmp.eq_of_compare htie.2)

/-- What a ledger keeps does not depend on the order of its records and settlements. -/
theorem ledgerSettlements_perm {records records' values values' : List Entry} {balanceEnd : ℕ}
    (hrecords : records.Perm records') (hvalues : values.Perm values')
    (hdistinct : ∀ a ∈ values, ∀ b ∈ values, a.dependencyId = b.dependencyId → a = b) :
    ledgerSettlements records balanceEnd values =
      ledgerSettlements records' balanceEnd values' := by
  have hroom (eligible : List Entry) : availableRaw records balanceEnd eligible =
      availableRaw records' balanceEnd eligible :=
    availableRaw_perm hrecords (List.Perm.refl eligible)
  rw [ledgerSettlements, ledgerSettlements, ledgerPasses, ledgerPasses, hvalues.length_eq,
    sortEntries_perm hvalues hdistinct]
  simp only [hroom]

/-- The same fundings of every buyer, each in some order. -/
def SameFundings (left right : Address → Option (List Entry)) : Prop :=
  ∀ buyer, Option.Rel List.Perm (left buyer) (right buyer)

variable {other : List Entry} {otherFundings : Address → Option (List Entry)}

/-- The same entries are funded. -/
theorem SameFundings.isFunded_eq (h : SameFundings fundingByBuyer otherFundings) :
    isFunded fundingByBuyer = isFunded otherFundings := by
  funext entry
  cases hbuyer : entry.buyer with
  | none => rw [isFunded, isFunded, hbuyer]; rfl
  | some buyer =>
    have hrel := h buyer
    rw [isFunded, isFunded, hbuyer, Option.any_some, Option.any_some]
    generalize fundingByBuyer buyer = left at hrel ⊢
    generalize otherFundings buyer = right at hrel ⊢
    cases hrel <;> rfl

/-- Every buyer has the same fundings in some order. -/
theorem SameFundings.perm (h : SameFundings fundingByBuyer otherFundings) (buyer : Address) :
    ((fundingByBuyer buyer).getD []).Perm ((otherFundings buyer).getD []) := by
  have hrel := h buyer
  generalize fundingByBuyer buyer = left at hrel ⊢
  generalize otherFundings buyer = right at hrel ⊢
  cases hrel with
  | some hperm => exact hperm
  | none => exact List.Perm.refl []

/-- A selection from settlements and fundings is found from them in any order. -/
private theorem selectLedgerAwareSettlements_reordered (hperm : settlements.Perm other)
    (hsame : SameFundings fundingByBuyer otherFundings)
    (hdistinct : (settlements.map (·.dependencyId)).Nodup) {result : Option Selection}
    (h : selectLedgerAwareSettlements settlements fundingByBuyer ledgerBalances fixedBlocks
      requiredBuyers approved maximum = .ok result) :
    selectLedgerAwareSettlements other otherFundings ledgerBalances fixedBlocks
      requiredBuyers approved maximum = .ok result := by
  have hties : ∀ a ∈ settlements, ∀ b ∈ settlements, a.dependencyId = b.dependencyId → a = b :=
    fun a ha b hb hids => List.inj_on_of_nodup_map hdistinct ha hb hids
  obtain ⟨hblocks, groups, hgroups, hresult⟩ := selectLedgerAwareSettlements_eq_ok.mp h
  have hfunded : (settlements.filter (isFunded fundingByBuyer)).Perm
      (other.filter (isFunded otherFundings)) := hsame.isFunded_eq ▸ hperm.filter _
  obtain ⟨groups', hgroupsPerm, hgroups'⟩ := forall₂_perm hgroups (groupKeys_perm hfunded)
  have hmem : ∀ entry ∈ groups.flatten, entry ∈ settlements := by
    intro entry hentry
    obtain ⟨group, hgroup, hentry⟩ := List.mem_flatten.mp hentry
    obtain ⟨buyer, _, hok⟩ := forall₂_exists_left hgroups hgroup
    exact List.mem_of_mem_filter (buyer_of_mem_group hok hentry).1
  refine selectLedgerAwareSettlements_eq_ok.mpr ⟨hblocks, groups', hgroups'.imp ?_, ?_⟩
  · intro buyer group hok
    obtain ⟨balanceEnd, hbalance, hkept⟩ := buyerSettlements_eq_ok.mp hok
    refine buyerSettlements_eq_ok.mpr ⟨balanceEnd, hbalance, ?_⟩
    rw [← hkept]
    symm
    apply ledgerSettlements_perm _ (hfunded.filter _)
    · intro a ha b hb
      exact hties a (List.mem_of_mem_filter (List.mem_of_mem_filter ha)) b
        (List.mem_of_mem_filter (List.mem_of_mem_filter hb))
    · exact (sortBy_perm _).trans ((hsame.perm buyer).trans (sortBy_perm _).symm)
  · rw [← sortEntries_perm hgroupsPerm.flatten fun a ha b hb => hties a (hmem a ha) b (hmem b hb)]
    exact hresult

/-- Either side has the fundings of the other. -/
theorem SameFundings.symm (h : SameFundings fundingByBuyer otherFundings) :
    SameFundings otherFundings fundingByBuyer := by
  intro buyer
  have hrel := h buyer
  generalize fundingByBuyer buyer = left at hrel ⊢
  generalize otherFundings buyer = right at hrel ⊢
  cases hrel with
  | some hperm => exact .some hperm.symm
  | none => exact .none

/-- Settlements and fundings in another order give the same selection, or fail alike. -/
theorem selectLedgerAwareSettlements_perm (hperm : settlements.Perm other)
    (hsame : SameFundings fundingByBuyer otherFundings)
    (hdistinct : (settlements.map (·.dependencyId)).Nodup) :
    (selectLedgerAwareSettlements other otherFundings ledgerBalances fixedBlocks requiredBuyers
        approved maximum).toOption =
      (selectLedgerAwareSettlements settlements fundingByBuyer ledgerBalances fixedBlocks
        requiredBuyers approved maximum).toOption := by
  have hother : (other.map (·.dependencyId)).Nodup := (hperm.map _).nodup_iff.mp hdistinct
  cases hleft : selectLedgerAwareSettlements settlements fundingByBuyer ledgerBalances fixedBlocks
      requiredBuyers approved maximum with
  | ok result => rw [selectLedgerAwareSettlements_reordered hperm hsame hdistinct hleft]
  | error message =>
    cases hright : selectLedgerAwareSettlements other otherFundings ledgerBalances fixedBlocks
        requiredBuyers approved maximum with
    | error message => rfl
    | ok result =>
      rw [selectLedgerAwareSettlements_reordered hperm.symm hsame.symm hother hright] at hleft
      cases hleft

end Claims

/-- The ledger-aware selection terminates, fits every buyer's ledger where nothing else bounds
it, and does not depend on the order of settlements and fundings. -/
theorem selectLedgerAwareSettlements_spec (settlements : List Entry)
    (fundingByBuyer : Address → Option (List Entry)) (ledgerBalances : Address → Option ℕ)
    (fixedBlocks : List ℕ) (requiredBuyers : List Address) (approved : Option ℕ)
    (hpositive : ∀ entry ∈ settlements, 0 < entry.amountRaw)
    (hdistinct : (settlements.map (·.dependencyId)).Nodup) :
    (∀ records balanceEnd values, ∃ kept, ∀ fuel, values.length + 2 ≤ fuel →
      ledgerPasses records balanceEnd fuel values = some kept) ∧
    (∀ selection, selectLedgerAwareSettlements settlements fundingByBuyer ledgerBalances
        fixedBlocks requiredBuyers approved none = .ok (some selection) →
      ∀ buyer, selection.settlements.filter (·.buyer = some buyer) ≠ [] →
        FitsLedger fundingByBuyer ledgerBalances buyer
          (selection.settlements.filter (·.buyer = some buyer))) ∧
    ∀ maximum other otherFundings, settlements.Perm other →
      SameFundings fundingByBuyer otherFundings →
        (selectLedgerAwareSettlements other otherFundings ledgerBalances fixedBlocks
            requiredBuyers approved maximum).toOption =
          (selectLedgerAwareSettlements settlements fundingByBuyer ledgerBalances fixedBlocks
            requiredBuyers approved maximum).toOption := by
  refine ⟨ledgerPasses_settle, fun selection h => ?_,
    fun maximum other otherFundings hperm hsame => ?_⟩
  · exact selectLedgerAwareSettlements_fits hpositive h
  · exact selectLedgerAwareSettlements_perm hperm hsame hdistinct

section Example

/-- A log of buyer 20 at the given position of one block. -/
private def logOf (evidenceType : EvidenceType) (position amountRaw : ℕ) (dependencyId : B256) :
    Entry :=
  { evidenceType, transactionHash := 1, blockNumber := 46000000, transactionIndex := position
    logIndex := 0, timestamp := .null, seller := some 10, buyer := some 20, funder := some 30
    sender := none, recipient := none, amountRaw, depositLogIndex := none, dependencyId }

private def oneFunding (buyer : Address) : Option (List Entry) :=
  if buyer = 20 then some [logOf .usdcFunding 0 100 1] else none

/-- Of settlements of 60 and 50, a funding of 100 beside a balance of 5 leaves room for one. -/
private def selectedFirst : Selection :=
  ⟨[logOf .settlement 1 60 2], [20], 60, .authenticatedLedgerCapacity⟩

/-- The ledger keeps the first of two settlements, which fits it. -/
theorem oneFunding_selects :
    FitsLedger oneFunding (fun _ => some 5) 20 [logOf .settlement 1 60 2] ∧
      (selectLedgerAwareSettlements [logOf .settlement 2 50 3, logOf .settlement 1 60 2] oneFunding
          (fun _ => some 5) [] [] none none).toOption = some (some selectedFirst) := by
  have hspec := selectLedgerAwareSettlements_spec
    [logOf .settlement 1 60 2, logOf .settlement 2 50 3] oneFunding (fun _ => some 5) [] [] none
    (by decide) (by decide)
  have hselected : selectLedgerAwareSettlements
      [logOf .settlement 1 60 2, logOf .settlement 2 50 3] oneFunding (fun _ => some 5) [] [] none
        none = .ok (some selectedFirst) := by decide +kernel
  have hsame : SameFundings oneFunding oneFunding := by
    intro buyer
    cases oneFunding buyer with
    | none => exact .none
    | some fundings => exact .some (List.Perm.refl fundings)
  constructor
  · exact hspec.2.1 selectedFirst hselected 20 (by decide)
  · rw [hspec.2.2 none _ oneFunding (List.Perm.swap _ _ _) hsame, hselected]
    rfl

end Example

end LoopProof.Planner
