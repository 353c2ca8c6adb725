import LoopProof.Planner.Discovery

/-!
# The settlements of a discovered candidate

The selected settlements are the earliest and those of the largest that fit the capacity. The
capacity counts the fundings of every buyer, and the evaluation only those of the buyers that keep
a settlement. A selection is accepted when the fundings of the buyers that keep one for certain
suffice, whichever of the other buyers keep one too.
-/

namespace LoopProof.Discovery

open Planner

instance transCmpEvidenceTime : Std.TransCmp compareEvidenceTime :=
  inferInstanceAs (Std.TransCmp (compareLex (compareOn fun row : RowPosition => row.timestamp) _))

instance transCmpSettlements : Std.TransCmp compareSettlements :=
  transCmp_on SettlementDependency.toRowPosition

/-- What tells rows apart: time, transaction and log. -/
def rowTriple (row : SettlementDependency) : ℕ × B256 × Option ℕ :=
  (row.timestamp, row.transactionHash, row.logIndex)

/-- Settlements of some amount, told apart by time, transaction and log. -/
structure Distinct (settlements : List SettlementDependency) : Prop where
  positive : ∀ settlement ∈ settlements, 0 < settlement.amountRaw
  distinct : (settlements.map rowTriple).Nodup

/-- Different log numbers are compared as different integers. -/
theorem logNumber_injective {left right : Option ℕ}
    (h : (left.map Int.ofNat).getD (-1) = (right.map Int.ofNat).getD (-1)) : left = right := by
  cases left with
  | none =>
    cases right with
    | none => rfl
    | some log => simp at h
  | some leftLog =>
    cases right with
    | none => simp at h
    | some rightLog => simpa using h

/-- Rows that compare equal have the same triple. -/
theorem rowTriple_eq {left right : SettlementDependency}
    (h : compareSettlements left right = .eq) : rowTriple left = rowTriple right := by
  rw [compareSettlements, compareEvidenceTime, compareLex_eq_eq, compareLex_eq_eq] at h
  obtain ⟨htime, htransaction, hlog⟩ := h
  rw [rowTriple, rowTriple, Prod.mk.injEq, Prod.mk.injEq]
  exact ⟨Std.LawfulEqCmp.eq_of_compare htime, Std.LawfulEqCmp.eq_of_compare htransaction,
    logNumber_injective (Std.LawfulEqCmp.eq_of_compare hlog)⟩

/-! ## What the selection keeps -/

/-- The sum does not depend on the order. -/
theorem settlementRaw_perm {xs ys : List SettlementDependency} (h : xs.Perm ys) :
    settlementRaw xs = settlementRaw ys := (h.map _).sum_eq

/-- The earliest settlement and the largest ones that fit beside it. -/
def keptBeside (capacityRaw : ℕ) (first : SettlementDependency)
    (rest : List SettlementDependency) : List SettlementDependency :=
  first :: greedyWithin (·.amountRaw) capacityRaw first.amountRaw (sortBy compareLargest rest)

section Kept

variable {capacityRaw : ℕ} {first : SettlementDependency} {rest : List SettlementDependency}

/-- What is kept beside an earliest settlement that fits is within the capacity. -/
theorem settlementRaw_keptBeside_le (h : first.amountRaw ≤ capacityRaw) :
    settlementRaw (keptBeside capacityRaw first rest) ≤ capacityRaw := by
  rw [settlementRaw, keptBeside, List.map_cons, List.sum_cons]
  exact sum_greedyWithin_le h _

/-- The settlement fits beside the earliest one and all settlements as large as itself. -/
def FitsBeside (capacityRaw : ℕ) (first : SettlementDependency)
    (rest : List SettlementDependency) (settlement : SettlementDependency) : Prop :=
  first.amountRaw + settlementRaw (rest.filter (settlement.amountRaw ≤ ·.amountRaw)) ≤ capacityRaw

instance transCmpLargest : Std.TransCmp compareLargest :=
  have hreverse : Std.TransCmp fun left right : ℕ => compare right left := transCmp_reverse
  have : Std.TransCmp fun left right : SettlementDependency =>
      compare right.amountRaw left.amountRaw :=
    @transCmp_on _ _ hreverse _ SettlementDependency.amountRaw
  inferInstanceAs (Std.TransCmp (compareLex (fun left right : SettlementDependency =>
    compare right.amountRaw left.amountRaw) compareSettlements))

/-- What comes first is at least as large. -/
theorem amountRaw_le_of_compareLargest {left right : SettlementDependency}
    (h : (compareLargest left right).isLE) : right.amountRaw ≤ left.amountRaw := by
  rw [compareLargest, Ordering.isLE_then_iff_and] at h
  exact compare_le_iff_le.mp (Ordering.isLE_iff_ne_gt.mp h.1)

/-- A settlement that fits beside all settlements as large is kept. -/
theorem mem_keptBeside {settlement : SettlementDependency} (hmem : settlement ∈ rest)
    (h : FitsBeside capacityRaw first rest settlement) :
    settlement ∈ keptBeside capacityRaw first rest := by
  apply List.mem_cons_of_mem
  have hperm := @sortBy_perm _ compareLargest rest
  apply mem_greedyWithin (mem_sortBy.mpr hmem)
  · exact (pairwise_sortBy rest).imp amountRaw_le_of_compareLargest
  · rw [((hperm.filter _).map _).sum_eq]
    exact h

/-- What is kept is among the settlements. -/
theorem keptBeside_subperm : (keptBeside capacityRaw first rest).Subperm (first :: rest) :=
  (((greedyWithin_sublist _ _ _).cons_cons first).subperm).trans
    ((sortBy_perm rest).cons first).subperm

end Kept

section Case

variable (entry : DiscoveryCase)

/-- The earliest settlement does not fit, or the fundings of every set of buyers cover what
settlements of these can be selected. The sets that count hold the buyers that keep a settlement
for certain. -/
def StaysFunded : Prop :=
  ∀ first rest, allSettlements entry = first :: rest →
    first.amountRaw ≤ settlementCapacityRaw entry →
      ∀ buyers : List Address, first.buyer ∈ buyers →
        (∀ settlement ∈ rest, FitsBeside (settlementCapacityRaw entry) first rest settlement →
          settlement.buyer ∈ buyers) →
        min (settlementCapacityRaw entry)
              (settlementRaw ((allSettlements entry).filter (·.buyer ∈ buyers))) * alphaFundBps ≤
          fundingRaw ((allRetainedFunding entry).filter (·.buyer ∈ buyers)) * 10000

/-- What a selection is expected to be: accepted, around the earliest settlement, within the
capacity, and the same for every order of the rows. -/
structure SoundSelection : Prop where
  accepted : selectedSettlements entry ≠ [] →
    (evaluation entry).deficits = ⟨0, 0, 0⟩ ∧
      ∀ compareJson scan period, ∃ claim,
        discoveryClaim entry compareJson scan period = some claim
  earliest : selectedSettlements entry = [] ∨ ∃ first ∈ selectedSettlements entry,
    ∀ settlement ∈ entry.settlementDependencies, (compareSettlements first settlement).isLE
  within : settlementRaw (selectedSettlements entry) ≤ settlementCapacityRaw entry
  anyOrder : ∀ rows : List SettlementDependency, rows.Perm entry.settlementDependencies →
    selectedSettlements { entry with settlementDependencies := rows } = selectedSettlements entry

variable {entry} {first : SettlementDependency} {rest : List SettlementDependency}

/-- Nothing is selected from nothing. -/
theorem selectedSettlements_of_nil (h : allSettlements entry = []) :
    selectedSettlements entry = [] := by
  rw [selectedSettlements, h]
  rfl

/-- The selection in terms of the settlements in order. -/
theorem selectedSettlements_of_cons (h : allSettlements entry = first :: rest) :
    selectedSettlements entry =
      if settlementCapacityRaw entry < first.amountRaw then []
      else sortBy compareSettlements (keptBeside (settlementCapacityRaw entry) first rest) := by
  have hsorted : sortBy compareSettlements (first :: rest) = first :: rest := by
    rw [← h]
    exact sortBy_sortBy entry.settlementDependencies
  rw [selectedSettlements, selectLargestDeterministicSettlementSet, h, hsorted]
  rfl

/-- The first settlement in order comes before every other one. -/
theorem first_isLE (h : allSettlements entry = first :: rest) {settlement : SettlementDependency}
    (hmem : settlement ∈ entry.settlementDependencies) :
    (compareSettlements first settlement).isLE := by
  have hsorted := @pairwise_sortBy _ compareSettlements _ entry.settlementDependencies
  have hall : settlement ∈ allSettlements entry := mem_sortBy.mpr hmem
  change (allSettlements entry).Pairwise _ at hsorted
  rw [h] at hsorted hall
  rcases List.mem_cons.mp hall with rfl | hrest
  · exact Std.ReflCmp.isLE_rfl
  · exact List.rel_of_pairwise_cons hsorted hrest

/-- What is selected is within the capacity. -/
theorem selectedSettlements_within : settlementRaw (selectedSettlements entry) ≤
    settlementCapacityRaw entry := by
  cases h : allSettlements entry with
  | nil =>
    rw [selectedSettlements_of_nil h]
    exact Nat.zero_le _
  | cons first rest =>
    rw [selectedSettlements_of_cons h]
    split
    · exact Nat.zero_le _
    · rename_i hfits
      rw [settlementRaw_perm (sortBy_perm _)]
      exact settlementRaw_keptBeside_le (Nat.not_lt.mp hfits)

/-- What is selected has the earliest settlement of the case. -/
theorem selectedSettlements_earliest : selectedSettlements entry = [] ∨
    ∃ first ∈ selectedSettlements entry, ∀ settlement ∈ entry.settlementDependencies,
      (compareSettlements first settlement).isLE := by
  cases h : allSettlements entry with
  | nil => exact .inl (selectedSettlements_of_nil h)
  | cons first rest =>
    rw [selectedSettlements_of_cons h]
    split
    · exact .inl rfl
    · right
      refine ⟨first, mem_sortBy.mpr (List.mem_cons_self ..), ?_⟩
      intro settlement hmem
      exact first_isLE h hmem

/-- The order of the rows does not matter. -/
theorem selectedSettlements_perm (hdistinct : Distinct entry.settlementDependencies)
    {rows : List SettlementDependency} (h : rows.Perm entry.settlementDependencies) :
    selectedSettlements { entry with settlementDependencies := rows } =
      selectedSettlements entry := by
  have hall : allSettlements { entry with settlementDependencies := rows } =
      allSettlements entry := by
    symm
    apply sortBy_eq_of_perm h.symm
    intro a ha b hb hab
    exact List.inj_on_of_nodup_map hdistinct.distinct ha hb (rowTriple_eq hab)
  simp only [selectedSettlements, settlementCapacityRaw, allRetainedFunding, latestSettlement,
    hall]

end Case

/-! ## The evaluation of what is kept -/

/-- A quotient rounded up exceeds what its numerator exceeds. -/
theorem lt_ceilDiv {total numerator : ℕ} (h : total * 10000 < numerator) :
    total < ceilDiv numerator 10000 := by
  rw [ceilDiv]
  omega

/-- Nothing is missing of a share that is reached. -/
theorem shareDeficit_eq_zero {totalRaw volumeRaw shareBps : ℕ} :
    shareDeficit totalRaw volumeRaw shareBps = 0 ↔ volumeRaw * shareBps ≤ totalRaw * 10000 := by
  rw [shareDeficit]
  constructor
  · intro h
    by_contra hshort
    rw [if_neg hshort] at h
    have hlt := lt_ceilDiv (Nat.lt_of_not_le hshort)
    omega
  · intro h
    exact if_pos h

/-- Nothing is lacking exactly when every rule of the predicate holds. -/
theorem deficits_eq_zero {settlements : List SettlementDependency}
    {fundings : List FundingDependency} {paths : List RelayDependency} :
    (evaluateClosedLoopCandidate settlements fundings paths).deficits = ⟨0, 0, 0⟩ ↔
      0 < settlementRaw settlements ∧
        settlementRaw settlements * alphaFundBps ≤ fundingRaw fundings * 10000 ∧
          settlementRaw settlements * alphaReturnBps ≤ returnRaw paths * 10000 := by
  simp only [evaluateClosedLoopCandidate, Deficits.mk.injEq, shareDeficit_eq_zero]
  rw [ite_eq_left_iff]
  constructor
  · intro h
    refine ⟨?_, h.2⟩
    by_contra hzero
    exact absurd (h.1 hzero) (by decide)
  · intro h
    exact ⟨fun hzero => absurd h.1 hzero, h.2⟩

/-- A volume within the capacity is a share of the returns. -/
theorem return_of_within {fundings : List FundingDependency} {paths : List RelayDependency}
    {volumeRaw : ℕ} (h : volumeRaw ≤ supportedSettlementCapacity fundings paths) :
    volumeRaw * alphaReturnBps ≤ returnRaw paths * 10000 :=
  (Nat.le_div_iff_mul_le (by decide)).mp (h.trans (Nat.min_le_right _ _))

/-- A volume within the capacity is covered by all fundings together. -/
theorem fund_of_within {fundings : List FundingDependency} {paths : List RelayDependency}
    {volumeRaw : ℕ} (h : volumeRaw ≤ supportedSettlementCapacity fundings paths) :
    volumeRaw * alphaFundBps ≤ fundingRaw fundings * 10000 :=
  (Nat.le_div_iff_mul_le (by decide)).mp (h.trans (Nat.min_le_left _ _))

section Evaluation

variable {entry : DiscoveryCase} {first : SettlementDependency}
  {rest kept : List SettlementDependency}

/-- The retained fundings do not depend on the order of the settlements. -/
theorem fundingsOf_perm {kept' : List SettlementDependency} (h : kept.Perm kept') :
    fundingsOf entry kept = fundingsOf entry kept' := by
  apply List.filter_congr
  intro funding _
  rw [decide_eq_decide]
  exact (h.map _).mem_iff

/-- The kept settlements are accepted when the fundings of their buyers cover them. -/
theorem evaluation_deficits (hdistinct : Distinct entry.settlementDependencies)
    (h : allSettlements entry = first :: rest)
    (hfits : first.amountRaw ≤ settlementCapacityRaw entry)
    (hcovered :
      settlementRaw (keptBeside (settlementCapacityRaw entry) first rest) * alphaFundBps ≤
        fundingRaw (fundingsOf entry (keptBeside (settlementCapacityRaw entry) first rest)) *
          10000) :
    (evaluation entry).deficits = ⟨0, 0, 0⟩ := by
  have hselected := selectedSettlements_of_cons h
  rw [if_neg (Nat.not_lt.mpr hfits)] at hselected
  have hperm := @sortBy_perm _ compareSettlements
    (keptBeside (settlementCapacityRaw entry) first rest)
  have hpositive : 0 < settlementRaw (keptBeside (settlementCapacityRaw entry) first rest) := by
    have hfirst : first ∈ entry.settlementDependencies := by
      rw [← @mem_sortBy _ compareSettlements]
      change first ∈ allSettlements entry
      rw [h]
      exact List.mem_cons_self ..
    rw [settlementRaw, keptBeside, List.map_cons, List.sum_cons]
    exact Nat.add_pos_left (hdistinct.positive first hfirst) _
  rw [evaluation, retainedFunding, deficits_eq_zero, hselected, settlementRaw_perm hperm,
    fundingsOf_perm hperm]
  exact ⟨hpositive, hcovered, return_of_within (settlementRaw_keptBeside_le hfits)⟩

/-- The buyers of the kept settlements can have these selected at most. -/
theorem settlementRaw_keptBeside_le_min (h : allSettlements entry = first :: rest)
    (hfits : first.amountRaw ≤ settlementCapacityRaw entry) :
    settlementRaw (keptBeside (settlementCapacityRaw entry) first rest) ≤
      min (settlementCapacityRaw entry) (settlementRaw ((allSettlements entry).filter
        (·.buyer ∈ (keptBeside (settlementCapacityRaw entry) first rest).map (·.buyer)))) := by
  apply le_min (settlementRaw_keptBeside_le hfits)
  apply sum_map_le_of_subperm
  rw [h]
  have hkept := (@keptBeside_subperm (settlementCapacityRaw entry) first rest).filter
    fun settlement =>
      settlement.buyer ∈ (keptBeside (settlementCapacityRaw entry) first rest).map (·.buyer)
  rwa [List.filter_eq_self.mpr] at hkept
  intro settlement hmem
  exact decide_eq_true (List.mem_map_of_mem hmem)

/-- The fundings cover what is kept. -/
theorem StaysFunded.covered (hfunded : StaysFunded entry)
    (h : allSettlements entry = first :: rest)
    (hfits : first.amountRaw ≤ settlementCapacityRaw entry) :
    settlementRaw (keptBeside (settlementCapacityRaw entry) first rest) * alphaFundBps ≤
      fundingRaw (fundingsOf entry (keptBeside (settlementCapacityRaw entry) first rest)) *
        10000 := by
  apply (Nat.mul_le_mul_right _ (settlementRaw_keptBeside_le_min h hfits)).trans
  apply hfunded first rest h hfits
  · exact List.mem_cons_self ..
  · intro settlement hmem hbeside
    exact List.mem_map_of_mem (mem_keptBeside hmem hbeside)

end Evaluation

/-- An accepted case becomes a claim. -/
theorem discoveryClaim_isSome {entry : DiscoveryCase}
    (h : (evaluation entry).deficits = ⟨0, 0, 0⟩)
    (compareJson : DiscoveryDependency → DiscoveryDependency → Ordering) (scan : Scan)
    (period : Period) :
    ∃ claim, discoveryClaim entry compareJson scan period = some claim := by
  have haccepted : (evaluation entry).accepted = true := decide_eq_true h
  exact ⟨_, if_pos haccepted⟩

/-- The selection is accepted whenever it is not empty, if its buyers stay funded. -/
theorem selection_sound (entry : DiscoveryCase)
    (hdistinct : Distinct entry.settlementDependencies) (hfunded : StaysFunded entry) :
    SoundSelection entry := by
  refine ⟨?_, selectedSettlements_earliest, selectedSettlements_within, ?_⟩
  · intro hselected
    cases h : allSettlements entry with
    | nil => exact absurd (selectedSettlements_of_nil h) hselected
    | cons first rest =>
      have hfits : ¬ settlementCapacityRaw entry < first.amountRaw := by
        intro hlarge
        rw [selectedSettlements_of_cons h, if_pos hlarge] at hselected
        exact hselected rfl
      rw [Nat.not_lt] at hfits
      have hcovered := evaluation_deficits hdistinct h hfits (hfunded.covered h hfits)
      exact ⟨hcovered, discoveryClaim_isSome hcovered⟩
  · intro rows hrows
    exact selectedSettlements_perm hdistinct hrows

/-- Buyers stay funded when all settlements fit the capacity. -/
theorem staysFunded_of_total {entry : DiscoveryCase}
    (h : settlementRaw entry.settlementDependencies ≤ settlementCapacityRaw entry) :
    StaysFunded entry := by
  intro first rest hall _ buyers hfirst hbuyers
  have hperm : (allSettlements entry).Perm entry.settlementDependencies := sortBy_perm _
  rw [hall] at hperm
  rw [← settlementRaw_perm hperm, settlementRaw, List.map_cons, List.sum_cons] at h
  have hmem (settlement : SettlementDependency) (hsettlement : settlement ∈ first :: rest) :
      settlement.buyer ∈ buyers := by
    rcases List.mem_cons.mp hsettlement with rfl | hrest
    · exact hfirst
    · apply hbuyers settlement hrest
      apply le_trans (Nat.add_le_add_left _ _) h
      exact sum_map_le_of_subperm List.filter_sublist.subperm
  have hfundings : (allRetainedFunding entry).filter (·.buyer ∈ buyers) =
      allRetainedFunding entry := by
    rw [List.filter_eq_self]
    intro funding hfunding
    have hlatest := (List.mem_filter.mp hfunding).2
    rw [Option.any_eq_true] at hlatest
    obtain ⟨latest, hlatest, _⟩ := hlatest
    have hbuyer := List.mem_filter.mp (List.mem_of_getLast? hlatest)
    rw [← of_decide_eq_true hbuyer.2]
    exact decide_eq_true (hmem latest (hall ▸ hbuyer.1))
  rw [hfundings]
  exact fund_of_within (Nat.min_le_left _ _)

/-- Buyers stay funded when each of them was funded for its own settlements. -/
theorem staysFunded_of_own {entry : DiscoveryCase}
    (h : ∀ buyer, settlementRaw ((allSettlements entry).filter (·.buyer = buyer)) * alphaFundBps ≤
      fundingRaw ((allRetainedFunding entry).filter (·.buyer = buyer)) * 10000) :
    StaysFunded entry := by
  rintro first rest - - buyers - -
  apply (Nat.mul_le_mul_right _ (Nat.min_le_right _ _)).trans
  induction buyers with
  | nil => simp [settlementRaw]
  | cons buyer buyers ih =>
    by_cases hmem : buyer ∈ buyers
    · have hsame (other : Address) : other ∈ buyer :: buyers ↔ other ∈ buyers := by
        rw [List.mem_cons, or_iff_right_of_imp]
        rintro rfl
        exact hmem
      simpa only [hsame] using ih
    · rw [settlementRaw, sum_filter_mem_cons hmem, fundingRaw, sum_filter_mem_cons hmem,
        Nat.add_mul, Nat.add_mul]
      exact Nat.add_le_add (h buyer) ih

/-! ## Two buyers -/

/-- A row at a time, in a transaction of its own. -/
private def rowAt (time : ℕ) (hash : B256) : RowPosition := ⟨none, hash, none, some 0, time⟩

/-- Two buyers of one funder, each funded for its settlements; the volume that their fundings
support does not fit the returns. -/
def coveredScan : Scan where
  protocolDeposits := []
  traces buyer :=
    if buyer = 3 then some ⟨true, [⟨rowAt 1 21, 2, 3, 60⟩]⟩
    else if buyer = 4 then some ⟨true, [⟨rowAt 2 22, 2, 4, 90⟩]⟩
    else none
  settlementVolumes :=
    [⟨rowAt 6 26, 1, 4, 70, 1⟩, ⟨rowAt 7 27, 1, 4, 30, 2⟩, ⟨rowAt 5 25, 1, 3, 60, 0⟩]

/-- A candidate whose one path returns enough. -/
def coveredCandidate : Candidate where
  eligible := true
  state := .proofCandidate
  seller := 1
  funder := 2
  paths := [⟨5, 6, ⟨27, some 0, 7, 30⟩, ⟨28, some 0, 8, 30⟩, some ⟨29, some 0, 9, 30⟩⟩]
  cohortBuyers := [3, 4]
  volumeRaw := 160

/-- The case as the rows of the scan give it. -/
def coveredCase : DiscoveryCase :=
  withSettlements coveredScan (candidateCase (fun _ _ => .lt) coveredScan coveredCandidate)

/-- The settlement of 70 does not fit beside the earliest one, and the one of 30 does. -/
theorem coveredCase_sound :
    (selectedSettlements coveredCase).map (·.amountRaw) = [60, 30] ∧
      SoundSelection coveredCase := by
  refine ⟨by decide +kernel, selection_sound coveredCase ⟨by decide, by decide⟩ ?_⟩
  apply staysFunded_of_own
  intro buyer
  have hbuyers : ∀ settlement ∈ allSettlements coveredCase,
      settlement.buyer = 3 ∨ settlement.buyer = 4 := by decide +kernel
  rcases eq_or_ne buyer 3 with rfl | hthree
  · decide +kernel
  · rcases eq_or_ne buyer 4 with rfl | hfour
    · decide +kernel
    · have hnone : (allSettlements coveredCase).filter (·.buyer = buyer) = [] := by
        rw [List.filter_eq_nil_iff]
        intro settlement hmem hbuyer
        rw [decide_eq_true_eq] at hbuyer
        rcases hbuyers settlement hmem with hbuyer' | hbuyer'
        · exact hthree (hbuyer.symm.trans hbuyer')
        · exact hfour (hbuyer.symm.trans hbuyer')
      rw [hnone, settlementRaw, List.map_nil, List.sum_nil, Nat.zero_mul]
      exact Nat.zero_le _

/-- Two buyers of one funder; the volume that both support together exceeds what the first one
was funded with. -/
def strandingScan : Scan where
  protocolDeposits := []
  traces buyer :=
    if buyer = 3 then some ⟨true, [⟨rowAt 1 21, 2, 3, 10⟩]⟩
    else if buyer = 4 then some ⟨true, [⟨rowAt 2 22, 2, 4, 90⟩]⟩
    else none
  settlementVolumes := [⟨rowAt 5 25, 1, 3, 60, 0⟩, ⟨rowAt 6 26, 1, 4, 60, 1⟩]

/-- A candidate whose path returns enough for two buyers. -/
def strandingCandidate : Candidate where
  eligible := true
  state := .proofCandidate
  seller := 1
  funder := 2
  paths := [⟨5, 6, ⟨27, some 0, 7, 100⟩, ⟨28, some 0, 8, 100⟩, some ⟨29, some 0, 9, 100⟩⟩]
  cohortBuyers := [3, 4]
  volumeRaw := 120

/-- The case as the rows of the scan give it. -/
def strandingCase : DiscoveryCase :=
  withSettlements strandingScan (candidateCase (fun _ _ => .lt) strandingScan strandingCandidate)

/-- The settlements of the case are distinct. -/
theorem strandingCase_distinct : Distinct strandingCase.settlementDependencies := by
  constructor
  · decide
  · decide

/-- The capacity is 111, and 60 of it are selected for a buyer that was funded with 10. -/
theorem strandingScan_rejected :
    ¬ ∀ compareJson scan candidates, ∀ entry ∈ discoveryCases compareJson scan candidates,
      Distinct entry.settlementDependencies → SoundSelection entry := by
  intro h
  have hcase : strandingCase ∈
      discoveryCases (fun _ _ => .lt) strandingScan [strandingCandidate] :=
    List.mem_singleton_self _
  have hsound := h _ _ _ strandingCase hcase strandingCase_distinct
  have hdeficit : (evaluation strandingCase).deficits = ⟨0, 44, 0⟩ := by decide +kernel
  have haccepted := (hsound.accepted (by decide +kernel)).1
  rw [hdeficit] at haccepted
  cases haccepted

end LoopProof.Discovery
