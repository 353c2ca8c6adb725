import LoopProof.Correctness.PlannedEvidence

/-!
# Plans of reciprocal claims

A reciprocal claim names its two wallets, and its volumes by them; the final check of a plan
takes the volumes by the sorted subjects instead. So the plan of a claim depends on which wallet
is called the first one, unless the two volumes are equal.
-/

namespace LoopProof.Planner

section Claims

variable {δ : Type}

/-- The claim of two wallets as the bundle builder makes it, with the ids and the dependencies
of the given one. -/
def reciprocalClaim (base : Claim δ) (walletA walletB : Address)
    (volumeAToBRaw volumeBToARaw : ℕ) : Claim δ :=
  { base with
    type := .reciprocal
    subjects := sortedSet [walletA, walletB]
    walletA := some walletA
    walletB := some walletB
    metrics := some ⟨none, none, some volumeAToBRaw, some volumeBToARaw⟩ }

/-- What one wallet bought from the other in reciprocal settlements. -/
def boughtFrom (dependencies : List Dependency) (buyer seller : Address) : ℕ :=
  sumRaw ((ofType .reciprocalSettlement dependencies).filter fun entry =>
    entry.buyer = some buyer ∧ entry.seller = some seller)

/-- The settlements have the claim's volumes, and they are reciprocal. -/
structure MatchesVolumes (dependencies : List Dependency) (walletA walletB : Address)
    (volumeAToBRaw volumeBToARaw : ℕ) : Prop where
  aToB : boughtFrom dependencies walletA walletB = volumeAToBRaw
  bToA : boughtFrom dependencies walletB walletA = volumeBToARaw
  reciprocal : reciprocalVolumesQualify volumeAToBRaw volumeBToARaw = true

theorem reciprocalVolumesQualify_comm (a b : ℕ) :
    reciprocalVolumesQualify a b = reciprocalVolumesQualify b a := by
  simp only [reciprocalVolumesQualify, max_comm a b, min_comm a b, and_left_comm]

theorem MatchesVolumes.swap {dependencies : List Dependency} {walletA walletB : Address}
    {volumeAToB volumeBToA : ℕ}
    (h : MatchesVolumes dependencies walletA walletB volumeAToB volumeBToA) :
    MatchesVolumes dependencies walletB walletA volumeBToA volumeAToB :=
  ⟨h.bToA, h.aToB, reciprocalVolumesQualify_comm volumeBToA volumeAToB ▸ h.reciprocal⟩

/-- Two wallets in order. -/
theorem sortedSet_pair {a b : Address} (h : a < b) :
    sortedSet [a, b] = [a, b] ∧ sortedSet [b, a] = [a, b] := by
  have hne : a ≠ b := h.ne
  constructor
  · simp [sortedSet, List.dedup_cons_of_notMem, hne, h.le]
  · simp [sortedSet, List.dedup_cons_of_notMem, hne.symm, h]

theorem sortedSet_comm (a b : Address) : sortedSet [b, a] = sortedSet [a, b] := by
  rcases lt_trichotomy a b with h | rfl | h
  · rw [(sortedSet_pair h).1, (sortedSet_pair h).2]
  · rfl
  · rw [(sortedSet_pair h).1, (sortedSet_pair h).2]

end Claims

section Evidence

variable {δ : Type} {lib : PlannerLib} {claim : Claim δ} {dependencies : List Dependency}

/-- The evidence of a reciprocal plan, before it is sorted. -/
def reciprocalEvidence (claim : Claim δ) (dependencies : List Dependency) : List Dependency :=
  (internalDeposits claim dependencies ++ sortEntries (ofType .reciprocalSettlement dependencies) ++
    sortEntries (ofType .totalSettlement dependencies)).map Dependency.entry

private theorem mem_reciprocalEvidence {d : Dependency}
    (h : d ∈ reciprocalEvidence claim dependencies) : d ∈ dependencies := by
  rw [reciprocalEvidence, List.mem_map] at h
  obtain ⟨entry, hentry, rfl⟩ := h
  simp only [List.mem_append, internalDeposits, List.mem_filter, sortEntries, mem_sortBy] at hentry
  rcases hentry with (⟨hentry, _⟩ | hentry) | hentry
  · exact (mem_ofType.mp hentry).1
  · exact (mem_ofType.mp hentry).1
  · exact (mem_ofType.mp hentry).1

/-- The settlements of the evidence are the reciprocal ones, and its parts keep their kinds. -/
private theorem ofType_reciprocalEvidence :
    (ofType .reciprocalSettlement (reciprocalEvidence claim dependencies)).Perm
      (ofType .reciprocalSettlement dependencies) ∧
    ofType .settlement (reciprocalEvidence claim dependencies) = [] := by
  have hdeposits : ∀ entry ∈ internalDeposits claim dependencies,
      entry.evidenceType = .usdcFunding := fun entry hentry =>
    (mem_ofType.mp (List.mem_of_mem_filter hentry)).2
  have hselected : ∀ entry ∈ sortEntries (ofType .reciprocalSettlement dependencies),
      entry.evidenceType = .reciprocalSettlement := fun entry hentry =>
    (mem_ofType.mp (mem_sortBy.mp hentry)).2
  have htotals : ∀ entry ∈ sortEntries (ofType .totalSettlement dependencies),
      entry.evidenceType = .totalSettlement := fun entry hentry =>
    (mem_ofType.mp (mem_sortBy.mp hentry)).2
  have hother {type other : EvidenceType} (hne : other ≠ type) {entries : List Entry}
      (hall : ∀ entry ∈ entries, entry.evidenceType = other) :
      ofType type (entries.map Dependency.entry) = [] := by
    apply ofType_eq_nil
    intro entry hentry
    obtain ⟨entry', hentry', heq⟩ := List.mem_map.mp hentry
    rw [← Dependency.entry.inj heq, hall entry' hentry']
    exact hne
  simp only [reciprocalEvidence, List.map_append, ofType_append]
  constructor
  · rw [hother (by decide) hdeposits, hother (by decide) htotals, ofType_map_entry hselected,
      List.nil_append, List.append_nil]
    exact sortBy_perm _
  · rw [hother (by decide) hdeposits, hother (by decide) htotals, hother (by decide) hselected]
    rfl

/-- Dependencies with different ids are different pieces of evidence. -/
private theorem nodup_reciprocalEvidence
    (hdistinct : (dependencies.map Dependency.dependencyId).Nodup) :
    ((reciprocalEvidence claim dependencies).map Dependency.dependencyId).Nodup := by
  have hdependencies : dependencies.Nodup := List.Nodup.of_map _ hdistinct
  have hpart {type : EvidenceType} : (ofType type dependencies).Nodup :=
    List.Nodup.of_map _ (ofType_sublist.nodup hdependencies)
  have hnodup : (reciprocalEvidence claim dependencies).Nodup := by
    rw [reciprocalEvidence]
    apply List.Nodup.map fun a b hab => Dependency.entry.inj hab
    simp only [List.nodup_append, List.mem_append]
    refine ⟨⟨hpart.filter _, (sortBy_perm _).nodup_iff.mpr hpart, ?_⟩,
      (sortBy_perm _).nodup_iff.mpr hpart, ?_⟩
    · intro a ha b hb hab
      have hleft := (mem_ofType.mp (List.mem_of_mem_filter ha)).2
      have hright := (mem_ofType.mp (mem_sortBy.mp hb)).2
      rw [hab, hright] at hleft
      cases hleft
    · intro a ha b hb hab
      have hright := (mem_ofType.mp (mem_sortBy.mp hb)).2
      rcases ha with ha | ha
      · have hleft := (mem_ofType.mp (List.mem_of_mem_filter ha)).2
        rw [hab, hright] at hleft
        cases hleft
      · have hleft := (mem_ofType.mp (mem_sortBy.mp ha)).2
        rw [hab, hright] at hleft
        cases hleft
  apply hnodup.map_on
  intro a ha b hb hab
  exact List.inj_on_of_nodup_map hdistinct (mem_reciprocalEvidence ha) (mem_reciprocalEvidence hb)
    hab

/-- The evidence in the order of the plan. -/
def sortedEvidence (claim : Claim δ) (dependencies : List Dependency) : List Dependency :=
  sortBy compareEvidence (dedupe (reciprocalEvidence claim dependencies))

private theorem sortedEvidence_perm (hdistinct : (dependencies.map Dependency.dependencyId).Nodup) :
    (sortedEvidence claim dependencies).Perm (reciprocalEvidence claim dependencies) := by
  rw [sortedEvidence, dedupe, dedupeBy_eq_self (nodup_reciprocalEvidence hdistinct)]
  exact sortBy_perm _

/-- Where no ordinary settlement is selected, the reciprocal ones make the volume. -/
private theorem settlements_eq {selected : List Dependency} (h : ofType .settlement selected = []) :
    selected.filterMap settlement? = ofType .reciprocalSettlement selected := by
  apply List.filterMap_congr
  intro d hd
  cases d with
  | relayPath path => rfl
  | entry entry =>
    have hother : entry.evidenceType ≠ .settlement := by
      intro htype
      have hmem := mem_ofType.mpr ⟨hd, htype⟩
      rw [h] at hmem
      cases hmem
    simp [settlement?, Dependency.ofType?, hother]

private theorem volumeBetween_perm {xs ys : List Entry} (h : xs.Perm ys) (buyer seller : Address) :
    volumeBetween xs (some buyer) (some seller) =
      sumRaw (ys.filter fun entry => entry.buyer = some buyer ∧ entry.seller = some seller) := by
  rw [volumeBetween, sumRaw_perm (h.filter _)]
  congr 1
  apply List.filter_congr
  intro entry _
  rw [decide_eq_decide]
  constructor
  · intro hparties
    exact ⟨hparties.2.1, hparties.2.2.2⟩
  · intro hparties
    exact ⟨hparties.1 ▸ rfl, hparties.1, hparties.2 ▸ rfl, hparties.2⟩

/-- Evidence of supported blocks has a cost. -/
theorem costTuple_ok {evidence : List Dependency}
    (h : ∀ d ∈ evidence, ∀ atom ∈ d.atomicEvidence, historicalStartBlock ≤ atom.blockNumber) :
    ∃ cost, costTuple lib evidence = .ok cost := by
  have hgroups : ∃ groups, (evidence.flatMap Dependency.atomicEvidence).mapM
      (fun atom => authenticationGroup atom.blockNumber) = .ok groups := by
    simp only [mapM_eq_ok]
    apply exists_forall₂
    intro atom hatom
    obtain ⟨d, hd, hatom⟩ := List.mem_flatMap.mp hatom
    refine ⟨atom.blockNumber, ?_⟩
    rw [authenticationGroup, bind_eq_ok]
    exact ⟨(), ensure_eq_ok.mpr (h d hd atom hatom), rfl⟩
  obtain ⟨groups, hgroups⟩ := hgroups
  rw [costTuple, hgroups]
  exact ⟨_, rfl⟩

end Evidence

section Plans

variable {δ : Type} {lib : PlannerLib} {dependencies : List Dependency} {context : PlanContext}
  {options : PlanOptions} {base : Claim δ} {walletA walletB : Address}
  {volumeAToB volumeBToA : ℕ}

/-- The evidence of the plan of a claim, if it has one. -/
def plannedEvidence (lib : PlannerLib) (claim : Claim δ) (dependencies : List Dependency)
    (context : PlanContext) (options : PlanOptions) : Option (List Dependency) :=
  (planClaim lib claim dependencies context options).toOption.map (·.selectedEvidence)

/-- The settlements have the volumes in the order of the sorted subjects. -/
def MatchesSorted (dependencies : List Dependency) (walletA walletB : Address)
    (volumeAToBRaw volumeBToARaw : ℕ) : Prop :=
  if walletA < walletB then
    boughtFrom dependencies walletA walletB = volumeAToBRaw ∧
      boughtFrom dependencies walletB walletA = volumeBToARaw
  else
    boughtFrom dependencies walletB walletA = volumeAToBRaw ∧
      boughtFrom dependencies walletA walletB = volumeBToARaw

instance : Decidable (MatchesSorted dependencies walletA walletB volumeAToB volumeBToA) :=
  inferInstanceAs (Decidable (if walletA < walletB then _ ∧ _ else _ ∧ _))

private theorem validateAnalysisVolume_reciprocal (hne : walletA ≠ walletB)
    (hdistinct : (dependencies.map Dependency.dependencyId).Nodup) :
    validateAnalysisVolume (reciprocalClaim base walletA walletB volumeAToB volumeBToA)
        (sortedEvidence (reciprocalClaim base walletA walletB volumeAToB volumeBToA)
          dependencies) = .ok () ↔
      MatchesSorted dependencies walletA walletB volumeAToB volumeBToA := by
  have hperm := @sortedEvidence_perm _
    (reciprocalClaim base walletA walletB volumeAToB volumeBToA) _ hdistinct
  obtain ⟨hreciprocal, hordinary⟩ := @ofType_reciprocalEvidence _
    (reciprocalClaim base walletA walletB volumeAToB volumeBToA) dependencies
  have hsettlements : ((sortedEvidence (reciprocalClaim base walletA walletB volumeAToB volumeBToA)
      dependencies).filterMap settlement?).Perm (ofType .reciprocalSettlement dependencies) := by
    rw [settlements_eq]
    · exact (ofType_perm hperm).trans hreciprocal
    · rw [← List.perm_nil, ← hordinary]
      exact ofType_perm hperm
  generalize sortedEvidence (reciprocalClaim base walletA walletB volumeAToB volumeBToA)
    dependencies = selected at hsettlements
  have hsorted {a b : Address} (h : a < b) : [a, b].insertionSort (· ≤ ·) = [a, b] := by
    simp [h.le]
  rcases lt_or_gt_of_ne hne with hlt | hlt
  · simp only [validateAnalysisVolume, reciprocalClaim, reduceCtorEq, if_false, okOr, ok_bind,
      (sortedSet_pair hlt).1, hsorted hlt, List.getElem?_cons_zero, List.getElem?_cons_succ,
      volumeBetween_perm hsettlements, ensure_eq_ok, MatchesSorted, if_pos hlt]
    rfl
  · simp only [validateAnalysisVolume, reciprocalClaim, reduceCtorEq, if_false, okOr, ok_bind,
      (sortedSet_pair hlt).2, hsorted hlt, List.getElem?_cons_zero, List.getElem?_cons_succ,
      volumeBetween_perm hsettlements, ensure_eq_ok, MatchesSorted, if_neg hlt.not_gt]
    rfl

/-- What the planner of a reciprocal claim is given. -/
structure Plannable (dependencies : List Dependency) (options : PlanOptions)
    (walletA walletB : Address) : Prop where
  wallets : walletA ≠ walletB
  /-- Dependencies are kept apart by their ids. -/
  distinct : (dependencies.map Dependency.dependencyId).Nodup
  supported : ∀ d ∈ dependencies, ∀ atom ∈ d.atomicEvidence,
    historicalStartBlock ≤ atom.blockNumber
  target : 0 < options.returnTargetBps ∧ options.returnTargetBps ≤ 10000

theorem Plannable.swap (h : Plannable dependencies options walletA walletB) :
    Plannable dependencies options walletB walletA :=
  ⟨h.wallets.symm, h.distinct, h.supported, h.target⟩

/-- A reciprocal claim is planned if and only if its volumes match in the order of its sorted
subjects. -/
theorem plannedEvidence_eq_some (h : Plannable dependencies options walletA walletB)
    {evidence : List Dependency} :
    plannedEvidence lib (reciprocalClaim base walletA walletB volumeAToB volumeBToA) dependencies
        context options = some evidence ↔
      (reciprocalVolumesQualify (boughtFrom dependencies walletA walletB)
          (boughtFrom dependencies walletB walletA) = true ∧
        MatchesSorted dependencies walletA walletB volumeAToB volumeBToA) ∧
        sortedEvidence (reciprocalClaim base walletA walletB volumeAToB volumeBToA)
          dependencies = evidence := by
  have hselected : ∃ cost, costTuple lib ((sortEntries
      (ofType .reciprocalSettlement dependencies)).map Dependency.entry) = .ok cost := by
    apply costTuple_ok
    intro d hd
    obtain ⟨entry, hentry, rfl⟩ := List.mem_map.mp hd
    exact h.supported _ (mem_ofType.mp (mem_sortBy.mp hentry)).1
  have hall : ∃ cost, costTuple lib (sortedEvidence
      (reciprocalClaim base walletA walletB volumeAToB volumeBToA) dependencies) = .ok cost := by
    apply costTuple_ok
    intro d hd
    exact h.supported d (mem_reciprocalEvidence ((sortedEvidence_perm h.distinct).subset hd))
  obtain ⟨cost, hcost⟩ := hselected
  obtain ⟨total, htotal⟩ := hall
  have hsum {buyer seller : Address} :
      sumRaw ((sortEntries (ofType .reciprocalSettlement dependencies)).filter fun entry =>
        entry.buyer = some buyer ∧ entry.seller = some seller) =
          boughtFrom dependencies buyer seller :=
    sumRaw_perm ((sortBy_perm _).filter _)
  have hvalid := @validateAnalysisVolume_reciprocal _ dependencies base _ _ volumeAToB volumeBToA
    h.wallets h.distinct
  have htarget : requiredReturnRaw 0 options.returnTargetBps = .ok 0 := by
    rw [requiredReturnRaw, ensure, if_pos h.target, Nat.zero_mul]
    rfl
  have hplan : planClaim lib (reciprocalClaim base walletA walletB volumeAToB volumeBToA)
      dependencies context options = planReciprocal lib
        (reciprocalClaim base walletA walletB volumeAToB volumeBToA) dependencies context := by
    rw [planClaim, htarget]
    rfl
  have hfinal (plan : Plan) : finalizePlanClaim lib
      (reciprocalClaim base walletA walletB volumeAToB volumeBToA)
      (reciprocalEvidence (reciprocalClaim base walletA walletB volumeAToB volumeBToA) dependencies)
      [] none context = .ok plan → plan.selectedEvidence = sortedEvidence
        (reciprocalClaim base walletA walletB volumeAToB volumeBToA) dependencies := by
    intro hplan
    simp only [finalizePlanClaim, bind_eq_ok, pure_eq_ok] at hplan
    obtain ⟨_, _, _, _, rfl⟩ := hplan
    rfl
  rw [plannedEvidence, toOption_map_eq_some, hplan, planReciprocal]
  constructor
  · intro hok
    obtain ⟨plan, hok, rfl⟩ := hok
    simp only [bind_eq_ok, ensure_eq_ok] at hok
    obtain ⟨_, hqualify, _, _, hok⟩ := hok
    refine ⟨⟨?_, ?_⟩, (hfinal plan hok).symm⟩
    · rw [← hsum, ← hsum]
      exact hqualify
    · rw [← hvalid]
      obtain ⟨_, hvolume, _⟩ := bind_eq_ok.mp hok
      exact hvolume
  · intro hok
    obtain ⟨⟨hqualify, hmatches⟩, rfl⟩ := hok
    rw [← hsum, ← hsum] at hqualify
    have hvolume := hvalid.mpr hmatches
    refine ⟨_, bind_eq_ok.mpr ⟨(), ensure_eq_ok.mpr hqualify, bind_eq_ok.mpr ⟨cost, hcost,
      bind_eq_ok.mpr ⟨(), hvolume, bind_eq_ok.mpr ⟨total, htotal, rfl⟩⟩⟩⟩, rfl⟩

/-- The volumes match in the order of the sorted subjects: as they are named where the first
wallet is the smaller one, else the other way round. -/
private theorem matches_iff :
    (reciprocalVolumesQualify (boughtFrom dependencies walletA walletB)
        (boughtFrom dependencies walletB walletA) = true ∧
      MatchesSorted dependencies walletA walletB volumeAToB volumeBToA) ↔
      if walletA < walletB then MatchesVolumes dependencies walletA walletB volumeAToB volumeBToA
      else MatchesVolumes dependencies walletA walletB volumeBToA volumeAToB := by
  unfold MatchesSorted
  split
  · constructor
    · rintro ⟨hqualify, rfl, rfl⟩
      exact ⟨rfl, rfl, hqualify⟩
    · rintro ⟨rfl, rfl, hqualify⟩
      exact ⟨hqualify, rfl, rfl⟩
  · constructor
    · rintro ⟨hqualify, rfl, rfl⟩
      exact ⟨rfl, rfl, hqualify⟩
    · rintro ⟨rfl, rfl, hqualify⟩
      exact ⟨hqualify, rfl, rfl⟩

private theorem internalDeposits_congr {claim other : Claim δ}
    (h : claim.subjects = other.subjects) :
    internalDeposits claim dependencies = internalDeposits other dependencies := by
  cases claim
  cases other
  cases h
  rfl

theorem sortedEvidence_swap {other : Claim δ} :
    sortedEvidence (reciprocalClaim other walletB walletA volumeBToA volumeAToB) dependencies =
      sortedEvidence (reciprocalClaim base walletA walletB volumeAToB volumeBToA) dependencies := by
  have hdeposits : internalDeposits (reciprocalClaim other walletB walletA volumeBToA volumeAToB)
      dependencies = internalDeposits (reciprocalClaim base walletA walletB volumeAToB volumeBToA)
      dependencies := by
    apply internalDeposits_congr
    exact sortedSet_comm walletA walletB
  rw [sortedEvidence, sortedEvidence, reciprocalEvidence, reciprocalEvidence, hdeposits]

/-- Evidence that holds exactly the reciprocal settlements of the dependencies. -/
structure SelectsReciprocal (dependencies evidence : List Dependency) : Prop where
  reciprocal : (ofType .reciprocalSettlement evidence).Perm
    (ofType .reciprocalSettlement dependencies)
  ordinary : ofType .settlement evidence = []

theorem sortedEvidence_selects {claim : Claim δ}
    (hdistinct : (dependencies.map Dependency.dependencyId).Nodup) :
    SelectsReciprocal dependencies (sortedEvidence claim dependencies) := by
  have hperm := @sortedEvidence_perm _ claim _ hdistinct
  obtain ⟨hreciprocal, hordinary⟩ := @ofType_reciprocalEvidence _ claim dependencies
  constructor
  · exact (ofType_perm hperm).trans hreciprocal
  · rw [← List.perm_nil, ← hordinary]
    exact ofType_perm hperm

/-- Matching volumes are planned whole, and naming the wallets the other way round plans alike. -/
structure LabelIndependent (lib : PlannerLib) (base other : Claim δ)
    (dependencies : List Dependency) (context : PlanContext) (options : PlanOptions)
    (walletA walletB : Address) (volumeAToBRaw volumeBToARaw : ℕ) : Prop where
  planned : MatchesVolumes dependencies walletA walletB volumeAToBRaw volumeBToARaw →
    ∃ evidence, plannedEvidence lib (reciprocalClaim base walletA walletB volumeAToBRaw
      volumeBToARaw) dependencies context options = some evidence ∧
        SelectsReciprocal dependencies evidence
  alike : plannedEvidence lib (reciprocalClaim other walletB walletA volumeBToARaw volumeAToBRaw)
      dependencies context options =
    plannedEvidence lib (reciprocalClaim base walletA walletB volumeAToBRaw volumeBToARaw)
      dependencies context options

/-- Two results that are one value wherever they are any are equal if both are values or none. -/
private theorem eq_iff_of_eq_some {α : Type} {x y : Option α} {value : α} {p q : Prop}
    (hx : ∀ a, x = some a ↔ p ∧ value = a) (hy : ∀ a, y = some a ↔ q ∧ value = a) :
    y = x ↔ (p ↔ q) := by
  constructor
  · rintro rfl
    have hvalue := (hx value).symm.trans (hy value)
    simpa only [and_true] using hvalue
  · intro hiff
    ext a
    rw [hx a, hy a, hiff]

/-- The claim and its relabelled twin have their volumes in opposite orders. -/
private theorem labelIndependent_iff_iff {other : Claim δ}
    (h : Plannable dependencies options walletA walletB) :
    LabelIndependent lib base other dependencies context options walletA walletB volumeAToB
        volumeBToA ↔
      (MatchesVolumes dependencies walletA walletB volumeAToB volumeBToA ↔
        MatchesVolumes dependencies walletA walletB volumeBToA volumeAToB) := by
  have hclaim (evidence : List Dependency) := @plannedEvidence_eq_some _ lib _ context _ base _ _
    volumeAToB volumeBToA h evidence
  have hother (evidence : List Dependency) := @plannedEvidence_eq_some _ lib _ context _ other _ _
    volumeBToA volumeAToB h.swap evidence
  have hswap {v w : ℕ} : MatchesVolumes dependencies walletB walletA v w ↔
      MatchesVolumes dependencies walletA walletB w v := ⟨.swap, .swap⟩
  have hselects := @sortedEvidence_selects _ _
    (reciprocalClaim base walletA walletB volumeAToB volumeBToA) h.distinct
  simp only [matches_iff] at hclaim hother
  rw [@sortedEvidence_swap _ _ base] at hother
  rcases lt_or_gt_of_ne h.wallets with hlt | hlt
  · simp only [if_pos hlt] at hclaim
    simp only [if_neg hlt.not_gt, hswap] at hother
    have halike := eq_iff_of_eq_some hclaim hother
    constructor
    · intro hindependent
      exact halike.mp hindependent.alike
    · intro hiff
      constructor
      · intro hmatches
        exact ⟨_, (hclaim _).mpr ⟨hmatches, rfl⟩, hselects⟩
      · exact halike.mpr hiff
  · simp only [if_neg hlt.not_gt] at hclaim
    simp only [if_pos hlt, hswap] at hother
    have halike := eq_iff_of_eq_some hclaim hother
    constructor
    · intro hindependent
      exact (halike.mp hindependent.alike).symm
    · intro hiff
      constructor
      · intro hmatches
        exact ⟨_, (hclaim _).mpr ⟨hiff.mp hmatches, rfl⟩, hselects⟩
      · exact halike.mpr hiff.symm

/-- Planning a reciprocal claim does not depend on the names of its wallets if and only if its
two volumes are equal, or the settlements have them neither way round. -/
theorem planReciprocal_labelIndependent_iff (lib : PlannerLib) (base other : Claim δ)
    (context : PlanContext) (h : Plannable dependencies options walletA walletB) :
    LabelIndependent lib base other dependencies context options walletA walletB volumeAToB
        volumeBToA ↔
      volumeAToB = volumeBToA ∨
        ¬ MatchesVolumes dependencies walletA walletB volumeAToB volumeBToA ∧
          ¬ MatchesVolumes dependencies walletA walletB volumeBToA volumeAToB := by
  rw [labelIndependent_iff_iff h]
  constructor
  · intro hiff
    by_cases heq : volumeAToB = volumeBToA
    · exact .inl heq
    · right
      constructor
      · intro hmatches
        exact heq (hmatches.aToB.symm.trans (hiff.mp hmatches).aToB)
      · intro hmatches
        exact heq ((hiff.mpr hmatches).aToB.symm.trans hmatches.aToB)
  · intro hcondition
    rcases hcondition with rfl | ⟨hleft, hright⟩
    · exact Iff.rfl
    · exact ⟨fun hmatches => absurd hmatches hleft, fun hmatches => absurd hmatches hright⟩

section Example

/-- A purchase of one wallet from the other. -/
private def purchaseOf (buyer seller : Address) (amountRaw : ℕ) (dependencyId : B256) :
    Dependency :=
  .entry
    { evidenceType := .reciprocalSettlement, transactionHash := 1, blockNumber := 46000000
      transactionIndex := 0, logIndex := 0, timestamp := .null, seller := some seller
      buyer := some buyer, funder := none, sender := none, recipient := none, amountRaw
      depositLogIndex := none, dependencyId }

/-- Wallet 20 bought 10 from wallet 10, and sold it the given amount. -/
private def purchases (sold : ℕ) : List Dependency :=
  [purchaseOf 20 10 10 1, purchaseOf 10 20 sold 2]

private def plainLib : PlannerLib := ⟨fun _ => 0, fun _ => 0, fun _ _ => .eq⟩

private def pairClaim : Claim Unit :=
  ⟨7, .reciprocal, [], none, none, [], [], none, 0, 0, []⟩

private theorem purchases_plannable (sold : ℕ) : Plannable (purchases sold) .default 20 10 := by
  constructor
  · decide
  · change [(1 : B256), 2].Nodup
    decide
  · simp [purchases, purchaseOf, Dependency.atomicEvidence, historicalStartBlock]
  · decide

/-- The claim of 10 and 9 is not planned under its own naming, but under the other one. -/
theorem purchases_not_labelIndependent :
    ¬ LabelIndependent plainLib pairClaim pairClaim (purchases 9) ⟨none, 0⟩ .default
      20 10 10 9 := by
  rw [labelIndependent_iff_iff (purchases_plannable 9)]
  intro hiff
  have hmatches : MatchesVolumes (purchases 9) 20 10 10 9 := ⟨by decide, by decide, by decide⟩
  exact absurd (hiff.mp hmatches).aToB (by decide)

/-- The claim of 10 and 10 is planned under either naming. -/
theorem equalPurchases_labelIndependent :
    LabelIndependent plainLib pairClaim pairClaim (purchases 10) ⟨none, 0⟩ .default 20 10 10 10 ∧
      MatchesVolumes (purchases 10) 20 10 10 10 := by
  constructor
  · rw [planReciprocal_labelIndependent_iff plainLib pairClaim pairClaim ⟨none, 0⟩
      (purchases_plannable 10)]
    exact .inl rfl
  · exact ⟨by decide, by decide, by decide⟩

end Example

end Plans

end LoopProof.Planner
