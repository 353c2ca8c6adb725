import LoopProof.Correctness.ReturnSelection
import LoopProof.Planner.FixedVolume

/-!
# Returns for a fixed volume never regress

What the search returns is a set of valid paths of the seller and the funder that share no
transfer, returns at least what the baseline did, and reaches the required amount whenever
different paths that share no transfer do.
-/

namespace LoopProof.Planner

section Search

variable {input : FixedVolumeInput} {requiredRaw : ℕ}

/-- A path that the search may select. -/
def Admitted (input : FixedVolumeInput) (path : ReturnEvidence) : Prop :=
  matchesInput input path = true ∧
    validReturnEvidence (some input.earliest) (atomicReturnEvidence path) = true

/-- A set of returns that the search can answer with. -/
structure Selectable (input : FixedVolumeInput) (evidence : List ReturnEvidence)
    (returnedRaw : ℕ) : Prop where
  part : ∀ path ∈ evidence, path ∈ input.baseline ++ input.candidates
  admitted : ∀ path ∈ evidence, Admitted input path
  apart : evidence.Pairwise (Apart atomicReturnEvidence)
  few : evidence.length ≤ maxReturnPaths
  returned : returnedRaw = creditOf atomicReturnEvidence evidence

/-- The baseline is valid and shares no transfer. -/
structure BaselineOk (input : FixedVolumeInput) : Prop where
  matched : ∀ path ∈ input.baseline, matchesInput input path = true
  whole : (checkedBaseline input).evidence.length = input.baseline.length

theorem BaselineOk.selectable (h : BaselineOk input) :
    Selectable input input.baseline (sumCredits input.baseline) := by
  have hpart : (checkedBaseline input).evidence.Subperm input.baseline :=
    selectReturnEvidence_subperm.trans List.filter_sublist.subperm
  have hperm : (checkedBaseline input).evidence.Perm input.baseline :=
    hpart.perm_of_length_le h.whole.ge
  constructor
  · intro path hpath
    exact List.mem_append_left _ hpath
  · intro path hpath
    exact ⟨h.matched path hpath, (mem_selectReturnEvidence (hperm.symm.subset hpath)).2⟩
  · exact hperm.pairwise selectReturnEvidence_sound.apart fun hapart => hapart.symm
  · rw [← h.whole]
    exact length_selectReturnEvidence_le
  · rfl

theorem reserved_baseline : (input.baseline.flatMap atomicReturnEvidence).map hopKey =
    input.baseline.flatMap (keysOf atomicReturnEvidence) := List.map_flatMap

/-- The baseline with further candidates beside it. -/
theorem BaselineOk.augmented (h : BaselineOk input) :
    Selectable input (input.baseline ++ (remainingReturns input requiredRaw).evidence)
      (sumCredits input.baseline + (remainingReturns input requiredRaw).returnedRaw) := by
  obtain ⟨_, hadmitted, hapart, hfew, _⟩ := h.selectable
  have hsound : Sound atomicReturnEvidence
      ((input.baseline.flatMap atomicReturnEvidence).map hopKey)
        (remainingReturns input requiredRaw) := selectReturns_sound sound_nil
  have hmem : ∀ path ∈ (remainingReturns input requiredRaw).evidence,
      path ∈ input.candidates ∧ Admitted input path := by
    intro path hpath
    obtain ⟨hmem, hvalid⟩ := mem_selectReturnEvidence hpath
    obtain ⟨hmem, hmatched⟩ := List.mem_filter.mp hmem
    exact ⟨hmem, hmatched, hvalid⟩
  constructor
  · intro path hpath
    exact List.mem_append.mpr ((List.mem_append.mp hpath).imp_right fun hpath =>
      (hmem path hpath).1)
  · intro path hpath
    rcases List.mem_append.mp hpath with hpath | hpath
    · exact hadmitted path hpath
    · exact (hmem path hpath).2
  · refine List.pairwise_append.mpr ⟨hapart, hsound.apart, fun left hleft right hright => ?_⟩
    have hfree := hsound.unreserved right hright
    rw [reserved_baseline] at hfree
    intro key hkey hright
    exact hfree hright (List.mem_flatMap.mpr ⟨left, hleft, hkey⟩)
  · have hrest : (remainingReturns input requiredRaw).evidence.length ≤
        maxReturnPaths - input.baseline.length := length_selectReturnEvidence_le
    rw [List.length_append]
    omega
  · rw [hsound.returned, creditOf_append]
    rfl

/-- A selection from scratch. -/
theorem reselected_selectable :
    Selectable input (reselectedReturns input requiredRaw).evidence
      (reselectedReturns input requiredRaw).returnedRaw := by
  have hmem : ∀ path ∈ (reselectedReturns input requiredRaw).evidence,
      path ∈ input.baseline ++ input.candidates ∧ Admitted input path := by
    intro path hpath
    obtain ⟨hmem, hvalid⟩ := mem_selectReturnEvidence hpath
    obtain ⟨hmem, hmatched⟩ := List.mem_filter.mp hmem
    exact ⟨hmem, hmatched, hvalid⟩
  constructor
  · intro path hpath
    exact (hmem path hpath).1
  · intro path hpath
    exact (hmem path hpath).2
  · exact selectReturnEvidence_sound.apart
  · exact length_selectReturnEvidence_le
  · exact selectReturnEvidence_sound.returned

/-- The answer is the larger of the two selections. -/
theorem BaselineOk.larger (h : BaselineOk input) :
    Selectable input (largerReturns input requiredRaw).1 (largerReturns input requiredRaw).2 ∧
      sumCredits input.baseline ≤ (largerReturns input requiredRaw).2 ∧
      (reselectedReturns input requiredRaw).returnedRaw ≤ (largerReturns input requiredRaw).2 := by
  unfold largerReturns
  dsimp only
  split
  · rename_i hlarger
    exact ⟨h.augmented, Nat.le_add_right _ _, hlarger⟩
  · rename_i hsmaller
    refine ⟨reselected_selectable, ?_, Nat.le_refl _⟩
    exact (Nat.le_add_right _ _).trans (Nat.lt_of_not_le hsmaller).le

/-- Different paths of the baseline and the candidates that reach an amount. -/
structure CoversFixedVolume (input : FixedVolumeInput) (requiredRaw : ℕ)
    (cover : List (List Transfer)) : Prop where
  distinct : cover.Nodup
  admitted : ∀ hops ∈ cover, ∃ path ∈ input.baseline ++ input.candidates, Admitted input path ∧
    atomicReturnEvidence path = hops
  few : cover.length ≤ maxReturnPaths
  enough : requiredRaw ≤ (cover.map returnPathCreditRaw).sum

private theorem mem_validCandidates {path : ReturnEvidence} :
    path ∈ validCandidates atomicReturnEvidence (some input.earliest)
        ((input.baseline ++ input.candidates).filter (matchesInput input)) ↔
      path ∈ input.baseline ++ input.candidates ∧ Admitted input path := by
  rw [validCandidates, List.mem_filter, List.mem_filter, and_assoc, Admitted]

private theorem coversDistinct_iff {cover : List (List Transfer)} :
    CoversDistinct atomicReturnEvidence
        ((input.baseline ++ input.candidates).filter (matchesInput input))
        ⟨requiredRaw, some input.earliest, maxReturnPaths, []⟩ cover ↔
      CoversFixedVolume input requiredRaw cover := by
  constructor
  · intro h
    refine ⟨h.distinct, fun hops hhops => ?_, h.few, h.enough⟩
    obtain ⟨path, hpath, heq⟩ := h.valid hops hhops
    obtain ⟨hmem, hadmitted⟩ := mem_validCandidates.mp hpath
    exact ⟨path, hmem, hadmitted, heq⟩
  · intro h
    refine ⟨h.distinct, fun hops hhops => ?_, h.few, h.enough⟩
    obtain ⟨path, hmem, hadmitted, heq⟩ := h.admitted hops hhops
    exact ⟨path, mem_validCandidates.mpr ⟨hmem, hadmitted⟩, heq⟩

/-- Where different paths share no transfer, the answer reaches the required amount if and only
if some of them do. -/
theorem BaselineOk.enough_iff (h : BaselineOk input)
    (hshare : ∀ a ∈ input.baseline ++ input.candidates, Admitted input a →
      ∀ b ∈ input.baseline ++ input.candidates, Admitted input b →
        atomicReturnEvidence a = atomicReturnEvidence b ∨ Apart atomicReturnEvidence a b) :
    requiredRaw ≤ (largerReturns input requiredRaw).2 ↔
      ∃ cover, CoversFixedVolume input requiredRaw cover := by
  obtain ⟨hselectable, _, hreselected⟩ := @BaselineOk.larger input requiredRaw h
  constructor
  · intro henough
    refine ⟨_, coversDistinct_iff.mp (coversDistinct_of_apart hselectable.apart ?_
      hselectable.few (henough.trans_eq hselectable.returned))⟩
    intro path hpath
    exact mem_validCandidates.mpr ⟨hselectable.part path hpath, hselectable.admitted path hpath⟩
  · intro hcover
    obtain ⟨cover, hcover⟩ := hcover
    apply le_trans _ hreselected
    apply of_decide_eq_true
    apply (complete_iff_coversDistinct rfl _).mpr ⟨cover, coversDistinct_iff.mpr hcover⟩
    intro a ha b hb
    obtain ⟨ha, haOk⟩ := mem_validCandidates.mp ha
    obtain ⟨hb, hbOk⟩ := mem_validCandidates.mp hb
    exact hshare a ha haOk b hb hbOk

end Search

/-- What a search for a fixed volume returns. -/
structure FixedVolumeSpec (input : FixedVolumeInput) (result : FixedVolumeReturns) : Prop where
  starts : ∀ path ∈ result.paths, path.hops.head?.bind (·.sender) = some input.seller
  ends : ∀ path ∈ result.paths, path.hops.getLast?.bind (·.recipient) = some input.funder
  valid : ∀ path ∈ result.paths, validReturnEvidence (some input.earliest) path.hops = true
  apart : result.paths.Pairwise fun left right =>
    (left.hops.map transferKey).Disjoint (right.hops.map transferKey)
  few : result.paths.length ≤ maxReturnPaths
  credits : ∀ path ∈ result.paths, path.creditRaw = returnPathCreditRaw path.hops
  returned : result.candidateReturnRaw = (result.paths.map (·.creditRaw)).sum
  baseline : result.baselineReturnRaw = sumCredits input.baseline
  noRegress : result.baselineReturnRaw ≤ result.candidateReturnRaw
  requiredAtLeast : input.volumeRaw * input.targetBps ≤ result.requiredReturnRaw * 10000
  requiredLeast : result.requiredReturnRaw * 10000 < input.volumeRaw * input.targetBps + 10000
  shortfall : result.shortfallRaw = result.requiredReturnRaw - result.candidateReturnRaw
  met : result.targetMetByCandidates = true ↔ result.shortfallRaw = 0
  exact : (∀ a ∈ input.baseline ++ input.candidates, Admitted input a →
      ∀ b ∈ input.baseline ++ input.candidates, Admitted input b →
        atomicReturnEvidence a = atomicReturnEvidence b ∨ Apart atomicReturnEvidence a b) →
    (result.targetMetByCandidates = true ↔
      ∃ cover, CoversFixedVolume input result.requiredReturnRaw cover)

theorem requiredReturnRaw_eq_ok {volume bps required : ℕ} :
    requiredReturnRaw volume bps = .ok required ↔
      (0 < bps ∧ bps ≤ 10000) ∧ (volume * bps + 9999) / 10000 = required := by
  simp only [requiredReturnRaw, bind_eq_ok, ensure_eq_ok, pure_eq_ok, exists_const]

/-- Every search that returns keeps the baseline's credit, and is exact on disjoint paths. -/
theorem selectFixedVolumeReturns_spec {input : FixedVolumeInput} {result : FixedVolumeReturns}
    (h : selectFixedVolumeReturns input = .ok result) : FixedVolumeSpec input result := by
  simp only [selectFixedVolumeReturns, bind_eq_ok, ensure_eq_ok, requiredReturnRaw_eq_ok,
    exists_const, pure_eq_ok] at h
  obtain ⟨required, ⟨_, hrequired⟩, hmatched, hchecked, rfl⟩ := h
  have hbaseline : BaselineOk input := ⟨List.all_eq_true.mp hmatched, hchecked.2⟩
  obtain ⟨hselectable, hkept, _⟩ := @BaselineOk.larger input required hbaseline
  constructor
  · intro path hpath
    obtain ⟨evidence, hevidence, rfl⟩ := List.mem_map.mp hpath
    exact (of_decide_eq_true (hselectable.admitted evidence hevidence).1).2.1
  · intro path hpath
    obtain ⟨evidence, hevidence, rfl⟩ := List.mem_map.mp hpath
    exact (of_decide_eq_true (hselectable.admitted evidence hevidence).1).2.2.1
  · intro path hpath
    obtain ⟨evidence, hevidence, rfl⟩ := List.mem_map.mp hpath
    exact (hselectable.admitted evidence hevidence).2
  · rw [List.pairwise_map]
    exact hselectable.apart
  · rw [List.length_map]
    exact hselectable.few
  · intro path hpath
    obtain ⟨evidence, _, rfl⟩ := List.mem_map.mp hpath
    rfl
  · rw [List.map_map]
    exact hselectable.returned
  · rfl
  · exact hkept
  · dsimp only
    omega
  · dsimp only
    omega
  · rfl
  · rw [decide_eq_true_iff]
    exact Nat.sub_eq_zero_iff_le.symm
  · intro hshare
    rw [decide_eq_true_iff]
    exact hbaseline.enough_iff hshare

/-- A transfer of account 1 to account 2 in a transaction of its own. -/
private def directPayment (transactionHash : B256) (amountRaw : ℕ) : Transfer :=
  ⟨some 1, some 2, amountRaw, .seconds 10, transactionHash, some 0, none, none⟩

/-- A baseline of 10, and a candidate of 20 beside it. -/
private def twoPayments : FixedVolumeInput where
  candidates := [.direct (directPayment 2 20)]
  baseline := [.direct (directPayment 1 10)]
  volumeRaw := 60
  targetBps := 5000
  seller := 1
  funder := 2
  earliest := 5
  periodEnd := 20
  startBlock := 0
  endBlock := 0

/-- The baseline and the candidate together carry what is required. -/
theorem twoPayments_spec : FixedVolumeSpec twoPayments
    { fixedVolumeRaw := 60
      targetReturnBps := 5000
      requiredReturnRaw := 30
      baselineReturnRaw := 10
      candidateReturnRaw := 30
      shortfallRaw := 0
      targetMetByCandidates := true
      paths := [⟨10, [directPayment 1 10]⟩, ⟨20, [directPayment 2 20]⟩] } :=
  selectFixedVolumeReturns_spec (by decide +kernel)

end LoopProof.Planner
