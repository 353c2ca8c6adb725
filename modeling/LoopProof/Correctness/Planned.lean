import LoopProof.Correctness.LedgerSelection
import LoopProof.Planner.Plan

/-!
# What a plan is made of

A plan of a closed-loop claim comes from one funder: its returns, a selection of settlements that
is a part of the eligible ones, and the fundings that the selection keeps. Where no two
dependencies share an id, the selected evidence is exactly that.
-/

namespace LoopProof.Planner

section Plans

variable {δ : Type} {lib : PlannerLib} {claim : Claim δ} {dependencies : List Dependency}
  {context : PlanContext} {options : PlanOptions} {plan : Plan}

/-- The fundings a strategy of one funder can use. -/
def funderFundings (claim : Claim δ) (dependencies : List Dependency) (funder : Address) :
    List Entry :=
  (cohortFundings claim dependencies).filter (·.funder = some funder)

/-- The strategy behind a plan. -/
structure PlannedBy (lib : PlannerLib) (claim : Claim δ) (dependencies : List Dependency)
    (context : PlanContext) (options : PlanOptions) (plan : Plan) (funder : Address)
    (found : Closure) (strategy : Strategy) (selection : Selection) : Prop where
  funded : ∃ entry ∈ cohortFundings claim dependencies, entry.funder = some funder
  closureFound :
    selectClosureForFunder lib dependencies funder claim.subjects.head? context.period =
    .ok (some found)
  closureSelected : strategyClosure found (approvedVolume claim options.allowLedgerSelection)
    options.returnTargetBps = .ok (some strategy.closure)
  selected : selectSettlements
      (eligibleSettlements (funderFundings claim dependencies funder)
        (cohortSettlements claim dependencies))
      (funderFundings claim dependencies funder) strategy.closure.evidence
      (approvedVolume claim options.allowLedgerSelection) options.ledgerBalances
      options.returnTargetBps = .ok (some selection)
  qualified : qualifyStrategy lib (funderFundings claim dependencies funder) strategy.closure
    selection options.ledgerBalances options.returnTargetBps = .ok (some strategy)
  evidence : plan.selectedEvidence =
    sortBy compareEvidence (dedupe (strategyEvidence strategy dependencies))
  volume : validateAnalysisVolume (plannedClaim claim options.allowLedgerSelection strategy)
    plan.selectedEvidence = .ok ()

/-- What a qualified strategy passed. -/
structure Qualified (fundings : List Entry) (closure : Closure) (selection : Selection)
    (ledgerBalances : Option (Address → Option ℕ)) (returnTargetBps : ℕ) (strategy : Strategy) :
    Prop where
  sameClosure : strategy.closure = closure
  funding : strategy.funding =
    retainedFunding fundings selection.settlements selection.buyers
  settlements : strategy.settlements = selection.settlements
  volume : strategy.volumeRaw = selection.volumeRaw
  follows : closureFollows selection.settlements closure.evidence = .ok true
  covered : returnCoverageQualifies closure.evidence selection.volumeRaw returnTargetBps = true
  funded : ledgerBalances.isSome →
    selection.volumeRaw * alphaFundBps ≤ sumRaw strategy.funding * 10000

theorem qualifyStrategy_eq_ok {fundings : List Entry} {closure : Closure} {selection : Selection}
    {ledgerBalances : Option (Address → Option ℕ)} {returnTargetBps : ℕ} {strategy : Strategy}
    (h : qualifyStrategy lib fundings closure selection ledgerBalances returnTargetBps =
      .ok (some strategy)) :
    Qualified fundings closure selection ledgerBalances returnTargetBps strategy := by
  simp only [qualifyStrategy, bind_eq_ok] at h
  obtain ⟨after, hafter, h⟩ := h
  split at h
  · simp [pure_eq_ok] at h
  · rename_i htrue
    split at h
    · simp [pure_eq_ok] at h
    · rename_i hcovered
      split at h
      · simp [pure_eq_ok] at h
      · rename_i hfunded
        simp only [bind_eq_ok, pure_eq_ok, Option.some.injEq] at h
        obtain ⟨cost, _, rfl⟩ := h
        refine ⟨rfl, rfl, rfl, rfl, ?_, by simpa using hcovered, fun hsome => ?_⟩
        · rw [hafter]
          simpa using htrue
        · exact Nat.le_of_not_lt fun hlt => hfunded ⟨hsome, hlt⟩

private theorem buildCohortStrategy_eq_ok {fundings settlements : List Entry} {found : Closure}
    {approved : Option ℕ} {ledgerBalances : Option (Address → Option ℕ)} {returnTargetBps : ℕ}
    {strategy : Strategy}
    (h : buildCohortStrategy lib fundings settlements found approved ledgerBalances
      returnTargetBps = .ok (some strategy)) :
    ∃ selection, strategyClosure found approved returnTargetBps =
        .ok (some strategy.closure) ∧
      selectSettlements (eligibleSettlements fundings settlements) fundings
        strategy.closure.evidence approved ledgerBalances returnTargetBps =
          .ok (some selection) ∧
      qualifyStrategy lib fundings strategy.closure selection ledgerBalances returnTargetBps =
        .ok (some strategy) := by
  simp only [buildCohortStrategy] at h
  split at h
  · simp [pure_eq_ok] at h
  · rw [bind_eq_ok] at h
    obtain ⟨closure, hclosure, h⟩ := h
    cases closure with
    | none => simp [pure_eq_ok] at h
    | some closure =>
      dsimp only at h
      rw [bind_eq_ok] at h
      obtain ⟨selection, hselection, h⟩ := h
      cases selection with
      | none => simp [pure_eq_ok] at h
      | some selection =>
        have hsame := (qualifyStrategy_eq_ok h).sameClosure
        rw [hsame]
        exact ⟨selection, hclosure, hselection, h⟩

/-- Every plan of a closed-loop claim comes from a strategy of one of its funders. -/
theorem planClaim_plannedBy (hclosed : claim.type = .closedLoop)
    (h : planClaim lib claim dependencies context options = .ok plan) :
    ∃ funder found strategy selection,
      PlannedBy lib claim dependencies context options plan funder found strategy selection := by
  simp only [planClaim, hclosed, bind_eq_ok, planCohort] at h
  obtain ⟨_, _, candidates, hcandidates, h⟩ := h
  split at h
  · cases h
  · rename_i strategy others hsorted
    have hmem : strategy ∈ candidates := by
      rw [← @mem_sortBy _ (compareStrategies options.maximizeVolume), hsorted]
      exact List.mem_cons_self ..
    obtain ⟨funder, hfunder, hbuild⟩ := mem_of_filterMapM_eq_ok hcandidates hmem
    rw [bind_eq_ok] at hbuild
    obtain ⟨found, hfound, hbuild⟩ := hbuild
    cases found with
    | none => simp [pure_eq_ok] at hbuild
    | some found =>
      obtain ⟨selection, hclosure, hselected, hqualified⟩ := buildCohortStrategy_eq_ok hbuild
      simp only [finalizePlanClaim, bind_eq_ok, pure_eq_ok] at h
      obtain ⟨_, hvolume, _, _, rfl⟩ := h
      refine ⟨funder, found, strategy, selection, ?_, hfound, hclosure, hselected, hqualified,
        rfl, hvolume⟩
      simpa using hfunder

end Plans

end LoopProof.Planner
