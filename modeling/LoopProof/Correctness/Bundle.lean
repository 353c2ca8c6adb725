import LoopProof.Planner.Bundle

/-!
# Claims of a bundle

The records of closed-loop claims are stored under their type and their subjects. Where no two
different closed-loop claims have the same subjects, every claim is planned from its own records,
and so as if it were alone in its bundle.
-/

namespace LoopProof.Planner

/-! ## What a plan takes from its bundle -/

section Context

variable {δ : Type} {lib : PlannerLib} {claim : Claim δ} {dependencies : List Dependency}
  {options : PlanOptions} {period : Option Period} {root : B256} {plan : Plan}

private theorem finalizePlanClaim_root {evidence : List Dependency}
    {rejectedAlternatives : List Alternative} {cohort : Option CohortDetails}
    (h : finalizePlanClaim lib claim evidence rejectedAlternatives cohort ⟨period, root⟩ = .ok plan)
    (other : B256) :
    finalizePlanClaim lib claim evidence rejectedAlternatives cohort ⟨period, other⟩ =
      .ok { plan with reportRoot := other } := by
  simp only [finalizePlanClaim, bind_eq_ok, pure_eq_ok] at h ⊢
  obtain ⟨_, hvolume, cost, hcost, rfl⟩ := h
  exact ⟨_, hvolume, cost, hcost, rfl⟩

/-- Only the name of its report in a plan depends on the root of the report. -/
theorem planClaim_root (h : planClaim lib claim dependencies ⟨period, root⟩ options = .ok plan)
    (other : B256) :
    planClaim lib claim dependencies ⟨period, other⟩ options =
      .ok { plan with reportRoot := other } := by
  simp only [planClaim, bind_eq_ok] at h ⊢
  obtain ⟨required, hrequired, h⟩ := h
  refine ⟨required, hrequired, ?_⟩
  split at h
  · simp only [planReciprocal, bind_eq_ok] at h ⊢
    obtain ⟨_, hqualify, cost, hcost, h⟩ := h
    exact ⟨_, hqualify, cost, hcost, finalizePlanClaim_root h other⟩
  · simp only [planCohort, bind_eq_ok] at h ⊢
    obtain ⟨candidates, hcandidates, h⟩ := h
    refine ⟨candidates, hcandidates, ?_⟩
    split at h
    · cases h
    · exact finalizePlanClaim_root h other
  · cases h

end Context

/-! ## Plans of single claims -/

section Claims

variable {lib : PlannerLib} {hashes : HashLib} {rpc : Rpc} {bundle other : Bundle}
  {claim : Claim DraftDependency} {authenticated : Authenticated}

/-- Two plans of one claim select the same evidence and prove the same volume. -/
structure SamePlan (left right : AttachedPlan) : Prop where
  claimId : left.plan.claimId = right.plan.claimId
  selectedEvidence : left.selectedEvidence = right.selectedEvidence
  provenVolumeRaw : left.plan.cohort.map (·.provenVolumeRaw) =
    right.plan.cohort.map (·.provenVolumeRaw)

/-- Every hash of a list has a proof. -/
theorem merkleMembership_of_mem {values : List B256} {target : B256} (h : target ∈ values) :
    ∃ steps, merkleMembership hashes values target = .ok steps := by
  have hstored : storeAll (values.insertionSort (· ≤ ·)).zipIdx target ≠ none := by
    rw [Ne, storeAll_eq_none, not_not, List.zipIdx_map_fst]
    exact (List.perm_insertionSort _ values).mem_iff.mpr h
  obtain ⟨index, hindex⟩ := Option.ne_none_iff_exists'.mp hstored
  simp only [merkleMembership, bind_eq_ok, okOr_eq_ok, pure_eq_ok]
  exact ⟨_, index, hindex, rfl⟩

/-- The plan of a claim from given records is the same in every bundle of its period that has
the claim. -/
theorem planAuthenticated_same (hperiod : bundle.period = other.period)
    (hmem : claim ∈ other.claims) {attached : AttachedPlan}
    (h : planAuthenticated lib hashes bundle claim authenticated = .ok attached) :
    ∃ attached', planAuthenticated lib hashes other claim authenticated = .ok attached' ∧
      SamePlan attached attached' := by
  simp only [planAuthenticated, bind_eq_ok, mapError_eq_ok, attachMemberships, pure_eq_ok,
    Bundle.context] at h ⊢
  obtain ⟨_, htotals, planned, hplanned, _, _, selected, hselected, rfl⟩ := h
  obtain ⟨steps, hsteps⟩ := @merkleMembership_of_mem hashes (other.claims.map (·.leafHash))
    claim.leafHash (List.mem_map_of_mem hmem)
  rw [hperiod] at hplanned
  refine ⟨_, ⟨_, htotals, _, planClaim_root hplanned other.reportRoot, steps, hsteps, selected,
    hselected, rfl⟩, ?_⟩
  exact ⟨rfl, rfl, rfl⟩

end Claims

/-! ## Records of a bundle -/

section Records

variable {lib : PlannerLib} {hashes : HashLib} {rpc : Rpc} {bundle : Bundle}
  {claim : Claim DraftDependency}

/-- A claim as it stands in the finalized bundle, with the records stored for it. -/
abbrev LedgerEntry := Claim DraftDependency × Option (AuthenticationKey × Authenticated)

/-- The claim becomes the entry when its bundle is finalized afresh. -/
def Finalizes (lib : PlannerLib) (hashes : HashLib) (rpc : Rpc) (bundle : Bundle)
    (claim : Claim DraftDependency) (entry : LedgerEntry) : Prop :=
  finalizeLedgerClaim lib hashes rpc (fun _ => none) bundle claim = .ok entry

/-- A closed-loop claim is finalized with its records, and any other claim is left as it is. -/
theorem finalizes_iff {entry : LedgerEntry} :
    Finalizes lib hashes rpc bundle claim entry ↔
      (claim.type = .closedLoop ∧ ∃ finalized authenticated,
          finalizeClosedLoop lib hashes rpc bundle claim = .ok (finalized, authenticated) ∧
            entry = (finalized.mapDependencies Dependency.toDraft,
              some (claimAuthenticationKey finalized, authenticated))) ∨
        claim.type ≠ .closedLoop ∧ entry = (claim, none) := by
  unfold Finalizes finalizeLedgerClaim
  by_cases htype : claim.type = .closedLoop
  · rw [if_pos htype]
    simp only [bind_eq_ok, pure_eq_ok, Prod.exists, htype, true_and, not_true, false_and, or_false,
      ne_eq, eq_comm (b := entry)]
  · rw [if_neg htype]
    constructor
    · intro hok
      exact .inr ⟨htype, (Except.ok.inj hok).symm⟩
    · rintro (⟨hclosed, _⟩ | ⟨_, rfl⟩)
      · exact absurd hclosed htype
      · rfl

/-- Finalizing a claim keeps its type and its subjects. -/
theorem finalizeClosedLoop_key {finalized : Claim Dependency} {authenticated : Authenticated}
    (h : finalizeClosedLoop lib hashes rpc bundle claim = .ok (finalized, authenticated)) :
    claimAuthenticationKey finalized = claimAuthenticationKey claim := by
  simp only [finalizeClosedLoop, bind_eq_ok, pure_eq_ok, Prod.mk.injEq] at h
  obtain ⟨_, _, _, _, _, _, rfl, _⟩ := h
  rfl

/-- No two different closed-loop claims have the same subjects. -/
def ClaimsApart (claims : List (Claim DraftDependency)) : Prop :=
  ∀ claim ∈ claims, ∀ other ∈ claims, claim.type = .closedLoop → other.type = .closedLoop →
    claim.subjects = other.subjects → claim = other

/-- What is stored belongs to a closed-loop claim, under its own key. -/
private theorem exists_stored {claims : List (Claim DraftDependency)} {entries : List LedgerEntry}
    (h : List.Forall₂ (Finalizes lib hashes rpc bundle) claims entries) {key : AuthenticationKey}
    {authenticated : Authenticated}
    (hmem : (key, authenticated) ∈ entries.filterMap Prod.snd) :
    ∃ claim ∈ claims, claim.type = .closedLoop ∧ claimAuthenticationKey claim = key ∧
      ∃ entry, Finalizes lib hashes rpc bundle claim entry ∧
        entry.2 = some (key, authenticated) := by
  obtain ⟨entry, hentry, hstored⟩ := List.mem_filterMap.mp hmem
  obtain ⟨claim, hclaim, hfinalizes⟩ := forall₂_exists_left h hentry
  rcases finalizes_iff.mp hfinalizes with ⟨htype, finalized, _, hok, rfl⟩ | ⟨_, rfl⟩
  · refine ⟨claim, hclaim, htype, ?_, _, hfinalizes, hstored⟩
    rw [← finalizeClosedLoop_key hok]
    exact (Prod.mk.inj (Option.some.inj hstored)).1
  · cases hstored

/-- The records that were made for the claim itself. -/
def ownRecords (rpc : Rpc) (bundle : Bundle) (entry : LedgerEntry) : Except String Authenticated :=
  match entry.2 with
  | some stored => .ok stored.2
  | none => authenticateClaim rpc bundle.period bundle.contracts entry.1

/-- Where the closed-loop claims are apart, every claim finds its own records. -/
theorem authenticatedFor_own {claims : List (Claim DraftDependency)} {entries : List LedgerEntry}
    {finalized : Bundle} (hperiod : finalized.period = bundle.period)
    (hcontracts : finalized.contracts = bundle.contracts)
    (hentries : List.Forall₂ (Finalizes lib hashes rpc bundle) claims entries)
    (hapart : ClaimsApart claims) {entry : LedgerEntry} (hentry : entry ∈ entries) :
    authenticatedFor rpc finalized (storeAll (entries.filterMap Prod.snd)) entry.1 =
      ownRecords rpc bundle entry := by
  obtain ⟨claim, hclaim, hfinalizes⟩ := forall₂_exists_left hentries hentry
  unfold authenticatedFor ownRecords
  rcases finalizes_iff.mp hfinalizes with ⟨htype, own, authenticated, hok, rfl⟩ | ⟨htype, rfl⟩
  · have hkey : claimAuthenticationKey (own.mapDependencies Dependency.toDraft) =
        claimAuthenticationKey own := rfl
    have hmem : (claimAuthenticationKey own, authenticated) ∈ entries.filterMap Prod.snd :=
      List.mem_filterMap.mpr ⟨_, hentry, rfl⟩
    rw [hkey]
    cases hstored : storeAll (entries.filterMap Prod.snd) (claimAuthenticationKey own) with
    | none => exact absurd (List.mem_map_of_mem hmem) (storeAll_eq_none.mp hstored)
    | some other =>
      -- the last claim of this key is the claim itself, and was finalized alike
      obtain ⟨last, hlast, htype', hsame, entry', hfinalizes', hrecords⟩ :=
        exists_stored hentries (mem_of_storeAll hstored)
      rw [finalizeClosedLoop_key hok] at hsame
      obtain rfl := hapart last hlast claim hclaim htype' htype (Prod.ext_iff.mp hsame).2
      rw [← Except.ok.inj (hfinalizes.symm.trans hfinalizes')] at hrecords
      rw [(Prod.mk.inj (Option.some.inj hrecords)).2]
  · have hnone : storeAll (entries.filterMap Prod.snd) (claimAuthenticationKey claim) = none := by
      rw [storeAll_eq_none]
      intro hkey
      obtain ⟨⟨key, records⟩, hmem, rfl⟩ := List.mem_map.mp hkey
      obtain ⟨other, _, hclosed, hsame, _⟩ := exists_stored hentries hmem
      exact htype ((Prod.ext_iff.mp hsame).1.symm.trans hclosed)
    simp only [hnone, hperiod, hcontracts]

end Records

/-! ## Plans of a bundle -/

section Plans

variable {lib : PlannerLib} {hashes : HashLib} {rpc : Rpc} {bundle : Bundle}
  {claim : Claim DraftDependency}

/-- The bundle that stage one hands to stage two. -/
def finalizedWith (hashes : HashLib) (bundle : Bundle) (entries : List LedgerEntry) : Bundle :=
  finalizeBundle hashes { bundle with claims := entries.map Prod.fst }

/-- The claims of a finalized bundle are those that were finalized. -/
theorem mem_finalizedWith {entries : List LedgerEntry} {finalized : Claim DraftDependency} :
    finalized ∈ (finalizedWith hashes bundle entries).claims ↔
      finalized ∈ entries.map Prod.fst :=
  mem_sortBy

/-- The plan of a finalized claim from its own records. -/
def PlansOwn (lib : PlannerLib) (hashes : HashLib) (rpc : Rpc) (bundle : Bundle)
    (entries : List LedgerEntry) (entry : LedgerEntry) (plan : AttachedPlan) : Prop :=
  ∃ authenticated, ownRecords rpc bundle entry = .ok authenticated ∧
    planAuthenticated lib hashes (finalizedWith hashes bundle entries) entry.1 authenticated =
      .ok plan

/-- A claim that shares its key with no other one is planned from its own records. -/
theorem planBundleClaim_own {claims : List (Claim DraftDependency)} {entries : List LedgerEntry}
    (hentries : List.Forall₂ (Finalizes lib hashes rpc bundle) claims entries)
    (hapart : ClaimsApart claims) {entry : LedgerEntry} (hentry : entry ∈ entries)
    {plan : AttachedPlan} :
    planBundleClaim lib hashes rpc (finalizedWith hashes bundle entries)
        (storeAll (entries.filterMap Prod.snd)) entry.1 = .ok plan ↔
      PlansOwn lib hashes rpc bundle entries entry plan := by
  have hperiod : (finalizedWith hashes bundle entries).period = bundle.period := rfl
  rw [planBundleClaim, authenticatedFor_own hperiod rfl hentries hapart hentry, bind_eq_ok]
  rfl

/-- The plans of a bundle whose closed-loop claims are apart: each claim is finalized and planned
from its own records. -/
theorem planProofBundle_plans (hapart : ClaimsApart bundle.claims)
    {planned : BundlePlan} (h : planProofBundle lib hashes rpc bundle = .ok planned) :
    validateBundle bundle = .ok () ∧ ∃ entries plans,
      List.Forall₂ (Finalizes lib hashes rpc bundle) bundle.claims entries ∧
        List.Forall₂ (PlansOwn lib hashes rpc bundle entries) entries plans ∧
          planned.claims.Perm plans := by
  simp only [planProofBundle, finalizeLedgerAwareBundle, planFinalizedBundle, bind_eq_ok,
    mapM_eq_ok, pure_eq_ok, Prod.exists, Prod.mk.injEq] at h
  obtain ⟨_, hvalid, _, _, ⟨entries, hentries, rfl, rfl⟩, _, _, sorted, hsorted, rfl⟩ := h
  obtain ⟨plans, hperm, hplans⟩ := forall₂_perm hsorted (sortBy_perm _)
  rw [List.forall₂_map_left_iff] at hplans
  refine ⟨hvalid, entries, plans, hentries, ?_, hperm⟩
  apply forall₂_mem_imp hplans
  intro entry plan hentry hplan
  exact (planBundleClaim_own hentries hapart hentry).mp hplan

/-- A bundle is planned where each of its claims is planned from its own records. -/
theorem planProofBundle_of_plans (hapart : ClaimsApart bundle.claims)
    (hvalid : validateBundle bundle = .ok ()) (hne : bundle.claims ≠ [])
    {entries : List LedgerEntry}
    (hentries : List.Forall₂ (Finalizes lib hashes rpc bundle) bundle.claims entries)
    (hplans : ∀ entry ∈ entries, ∃ plan, PlansOwn lib hashes rpc bundle entries entry plan) :
    ∃ planned, planProofBundle lib hashes rpc bundle = .ok planned := by
  simp only [planProofBundle, finalizeLedgerAwareBundle, planFinalizedBundle, bind_eq_ok,
    mapM_eq_ok, pure_eq_ok, Prod.exists, Prod.mk.injEq, ensure_eq_ok]
  have hsorted : ∃ sorted, List.Forall₂ (fun claim plan => planBundleClaim lib hashes rpc
      (finalizedWith hashes bundle entries) (storeAll (entries.filterMap Prod.snd)) claim =
        .ok plan) (finalizedWith hashes bundle entries).claims sorted := by
    apply exists_forall₂
    intro finalized hfinalized
    rw [mem_finalizedWith, List.mem_map] at hfinalized
    obtain ⟨entry, hentry, rfl⟩ := hfinalized
    obtain ⟨plan, hplan⟩ := hplans entry hentry
    exact ⟨plan, (planBundleClaim_own hentries hapart hentry).mpr hplan⟩
  obtain ⟨sorted, hsorted⟩ := hsorted
  have hclaims : (finalizedWith hashes bundle entries).claims ≠ [] := by
    intro hnil
    rw [finalizedWith, finalizeBundle, sortBy_eq_nil, List.map_eq_nil_iff] at hnil
    rw [hnil, List.forall₂_nil_right_iff] at hentries
    exact hne hentries
  exact ⟨_, (), hvalid, _, _, ⟨entries, hentries, rfl, rfl⟩, (), hclaims, sorted, hsorted, rfl⟩

/-- A claim alone is apart. -/
private theorem apart_only : ClaimsApart (bundle.only claim).claims := by
  intro left hleft right hright _ _ _
  rw [List.mem_singleton.mp hleft, List.mem_singleton.mp hright]

/-- A claim is finalized alike without the other claims. -/
theorem finalizes_only {other : Claim DraftDependency} {entry : LedgerEntry} :
    Finalizes lib hashes rpc (bundle.only other) claim entry ↔
      Finalizes lib hashes rpc bundle claim entry := by
  simp only [Finalizes, finalizeLedgerClaim, finalizeClosedLoop, Bundle.only, Bundle.context]

/-- The records of a claim do not depend on the other claims. -/
theorem ownRecords_only {other : Claim DraftDependency} {entry : LedgerEntry} :
    ownRecords rpc (bundle.only other) entry = ownRecords rpc bundle entry := by
  simp only [ownRecords, Bundle.only]

/-- A claim that is planned from its own records in a bundle is planned alike without the other
claims. -/
theorem planProofBundle_only (hvalid : validateBundle bundle = .ok ())
    {entries : List LedgerEntry} {entry : LedgerEntry} {plan : AttachedPlan}
    (hentry : Finalizes lib hashes rpc bundle claim entry)
    (hplan : PlansOwn lib hashes rpc bundle entries entry plan) :
    ∃ alone own, planProofBundle lib hashes rpc (bundle.only claim) = .ok alone ∧
      alone.claims = [own] ∧ SamePlan plan own := by
  obtain ⟨authenticated, hown, hplan⟩ := hplan
  have hentries : List.Forall₂ (Finalizes lib hashes rpc (bundle.only claim))
      (bundle.only claim).claims [entry] := .cons (finalizes_only.mpr hentry) .nil
  have hmem : entry.1 ∈ (finalizedWith hashes (bundle.only claim) [entry]).claims := by
    rw [mem_finalizedWith]
    exact List.mem_map_of_mem (List.mem_singleton.mpr rfl)
  have hperiod : (finalizedWith hashes bundle entries).period =
      (finalizedWith hashes (bundle.only claim) [entry]).period := rfl
  obtain ⟨attached, hattached, hsame⟩ := planAuthenticated_same hperiod hmem hplan
  have hplans : PlansOwn lib hashes rpc (bundle.only claim) [entry] entry attached :=
    ⟨authenticated, ownRecords_only.trans hown, hattached⟩
  have hvalid' : validateBundle (bundle.only claim) = .ok () := hvalid
  have hclaims : (bundle.only claim).claims ≠ [] := List.cons_ne_nil _ _
  have hall : ∀ entry' ∈ [entry], ∃ plan,
      PlansOwn lib hashes rpc (bundle.only claim) [entry] entry' plan := by
    intro entry' hentry'
    rw [List.mem_singleton.mp hentry']
    exact ⟨attached, hplans⟩
  obtain ⟨alone, halone⟩ := planProofBundle_of_plans apart_only hvalid' hclaims hentries hall
  obtain ⟨_, entries', plans, hentries', hplans', hperm⟩ := planProofBundle_plans apart_only halone
  have hsingle : entries' = [entry] := by
    obtain ⟨entry', rest, hentry', hrest, rfl⟩ := List.forall₂_cons_left_iff.mp hentries'
    rw [List.forall₂_nil_left_iff.mp hrest]
    have heq := (finalizes_only.mp hentry').symm.trans hentry
    rw [Except.ok.inj heq]
  subst hsingle
  obtain ⟨own, rest, hown', hrest, rfl⟩ := List.forall₂_cons_left_iff.mp hplans'
  rw [List.forall₂_nil_left_iff.mp hrest] at hperm
  have heq : own = attached := by
    obtain ⟨authenticated', howned, hplanned⟩ := hown'
    rw [ownRecords_only, hown] at howned
    obtain rfl := Except.ok.inj howned
    exact Except.ok.inj (hplanned.symm.trans hattached)
  subst heq
  exact ⟨alone, own, halone, List.perm_singleton.mp hperm, hsame⟩

end Plans

/-! ## Independence -/

section Independence

variable {lib : PlannerLib} {hashes : HashLib} {rpc : Rpc} {bundle : Bundle}

/-- Every closed-loop claim of the bundle is finalized. -/
def AllFinalize (lib : PlannerLib) (hashes : HashLib) (rpc : Rpc) (bundle : Bundle) : Prop :=
  ∀ claim ∈ bundle.claims, claim.type = .closedLoop →
    ∃ finalized, finalizeClosedLoop lib hashes rpc bundle claim = .ok finalized

/-- Each claim of a bundle is planned from its own records, as if it were alone. -/
structure Independent (lib : PlannerLib) (hashes : HashLib) (rpc : Rpc) (bundle : Bundle) :
    Prop where
  /-- The records that a finalized claim is planned from are those made for it. -/
  own : ∀ finalized authenticatedClaims,
    finalizeLedgerAwareBundle lib hashes rpc (fun _ => none) bundle =
        .ok (finalized, authenticatedClaims) →
      ∀ claim ∈ bundle.claims, ∀ entry, Finalizes lib hashes rpc bundle claim entry →
        authenticatedFor rpc finalized authenticatedClaims entry.1 = ownRecords rpc bundle entry
  /-- The bundle fails only for a claim that fails alone. -/
  failure : ∀ error, planProofBundle lib hashes rpc bundle = .error error →
    bundle.claims ≠ [] → ∃ claim ∈ bundle.claims, ∃ error',
      planProofBundle lib hashes rpc (bundle.only claim) = .error error'
  /-- The plans of a bundle are those of its claims alone. -/
  plans : ∀ planned, planProofBundle lib hashes rpc bundle = .ok planned → ∃ plans,
    List.Forall₂ (fun claim plan => ∃ alone own,
      planProofBundle lib hashes rpc (bundle.only claim) = .ok alone ∧ alone.claims = [own] ∧
        SamePlan plan own) bundle.claims plans ∧ planned.claims.Perm plans

/-- A planned bundle had all its claims finalized. -/
private theorem planProofBundle_finalizes {planned : BundlePlan}
    (h : planProofBundle lib hashes rpc bundle = .ok planned) :
    ∃ entries, List.Forall₂ (Finalizes lib hashes rpc bundle) bundle.claims entries := by
  simp only [planProofBundle, finalizeLedgerAwareBundle, bind_eq_ok, mapM_eq_ok, pure_eq_ok,
    Prod.exists] at h
  obtain ⟨_, _, _, _, ⟨entries, hentries, _⟩, _⟩ := h
  exact ⟨entries, hentries⟩

private theorem finalizeClosedLoop_of_planned {planned : BundlePlan}
    (h : planProofBundle lib hashes rpc bundle = .ok planned) :
    AllFinalize lib hashes rpc bundle := by
  intro claim hclaim htype
  obtain ⟨entries, hentries⟩ := planProofBundle_finalizes h
  obtain ⟨entry, _, hentry⟩ := forall₂_exists_right hentries hclaim
  rcases finalizes_iff.mp hentry with ⟨_, finalized, authenticated, hok, _⟩ | ⟨hother, _⟩
  · exact ⟨_, hok⟩
  · exact absurd htype hother

private theorem exists_error {ε α : Type} {x : Except ε α} (h : ∀ a, x ≠ .ok a) :
    ∃ error, x = .error error := by
  cases x with
  | error error => exact ⟨error, rfl⟩
  | ok a => exact absurd rfl (h a)

/-- A claim that is planned alone is planned from its own records in every list of claims that
has it. -/
private theorem plansOwn_of_only {claim : Claim DraftDependency} {alone : BundlePlan}
    (h : planProofBundle lib hashes rpc (bundle.only claim) = .ok alone)
    {entries : List LedgerEntry} {entry : LedgerEntry} (hmem : entry ∈ entries)
    (hentry : Finalizes lib hashes rpc bundle claim entry) :
    ∃ plan, PlansOwn lib hashes rpc bundle entries entry plan := by
  obtain ⟨_, entries', plans, hentries', hplans', _⟩ := planProofBundle_plans apart_only h
  obtain ⟨entry', rest, hentry', hrest, rfl⟩ := List.forall₂_cons_left_iff.mp hentries'
  have heq : entry' = entry :=
    Except.ok.inj ((finalizes_only.mp hentry').symm.trans hentry)
  subst heq
  obtain ⟨own, _, ⟨authenticated, hown, hplan⟩, _, _⟩ := List.forall₂_cons_left_iff.mp hplans'
  have hperiod : (finalizedWith hashes (bundle.only claim) (entry' :: rest)).period =
      (finalizedWith hashes bundle entries).period := rfl
  have hclaims : entry'.1 ∈ (finalizedWith hashes bundle entries).claims :=
    mem_finalizedWith.mpr (List.mem_map_of_mem hmem)
  obtain ⟨attached, hattached, _⟩ := planAuthenticated_same hperiod hclaims hplan
  exact ⟨attached, authenticated, ownRecords_only.symm.trans hown, hattached⟩

/-- A bundle of claims that are apart is planned if each of them is planned alone. -/
private theorem planProofBundle_of_only (hapart : ClaimsApart bundle.claims)
    (hne : bundle.claims ≠ [])
    (h : ∀ claim ∈ bundle.claims, ∃ alone,
      planProofBundle lib hashes rpc (bundle.only claim) = .ok alone) :
    ∃ planned, planProofBundle lib hashes rpc bundle = .ok planned := by
  have hfinalizes : ∀ claim ∈ bundle.claims, ∃ entry,
      Finalizes lib hashes rpc bundle claim entry := by
    intro claim hclaim
    obtain ⟨alone, halone⟩ := h claim hclaim
    obtain ⟨entries, hentries⟩ := planProofBundle_finalizes halone
    obtain ⟨entry, _, hentry⟩ := forall₂_exists_right hentries (List.mem_singleton.mpr rfl)
    exact ⟨entry, finalizes_only.mp hentry⟩
  obtain ⟨entries, hentries⟩ := exists_forall₂ hfinalizes
  have hvalid : validateBundle bundle = .ok () := by
    obtain ⟨claim, rest, hclaims⟩ := List.exists_cons_of_ne_nil hne
    obtain ⟨alone, halone⟩ := h claim (hclaims ▸ List.mem_cons_self ..)
    exact (planProofBundle_plans apart_only halone).1
  apply planProofBundle_of_plans hapart hvalid hne hentries
  intro entry hentry
  obtain ⟨claim, hclaim, hentry'⟩ := forall₂_exists_left hentries hentry
  obtain ⟨alone, halone⟩ := h claim hclaim
  exact plansOwn_of_only halone hentry hentry'

/-- What stage one hands to stage two. -/
private theorem finalizeLedgerAwareBundle_eq_ok {finalized : Bundle}
    {authenticatedClaims : AuthenticationKey → Option Authenticated} :
    finalizeLedgerAwareBundle lib hashes rpc (fun _ => none) bundle =
        .ok (finalized, authenticatedClaims) ↔
      ∃ entries, List.Forall₂ (Finalizes lib hashes rpc bundle) bundle.claims entries ∧
        finalized = finalizedWith hashes bundle entries ∧
        authenticatedClaims = storeAll (entries.filterMap Prod.snd) := by
  simp only [finalizeLedgerAwareBundle, bind_eq_ok, mapM_eq_ok, pure_eq_ok, Prod.mk.injEq]
  constructor
  · rintro ⟨entries, hentries, rfl, rfl⟩
    exact ⟨entries, hentries, rfl, rfl⟩
  · rintro ⟨entries, hentries, rfl, rfl⟩
    exact ⟨entries, hentries, rfl, rfl⟩

/-- Claims with subjects of their own are planned as if they were alone. -/
theorem independent_of_apart (hapart : ClaimsApart bundle.claims) :
    Independent lib hashes rpc bundle := by
  constructor
  · intro finalized authenticatedClaims hfinalized claim hclaim entry hentry
    obtain ⟨entries, hentries, rfl, rfl⟩ := finalizeLedgerAwareBundle_eq_ok.mp hfinalized
    obtain ⟨entry', hmem, hentry'⟩ := forall₂_exists_right hentries hclaim
    obtain rfl := Except.ok.inj (hentry.symm.trans hentry')
    exact authenticatedFor_own rfl rfl hentries hapart hmem
  · intro error herror hne
    by_contra hall
    push Not at hall
    have hplanned : ∀ claim ∈ bundle.claims, ∃ alone,
        planProofBundle lib hashes rpc (bundle.only claim) = .ok alone := by
      intro claim hclaim
      by_contra hno
      push Not at hno
      obtain ⟨error', herror'⟩ := exists_error hno
      exact hall claim hclaim error' herror'
    obtain ⟨planned, hplanned⟩ := planProofBundle_of_only hapart hne hplanned
    rw [herror] at hplanned
    cases hplanned
  · intro planned hplanned
    obtain ⟨hvalid, entries, plans, hentries, hplans, hperm⟩ :=
      planProofBundle_plans hapart hplanned
    refine ⟨plans, ?_, hperm⟩
    apply forall₂_replace hentries.flip hplans
    intro entry claim plan hentry hplan
    exact planProofBundle_only hvalid hentry hplan

/-- Each claim of a bundle is planned from its own records, as if it were alone, if no two different
closed-loop claims have the same subjects, or some closed-loop claim cannot be finalized. -/
theorem planProofBundle_independent (lib : PlannerLib) (hashes : HashLib) (rpc : Rpc)
    (bundle : Bundle)
    (h : ClaimsApart bundle.claims ∨ ∃ claim ∈ bundle.claims, claim.type = .closedLoop ∧
      ∃ error, finalizeClosedLoop lib hashes rpc bundle claim = .error error) :
    Independent lib hashes rpc bundle := by
  rcases h with hapart | ⟨claim, hclaim, htype, error, herror⟩
  · exact independent_of_apart hapart
  · have hnone : ∀ finalized authenticatedClaims,
        finalizeLedgerAwareBundle lib hashes rpc (fun _ => none) bundle ≠
          .ok (finalized, authenticatedClaims) := by
      intro finalized authenticatedClaims hfinalized
      obtain ⟨entries, hentries, _⟩ := finalizeLedgerAwareBundle_eq_ok.mp hfinalized
      obtain ⟨entry, _, hentry⟩ := forall₂_exists_right hentries hclaim
      rcases finalizes_iff.mp hentry with ⟨_, _, _, hok, _⟩ | ⟨hother, _⟩
      · rw [herror] at hok
        cases hok
      · exact hother htype
    have hfails {planned : BundlePlan} (target : Bundle) (hmem : claim ∈ target.claims)
        (hsame : finalizeClosedLoop lib hashes rpc target claim =
          finalizeClosedLoop lib hashes rpc bundle claim)
        (h : planProofBundle lib hashes rpc target = .ok planned) : False := by
      obtain ⟨finalized, hok⟩ := finalizeClosedLoop_of_planned h claim hmem htype
      rw [hsame, herror] at hok
      cases hok
    constructor
    · intro finalized authenticatedClaims hfinalized
      exact absurd hfinalized (hnone finalized authenticatedClaims)
    · intro _ _ _
      refine ⟨claim, hclaim, exists_error fun alone halone => ?_⟩
      apply hfails (bundle.only claim) (List.mem_singleton.mpr rfl) _ halone
      simp only [finalizeClosedLoop, Bundle.only, Bundle.context]
    · intro planned hplanned
      exact absurd hplanned fun h => hfails bundle hclaim rfl h

end Independence

section Example

private def receiptOf (block : ℕ) (log : Log) : Except ResolveError (Option Receipt) :=
  .ok (some ⟨some 1, block, 0, 0, [log]⟩)

/-- Account 10 funds buyers 20 and 21, account 11 funds buyer 22, and all settle with their
funder. -/
private def smallRpc : Rpc where
  getTransactionReceipt hash :=
    if hash = 1 then receiptOf 46000000 ⟨1, [transferTopic, 10, 20], abiWord 100, 0⟩
    else if hash = 2 then
      receiptOf 46000001 ⟨3, [channelSettledTopic, 0, 20, 10], abiWords [0, 90], 0⟩
    else if hash = 3 then receiptOf 46000002 ⟨1, [transferTopic, 10, 21], abiWord 100, 0⟩
    else if hash = 4 then
      receiptOf 46000003 ⟨3, [channelSettledTopic, 0, 21, 10], abiWords [0, 90], 0⟩
    else if hash = 5 then receiptOf 46000004 ⟨1, [transferTopic, 11, 22], abiWord 100, 0⟩
    else receiptOf 46000005 ⟨3, [channelSettledTopic, 0, 22, 11], abiWords [0, 80], 0⟩
  getBlockByNumber _ := .ok none
  getTransactionByHash _ := .ok none
  callBuyers _ _ _ := .ok (abiWord 0)

private def draftOf (evidenceType : EvidenceType) (transactionHash : B256) (seller buyer : Address)
    (amountRaw : ℕ) : DraftDependency :=
  .locator transactionHash
    { evidenceType, transactionHash := some transactionHash, logIndex := none, timestamp := .null
      seller := some seller, buyer := some buyer, funder := some seller, sender := none
      recipient := none, amountRaw, amountWei := none, depositLogIndex := none }

/-- The claim of one buyer that its seller funded in the first transaction and that settled in the
second one. -/
private def buyerClaim (seller buyer : Address) (funding settlement : B256) (settledRaw : ℕ) :
    Claim DraftDependency :=
  { claimId := funding, type := .closedLoop, subjects := [seller], walletA := none, walletB := none
    approvedBuyers := [buyer], approvedFunders := [seller], metrics := none, dependencyRoot := 0
    leafHash := funding
    dependencies := [draftOf .usdcFunding funding seller buyer 100,
      draftOf .settlement settlement seller buyer settledRaw] }

/-- Two claims of one seller. -/
private def twoBuyers : Bundle :=
  ⟨1, 8453, 0, ⟨45000000, 47000000⟩, ⟨1, 2, 3⟩, [buyerClaim 10 20 1 2 90, buyerClaim 10 21 3 4 90]⟩

/-- One claim of each of two sellers. -/
private def twoSellers : Bundle :=
  { twoBuyers with claims := [buyerClaim 10 20 1 2 90, buyerClaim 11 22 5 6 80] }

/-- Hashes that tell the dependencies and the claims of the example apart. -/
private def smallHashes : HashLib :=
  ⟨fun dependency => (dependency.atomicEvidence.head?.map (·.transactionHash)).getD 0,
    fun claim => Fin.ofNat _ (claim.approvedBuyers.headD 0).val, fun claim => claim.claimId,
    fun _ _ => .eq, fun left right => left + right, 0⟩

private def smallLib : PlannerLib := ⟨fun _ => 0, fun _ => 0, fun _ _ => .eq⟩

/-- The claims of two sellers are planned, each as if it were alone. -/
theorem twoSellers_independent :
    (planProofBundle smallLib smallHashes smallRpc twoSellers).isOk = true ∧
      Independent smallLib smallHashes smallRpc twoSellers := by
  refine ⟨by decide +kernel, ?_⟩
  apply planProofBundle_independent smallLib smallHashes smallRpc twoSellers
  left
  unfold ClaimsApart
  decide

/-- Two claims of one seller: the first one is planned from the records of the second one, and
the bundle fails, while both claims are planned alone. -/
theorem twoBuyers_not_independent : ¬ Independent smallLib smallHashes smallRpc twoBuyers := by
  have hbundle : (planProofBundle smallLib smallHashes smallRpc twoBuyers).isOk = false := by
    decide +kernel
  have halone : ∀ claim ∈ twoBuyers.claims,
      (planProofBundle smallLib smallHashes smallRpc (twoBuyers.only claim)).isOk = true := by
    decide +kernel
  intro hindependent
  cases hplanned : planProofBundle smallLib smallHashes smallRpc twoBuyers with
  | ok planned =>
    rw [hplanned] at hbundle
    cases hbundle
  | error error =>
    obtain ⟨claim, hclaim, error', herror'⟩ :=
      hindependent.failure error hplanned (List.cons_ne_nil _ _)
    have hok := halone claim hclaim
    rw [herror'] at hok
    cases hok

end Example

end LoopProof.Planner
