import LoopProof.Correctness.Validation
import LoopProof.Proving.SellerEvidence

/-!
# One evidence a seller

The evidence is found exactly if no claim has two entries, every claim has one, and no seller is
named twice. A seller then has the entry of the claim that names it.
-/

namespace LoopProof.Proving

section Evidence

variable {claims : List SubjectClaim} {entries indexed : List EvidenceEntry}
  {entry : EvidenceEntry} {done result : List (Address × EvidenceEntry)}
  {subjects : List Address}

theorem indexEntry_refines : StepRefines indexEntry Eq
    (fun entries => (entries.map (·.claimId)).Nodup) Eq where
  sound := by
    rintro _ done entry s hdone rfl hstep
    simp only [indexEntry, bind_eq_ok, ensure_eq_ok, pure_eq_ok, exists_const] at hstep
    obtain ⟨hnew, rfl⟩ := hstep
    exact ⟨entry, rfl, nodup_map_concat.mpr ⟨hdone, hnew⟩, rfl⟩
  complete := by
    rintro _ done entry _ rfl rfl hdone
    refine ⟨_, ?_, rfl⟩
    simp only [indexEntry, bind_eq_ok, ensure_eq_ok, pure_eq_ok, exists_const, and_true]
    exact (nodup_map_concat.mp hdone).2
  prefix_closed := fun hdone => (nodup_map_concat.mp hdone).1

theorem indexEntries_eq_ok : entries.foldlM indexEntry [] = .ok indexed ↔
    (entries.map (·.claimId)).Nodup ∧ indexed = entries := by
  constructor
  · intro h
    obtain ⟨items, hitems, hnodup, rfl⟩ := indexEntry_refines.run_sound_nil rfl List.nodup_nil h
    rw [List.forall₂_eq_eq_eq] at hitems
    subst hitems
    exact ⟨hnodup, rfl⟩
  · rintro ⟨hnodup, rfl⟩
    obtain ⟨_, hrun, rfl⟩ := indexEntry_refines.run_complete_nil
      (List.forall₂_same.mpr fun _ _ => rfl) rfl hnodup
    exact hrun

theorem addSubjects_eq_ok (hdone : (done.map (·.1)).Nodup) :
    subjects.foldlM (addSubject entry) done = .ok result ↔
      (done.map (·.1) ++ subjects).Nodup ∧ result = done ++ subjects.map (·, entry) := by
  induction subjects generalizing done with
  | nil =>
    simp only [List.foldlM_nil, pure_eq_ok, List.map_nil, List.append_nil, hdone, true_and]
    exact eq_comm
  | cons seller subjects ih =>
    simp only [List.foldlM_cons, addSubject, bind_eq_ok, ensure_eq_ok, pure_eq_ok, exists_const]
    have hsplit : done.map (·.1) ++ seller :: subjects =
        (done ++ [(seller, entry)]).map (·.1) ++ subjects := by
      rw [List.map_append, List.append_assoc]
      rfl
    have hresult : done ++ (seller :: subjects).map (·, entry) =
        (done ++ [(seller, entry)]) ++ subjects.map (·, entry) := by
      rw [List.append_assoc]
      rfl
    rw [hsplit, hresult]
    constructor
    · rintro ⟨_, ⟨hnew, rfl⟩, hrest⟩
      exact (ih (nodup_map_concat.mpr ⟨hdone, hnew⟩)).mp hrest
    · rintro ⟨hnodup, rfl⟩
      have hnext : ((done ++ [(seller, entry)]).map (·.1)).Nodup := hnodup.of_append_left
      exact ⟨_, ⟨(nodup_map_concat.mp hnext).2, rfl⟩, (ih hnext).mpr ⟨hnodup, rfl⟩⟩

theorem map_fst_append : (done ++ subjects.map (·, entry)).map (·.1) =
    done.map (·.1) ++ subjects := by
  rw [List.map_append, List.map_map]
  exact congrArg _ (List.map_id _)

/-- The entry of each claim, with every seller it names. -/
inductive Assigned (entries : List EvidenceEntry) :
    List SubjectClaim → List (Address × EvidenceEntry) → Prop
  | nil : Assigned entries [] []
  | cons {claim : SubjectClaim} {claims : List SubjectClaim} {entry : EvidenceEntry}
    {rest : List (Address × EvidenceEntry)} (hentry : entry ∈ entries)
    (hclaim : entry.claimId = claim.claimId) (hrest : Assigned entries claims rest) :
    Assigned entries (claim :: claims) (claim.subjects.map (·, entry) ++ rest)

theorem find_claim (hnodup : (entries.map (·.claimId)).Nodup) {claimId : B256} :
    entries.find? (·.claimId = claimId) = some entry ↔
      entry ∈ entries ∧ entry.claimId = claimId := by
  constructor
  · intro h
    have hclaim := List.find?_some h
    exact ⟨List.mem_of_find?_eq_some h, of_decide_eq_true hclaim⟩
  · rintro ⟨hmem, rfl⟩
    cases hfind : entries.find? (·.claimId = entry.claimId) with
    | none =>
      exact absurd (decide_eq_true rfl) (List.find?_eq_none.mp hfind entry hmem)
    | some found =>
      have hfound := List.mem_of_find?_eq_some hfind
      have hclaim := List.find?_some hfind
      rw [List.inj_on_of_nodup_map hnodup hfound hmem (of_decide_eq_true hclaim)]

theorem addClaims_eq_ok (hentries : (entries.map (·.claimId)).Nodup)
    (hdone : (done.map (·.1)).Nodup) :
    claims.foldlM (addClaim entries) done = .ok result ↔ ∃ assigned,
      Assigned entries claims assigned ∧
      (done.map (·.1) ++ claims.flatMap (·.subjects)).Nodup ∧ result = done ++ assigned := by
  induction claims generalizing done with
  | nil =>
    simp only [List.foldlM_nil, pure_eq_ok, List.flatMap_nil, List.append_nil, hdone, true_and]
    constructor
    · rintro rfl
      exact ⟨[], .nil, (List.append_nil _).symm⟩
    · rintro ⟨_, hassigned, rfl⟩
      cases hassigned
      exact (List.append_nil _).symm
  | cons claim claims ih =>
    simp only [List.foldlM_cons, addClaim, bind_eq_ok, okOr_eq_ok, addSubjects_eq_ok hdone,
      find_claim hentries, List.flatMap_cons, ← List.append_assoc]
    constructor
    · rintro ⟨_, ⟨entry, ⟨hmem, hclaim⟩, hnodup, rfl⟩, hrest⟩
      rw [← map_fst_append] at hnodup
      obtain ⟨assigned, hassigned, hall, rfl⟩ := (ih hnodup).mp hrest
      rw [map_fst_append] at hall
      exact ⟨_, .cons hmem hclaim hassigned, hall, List.append_assoc ..⟩
    · rintro ⟨_, hassigned, hall, rfl⟩
      cases hassigned with
      | @cons _ _ entry rest hmem hclaim hrest =>
        have hnodup := hall.of_append_left
        refine ⟨_, ⟨entry, ⟨hmem, hclaim⟩, hnodup, rfl⟩, ?_⟩
        rw [← map_fst_append] at hnodup hall
        exact (ih hnodup).mpr ⟨rest, hrest, hall, (List.append_assoc ..).symm⟩

/-- The evidence is found exactly if no claim has two entries, every claim has its entry, and no
seller is named twice; every seller then has the entry of the claim that names it. -/
theorem sellerEvidenceByAddress_eq_ok :
    sellerEvidenceByAddress claims entries = .ok result ↔
      (entries.map (·.claimId)).Nodup ∧ (claims.flatMap (·.subjects)).Nodup ∧
      Assigned entries claims result := by
  have hnil : (([] : List (Address × EvidenceEntry)).map (·.1)).Nodup := List.nodup_nil
  simp only [sellerEvidenceByAddress, bind_eq_ok, indexEntries_eq_ok]
  constructor
  · rintro ⟨_, ⟨hentries, rfl⟩, hrun⟩
    obtain ⟨assigned, hassigned, hnodup, rfl⟩ := (addClaims_eq_ok hentries hnil).mp hrun
    exact ⟨hentries, hnodup, hassigned⟩
  · rintro ⟨hentries, hnodup, hassigned⟩
    exact ⟨_, ⟨hentries, rfl⟩,
      (addClaims_eq_ok hentries hnil).mpr ⟨result, hassigned, hnodup, rfl⟩⟩

end Evidence

end LoopProof.Proving
