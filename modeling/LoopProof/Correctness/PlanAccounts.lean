import LoopProof.Correctness.PlanShards

/-!
# The accounts of a sharded plan

Whatever a plan file says: if its claims are sharded, they are the approved claims, and the volumes
that were approved are counted in full.
-/

namespace LoopProof.Proving

section Accounts

variable {parser : PlanParser} {bundle : ApprovedBundle}

/-! ## What every file is held to -/

/-- The volume that an approved claim has to prove. -/
def approvedVolumeRaw (approved : Planner.Claim Unit) : ℤ :=
  ((approvedVolume approved).toOption).getD 0

/-- The part of it that counts as reciprocal, or as closed-loop volume. -/
def volumeOf (reciprocal : Bool) (approved : Planner.Claim Unit) : ℤ :=
  if decide (approved.type = .reciprocal) = reciprocal then approvedVolumeRaw approved else 0

/-- A claim that is accounted for adds the volume that was approved. -/
theorem accumulateClaim_volumes {accumulator accumulator' : BatchAccumulator}
    {approved : Planner.Claim Unit} {claimId : B256} {evidence : List BatchEvidence}
    (h : accumulateClaim parser accumulator approved claimId evidence = .ok accumulator') :
    accumulator'.closedLoopVolume = accumulator.closedLoopVolume + volumeOf false approved ∧
      accumulator'.reciprocalVolume = accumulator.reciprocalVolume + volumeOf true approved := by
  obtain ⟨⟨uniqueSettlements, selectedVolume⟩, _, h⟩ := bind_eq_ok.mp h
  obtain ⟨volume, hvolume, h⟩ := bind_eq_ok.mp h
  obtain ⟨_, hsame, h⟩ := bind_eq_ok.mp h
  have hselected : selectedVolume = approvedVolumeRaw approved := by
    rw [ensure_eq_ok.mp hsame, approvedVolumeRaw, hvolume]
    rfl
  by_cases hreciprocal : approved.type = .reciprocal
  · rw [if_pos hreciprocal] at h
    rw [← Except.ok.inj h]
    simp [volumeOf, hreciprocal, hselected]
  · rw [if_neg hreciprocal] at h
    rw [← Except.ok.inj h]
    simp [volumeOf, hreciprocal, hselected]

/-- The shards of any file so far: each is of another approved claim, stands at its own position,
and its volume is counted. -/
structure Sharding (bundle : ApprovedBundle) (s : ShardState) : Prop where
  ids : s.entries.map (·.claimId) = s.seenIds
  nodup : s.seenIds.Nodup
  paths : ∀ i entry, s.entries[i]? = some entry → entry.shardPath = shardPath i entry.claimId
  volumes : ∃ approved : List (Planner.Claim Unit),
    approved.map (·.claimId) = s.seenIds ∧ approved ⊆ bundle.claims ∧
      s.accumulator.closedLoopVolume = (approved.map (volumeOf false)).sum ∧
      s.accumulator.reciprocalVolume = (approved.map (volumeOf true)).sum

/-- Nothing is sharded at the start. -/
theorem sharding_initial : Sharding bundle ⟨[], [], createBatchAccumulator⟩ where
  ids := rfl
  nodup := List.nodup_nil
  paths := by
    intro i entry hentry
    cases hentry
  volumes := ⟨[], rfl, List.nil_subset _, rfl, rfl⟩

/-- The approved claim with an id is one of the bundle. -/
theorem approvedClaim_eq_some {claimId : B256} {approved : Planner.Claim Unit}
    (h : approvedClaim bundle claimId = some approved) :
    approved ∈ bundle.claims ∧ approved.claimId = claimId := by
  refine ⟨List.mem_reverse.mp (List.mem_of_find?_eq_some h), ?_⟩
  simpa using List.find?_some h

/-- One more claim of any text keeps the shards as they are. -/
theorem Sharding.step {metadata : PlanMetadata} {s s' : ShardState} {text : List Char}
    (h : Sharding bundle s) (hshard : shardClaim parser bundle metadata s text = .ok s') :
    Sharding bundle s' := by
  obtain ⟨claim, _, hshard⟩ := bind_eq_ok.mp hshard
  obtain ⟨approved, happroved, hshard⟩ := bind_eq_ok.mp hshard
  obtain ⟨_, hnew, hshard⟩ := bind_eq_ok.mp hshard
  obtain ⟨accumulator, haccumulate, hshard⟩ := bind_eq_ok.mp hshard
  obtain ⟨_, _, hshard⟩ := bind_eq_ok.mp hshard
  rw [← Except.ok.inj hshard]
  obtain ⟨hmem, hid⟩ := approvedClaim_eq_some (okOr_eq_ok.mp happroved)
  obtain ⟨hclosed, hreciprocal⟩ := accumulateClaim_volumes haccumulate
  obtain ⟨hids, hnodup, hpaths, claims, hclaims, hincluded, hloop, hpair⟩ := h
  constructor
  · simp [hids]
  · exact List.nodup_middle.mpr (by simpa using ⟨ensure_eq_ok.mp hnew, hnodup⟩)
  · intro i entry hentry
    rw [List.getElem?_append] at hentry
    split at hentry
    · exact hpaths i entry hentry
    · rename_i hlt
      obtain ⟨hi, hget⟩ := List.getElem?_eq_some_iff.mp hentry
      rw [List.length_singleton, Nat.lt_one_iff] at hi
      have hlast : i = s.entries.length := by omega
      subst hlast
      rw [← hget]
      simp
  · refine ⟨claims ++ [approved], ?_, ?_, ?_, ?_⟩
    · simp [hclaims, hid]
    · exact List.append_subset.mpr ⟨hincluded, by simpa using hmem⟩
    · simp [hclosed, hloop]
    · simp [hreciprocal, hpair]

/-- What is read of a text is sharded in order. -/
theorem sharding_of_readText {text : List Char} {metadata : PlanMetadata}
    {scan : ObjectScan ShardState}
    (h : readText (shardMetadata parser bundle) (shardClaim parser bundle)
      ⟨[], [], createBatchAccumulator⟩ text = .ok (some (metadata, scan))) :
    Sharding bundle scan.state := by
  rw [readText] at h
  cases hindex : indexOf claimsMarker text with
  | none =>
    rw [hindex] at h
    cases h
  | some markerIndex =>
    rw [hindex] at h
    obtain ⟨metadata', _, h⟩ := bind_eq_ok.mp h
    obtain ⟨scan', hscan, h⟩ := bind_eq_ok.mp h
    obtain ⟨-, rfl⟩ := Prod.mk.inj (Option.some.inj (Except.ok.inj h))
    exact ObjectScan.readAll_invariant (P := Sharding bundle)
      (fun s text s' hs hshard => Sharding.step hs hshard) sharding_initial hscan

/-- The file of a shard tells its position. -/
theorem shardPath_inj {i j : ℕ} {claimId claimId' : B256}
    (h : shardPath i claimId = shardPath j claimId') : i = j := by
  have hstop (n : ℕ) (claimId : B256) :
      (shardPath n claimId).takeWhile (· ≠ '-') = (Nat.toDigits 10 n).leftpad 3 '0' := by
    have hdigits : ∀ char ∈ (Nat.toDigits 10 n).leftpad 3 '0', decide (char ≠ '-') = true := by
      intro char hchar
      rw [decide_eq_true_eq]
      rintro rfl
      rcases List.mem_append.mp hchar with hzero | hdigit
      · cases List.eq_of_mem_replicate hzero
      · cases Nat.isDigit_of_mem_toDigits (by decide) (by decide) hdigit
    rw [shardPath, List.takeWhile_append_of_pos hdigits, List.takeWhile_cons_of_neg (by simp),
      List.append_nil]
  have hvalue (n : ℕ) : Nat.ofDigitChars 10 ((Nat.toDigits 10 n).leftpad 3 '0') 0 = n := by
    rw [List.leftpad, Nat.ofDigitChars_append, Nat.ofDigitChars_replicate_zero, Nat.mul_zero,
      Nat.ofDigitChars_ten_toDigits]
  rw [← hvalue i, ← hstop i claimId, h, hstop, hvalue]

/-- Whatever a plan file says and however it is read: if its claims are sharded, the shards are the
approved claims, each once and in files of different names, and the volumes that were approved are
counted in full. -/
theorem shardProofPlan_sound {chunks : List (List Char)} {shards : PlanShards}
    (h : shardProofPlan parser bundle chunks = .ok shards) :
    (shards.entries.map (·.claimId)).Nodup ∧
      (shards.entries.map (·.claimId)).Perm (bundle.claims.map (·.claimId)) ∧
      (shards.entries.map (·.shardPath)).Nodup ∧
      shards.approved.closedLoopVolumeRaw = (bundle.claims.map (volumeOf false)).sum ∧
      shards.approved.reciprocalVolumeRaw = (bundle.claims.map (volumeOf true)).sum := by
  rw [shardProofPlan_eq] at h
  obtain ⟨found, hfound, hfinish⟩ := bind_eq_ok.mp h
  obtain ⟨⟨metadata, scan⟩, hsome, hfinish⟩ := bind_eq_ok.mp hfinish
  obtain ⟨_, _, hfinish⟩ := bind_eq_ok.mp hfinish
  obtain ⟨_, hcounts, hfinish⟩ := bind_eq_ok.mp hfinish
  obtain ⟨_, _, hfinish⟩ := bind_eq_ok.mp hfinish
  obtain ⟨hlength, _⟩ := ensure_eq_ok.mp hcounts
  rw [← Except.ok.inj hfinish]
  have hsharding : Sharding bundle scan.state :=
    sharding_of_readText (by rw [hfound, okOr_eq_ok.mp hsome])
  obtain ⟨hids, hnodup, hpaths, claims, hclaims, hincluded, hloop, hpair⟩ := hsharding
  have hperm : claims.Perm bundle.claims := by
    have hdistinct : claims.Nodup := List.Nodup.of_map (·.claimId) (hclaims ▸ hnodup)
    apply (hdistinct.subperm hincluded).perm_of_length_le
    have hcount := congrArg List.length (hclaims.trans hids.symm)
    simp only [List.length_map] at hcount
    omega
  refine ⟨hids ▸ hnodup, ?_, ?_, ?_, ?_⟩
  · simp only
    rw [hids, ← hclaims]
    exact hperm.map _
  · rw [List.nodup_iff_injective_getElem]
    intro i j hsame
    have hi : (i : ℕ) < scan.state.entries.length := by simpa using i.isLt
    have hj : (j : ℕ) < scan.state.entries.length := by simpa using j.isLt
    simp only [List.getElem_map] at hsame
    rw [hpaths i _ (List.getElem?_eq_getElem hi), hpaths j _ (List.getElem?_eq_getElem hj)] at hsame
    exact Fin.ext (shardPath_inj hsame)
  · simp only [finishBatchAccumulator]
    rw [hloop, (hperm.map _).sum_eq]
  · simp only [finishBatchAccumulator]
    rw [hpair, (hperm.map _).sum_eq]

end Accounts

/-- The file of the pair is sharded. -/
theorem pairChunks_shards : shardProofPlan pairParser pairBundle pairChunks = .ok pairShards :=
  shardProofPlan_of_summary pairPlan_describes pairPlan_admissible pairChunks_flatten
    pairPlan_summary rfl rfl

/-- Both claims are in shards of their own, and both volumes are counted. -/
theorem pair_sound :
    (pairShards.entries.map (·.claimId)).Nodup ∧
      (pairShards.entries.map (·.claimId)).Perm (pairBundle.claims.map (·.claimId)) ∧
      (pairShards.entries.map (·.shardPath)).Nodup ∧
      pairShards.approved.closedLoopVolumeRaw = (pairBundle.claims.map (volumeOf false)).sum ∧
      pairShards.approved.reciprocalVolumeRaw = (pairBundle.claims.map (volumeOf true)).sum :=
  shardProofPlan_sound pairChunks_shards

end LoopProof.Proving
