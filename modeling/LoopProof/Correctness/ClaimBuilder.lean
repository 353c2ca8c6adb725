import LoopProof.Correctness.RelayDiscovery
import LoopProof.Correctness.ReturnSelection
import LoopProof.Planner.ClaimBuilder

/-!
# Returns of built claims

The builder makes a claim of a case if and only if its known returns, or these with the relay
paths found for what they lack, reach the required amount. The returns of the claim share no
transfer key, are no more than a proof can carry, and reach that amount.

The known relay paths name no logs, and a transfer without a log goes under the first log of its
transaction. Where the traces hold the same transfer under another log, the found paths can count
it once more.
-/

namespace LoopProof.Planner

/-- Returns that share no transfer key and reach an amount. -/
structure CoveringReturns (requiredRaw : ℕ) (returns : List ReturnEvidence) : Prop where
  apart : returns.Pairwise (Apart atomicReturnEvidence)
  count : returns.length ≤ maxReturnPaths
  credit : requiredRaw ≤ creditOf atomicReturnEvidence returns

/-- Returns that cover a volume do so in any order. -/
theorem CoveringReturns.perm {requiredRaw : ℕ} {returns other : List ReturnEvidence}
    (h : CoveringReturns requiredRaw returns) (hperm : returns.Perm other) :
    CoveringReturns requiredRaw other := by
  have hsum : creditOf atomicReturnEvidence returns = creditOf atomicReturnEvidence other :=
    (hperm.map _).sum_eq
  constructor
  · apply (hperm.pairwise_iff _).mp h.apart
    intro left right hapart
    exact List.Disjoint.symm hapart
  · exact hperm.length_eq ▸ h.count
  · exact hsum ▸ h.credit

section Selection

variable {entry : ClosedCase} {loadTrace : Address → Option Trace} {requiredRaw earliest : ℕ}

/-- A selection that the builder makes. -/
structure BuilderSelection (requiredRaw : ℕ) (selection : SelectedReturns ReturnEvidence) :
    Prop where
  sound : Sound atomicReturnEvidence [] selection
  count : selection.evidence.length ≤ maxReturnPaths
  nonempty : ∀ path ∈ selection.evidence, atomicReturnEvidence path ≠ []

/-- The selection among the returns of the case is one of the builder. -/
theorem selectReturnEvidence_builder {candidates : List ReturnEvidence} :
    BuilderSelection requiredRaw (selectReturnEvidence atomicReturnEvidence candidates
      (builderOptions requiredRaw earliest)) := by
  constructor
  · exact @selectReturnEvidence_sound _ _ candidates (builderOptions requiredRaw earliest)
  · exact @length_selectReturnEvidence_le _ _ candidates (builderOptions requiredRaw earliest)
  · intro path hpath
    have hvalid := (mem_selectReturnEvidence hpath).2
    rw [validReturnEvidence, decide_eq_true_iff] at hvalid
    exact hvalid.1

/-- The selection for a case, with or without traces, is one of the builder. -/
theorem selectCaseReturns_builder :
    BuilderSelection requiredRaw (selectCaseReturns entry loadTrace requiredRaw earliest) := by
  rw [selectCaseReturns]
  split
  · exact selectReturnEvidence_builder
  · split
    · exact selectReturnEvidence_builder
    · exact selectReturnEvidence_builder

/-- The selected returns of a complete selection cover the required amount. -/
theorem BuilderSelection.covering {selection : SelectedReturns ReturnEvidence}
    (h : BuilderSelection requiredRaw selection)
    (hcomplete : selection.complete requiredRaw = true) :
    CoveringReturns requiredRaw selection.evidence := by
  constructor
  · exact h.sound.apart
  · exact h.count
  · rw [← h.sound.returned]
    exact of_decide_eq_true hcomplete

/-- No return is selected twice. -/
theorem BuilderSelection.nodup {selection : SelectedReturns ReturnEvidence}
    (h : BuilderSelection requiredRaw selection) : selection.evidence.Nodup := by
  apply (List.Pairwise.and_mem.mp h.sound.apart).imp
  rintro left right ⟨hleft, _, hapart⟩ rfl
  have hkeys : keysOf atomicReturnEvidence left ≠ [] := by
    rw [keysOf, Ne, List.map_eq_nil_iff]
    exact h.nonempty left hleft
  obtain ⟨key, hkey⟩ := List.exists_mem_of_ne_nil _ hkeys
  exact hapart hkey hkey

/-- The known returns of a case are enough, or its funder's trace is complete and they are enough
with the relay paths that are found for what they lack. -/
def Completable (entry : ClosedCase) (loadTrace : Address → Option Trace)
    (requiredRaw earliest : ℕ) : Prop :=
  (initialSelection entry requiredRaw earliest).complete requiredRaw = true ∨
    ∃ funderTrace, completeTrace loadTrace entry.funder = some funderTrace ∧
      (augmentedSelection entry funderTrace loadTrace requiredRaw earliest
        (initialSelection entry requiredRaw earliest)).complete requiredRaw = true

/-- The selection for a case covers its volume if the case can be completed. -/
theorem selectCaseReturns_complete_iff :
    (selectCaseReturns entry loadTrace requiredRaw earliest).complete requiredRaw = true ↔
      Completable entry loadTrace requiredRaw earliest := by
  rw [selectCaseReturns, Completable]
  split
  · rename_i hinitial
    simp only [hinitial, true_or]
  · rename_i hinitial
    split
    · rename_i hnone
      simp [hinitial, hnone]
    · rename_i funderTrace htrace
      simp [hinitial, htrace]

end Selection

/-! ## Transfers under two keys -/

/-- Records of one transfer: of one log, or where a log is not known, of one movement in one
transaction. -/
def SameTransfer (left right : Transfer) : Prop :=
  left.transactionHash = right.transactionHash ∧
    match left.logIndex, right.logIndex with
    | some leftLog, some rightLog => leftLog = rightLog
    | _, _ => left.sender = right.sender ∧ left.recipient = right.recipient ∧
        left.amountRaw = right.amountRaw

instance : DecidableRel SameTransfer := fun left right => by
  unfold SameTransfer
  cases left.logIndex with
  | none => exact inferInstance
  | some leftLog =>
    cases right.logIndex with
    | none => exact inferInstance
    | some rightLog => exact inferInstance

/-- Either transfer is the same as the other. -/
theorem SameTransfer.symm {left right : Transfer} (h : SameTransfer left right) :
    SameTransfer right left := by
  obtain ⟨hash, hlogs⟩ := h
  refine ⟨hash.symm, ?_⟩
  cases hleft : left.logIndex with
  | none =>
    rw [hleft] at hlogs
    cases hright : right.logIndex with
    | none => exact ⟨hlogs.1.symm, hlogs.2.1.symm, hlogs.2.2.symm⟩
    | some rightLog => exact ⟨hlogs.1.symm, hlogs.2.1.symm, hlogs.2.2.symm⟩
  | some leftLog =>
    cases hright : right.logIndex with
    | none =>
      rw [hleft, hright] at hlogs
      exact ⟨hlogs.1.symm, hlogs.2.1.symm, hlogs.2.2.symm⟩
    | some rightLog =>
      rw [hleft, hright] at hlogs
      exact Eq.symm hlogs

/-- Returns without a transfer in common. -/
def TransferDisjoint (left right : ReturnEvidence) : Prop :=
  ∀ a ∈ atomicReturnEvidence left, ∀ b ∈ atomicReturnEvidence right, ¬ SameTransfer a b

/-- Either return is disjoint from the other. -/
theorem TransferDisjoint.symm {left right : ReturnEvidence} (h : TransferDisjoint left right) :
    TransferDisjoint right left := by
  intro b hb a ha hsame
  exact h a ha b hb hsame.symm

/-- A transfer recorded without its log, and again under a log that is not the first one. -/
def Recurs (transfer recorded : Transfer) : Prop :=
  transfer.logIndex = none ∧ SameTransfer transfer recorded ∧
    transferKey transfer ≠ transferKey recorded

instance : DecidableRel Recurs := fun _ _ => inferInstanceAs (Decidable (_ ∧ _ ∧ _))

/-- One transfer has one key, unless one of its records lacks the log. -/
theorem transferKey_eq {left right : Transfer} (h : SameTransfer left right)
    (hleft : ¬ Recurs left right) (hright : ¬ Recurs right left) :
    transferKey left = transferKey right := by
  by_contra hkeys
  cases hlog : left.logIndex with
  | none => exact hleft ⟨hlog, h, hkeys⟩
  | some leftLog =>
    cases hlog' : right.logIndex with
    | none => exact hright ⟨hlog', h.symm, Ne.symm hkeys⟩
    | some rightLog =>
      obtain ⟨hash, hlogs⟩ := h
      rw [hlog, hlog'] at hlogs
      apply hkeys
      rw [transferKey, transferKey, hash, hlog, hlog', hlogs]

/-- Returns without a key in common share no transfer, if none recurs under another key. -/
theorem transferDisjoint_of_apart {left right : ReturnEvidence}
    (hapart : Apart atomicReturnEvidence left right)
    (h : ∀ a ∈ atomicReturnEvidence left, ∀ b ∈ atomicReturnEvidence right,
      ¬ Recurs a b ∧ ¬ Recurs b a) : TransferDisjoint left right := by
  intro a ha b hb hsame
  obtain ⟨hab, hba⟩ := h a ha b hb
  have hkey := List.mem_map_of_mem (f := transferKey) ha
  rw [transferKey_eq hsame hab hba] at hkey
  exact hapart hkey (List.mem_map_of_mem hb)

section Logs

variable (entry : ClosedCase) (loadTrace : Address → Option Trace) (requiredRaw earliest : ℕ)

/-- A transfer of the traces that relay paths are found in. -/
def Traced (transfer : TraceTransfer) : Prop :=
  transfer ∈ entry.sellerTrace.outboundUsdc ∨
    (∃ trace, loadTrace entry.funder = some trace ∧ transfer ∈ trace.inboundUsdc) ∨
      ∃ relay, ∃ trace, loadTrace relay = some trace ∧ transfer ∈ trace.outboundUsdc

/-- No transfer that a known return names without its log recurs under another one: not in
another known return, and where the known returns fall short, not in the traces. -/
structure LogsApart : Prop where
  known : ∀ path ∈ initialClosureDependencies entry earliest,
    ∀ other ∈ initialClosureDependencies entry earliest, path ≠ other →
      ∀ a ∈ atomicReturnEvidence path, ∀ b ∈ atomicReturnEvidence other, ¬ Recurs a b
  traced : (initialSelection entry requiredRaw earliest).complete requiredRaw = false →
    ∀ path ∈ (initialSelection entry requiredRaw earliest).evidence,
      ∀ a ∈ atomicReturnEvidence path, ∀ transfer, Traced entry loadTrace transfer →
        ¬ Recurs a transfer.toTransfer

variable {entry loadTrace requiredRaw earliest} {funderTrace : Trace}

/-- The transfers of a found path stand in the traces with their logs. -/
theorem traced_of_discoverMissing
    (hfunder : completeTrace loadTrace entry.funder = some funderTrace)
    {selection : SelectedReturns ReturnEvidence} {path : RelayReturn}
    (hpath : path ∈ (discoverMissing entry funderTrace loadTrace requiredRaw earliest
      selection).paths) {a : Transfer}
    (ha : a ∈ atomicReturnEvidence (cachedRelayDependency path)) :
    ∃ transfer, Traced entry loadTrace transfer ∧
      a = transfer.serializeTransfer.toTransfer := by
  obtain ⟨hop, hhop, rfl⟩ := List.mem_map.mp ha
  obtain ⟨transfer, hrecorded, rfl⟩ :=
    discoverCachedRelayReturns_fromTraces path hpath hop hhop
  refine ⟨transfer, ?_, rfl⟩
  rcases hrecorded with hsent | hreceived | hforwarded
  · exact .inl hsent
  · exact .inr (.inl ⟨funderTrace, (Option.filter_eq_some_iff.mp hfunder).1, hreceived⟩)
  · exact .inr (.inr hforwarded)

/-- A selected return is a known one that was selected, or where these fall short, a found path. -/
theorem mem_selectCaseReturns {path : ReturnEvidence}
    (h : path ∈ (selectCaseReturns entry loadTrace requiredRaw earliest).evidence) :
    path ∈ (initialSelection entry requiredRaw earliest).evidence ∨
      (initialSelection entry requiredRaw earliest).complete requiredRaw = false ∧
        ∃ funderTrace, completeTrace loadTrace entry.funder = some funderTrace ∧
          ∃ found ∈ (discoverMissing entry funderTrace loadTrace requiredRaw earliest
            (initialSelection entry requiredRaw earliest)).paths,
              path = cachedRelayDependency found := by
  rw [selectCaseReturns] at h
  split at h
  · exact .inl h
  · rename_i hincomplete
    split at h
    · exact .inl h
    · rename_i funderTrace htrace
      rcases List.mem_append.mp (mem_selectReturnEvidence h).1 with hknown | hfound
      · exact .inl hknown
      · obtain ⟨found, hmem, rfl⟩ := List.mem_map.mp hfound
        exact .inr ⟨Bool.eq_false_of_not_eq_true hincomplete, funderTrace, htrace, found, hmem,
          rfl⟩

/-- No transfer of a selected return recurs in another one. -/
theorem LogsApart.not_recurs (hlogs : LogsApart entry loadTrace requiredRaw earliest)
    {left right : ReturnEvidence}
    (hleft : left ∈ (selectCaseReturns entry loadTrace requiredRaw earliest).evidence)
    (hright : right ∈ (selectCaseReturns entry loadTrace requiredRaw earliest).evidence)
    (hne : left ≠ right) {a b : Transfer} (ha : a ∈ atomicReturnEvidence left)
    (hb : b ∈ atomicReturnEvidence right) : ¬ Recurs a b := by
  rcases mem_selectCaseReturns hleft with hleft | ⟨_, _, htrace, found, hfound, rfl⟩
  · rcases mem_selectCaseReturns hright with hright | ⟨hshort, _, htrace, found, hfound, rfl⟩
    · exact hlogs.known left (mem_selectReturnEvidence hleft).1 right
        (mem_selectReturnEvidence hright).1 hne a ha b hb
    · obtain ⟨transfer, htraced, rfl⟩ := traced_of_discoverMissing htrace hfound hb
      exact hlogs.traced hshort left hleft a ha transfer htraced
  · -- the transfers of a found path have logs
    obtain ⟨transfer, _, rfl⟩ := traced_of_discoverMissing htrace hfound ha
    intro hrecurs
    exact nomatch hrecurs.1

/-- The selected returns share no transfer, if none is recorded under two keys. -/
theorem selectCaseReturns_disjoint (hlogs : LogsApart entry loadTrace requiredRaw earliest) :
    (selectCaseReturns entry loadTrace requiredRaw earliest).evidence.Pairwise
      TransferDisjoint := by
  have hbuilder := @selectCaseReturns_builder entry loadTrace requiredRaw earliest
  have hapart := List.Pairwise.and_mem.mp (hbuilder.nodup.and hbuilder.sound.apart)
  refine hapart.imp ?_
  rintro left right ⟨hleft, hright, hne, hapart⟩
  apply transferDisjoint_of_apart hapart
  intro a ha b hb
  exact ⟨hlogs.not_recurs hleft hright hne ha hb, hlogs.not_recurs hright hleft hne.symm hb ha⟩

end Logs

section Claims

variable {lib : BuilderLib} {period : Period} {entry : ClosedCase}
  {loadTrace : Address → Option Trace} {requiredRaw earliest : ℕ} {claim : BuiltClaim}

/-- A dependency that is a return. -/
def ClaimDependency.returns? : ClaimDependency → Option ReturnEvidence
  | .record _ => none
  | .returns evidence => some evidence

/-- The returns among the dependencies of a claim. -/
def BuiltClaim.returns (claim : BuiltClaim) : List ReturnEvidence :=
  (claim.dependencies.map Prod.snd).filterMap ClaimDependency.returns?

/-- The identified dependencies of a claim are the given ones, each once. -/
theorem identifyDependencies_perm {dependencies : List ClaimDependency} :
    ((identifyDependencies lib dependencies).map Prod.snd).Perm dependencies.dedup := by
  have hmap : ((sortBy lib.compareJson dependencies.dedup).map fun dependency =>
      (lib.hashDependency dependency, dependency)).map Prod.snd =
        sortBy lib.compareJson dependencies.dedup := by
    rw [List.map_map]
    exact List.map_id _
  have hsorted : ((identifyDependencies lib dependencies).map Prod.snd).Perm
      (sortBy lib.compareJson dependencies.dedup) := by
    rw [← hmap]
    exact (sortBy_perm _).map _
  exact hsorted.trans (sortBy_perm _)

private theorem returns_injective {left right : ClaimDependency} {evidence : ReturnEvidence}
    (hleft : evidence ∈ left.returns?) (hright : evidence ∈ right.returns?) : left = right := by
  cases left with
  | record record => cases hleft
  | returns leftEvidence =>
    cases right with
    | record record => cases hright
    | returns rightEvidence =>
      rw [Option.some.inj hleft, Option.some.inj hright]

/-- The returns of a claim are those that were selected for it. -/
theorem returns_perm (h : buildClosedLoopClaim lib period loadTrace entry = .ok claim)
    {returns : List ReturnEvidence} (hreturns : claimReturns entry loadTrace = .ok returns)
    (hnodup : returns.Nodup) : claim.returns.Perm returns := by
  simp only [buildClosedLoopClaim, bind_eq_ok, pure_eq_ok, hreturns, Except.ok.injEq,
    exists_eq_left'] at h
  obtain ⟨_, _, rfl⟩ := h
  have hperm := (@identifyDependencies_perm lib (entry.fundingDependencies.map
    ClaimDependency.record ++ returns.map ClaimDependency.returns ++
      entry.settlementDependencies.map ClaimDependency.record)).filterMap ClaimDependency.returns?
  apply hperm.trans
  rw [List.perm_ext_iff_of_nodup _ hnodup]
  · intro evidence
    rw [List.mem_filterMap]
    constructor
    · rintro ⟨dependency, hmem, hreturns⟩
      rw [List.mem_dedup, List.mem_append, List.mem_append] at hmem
      rcases hmem with (hmem | hmem) | hmem
      · obtain ⟨record, _, rfl⟩ := List.mem_map.mp hmem
        cases hreturns
      · obtain ⟨other, hother, rfl⟩ := List.mem_map.mp hmem
        exact Option.some.inj hreturns ▸ hother
      · obtain ⟨record, _, rfl⟩ := List.mem_map.mp hmem
        cases hreturns
    · intro hmem
      refine ⟨.returns evidence, ?_, rfl⟩
      rw [List.mem_dedup, List.mem_append, List.mem_append]
      exact .inl (.inr (List.mem_map_of_mem hmem))
  · exact (List.nodup_dedup _).filterMap fun left right evidence => returns_injective

/-- A case with a settlement that follows its funding has an earliest one. -/
theorem exists_earliest (h : fundedSettlements entry ≠ []) :
    ∃ earliest, earliestSettlementTimestamp entry = .ok earliest := by
  obtain ⟨item, hitem⟩ := List.exists_mem_of_ne_nil _ h
  have hfunded := (List.mem_filter.mp hitem).2
  cases htime : item.timestamp.toNumber with
  | none => simp [htime] at hfunded
  | some time =>
    have hmem : time ∈ (fundedSettlements entry).filterMap (·.timestamp.toNumber) :=
      List.mem_filterMap.mpr ⟨item, hitem, htime⟩
    obtain ⟨earliest, hearliest⟩ :=
      Option.isSome_iff_exists.mp (List.isSome_min?_of_mem hmem)
    exact ⟨earliest, okOr_eq_ok.mpr hearliest⟩

/-- Every volume has a share that must be returned. -/
theorem exists_required (volumeRaw : ℕ) :
    ∃ requiredRaw, requiredReturnRaw volumeRaw alphaReturnBps = .ok requiredRaw := by
  simp only [requiredReturnRaw, bind_eq_ok, ensure_eq_ok, pure_eq_ok]
  exact ⟨_, (), by decide, rfl⟩

section Returns

variable (hfunder : entry.seller ≠ entry.funder)
  (hearliest : earliestSettlementTimestamp entry = .ok earliest)
  (hrequired : requiredReturnRaw entry.approvedVolumeRaw alphaReturnBps = .ok requiredRaw)

include hfunder hearliest hrequired in

/-- The returns of a claim are those selected for its case. -/
theorem claimReturns_eq_ok {returns : List ReturnEvidence} :
    claimReturns entry loadTrace = .ok returns ↔
      Completable entry loadTrace requiredRaw earliest ∧
        (selectCaseReturns entry loadTrace requiredRaw earliest).evidence = returns := by
  simp only [claimReturns, if_neg hfunder, hearliest, hrequired, ok_bind, bind_eq_ok,
    ensure_eq_ok, pure_eq_ok, selectCaseReturns_complete_iff]
  constructor
  · rintro ⟨_, hcomplete, hevidence⟩
    exact ⟨hcomplete, hevidence⟩
  · rintro ⟨hcomplete, hevidence⟩
    exact ⟨(), hcomplete, hevidence⟩

include hfunder hearliest hrequired in

/-- A claim is built exactly if its case can be completed. -/
theorem buildClosedLoopClaim_ok_iff
    (hvolume : entry.selectedVolumeRaw = entry.approvedVolumeRaw) :
    (∃ claim, buildClosedLoopClaim lib period loadTrace entry = .ok claim) ↔
      Completable entry loadTrace requiredRaw earliest := by
  simp only [buildClosedLoopClaim, bind_eq_ok, ensure_eq_ok, pure_eq_ok,
    claimReturns_eq_ok hfunder hearliest hrequired]
  constructor
  · rintro ⟨_, _, _, _, ⟨hcomplete, _⟩, _⟩
    exact hcomplete
  · intro hcomplete
    exact ⟨_, (), hvolume, _, ⟨hcomplete, rfl⟩, rfl⟩

include hfunder hearliest hrequired in
/-- The returns of a claim are those that were selected, and these are complete. -/
theorem returns_selected (h : buildClosedLoopClaim lib period loadTrace entry = .ok claim) :
    (selectCaseReturns entry loadTrace requiredRaw earliest).complete requiredRaw = true ∧
      claim.returns.Perm (selectCaseReturns entry loadTrace requiredRaw earliest).evidence := by
  have hbuilder := @selectCaseReturns_builder entry loadTrace requiredRaw earliest
  obtain ⟨_, _, hrest⟩ := bind_eq_ok.mp h
  obtain ⟨returns, hreturns, _⟩ := bind_eq_ok.mp hrest
  obtain ⟨hcomplete, rfl⟩ := (claimReturns_eq_ok hfunder hearliest hrequired).mp hreturns
  rw [← selectCaseReturns_complete_iff] at hcomplete
  exact ⟨hcomplete, returns_perm h hreturns hbuilder.nodup⟩

include hfunder hearliest hrequired in

/-- The returns of a built claim cover its volume. -/
theorem returns_covering (h : buildClosedLoopClaim lib period loadTrace entry = .ok claim) :
    CoveringReturns requiredRaw claim.returns := by
  obtain ⟨hcomplete, hperm⟩ := returns_selected hfunder hearliest hrequired h
  exact (selectCaseReturns_builder.covering hcomplete).perm hperm.symm

include hfunder hearliest hrequired in

/-- Where logs without a number stay apart, no two returns of a claim share a transfer. -/
theorem returns_disjoint (hlogs : LogsApart entry loadTrace requiredRaw earliest)
    (h : buildClosedLoopClaim lib period loadTrace entry = .ok claim) :
    claim.returns.Pairwise TransferDisjoint := by
  obtain ⟨_, hperm⟩ := returns_selected hfunder hearliest hrequired h
  exact (hperm.pairwise_iff TransferDisjoint.symm).mpr (selectCaseReturns_disjoint hlogs)

end Returns

/-- What is expected of the builder: it throws if and only if neither the known returns nor these
with the found relay paths are complete, and otherwise makes a claim whose returns share no
transfer and cover the required amount. -/
def CompletesClaim (lib : BuilderLib) (period : Period) (loadTrace : Address → Option Trace)
    (entry : ClosedCase) : Prop :=
  ∃ earliest requiredRaw, earliestSettlementTimestamp entry = .ok earliest ∧
    requiredReturnRaw entry.approvedVolumeRaw alphaReturnBps = .ok requiredRaw ∧
      ((∃ error, buildClosedLoopClaim lib period loadTrace entry = .error error) ↔
        ¬ Completable entry loadTrace requiredRaw earliest) ∧
      (Completable entry loadTrace requiredRaw earliest → ∃ claim,
        buildClosedLoopClaim lib period loadTrace entry = .ok claim ∧ claim.type = .closedLoop ∧
          claim.returns.Pairwise TransferDisjoint ∧ CoveringReturns requiredRaw claim.returns)

end Claims

section Example

private def transferOf (sender recipient : Address) (amountRaw timestamp : ℕ)
    (transactionHash : B256) (logIndex : ℕ) : TraceTransfer :=
  ⟨sender, recipient, amountRaw, timestamp, transactionHash, logIndex, none, none⟩

/-- The transfer as a known relay path names it. -/
private def withoutLog (transfer : TraceTransfer) : Transfer :=
  { transfer.toTransfer with logIndex := none }

/-- A case of seller 1 and funder 2 that has to return 300. -/
private def returningCase (closureDependencies : List ReturnEvidence)
    (outboundUsdc : List TraceTransfer) : ClosedCase where
  seller := 1
  funder := 2
  totalVolumeRaw := 1000
  approvedVolumeRaw := 1000
  evidenceCodes := []
  approvedBuyers := [20]
  fundingTimes buyer := if buyer = 20 then some 5 else none
  fundingDependencies := []
  closureDependencies := closureDependencies
  settlementDependencies :=
    [⟨.settlement, none, 40, none, none, .seconds 10, 20, some 1, none, 1000⟩]
  sellerTrace := ⟨true, [], outboundUsdc⟩
  selectedVolumeRaw := 1000
  selfFunded h := absurd h (by decide)

private def plainBuilder : BuilderLib := ⟨fun _ => 0, fun _ _ => .eq⟩

/-- Seller 1 returns 60 to funder 2 directly, 50 through relay 4, which is known, and 200 through
relay 3. -/
private def relayedCase : ClosedCase :=
  returningCase
    [.direct (transferOf 1 2 60 20 50 3).toTransfer,
      .relay (some (withoutLog (transferOf 1 4 50 20 60 0)))
        (some (withoutLog (transferOf 4 2 50 21 61 0))) none]
    [transferOf 1 2 60 20 50 3, transferOf 1 4 50 20 60 0, transferOf 1 3 200 21 51 2]

private def relayedTraces (address : Address) : Option Trace :=
  if address = 3 then some ⟨true, [], [transferOf 3 2 200 22 52 0]⟩
  else if address = 2 then some ⟨true, [transferOf 3 2 200 22 52 0], []⟩
  else none

private theorem relayedCase_logsApart : LogsApart relayedCase relayedTraces 300 10 := by
  have htraced : ∀ transfer, Traced relayedCase relayedTraces transfer →
      transfer ∈ relayedCase.sellerTrace.outboundUsdc ++ [transferOf 3 2 200 22 52 0] := by
    rintro transfer (hsent | ⟨trace, hload, hreceived⟩ | ⟨relay, trace, hload, hforwarded⟩)
    · exact List.mem_append_left _ hsent
    · obtain rfl := Option.some.inj hload
      exact List.mem_append_right _ hreceived
    · apply List.mem_append_right
      rw [relayedTraces] at hload
      split at hload
      · obtain rfl := Option.some.inj hload
        exact hforwarded
      · split at hload
        · obtain rfl := Option.some.inj hload
          exact absurd hforwarded List.not_mem_nil
        · cases hload
  constructor
  · decide +kernel
  · intro _ path hpath a ha transfer htransfer
    have hnone : ∀ path ∈ (initialSelection relayedCase 300 10).evidence,
        ∀ a ∈ atomicReturnEvidence path, ∀ transfer ∈ relayedCase.sellerTrace.outboundUsdc ++
          [transferOf 3 2 200 22 52 0], ¬ Recurs a transfer.toTransfer := by decide +kernel
    exact hnone path hpath a ha transfer (htraced transfer htransfer)

private def paid : TraceTransfer := transferOf 1 3 200 20 50 5

private def forwarded : TraceTransfer := transferOf 3 2 200 21 51 7

/-- Seller 1 returned 200 once: the known path and the traces record the same two transfers. -/
private def recurringCase : ClosedCase :=
  returningCase [.relay (some (withoutLog paid)) (some (withoutLog forwarded)) none] [paid]

private def recurringTraces (address : Address) : Option Trace :=
  if address = 3 then some ⟨true, [], [forwarded]⟩
  else if address = 2 then some ⟨true, [forwarded], []⟩
  else none

end Example

end LoopProof.Planner
