import LoopProof.Correctness.Resolution
import LoopProof.Correctness.Validation

/-!
# The funding stage

One pass of the funding loop accepts exactly the evidence that resolves to a fresh
funding item of a cohort buyer whose amount still fits the running totals.
-/

namespace LoopProof

variable {lib : Lib} {input : ClosedLoopInput} {resolver : ChainResolver}

section Step

variable {keys : List LogKey}

/-- The resolved funding is fresh and sits inside the period. -/
structure FreshFunding (input : ClosedLoopInput) (keys : List LogKey)
    (f : Loop.Funding Address LogKey) : Prop where
  distinct : f.positions.Nodup
  unused : ∀ p ∈ f.positions, p ∉ keys
  inPeriod : ∀ p ∈ f.positions, EventPeriod input.periodStartBlock input.periodEndBlock p

private theorem checkFunding_usdc {buyer : Address} {ref : LogRef} {amount : U128} {time : U64}
    {used : UsedLogs} :
    checkFunding lib input resolver keys.toFinset ⟨buyer, .usdc ref⟩ = .ok (amount, time, used) ↔
      ∃ t, TransferAt lib resolver ref t ∧ t.sender = input.funder ∧ t.recipient = buyer ∧
        0 < t.amount ∧ amount.val = t.amount ∧ time.val = t.time ∧ t.position ∉ keys ∧
        EventPeriod input.periodStartBlock input.periodEndBlock t.position ∧
        used = (keys ++ [t.position]).toFinset := by
  simp only [checkFunding, bind_eq_ok, ensure_eq_ok, ensureEventInPeriod_eq_ok, pure_eq_ok,
    insertNew_toFinset, Prod.exists, Prod.mk.injEq]
  constructor
  · rintro ⟨key, hkey, _, ⟨hfresh, rfl⟩, sender, recipient, a, n, htransfer, _, hperiod, _,
      ⟨rfl, rfl, hpos⟩, t, htime, rfl, rfl, rfl⟩
    have hn := ChainResolver.usdcTransfer_block htransfer hkey
    subst hn
    exact ⟨⟨key, _, _, a.val, t.val⟩, ⟨hkey, ⟨a, rfl, htransfer⟩, ⟨t, rfl, htime⟩⟩, rfl, rfl,
      Fin.pos_iff_ne_zero.mpr hpos, rfl, rfl, hfresh, hperiod, rfl⟩
  · rintro ⟨t, ⟨hkey, ⟨a, ha, htransfer⟩, ⟨time', ht, htime⟩⟩, hs, hr, hpos, hamount, hteq,
      hfresh, hperiod, rfl⟩
    obtain rfl : amount = a := Fin.ext (hamount.trans ha.symm)
    obtain rfl : time = time' := Fin.ext (hteq.trans ht.symm)
    rw [← ha] at hpos
    exact ⟨t.position, hkey, _, ⟨hfresh, rfl⟩, _, _, _, _, htransfer, (), hperiod, (),
      ⟨hs, hr, Fin.pos_iff_ne_zero.mp hpos⟩, _, htime, rfl, rfl, rfl⟩

private theorem checkFunding_deposit {buyer : Address} {ref deposited : LogRef} {amount : U128}
    {time : U64} {used : UsedLogs} :
    checkFunding lib input resolver keys.toFinset ⟨buyer, .protocolDeposit ref deposited⟩ =
        .ok (amount, time, used) ↔
      ∃ t key, DepositAt lib resolver ref deposited input.funder buyer t key ∧
        amount.val = t.amount ∧ time.val = t.time ∧ t.position ∉ keys ∧ key ∉ keys ∧
        EventPeriod input.periodStartBlock input.periodEndBlock t.position ∧
        used = (keys ++ [t.position, key]).toFinset := by
  simp only [checkFunding, bind_eq_ok, ensure_eq_ok, ensureEventInPeriod_eq_ok, pure_eq_ok,
    Prod.exists, Prod.mk.injEq]
  constructor
  · rintro ⟨_, hsame, key, hkey, dkey, hdkey, _, horder, used₁, h₁, used₂, h₂, sender, recipient,
      transferred, n, htransfer, _, hperiod, b, a, n', hdeposit, _, ⟨rfl, rfl, rfl, rfl, hpos⟩, _,
      hsigner, t, htime, rfl, rfl, rfl⟩
    obtain ⟨hfresh, rfl⟩ := insertNew_toFinset.mp h₁
    obtain ⟨hdfresh, rfl⟩ := insertNew_toFinset.mp h₂
    have hn := ChainResolver.usdcTransfer_block htransfer hkey
    subst hn
    refine ⟨⟨key, _, _, transferred.val, t.val⟩, dkey, ⟨hsame, ⟨hkey, ⟨transferred, rfl, htransfer⟩,
      ⟨t, rfl, htime⟩⟩, hdkey, horder, rfl, rfl, ⟨transferred, n', rfl, hdeposit⟩,
      Fin.pos_iff_ne_zero.mpr hpos, hsigner⟩, rfl, rfl, hfresh,
      fun h => hdfresh (List.mem_append_left _ h), hperiod, ?_⟩
    rw [List.append_assoc, List.singleton_append]
  · rintro ⟨t, dkey, ⟨hsame, ⟨hkey, ⟨a, ha, htransfer⟩, ⟨time', ht, htime⟩⟩, hdkey, horder, hs, hr,
      ⟨a', n, ha', hdeposit⟩, hpos, hsigner⟩, hamount, hteq, hfresh, hdfresh, hperiod, rfl⟩
    obtain rfl : amount = a := Fin.ext (hamount.trans ha.symm)
    obtain rfl : amount = a' := Fin.ext (hamount.trans ha'.symm)
    obtain rfl : time = time' := Fin.ext (hteq.trans ht.symm)
    rw [← ha] at hpos
    have hne : dkey ∉ keys ++ [t.position] := by
      simp only [List.mem_append, List.mem_singleton, not_or]
      exact ⟨hdfresh, horder.ne'⟩
    refine ⟨(), hsame, t.position, hkey, dkey, hdkey, (), horder, _,
      insertNew_toFinset.mpr ⟨hfresh, rfl⟩, _, insertNew_toFinset.mpr ⟨hne, rfl⟩, _, _, _, _,
      htransfer, (), hperiod, _, _, _, hdeposit, (),
      ⟨hs, hr, rfl, rfl, Fin.pos_iff_ne_zero.mp hpos⟩, (), hsigner, _, htime, rfl, rfl, ?_⟩
    rw [List.append_assoc, List.singleton_append]

/-- The check of one funding event accepts exactly the fresh resolved fundings. -/
theorem checkFunding_eq_ok {evidence : FundingEvidence} {amount : U128} {time : U64}
    {used : UsedLogs} :
    checkFunding lib input resolver keys.toFinset evidence = .ok (amount, time, used) ↔
      ∃ f, FundingAt lib resolver input.funder evidence f ∧ FreshFunding input keys f ∧
        amount.val = f.amount ∧ time.val = f.time ∧ used = (keys ++ f.positions).toFinset := by
  obtain ⟨buyer, kind⟩ := evidence
  cases kind with
  | usdc ref =>
    rw [checkFunding_usdc]
    constructor
    · rintro ⟨t, ht, hs, hr, hpos, ha, htime, hfresh, hperiod, hused⟩
      refine ⟨_, .usdc ht hs hr hpos, ⟨List.nodup_singleton _, ?_, ?_⟩, ha, htime, hused⟩
      · simpa only [List.forall_mem_singleton] using hfresh
      · simpa only [List.forall_mem_singleton] using hperiod
    · rintro ⟨_, ⟨ht, hs, hr, hpos⟩, ⟨_, hfresh, hperiod⟩, ha, htime, hused⟩
      simp only [List.forall_mem_singleton] at hfresh hperiod
      exact ⟨_, ht, hs, hr, hpos, ha, htime, hfresh, hperiod, hused⟩
  | protocolDeposit ref deposited =>
    rw [checkFunding_deposit]
    constructor
    · rintro ⟨t, key, hd, ha, htime, hfresh, hdfresh, hperiod, hused⟩
      have hdperiod : EventPeriod input.periodStartBlock input.periodEndBlock key := by
        simpa only [EventPeriod, hd.block_eq] using hperiod
      refine ⟨_, .protocolDeposit hd, ⟨?_, ?_, ?_⟩, ha, htime, hused⟩
      · simpa using hd.ordered.ne
      · simpa using ⟨hfresh, hdfresh⟩
      · simpa using ⟨hperiod, hdperiod⟩
    · rintro ⟨_, hf, ⟨_, hfresh, hperiod⟩, ha, htime, hused⟩
      cases hf with | protocolDeposit hd =>
      simp only [List.forall_mem_cons] at hfresh hperiod
      exact ⟨_, _, hd, ha, htime, hfresh.1, hfresh.2.1, hperiod.1, hused⟩
  | native transaction receipt =>
    constructor
    · intro h
      cases h
    · rintro ⟨_, h, _⟩
      cases h

end Step

section Run

/-- Fundings the loop can have accepted together. -/
structure FundingsOk (input : ClosedLoopInput) (fs : List (Loop.Funding Address LogKey)) :
    Prop where
  distinct : (Loop.fundingPositions fs).Nodup
  inPeriod : ∀ p ∈ Loop.fundingPositions fs,
    EventPeriod input.periodStartBlock input.periodEndBlock p
  cohort : ∀ f ∈ fs, f.buyer ∈ input.buyers
  fits : Loop.fundedTotal fs < 2 ^ 128

/-- The loop state holds the totals, the earliest times and the positions of the fundings. -/
structure FundingState (state : FundingSummary × UsedLogs)
    (fs : List (Loop.Funding Address LogKey)) : Prop where
  used : state.2 = (Loop.fundingPositions fs).toFinset
  perBuyer : ∀ b, (state.1.usdcPerBuyer.getD b 0).val = Loop.fundedTo fs b
  total : state.1.totalUsdc.val = Loop.fundedTotal fs
  earliest : ∀ b, state.1.earliestTime[b]?.map Fin.val = Loop.earliestFunding fs b

theorem fundingState_empty : FundingState (FundingSummary.empty, ∅) [] := by
  refine ⟨rfl, fun b => ?_, rfl, fun b => ?_⟩
  · simp [FundingSummary.empty, Loop.fundedTo, Loop.fundedTotal]
  · simp [FundingSummary.empty, Loop.earliestFunding]

/-- Fundings grow by a fresh funding of the cohort whose amount fits. -/
theorem fundingsOk_concat {fs : List (Loop.Funding Address LogKey)}
    {f : Loop.Funding Address LogKey} :
    FundingsOk input (fs ++ [f]) ↔ FundingsOk input fs ∧
      FreshFunding input (Loop.fundingPositions fs) f ∧ f.buyer ∈ input.buyers ∧
      Loop.fundedTotal fs + f.amount < 2 ^ 128 := by
  constructor
  · rintro ⟨hd, hp, hc, hf⟩
    rw [Loop.fundingPositions_append, Loop.fundingPositions_singleton] at hd hp
    rw [Loop.fundedTotal_append, Loop.fundedTotal_singleton] at hf
    obtain ⟨hd₁, hd₂, hd₃⟩ := List.nodup_append.mp hd
    refine ⟨⟨hd₁, fun p h => hp p (List.mem_append_left _ h),
      fun g h => hc g (List.mem_append_left _ h), by omega⟩, ⟨hd₂, ?_, ?_⟩, hc f (by simp), hf⟩
    · exact fun p h hk => hd₃ p hk p h rfl
    · exact fun p h => hp p (List.mem_append_right _ h)
  · rintro ⟨⟨hd, hp, hc, _⟩, ⟨hd', hu, hp'⟩, hb, hf⟩
    refine ⟨?_, ?_, ?_, ?_⟩
    · rw [Loop.fundingPositions_append, Loop.fundingPositions_singleton]
      exact List.nodup_append.mpr ⟨hd, hd', fun a ha b hb heq => hu b hb (heq ▸ ha)⟩
    · rw [Loop.fundingPositions_append, Loop.fundingPositions_singleton]
      exact List.forall_mem_append.mpr ⟨hp, hp'⟩
    · exact List.forall_mem_append.mpr ⟨hc, by simpa using hb⟩
    · rwa [Loop.fundedTotal_append, Loop.fundedTotal_singleton]

/-- Crediting a positive amount updates both sums, when the total fits. -/
theorem credit_eq_ok {summary summary' : FundingSummary} {buyer : Address} {amount : U128}
    (hpos : 0 < amount.val) :
    summary.credit buyer amount = .ok summary' ↔
      ∃ per total : U128, per.val = (summary.usdcPerBuyer.getD buyer 0).val + amount.val ∧
        total.val = summary.totalUsdc.val + amount.val ∧
        summary' = ⟨summary.usdcPerBuyer.insert buyer per, total, summary.earliestTime⟩ := by
  rw [FundingSummary.credit, if_pos (Fin.lt_def.mpr hpos)]
  simp only [bind_eq_ok, okOr_eq_ok, checkedAdd_eq_some, pure_eq_ok]
  constructor
  · rintro ⟨per, hper, total, htotal, rfl⟩
    exact ⟨per, total, hper, htotal, rfl⟩
  · rintro ⟨per, total, hper, htotal, rfl⟩
    exact ⟨per, hper, total, htotal, rfl⟩

/-- One accepted funding leaves a state that represents it as well. -/
theorem fundingState_concat {summary : FundingSummary} {used used' : UsedLogs}
    {fs : List (Loop.Funding Address LogKey)} {f : Loop.Funding Address LogKey}
    {per total : U128} {time : U64} (h : FundingState (summary, used) fs)
    (hused : used' = (Loop.fundingPositions fs ++ f.positions).toFinset)
    (hper : per.val = (summary.usdcPerBuyer.getD f.buyer 0).val + f.amount)
    (htotal : total.val = summary.totalUsdc.val + f.amount) (htime : time.val = f.time) :
    FundingState (FundingSummary.observe
      ⟨summary.usdcPerBuyer.insert f.buyer per, total, summary.earliestTime⟩ f.buyer time, used')
      (fs ++ [f]) := by
  refine ⟨?_, fun b => ?_, ?_, fun b => ?_⟩
  · rw [Loop.fundingPositions_append, Loop.fundingPositions_singleton]
    exact hused
  · rw [Loop.fundedTo_concat, ← h.perBuyer b]
    simp only [FundingSummary.observe, Std.ExtTreeMap.getD_insert, Std.compare_eq_iff_eq]
    split
    · rename_i heq
      rw [← heq, hper]
    · rfl
  · rw [Loop.fundedTotal_append, Loop.fundedTotal_singleton, ← h.total]
    exact htotal
  · rw [Loop.earliestFunding_concat, ← h.earliest b]
    simp only [FundingSummary.observe, Std.ExtTreeMap.getElem?_insert, Std.compare_eq_iff_eq]
    split
    · rename_i heq
      subst heq
      cases summary.earliestTime[f.buyer]? with
      | none => simp [htime]
      | some t => simp [← htime, Fin.coe_min]
    · rfl

/-- The funding loop refines the growing list of resolved fundings. -/
theorem fundingStep_refines : StepRefines (fundingStep lib input resolver)
    (FundingAt lib resolver input.funder) (FundingsOk input) FundingState where
  sound := by
    rintro ⟨summary, used⟩ fs evidence ⟨summary', used'⟩ hok hrep hstep
    simp only [fundingStep, bind_eq_ok, ensure_eq_ok, pure_eq_ok, Prod.exists,
      Prod.mk.injEq] at hstep
    obtain ⟨_, hbuyer, amount, time, used₁, hcheck, summary₁, hcredit, rfl, rfl⟩ := hstep
    obtain rfl : used = _ := hrep.used
    obtain ⟨f, hf, hfresh, ha, ht, hused⟩ := checkFunding_eq_ok.mp hcheck
    have hpos : 0 < amount.val := ha ▸ hf.amount_pos
    obtain ⟨per, total, hper, htotal, rfl⟩ := (credit_eq_ok hpos).mp hcredit
    rw [ha] at hper htotal
    rw [← hf.buyer_eq] at hbuyer hper ⊢
    refine ⟨f, hf, fundingsOk_concat.mpr ⟨hok, hfresh, hbuyer, ?_⟩,
      fundingState_concat hrep hused hper htotal ht⟩
    have hlt := total.isLt
    rwa [htotal, hrep.total] at hlt
  complete := by
    rintro ⟨summary, used⟩ fs evidence f hrep hf hok
    obtain ⟨hok, hfresh, hbuyer, hfits⟩ := fundingsOk_concat.mp hok
    obtain rfl : used = _ := hrep.used
    have hle := Loop.fundedTo_le fs f.buyer
    obtain ⟨amount, hamount⟩ : ∃ amount : U128, amount.val = f.amount := ⟨⟨f.amount, by omega⟩, rfl⟩
    obtain ⟨per, hper⟩ : ∃ per : U128,
        per.val = (summary.usdcPerBuyer.getD f.buyer 0).val + f.amount := by
      rw [hrep.perBuyer]
      exact ⟨⟨_, by omega⟩, rfl⟩
    obtain ⟨total, htotal⟩ : ∃ total : U128, total.val = summary.totalUsdc.val + f.amount := by
      rw [hrep.total]
      exact ⟨⟨_, hfits⟩, rfl⟩
    obtain ⟨time, htime⟩ := hf.time_eq
    have hcheck := checkFunding_eq_ok.mpr ⟨f, hf, hfresh, hamount, htime, rfl⟩
    have hpos : 0 < amount.val := hamount ▸ hf.amount_pos
    have hcredit := (credit_eq_ok hpos).mpr ⟨per, total, hamount ▸ hper, hamount ▸ htotal, rfl⟩
    refine ⟨_, ?_, fundingState_concat hrep rfl hper htotal htime⟩
    simp only [fundingStep, bind_eq_ok, ensure_eq_ok, pure_eq_ok, Prod.exists]
    rw [← hf.buyer_eq]
    exact ⟨(), hbuyer, _, _, _, hcheck, _, hcredit, rfl⟩
  prefix_closed h := (fundingsOk_concat.mp h).1

theorem fundingsOk_nil : FundingsOk input [] :=
  ⟨List.nodup_nil, by simp [Loop.fundingPositions], by simp, by simp [Loop.fundedTotal]⟩

/-- Every cohort buyer has a recorded time exactly when every cohort buyer was funded. -/
theorem everyBuyer_iff {state : FundingSummary × UsedLogs}
    {fs : List (Loop.Funding Address LogKey)} (h : FundingState state fs) :
    input.buyers.all (state.1.earliestTime.contains ·) = true ↔
      ∀ b ∈ input.buyers, ∃ f ∈ fs, f.buyer = b := by
  rw [List.all_eq_true]
  refine forall₂_congr fun b _ => ?_
  rw [← Loop.earliestFunding_isSome, ← h.earliest b, Option.isSome_map,
    Std.ExtTreeMap.isSome_getElem?_eq_contains]

/-- An accepted funding stage resolved every funding, and its result represents them. -/
theorem verifyFundings_sound {state : FundingSummary × UsedLogs}
    (h : verifyFundings lib input resolver ∅ = .ok state) :
    ∃ fs, List.Forall₂ (FundingAt lib resolver input.funder) input.fundings fs ∧
      FundingsOk input fs ∧ (∀ b ∈ input.buyers, ∃ f ∈ fs, f.buyer = b) ∧
      FundingState state fs := by
  simp only [verifyFundings, bind_eq_ok, ensure_eq_ok, pure_eq_ok, Prod.exists] at h
  obtain ⟨_, _, summary, used, hrun, _, hall, rfl⟩ := h
  obtain ⟨fs, hres, hok, hrep⟩ :=
    fundingStep_refines.run_sound fundingState_empty fundingsOk_nil hrun
  exact ⟨fs, hres, hok, (everyBuyer_iff hrep).mp hall, hrep⟩

/-- Resolved fundings that cover the cohort are accepted. -/
theorem verifyFundings_complete {fs : List (Loop.Funding Address LogKey)}
    (hres : List.Forall₂ (FundingAt lib resolver input.funder) input.fundings fs)
    (hok : FundingsOk input fs) (hall : ∀ b ∈ input.buyers, ∃ f ∈ fs, f.buyer = b) :
    ∃ state, verifyFundings lib input resolver ∅ = .ok state ∧ FundingState state fs := by
  obtain ⟨⟨summary, used⟩, hrun, hrep⟩ := fundingStep_refines.run_complete hres
    fundingState_empty (by simpa only [List.nil_append] using hok)
  rw [List.nil_append] at hrep
  refine ⟨(summary, used), ?_, hrep⟩
  simp only [verifyFundings, bind_eq_ok, ensure_eq_ok, pure_eq_ok, Prod.exists]
  refine ⟨(), ?_, summary, used, hrun, (), (everyBuyer_iff hrep).mpr hall, rfl⟩
  rw [List.any_eq_false]
  intro evidence hmem hnative
  obtain ⟨f, _, hf⟩ := forall₂_exists_right hres hmem
  rw [hf.not_native] at hnative
  cases hnative

end Run

end LoopProof
