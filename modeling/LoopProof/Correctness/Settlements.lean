import LoopProof.Correctness.Fundings

/-!
# The settlement stage

The settlement loop measures the volume. Its records name the settlements by position,
so distinct positions give distinct preimages of the settlement identifiers.
-/

namespace LoopProof

variable {lib : Lib} {input : ClosedLoopInput} {resolver : ChainResolver}

/-- The record the journal carries for one settlement. -/
def recordOf (lib : CoreLib) (s : Loop.Settlement Address LogKey) : SettlementRecord :=
  ⟨settlementId lib baseChainId s.position.blockNumber s.position.txIndex s.position.logIndex,
    Fin.ofNat (2 ^ 128) s.amount⟩

theorem recordOf_eq {core : CoreLib} {s : Loop.Settlement Address LogKey} {amount : U128}
    (h : amount.val = s.amount) :
    (⟨settlementId core baseChainId s.position.blockNumber s.position.txIndex s.position.logIndex,
      amount⟩ : SettlementRecord) = recordOf core s := by
  have ha : amount = Fin.ofNat (2 ^ 128) s.amount := by
    rw [← h]
    exact (Fin.ofNat_val_eq_self amount).symm
  rw [recordOf, ha]

/-- Settlements the loop can have accepted together, after the given fundings. -/
structure SettlementsOk (input : ClosedLoopInput) (fs : List (Loop.Funding Address LogKey))
    (ss : List (Loop.Settlement Address LogKey)) : Prop where
  distinct : (Loop.fundingPositions fs ++ ss.map (·.position)).Nodup
  inPeriod : ∀ s ∈ ss, EventPeriod input.periodStartBlock input.periodEndBlock s.position
  subject : ∀ s ∈ ss, s.seller = input.seller ∧ s.buyer ∈ input.buyers ∧ 0 < s.amount
  afterFunding : ∀ s ∈ ss, ∃ t ∈ Loop.earliestFunding fs s.buyer, t < s.time
  fits : Loop.settledTotal ss < 2 ^ 128

/-- What one more settlement must satisfy. -/
structure FreshSettlement (input : ClosedLoopInput) (fs : List (Loop.Funding Address LogKey))
    (ss : List (Loop.Settlement Address LogKey)) (s : Loop.Settlement Address LogKey) :
    Prop where
  unused : s.position ∉ Loop.fundingPositions fs ++ ss.map (·.position)
  inPeriod : EventPeriod input.periodStartBlock input.periodEndBlock s.position
  subject : s.seller = input.seller ∧ s.buyer ∈ input.buyers ∧ 0 < s.amount
  afterFunding : ∃ t ∈ Loop.earliestFunding fs s.buyer, t < s.time
  fits : Loop.settledTotal ss + s.amount < 2 ^ 128

/-- The loop state holds the totals, the earliest time, the records and the positions. -/
structure SettleState (lib : CoreLib) (fs : List (Loop.Funding Address LogKey))
    (state : SettleSummary × UsedLogs) (ss : List (Loop.Settlement Address LogKey)) : Prop where
  used : state.2 = (Loop.fundingPositions fs ++ ss.map (·.position)).toFinset
  total : state.1.total.val = Loop.settledTotal ss
  perBuyer : ∀ b, (state.1.perBuyer.getD b 0).val = Loop.settledBy ss b
  earliest : state.1.earliestTime.val = (Loop.earliestSettlement ss).getD (2 ^ 64 - 1)
  records : state.1.settlements = ss.map (recordOf lib)

section Step

variable {fs : List (Loop.Funding Address LogKey)}
  {ss : List (Loop.Settlement Address LogKey)} {s : Loop.Settlement Address LogKey}

theorem settleState_empty {core : CoreLib} {used : UsedLogs}
    (h : used = (Loop.fundingPositions fs).toFinset) :
    SettleState core fs (SettleSummary.empty, used) [] := by
  refine ⟨?_, rfl, fun b => ?_, rfl, rfl⟩
  · rw [List.map_nil, List.append_nil]
    exact h
  · simp [SettleSummary.empty, Loop.settledBy, Loop.settledTotal]

theorem settlementsOk_nil (h : (Loop.fundingPositions fs).Nodup) : SettlementsOk input fs [] :=
  ⟨by simpa using h, by simp, by simp, by simp, by simp [Loop.settledTotal]⟩

/-- Settlements grow by a fresh settlement. -/
theorem settlementsOk_concat : SettlementsOk input fs (ss ++ [s]) ↔
    SettlementsOk input fs ss ∧ FreshSettlement input fs ss s := by
  have hkeys : Loop.fundingPositions fs ++ (ss ++ [s]).map (·.position) =
      (Loop.fundingPositions fs ++ ss.map (·.position)) ++ [s.position] := by
    rw [List.map_append, List.map_singleton, List.append_assoc]
  constructor
  · rintro ⟨hd, hp, hs, ha, hf⟩
    rw [hkeys, nodup_concat] at hd
    rw [Loop.settledTotal_append, Loop.settledTotal_singleton] at hf
    simp only [List.forall_mem_append, List.forall_mem_singleton] at hp hs ha
    exact ⟨⟨hd.1, hp.1, hs.1, ha.1, by omega⟩, ⟨hd.2, hp.2, hs.2, ha.2, hf⟩⟩
  · rintro ⟨⟨hd, hp, hs, ha, _⟩, ⟨hd', hp', hs', ha', hf'⟩⟩
    refine ⟨?_, ?_, ?_, ?_, ?_⟩
    · rw [hkeys, nodup_concat]
      exact ⟨hd, hd'⟩
    · exact List.forall_mem_append.mpr ⟨hp, by simpa using hp'⟩
    · exact List.forall_mem_append.mpr ⟨hs, by simpa using hs'⟩
    · exact List.forall_mem_append.mpr ⟨ha, by simpa using ha'⟩
    · rwa [Loop.settledTotal_append, Loop.settledTotal_singleton]

/-- One accepted settlement leaves a state that represents it as well. -/
theorem settleState_concat (s : Loop.Settlement Address LogKey) {core : CoreLib}
    {summary : SettleSummary} {used : UsedLogs} {total per amount : U128} {time : U64}
    (h : SettleState core fs (summary, used) ss)
    (htotal : total.val = summary.total.val + s.amount)
    (hper : per.val = (summary.perBuyer.getD s.buyer 0).val + s.amount)
    (hamount : amount.val = s.amount) (htime : time.val = s.time) :
    SettleState core fs
      (⟨total, summary.perBuyer.insert s.buyer per, min summary.earliestTime time,
        summary.settlements ++ [⟨settlementId core baseChainId s.position.blockNumber
          s.position.txIndex s.position.logIndex, amount⟩]⟩,
        (Loop.fundingPositions fs ++ ss.map (·.position) ++ [s.position]).toFinset)
      (ss ++ [s]) := by
  refine ⟨?_, ?_, fun b => ?_, ?_, ?_⟩
  · rw [List.map_append, List.map_singleton, List.append_assoc]
  · rw [Loop.settledTotal_append, Loop.settledTotal_singleton, ← h.total]
    exact htotal
  · rw [Loop.settledBy_concat, ← h.perBuyer b]
    simp only [Std.ExtTreeMap.getD_insert, Std.compare_eq_iff_eq]
    split
    · rename_i heq
      rw [← heq, hper]
    · rfl
  · have hlt := time.isLt
    have hmin : (min summary.earliestTime time).val = min summary.earliestTime.val time.val :=
      Fin.coe_min _ _
    rw [Loop.earliestSettlement_concat, Option.getD_some, hmin, h.earliest, htime]
    cases Loop.earliestSettlement ss with
    | none => simp only [Option.getD_none, Option.map_none]; omega
    | some t => simp only [Option.getD_some, Option.map_some]
  · rw [List.map_append, List.map_singleton, ← h.records, recordOf_eq hamount]

/-- The funding time recorded for a buyer precedes a settlement exactly when the earliest
funding does. -/
theorem funded_before_iff {funding : FundingSummary × UsedLogs} {b : Address} {time : U64}
    (h : FundingState funding fs) :
    (∃ e, funding.1.earliestTime[b]? = some e ∧ e < time) ↔
      ∃ t ∈ Loop.earliestFunding fs b, t < time.val := by
  rw [← h.earliest b]
  cases funding.1.earliestTime[b]? with
  | none => simp
  | some e => simp

/-- The settlement loop refines the growing list of resolved settlements. -/
theorem settlementStep_refines {funding : FundingSummary × UsedLogs}
    (hfunding : FundingState funding fs) :
    StepRefines (settlementStep lib input resolver funding.1) (SettlementAt lib resolver)
      (SettlementsOk input fs) (SettleState lib.toCoreLib fs) where
  sound := by
    rintro ⟨summary, used⟩ ss ref ⟨summary', used'⟩ hok hrep hstep
    obtain rfl : used = _ := hrep.used
    simp only [settlementStep, bind_eq_ok, ensure_eq_ok, ensureEventInPeriod_eq_ok, pure_eq_ok,
      okOr_eq_ok, checkedAdd_eq_some, insertNew_toFinset, Prod.exists, Prod.mk.injEq] at hstep
    obtain ⟨key, hkey, used₁, ⟨hfresh, rfl⟩, channel, buyer, seller, amount, n, hevent, _, hperiod,
      _, ⟨rfl, hbuyer, hpos⟩, time, htime, funded, hfunded, _, hlater, total, htotal, per, hper,
      rfl, rfl⟩ := hstep
    have hn := ChainResolver.settlement_block hevent hkey
    subst hn
    have hfits : Loop.settledTotal ss + amount.val < 2 ^ 128 := by
      have hlt := total.isLt
      rwa [htotal, hrep.total] at hlt
    have hitem : SettlementAt lib resolver ref ⟨key, buyer, input.seller, amount.val, time.val⟩ :=
      ⟨hkey, ⟨channel, amount, rfl, hevent⟩, ⟨time, rfl, htime⟩⟩
    have hbefore := (funded_before_iff hfunding).mp ⟨funded, hfunded, hlater⟩
    have hpos : 0 < amount.val := Fin.pos_iff_ne_zero.mpr hpos
    exact ⟨_, hitem, settlementsOk_concat.mpr ⟨hok, ⟨hfresh, hperiod, ⟨rfl, hbuyer, hpos⟩, hbefore,
      hfits⟩⟩, settleState_concat ⟨_, _, _, _, _⟩ hrep htotal hper rfl rfl⟩
  complete := by
    rintro ⟨summary, used⟩ ss ref s hrep ⟨hkey, ⟨channel, amount, hamount, hevent⟩,
      ⟨time, htime_eq, htime⟩⟩ hok
    obtain ⟨_, hfresh⟩ := settlementsOk_concat.mp hok
    obtain rfl : used = _ := hrep.used
    have hfits := hfresh.fits
    have hle := Loop.settledBy_le ss s.buyer
    obtain ⟨total, htotal⟩ : ∃ total : U128, total.val = summary.total.val + s.amount := by
      rw [hrep.total]
      exact ⟨⟨_, hfits⟩, rfl⟩
    obtain ⟨per, hper⟩ : ∃ per : U128,
        per.val = (summary.perBuyer.getD s.buyer 0).val + s.amount := by
      rw [hrep.perBuyer]
      exact ⟨⟨_, by omega⟩, rfl⟩
    obtain ⟨funded, hfunded, hlater⟩ :=
      (funded_before_iff hfunding).mpr (htime_eq ▸ hfresh.afterFunding)
    obtain ⟨hseller, hbuyer, hpos⟩ := hfresh.subject
    have hpos : amount ≠ 0 := Fin.pos_iff_ne_zero.mp (Fin.lt_def.mpr (hamount.symm ▸ hpos))
    refine ⟨_, ?_, settleState_concat s hrep htotal hper hamount htime_eq⟩
    simp only [settlementStep, bind_eq_ok, ensure_eq_ok, ensureEventInPeriod_eq_ok, pure_eq_ok,
      okOr_eq_ok, checkedAdd_eq_some, insertNew_toFinset, Prod.exists]
    exact ⟨s.position, hkey, _, ⟨hfresh.unused, rfl⟩, channel, s.buyer, s.seller, amount, _, hevent,
      (), hfresh.inPeriod, (), ⟨hseller, hbuyer, hpos⟩, time,
      htime, funded, hfunded, (), hlater, total, hamount ▸ htotal, per, hamount ▸ hper, rfl⟩
  prefix_closed h := (settlementsOk_concat.mp h).1

end Step

section Run

variable {funding : FundingSummary × UsedLogs} {fs : List (Loop.Funding Address LogKey)}

/-- An accepted settlement stage resolved every settlement, and its result represents them. -/
theorem verifySettlements_sound (hfunding : FundingState funding fs)
    (hfs : FundingsOk input fs) {state : SettleSummary × UsedLogs}
    (h : verifySettlements lib input resolver funding.1 funding.2 = .ok state) :
    ∃ ss, List.Forall₂ (SettlementAt lib resolver) input.settlements ss ∧ ss ≠ [] ∧
      SettlementsOk input fs ss ∧ SettleState lib.toCoreLib fs state ss := by
  simp only [verifySettlements, bind_eq_ok, ensure_eq_ok] at h
  obtain ⟨_, hne, hrun⟩ := h
  obtain ⟨ss, hres, hok, hrep⟩ := (settlementStep_refines hfunding).run_sound
    (settleState_empty hfunding.used) (settlementsOk_nil hfs.distinct) hrun
  refine ⟨ss, hres, ?_, hok, hrep⟩
  rintro rfl
  exact hne (List.forall₂_nil_right_iff.mp hres)

/-- Resolved settlements are accepted. -/
theorem verifySettlements_complete (hfunding : FundingState funding fs)
    {ss : List (Loop.Settlement Address LogKey)}
    (hres : List.Forall₂ (SettlementAt lib resolver) input.settlements ss) (hne : ss ≠ [])
    (hok : SettlementsOk input fs ss) :
    ∃ state, verifySettlements lib input resolver funding.1 funding.2 = .ok state ∧
      SettleState lib.toCoreLib fs state ss := by
  obtain ⟨state, hrun, hrep⟩ := (settlementStep_refines hfunding).run_complete hres
    (settleState_empty hfunding.used) (by simpa only [List.nil_append] using hok)
  rw [List.nil_append] at hrep
  refine ⟨state, ?_, hrep⟩
  simp only [verifySettlements, bind_eq_ok, ensure_eq_ok]
  refine ⟨(), ?_, hrun⟩
  intro hnil
  rw [hnil] at hres
  exact hne (List.forall₂_nil_left_iff.mp hres)

end Run

end LoopProof
