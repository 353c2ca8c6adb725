import LoopProof.Correctness.Days
import LoopProof.Correctness.Fetch
import LoopProof.Correctness.Rejections

/-!
# Settlements that follow their funding

The host asks for the settlements of a buyer from the block of its earliest funding on, and the
predicate wants them in a later block. Over a chain whose blocks have increasing times the two
agree exactly where no settlement stands in the funding's own block.
-/

namespace LoopProof.Host

/-! ## Times of blocks -/

section Times

variable {β : Type} {history : History β}

/-- Later blocks have later times. -/
def History.Timed (history : History β) : Prop :=
  history.blocks.Pairwise fun a b => a.header.timestamp < b.header.timestamp

theorem time_lt (htimed : history.Timed) {number number' : U64} {block block' : ChainBlock β}
    (h : history.chain.block number = some block) (h' : history.chain.block number' = some block')
    (hlt : number < number') : block.header.timestamp < block'.header.timestamp := by
  have hboth : history.blocks.Pairwise fun a b =>
      a.header.number < b.header.number ∧ a.header.timestamp < b.header.timestamp :=
    List.pairwise_and_iff.mpr ⟨history.ordered, htimed⟩
  obtain ⟨i, hi⟩ := List.mem_iff_getElem?.mp (List.mem_of_find?_eq_some h)
  obtain ⟨j, hj⟩ := List.mem_iff_getElem?.mp (List.mem_of_find?_eq_some h')
  obtain ⟨hilt, rfl⟩ := List.getElem?_eq_some_iff.mp hi
  obtain ⟨hjlt, rfl⟩ := List.getElem?_eq_some_iff.mp hj
  have hnumber := history.chain.numbered _ _ h
  have hnumber' := history.chain.numbered _ _ h'
  rw [List.pairwise_iff_getElem] at hboth
  rcases Nat.lt_trichotomy i j with hij | rfl | hji
  · exact (hboth i j hilt hjlt hij).2
  · rw [hnumber] at hnumber'
    exact absurd hnumber' hlt.ne
  · have hgt := (hboth j i hjlt hilt hji).1
    rw [hnumber, hnumber'] at hgt
    exact absurd hgt hlt.asymm

end Times

/-! ## The agreement -/

section Agreement

variable {lib : HostLib} {history : History lib.Body} {case : CaseInput} {node : LogNode lib.Body}
  {input : ClosedLoopInput}

/-- No buyer has a settlement that is handed over without a funding, or in the block of its
earliest funding. -/
def SettlesLater {β : Type} (history : History β) (case : CaseInput) : Prop :=
  ∀ buyer ∈ case.buyers, case.maxSettlementsPerBuyer ≠ 0 →
    match (fundingBlocks history case buyer).min? with
    | none => history.select (settledFilter buyer case.seller) periodStartBlock.val
        periodEndBlock.val = []
    | some first => first ≤ periodEndBlock →
        history.select (settledFilter buyer case.seller) first.val first.val = []

/-- Every buyer of the case has a funding within the period. -/
def FundedInPeriod {β : Type} (history : History β) (case : CaseInput) : Prop :=
  ∀ buyer ∈ case.buyers, ∃ number ∈ fundingBlocks history case buyer,
    periodStartBlock ≤ number ∧ number ≤ periodEndBlock

/-- The logs of the earliest block come first. -/
private theorem mem_take_of_first {filter : LogFilter} {first : U64} {last limit : ℕ}
    (hlimit : limit ≠ 0) (hlast : first.val ≤ last)
    (h : history.select filter first.val first.val ≠ []) :
    ∃ found ∈ (history.select filter first.val last).take limit, found.blockNumber = first := by
  rw [← select_append filter (Nat.le_succ _) hlast]
  obtain ⟨found, rest, hselect⟩ := List.exists_cons_of_ne_nil h
  have hmem : found ∈ history.select filter first.val first.val := hselect ▸ List.mem_cons_self
  obtain ⟨_, _, hge, hle⟩ := mem_select.mp hmem
  obtain ⟨k, rfl⟩ := Nat.exists_eq_succ_of_ne_zero hlimit
  refine ⟨found, ?_, Fin.ext (Nat.le_antisymm hle hge)⟩
  rw [hselect, List.cons_append, List.take_succ_cons]
  exact List.mem_cons_self

/-- The settlements that are asked for name their buyer. -/
theorem settledFilter_topic {buyer seller : Address} {log : ParsedLog}
    (h : (settledFilter buyer seller).selects log = true) :
    log.topics[2]? = some (addrTopic buyer) := by
  rw [LogFilter.selects, settledFilter, Bool.and_eq_true] at h
  obtain ⟨_, htopics⟩ := h
  match hlog : log.topics with
  | [] => rw [hlog] at htopics; cases htopics
  | [_] => rw [hlog] at htopics; simp [matchesTopics] at htopics
  | [_, _] => rw [hlog] at htopics; simp [matchesTopics] at htopics
  | _ :: _ :: third :: _ =>
    rw [hlog] at htopics
    simp only [matchesTopics, Bool.and_eq_true, decide_eq_true_eq] at htopics
    rw [htopics.2.1]
    rfl

/-- Assembled evidence of a funding has the time of the block of its transaction. -/
theorem AssembledFunding.time {funder : Address} {funding : CaseFunding}
    {evidence : FundingEvidence} {blocks : List EvidenceBlock}
    (h : AssembledFunding lib history blocks funder funding evidence) :
    evidence.buyer = funding.buyer ∧ ∃ transfer number block,
      evidence.kind.transfer? = some transfer ∧
      (history.transaction funding.tx).map (·.blockNumber) = some number ∧
      history.chain.block number = some block ∧
      ChainResolver.timestamp ⟨blocks⟩ transfer = .ok block.header.timestamp := by
  have hplace : ∀ {tx : B256} {wanted : ParsedLog → Bool} {ref : LogRef} {log : ParsedLog},
      FirstRef lib history blocks tx wanted ref log → ∃ number block,
        (history.transaction tx).map (·.blockNumber) = some number ∧
        history.chain.block number = some block ∧
        ChainResolver.timestamp ⟨blocks⟩ ref = .ok block.header.timestamp := by
    intro tx wanted ref log href
    obtain ⟨loc, hfirst, hresolves⟩ := href
    obtain ⟨mined, hfirst⟩ := first_eq_some.mp hfirst
    obtain ⟨block, hblock, htime⟩ := hresolves.time
    refine ⟨loc.block, block, ?_, hblock, htime⟩
    rw [hfirst.transaction, Option.map_some, hfirst.block]
  cases h with
  | usdc htransfer =>
    obtain ⟨number, block, hnumber, hblock, htime⟩ := hplace htransfer
    exact ⟨rfl, _, number, block, rfl, hnumber, hblock, htime⟩
  | deposit htransfer _ _ =>
    obtain ⟨number, block, hnumber, hblock, htime⟩ := hplace htransfer
    exact ⟨rfl, _, number, block, rfl, hnumber, hblock, htime⟩

theorem mem_fundingBlocks {buyer : Address} {number : U64} :
    number ∈ fundingBlocks history case buyer ↔ ∃ funding ∈ case.fundings,
      funding.buyer = buyer ∧
        (history.transaction funding.tx).map (·.blockNumber) = some number := by
  simp only [fundingBlocks, List.mem_filterMap, List.mem_filter, decide_eq_true_eq, and_assoc]

/-- A buyer is funded before the time of a block exactly if it was funded in an earlier block. -/
theorem fundedBefore_iff (htimed : history.Timed) (hinput : Assembled lib history case node input)
    {buyer : Address} {number : U64} {block : ChainBlock lib.Body}
    (hblock : history.chain.block number = some block) :
    FundedBefore ⟨input.blocks⟩ input buyer block.header.timestamp ↔
      ∃ first ∈ fundingBlocks history case buyer, first < number := by
  constructor
  · intro h
    obtain ⟨evidence, hevidence, rfl, transfer, funded, htransfer, htime, hlt⟩ := h
    obtain ⟨funding, hfunding, hassembled⟩ := forall₂_exists_left hinput.fundings hevidence
    obtain ⟨hbuyer, transfer', first, found, htransfer', hfirst, hfound, htime'⟩ :=
      hassembled.time
    obtain rfl := Option.some.inj (htransfer.symm.trans htransfer')
    obtain rfl := Except.ok.inj (htime.symm.trans htime')
    refine ⟨first, mem_fundingBlocks.mpr ⟨funding, hfunding, hbuyer.symm, hfirst⟩, ?_⟩
    by_contra hge
    rcases lt_or_eq_of_le (not_lt.mp hge) with hafter | rfl
    · exact absurd hlt (time_lt htimed hblock hfound hafter).asymm
    · obtain rfl := Option.some.inj (hblock.symm.trans hfound)
      exact lt_irrefl _ hlt
  · intro h
    obtain ⟨first, hfirst, hlt⟩ := h
    obtain ⟨funding, hfunding, rfl, hnumber⟩ := mem_fundingBlocks.mp hfirst
    obtain ⟨evidence, hevidence, hassembled⟩ := forall₂_exists_right hinput.fundings hfunding
    obtain ⟨hbuyer, transfer, first', found, htransfer, hfirst', hfound, htime⟩ := hassembled.time
    obtain rfl := Option.some.inj (hnumber.symm.trans hfirst')
    exact ⟨evidence, hevidence, hbuyer, transfer, _, htransfer, htime,
      time_lt htimed hfound hblock hlt⟩

/-- The settlements of an input follow their fundings exactly if each that is handed over stands
behind a block in which its buyer was funded. -/
theorem followsFunding_iff (htimed : history.Timed)
    (hinput : Assembled lib history case node input) :
    FollowsFunding lib.toLib input ↔ ∀ buyer ∈ case.buyers, ∀ found ∈ handed lib history case buyer,
      ∃ first ∈ fundingBlocks history case buyer, first < found.blockNumber := by
  have href : ∀ {found : MinedLog} {ref : LogRef},
      SettlementRef lib history input.blocks found ref →
      ∃ receipt evidence block,
        ChainResolver.log lib.toLib ⟨input.blocks⟩ ref = .ok (found.log, receipt, evidence) ∧
        history.chain.block found.blockNumber = some block ∧
        evidence.header.timestamp = block.header.timestamp := by
    intro found ref h
    obtain ⟨position, _, hresolves⟩ := h
    obtain ⟨receipt, evidence, hlog⟩ := hresolves.log
    obtain ⟨block, hblock, htime⟩ := hresolves.time
    refine ⟨receipt, evidence, block, hlog, hblock, ?_⟩
    obtain ⟨hevidence, _⟩ := ChainResolver.log_eq_ok.mp hlog
    simp only [ChainResolver.timestamp, ChainResolver.block, bind_eq_ok, okOr_eq_ok,
      pure_eq_ok] at htime
    obtain ⟨other, hother, htime⟩ := htime
    rw [Option.some.inj (hevidence.symm.trans hother), htime]
  have htopic : ∀ {buyer : Address} {found : MinedLog}, found ∈ handed lib history case buyer →
      found.log.topics[2]? = some (addrTopic buyer) := by
    intro buyer found hfound
    exact settledFilter_topic (mem_select.mp (List.mem_of_mem_take hfound)).2.1
  constructor
  · intro h buyer hbuyer found hfound
    obtain ⟨ref, hmem, hsettlement⟩ := forall₂_exists_right hinput.settlements
      (List.mem_flatMap.mpr ⟨buyer, hbuyer, hfound⟩)
    obtain ⟨receipt, evidence, block, hlog, hblock, htime⟩ := href hsettlement
    obtain ⟨log', _, _, buyer', hlog', hnamed, hbefore⟩ := h ref hmem
    obtain ⟨rfl, rfl, rfl⟩ : found.log = log' ∧ _ ∧ _ := by
      simpa only [Prod.mk.injEq] using Except.ok.inj (hlog.symm.trans hlog')
    obtain rfl : buyer = buyer' :=
      addrTopic_injective (Option.some.inj ((htopic hfound).symm.trans hnamed))
    rw [htime] at hbefore
    exact (fundedBefore_iff htimed hinput hblock).mp hbefore
  · intro h ref hmem
    obtain ⟨found, hfound, hsettlement⟩ := forall₂_exists_left hinput.settlements hmem
    obtain ⟨buyer, hbuyer, hfound⟩ := List.mem_flatMap.mp hfound
    obtain ⟨receipt, evidence, block, hlog, hblock, htime⟩ := href hsettlement
    refine ⟨found.log, receipt, evidence, buyer, hlog, htopic hfound, ?_⟩
    rw [htime]
    exact (fundedBefore_iff htimed hinput hblock).mpr (h buyer hbuyer found hfound)

/-- Every handed settlement stands behind a funding exactly if none stands in the block of the
earliest one. -/
theorem handed_later_iff : (∀ buyer ∈ case.buyers, ∀ found ∈ handed lib history case buyer,
      ∃ first ∈ fundingBlocks history case buyer, first < found.blockNumber) ↔
    SettlesLater history case := by
  apply forall₂_congr
  intro buyer _
  cases hmin : (fundingBlocks history case buyer).min? with
  | none =>
    have hnone : fundingBlocks history case buyer = [] := List.min?_eq_none_iff.mp hmin
    rw [handed, fundedFrom, hmin, Option.getD_none, hnone]
    constructor
    · intro h hlimit
      by_contra hne
      obtain ⟨found, rest, hselect⟩ := List.exists_cons_of_ne_nil hne
      obtain ⟨k, hk⟩ := Nat.exists_eq_succ_of_ne_zero (Fin.val_ne_zero_iff.mpr hlimit)
      obtain ⟨_, hmem, _⟩ := h found (by
        rw [hselect, hk, List.take_succ_cons]
        exact List.mem_cons_self)
      cases hmem
    · intro h found hfound
      by_cases hlimit : case.maxSettlementsPerBuyer = 0
      · rw [hlimit, Fin.val_zero, List.take_zero] at hfound
        cases hfound
      · rw [h hlimit, List.take_nil] at hfound
        cases hfound
  | some first =>
    obtain ⟨hfirst, hleast⟩ := List.min?_eq_some_iff.mp hmin
    rw [handed, fundedFrom, hmin, Option.getD_some]
    constructor
    · intro h hlimit hlast
      by_contra hne
      obtain ⟨found, hfound, hblock⟩ :=
        mem_take_of_first (Fin.val_ne_zero_iff.mpr hlimit) (Fin.le_def.mp hlast) hne
      obtain ⟨earlier, hearlier, hlt⟩ := h found hfound
      exact absurd (hblock ▸ hlt) (not_lt.mpr (hleast earlier hearlier))
    · intro h found hfound
      refine ⟨first, hfirst, ?_⟩
      obtain ⟨hmem, hselects, hge, hle⟩ := mem_select.mp (List.mem_of_mem_take hfound)
      have hlimit : case.maxSettlementsPerBuyer ≠ 0 := by
        intro hzero
        rw [hzero, Fin.val_zero, List.take_zero] at hfound
        cases hfound
      refine lt_of_le_of_ne (Fin.le_def.mpr hge) ?_
      intro hsame
      have hnone := h hlimit (Fin.le_def.mpr (hge.trans hle))
      have hhere : found ∈ history.select (settledFilter buyer case.seller) first.val first.val :=
        mem_select.mpr ⟨hmem, hselects, hge, hsame ▸ le_rfl⟩
      rw [hnone] at hhere
      cases hhere

variable {digest : U64 → List U64 → List U64 → B256} {cache : List CacheFile}

/-- The settlements of a fetched input follow their fundings, and the predicate never says that a
funding is missing or late where every buyer is funded within the period, exactly if no settlement
that is handed over stands in the block of its buyer's earliest funding. -/
theorem fetched_settlements_follow (hrlp : lib.rlpHeader = canonicalHeader)
    (hserves : ServesLogs node history) (htimed : history.Timed)
    (hcache : WrittenCache node.toNode cache) {caseBytes : Bytes} {file : Case.CaseFile}
    (hcase : readCase file = .ok case)
    (h : fetchInput lib node digest cache caseBytes file = .ok input) :
    (FollowsFunding lib.toLib input ∧ (FundedInPeriod history case →
      ∀ text ∈ fundingTexts, verifyClosedLoop lib.toLib input ≠ .error (.err text))) ↔
      SettlesLater history case := by
  obtain ⟨case', hcase', hinput⟩ := fetchInput_assembled hrlp hserves hcache h
  obtain rfl := Except.ok.inj (hcase.symm.trans hcase')
  rw [← @handed_later_iff lib history case, ← followsFunding_iff htimed hinput]
  constructor
  · intro hboth
    exact hboth.1
  · intro hfollows
    refine ⟨hfollows, ?_⟩
    intro hfunded
    apply verifyClosedLoop_avoids ?_ hfollows
    intro buyer hbuyer
    obtain ⟨number, hnumber, _⟩ := hfunded buyer (hinput.buyers ▸ hbuyer)
    obtain ⟨funding, hfunding, rfl, _⟩ := mem_fundingBlocks.mp hnumber
    obtain ⟨evidence, hevidence, hassembled⟩ := forall₂_exists_right hinput.fundings hfunding
    exact ⟨evidence, hevidence, hassembled.time.1⟩

end Agreement

/-! ## A settlement in the block of its funding -/

/-- Buyer 13 settled in the block of its funding: the settlement is handed over and rejected. -/
theorem sameBlock_settlement_rejected :
    ServesLogs daysNode daysHistory ∧ daysHistory.Timed ∧
    ∃ case input, readCase (daysCase 13) = .ok case ∧
      fetchInput daysLib daysNode (fun _ _ _ => 0) [] [] (daysCase 13) = .ok input ∧
      FundedInPeriod daysHistory case ∧ ¬ FollowsFunding daysLib.toLib input ∧
      verifyClosedLoop daysLib.toLib input = .error (.err unfundedSettlement) := by
  refine ⟨daysNode_serves, days_timed, ?_⟩
  have hrun : (fetchInput daysLib daysNode (fun _ _ _ => 0) [] [] (daysCase 13)).toOption.any
      (fun input => input.buyers = [13] ∧ input.fundings.map (·.buyer) = [13] ∧
        (verifyClosedLoop daysLib.toLib input).map (fun _ => ()) =
          .error (.err unfundedSettlement)) = true := by
    decide +kernel
  have hfunded : fundingBlocks daysHistory ⟨11, 12, [13], [.usdc 13 (daysTx 12)], [], 64⟩ 13 =
      [44471600] := by
    decide +kernel
  cases hinput : fetchInput daysLib daysNode (fun _ _ _ => 0) [] [] (daysCase 13) with
  | error e =>
    rw [hinput] at hrun
    cases hrun
  | ok input =>
    rw [hinput] at hrun
    obtain ⟨hbuyers, hfundings, hverdict⟩ := of_decide_eq_true hrun
    have hrejected : verifyClosedLoop daysLib.toLib input = .error (.err unfundedSettlement) := by
      cases hresult : verifyClosedLoop daysLib.toLib input with
      | error e =>
        rw [hresult] at hverdict
        exact congrArg _ (Except.error.inj hverdict)
      | ok journal =>
        rw [hresult] at hverdict
        cases hverdict
    refine ⟨⟨11, 12, [13], [.usdc 13 (daysTx 12)], [], 64⟩, input, rfl, rfl, ?_, ?_, hrejected⟩
    · intro buyer hbuyer
      obtain rfl := List.mem_singleton.mp hbuyer
      exact ⟨44471600, hfunded ▸ List.mem_singleton_self _, by decide, by decide⟩
    · intro hfollows
      refine verifyClosedLoop_avoids ?_ hfollows unfundedSettlement ?_ hrejected
      · intro buyer hbuyer
        rw [hbuyers, ← hfundings] at hbuyer
        exact List.mem_map.mp hbuyer
      · exact List.mem_cons_self

/-- Buyer 14 settled in the next block. -/
theorem nextBlock_settlement_follows : ∃ input,
    fetchInput daysLib daysNode (fun _ _ _ => 0) [] [] (daysCase 14) = .ok input ∧
      FollowsFunding daysLib.toLib input := by
  have hrun : (fetchInput daysLib daysNode (fun _ _ _ => 0) [] [] (daysCase 14)).toOption.isSome =
      true := by
    decide +kernel
  cases hinput : fetchInput daysLib daysNode (fun _ _ _ => 0) [] [] (daysCase 14) with
  | error e =>
    rw [hinput] at hrun
    cases hrun
  | ok input =>
    have hcache : WrittenCache daysNode.toNode [] := fun file hfile => absurd hfile
      List.not_mem_nil
    have hcase : readCase (daysCase 14) =
        .ok ⟨11, 12, [14], [.usdc 14 (daysTx 12)], [], 64⟩ := rfl
    have hlater : SettlesLater daysHistory ⟨11, 12, [14], [.usdc 14 (daysTx 12)], [], 64⟩ := by
      have hfirst : fundingBlocks daysHistory ⟨11, 12, [14], [.usdc 14 (daysTx 12)], [], 64⟩ 14 =
          [44471600] := by
        decide +kernel
      have hnone : daysHistory.select (settledFilter 14 11) 44471600 44471600 = [] := by
        decide +kernel
      intro buyer hbuyer _
      obtain rfl := List.mem_singleton.mp hbuyer
      rw [hfirst]
      exact fun _ => hnone
    exact ⟨input, rfl, ((fetched_settlements_follow rfl daysNode_serves days_timed hcache hcase
      hinput).mpr hlater).1⟩

end LoopProof.Host
