import LoopProof.Predicate.Exemplar
import LoopProof.Correctness.Ledgers
import LoopProof.Loop.Pair

/-!
# The reciprocal verifier and its specification

The measurement loop refines the growing list of settlements split by seller, and the
deposit loop the growing list of self-financed deposits.
-/

namespace LoopProof

variable {lib : Lib} {input : ReciprocalInput} {resolver : ChainResolver}

/-- The pair rule the coded predicate fixes. -/
def codedPairRule : Loop.PairRule where
  balanceBps := betaReciprocalBps.val
  selfBps := alphaSelfBps.val
  amountBound := 2 ^ 128

section Measurement

variable {ss : List (Loop.Settlement Address LogKey)} {s : Loop.Settlement Address LogKey}

/-- Settlements the measurement can have accepted together. -/
structure SalesOk (input : ReciprocalInput) (ss : List (Loop.Settlement Address LogKey)) :
    Prop where
  distinct : (ss.map (·.position)).Nodup
  inPeriod : ∀ s ∈ ss, EventPeriod input.periodStartBlock input.periodEndBlock s.position
  betweenPair : ∀ s ∈ ss, 0 < s.amount ∧ Loop.BetweenPair input.addressA input.addressB s
  fitsA : Loop.soldBy ss input.addressA < 2 ^ 128
  fitsB : Loop.soldBy ss input.addressB < 2 ^ 128

/-- The loop state holds both shares with their records, and the positions. -/
structure MeasureState (lib : CoreLib) (input : ReciprocalInput) (state : PairMeasure × UsedLogs)
    (ss : List (Loop.Settlement Address LogKey)) : Prop where
  used : state.2 = (ss.map (·.position)).toFinset
  sellsA : state.1.sellsA.val = Loop.soldBy ss input.addressA
  sellsB : state.1.sellsB.val = Loop.soldBy ss input.addressB
  recordsA : state.1.settlementsA = (Loop.salesOf ss input.addressA).map (recordOf lib)
  recordsB : state.1.settlementsB = (Loop.salesOf ss input.addressB).map (recordOf lib)

theorem measureState_empty {core : CoreLib} : MeasureState core input (PairMeasure.empty, ∅) [] :=
  ⟨rfl, rfl, rfl, rfl, rfl⟩

theorem salesOk_nil : SalesOk input [] :=
  ⟨List.nodup_nil, by simp, by simp, by simp [Loop.soldBy, Loop.salesOf, Loop.settledTotal],
    by simp [Loop.soldBy, Loop.salesOf, Loop.settledTotal]⟩

/-- The measured settlements grow by a fresh settlement between the pair. -/
theorem salesOk_concat : SalesOk input (ss ++ [s]) ↔ SalesOk input ss ∧
    s.position ∉ ss.map (·.position) ∧
    EventPeriod input.periodStartBlock input.periodEndBlock s.position ∧
    0 < s.amount ∧ Loop.BetweenPair input.addressA input.addressB s ∧
    Loop.soldBy (ss ++ [s]) input.addressA < 2 ^ 128 ∧
    Loop.soldBy (ss ++ [s]) input.addressB < 2 ^ 128 := by
  have hkeys : (ss ++ [s]).map (·.position) = ss.map (·.position) ++ [s.position] := by
    rw [List.map_append, List.map_singleton]
  constructor
  · rintro ⟨hd, hp, hb, hfa, hfb⟩
    rw [hkeys, nodup_concat] at hd
    simp only [List.forall_mem_append, List.forall_mem_singleton] at hp hb
    refine ⟨⟨hd.1, hp.1, hb.1, ?_, ?_⟩, hd.2, hp.2, hb.2.1, hb.2.2, hfa, hfb⟩
    · rw [Loop.soldBy_concat] at hfa
      omega
    · rw [Loop.soldBy_concat] at hfb
      omega
  · rintro ⟨⟨hd, hp, hb, _, _⟩, hd', hp', hpos, hb', hfa, hfb⟩
    refine ⟨?_, List.forall_mem_append.mpr ⟨hp, by simpa using hp'⟩,
      List.forall_mem_append.mpr ⟨hb, by simpa using ⟨hpos, hb'⟩⟩, hfa, hfb⟩
    rw [hkeys, nodup_concat]
    exact ⟨hd, hd'⟩

/-- The measure after one more settlement: the seller's share grows. -/
def PairMeasure.record (measure : PairMeasure) (lib : CoreLib) (input : ReciprocalInput)
    (s : Loop.Settlement Address LogKey) (sells : U128) : PairMeasure :=
  if s.seller = input.addressA then
    { measure with sellsA := sells, settlementsA := measure.settlementsA ++ [recordOf lib s] }
  else { measure with sellsB := sells, settlementsB := measure.settlementsB ++ [recordOf lib s] }

/-- The seller's share before a settlement. -/
def PairMeasure.share (measure : PairMeasure) (input : ReciprocalInput) (seller : Address) : U128 :=
  if seller = input.addressA then measure.sellsA else measure.sellsB

/-- One accepted settlement leaves a state that represents it as well. -/
theorem measureState_concat (hab : input.addressA ≠ input.addressB) {core : CoreLib}
    {measure : PairMeasure} {used : UsedLogs} {sells : U128}
    (h : MeasureState core input (measure, used) ss)
    (hpair : Loop.BetweenPair input.addressA input.addressB s)
    (hsells : sells.val = (measure.share input s.seller).val + s.amount) :
    MeasureState core input (measure.record core input s sells,
      (ss.map (·.position) ++ [s.position]).toFinset) (ss ++ [s]) := by
  obtain ⟨_, ha, hb, hra, hrb⟩ := h
  simp only at ha hb hra hrb
  have hseller : s.seller = input.addressA ∨ s.seller = input.addressB := by
    rcases hpair with ⟨_, h⟩ | ⟨_, h⟩
    · exact .inl h
    · exact .inr h
  rcases hseller with hs | hs
  · simp only [PairMeasure.share, hs, if_true] at hsells
    refine ⟨by simp, ?_, ?_, ?_, ?_⟩ <;>
      simp [PairMeasure.record, hs, Loop.soldBy_concat, Loop.salesOf_concat, hab, hsells, ha, hb,
        hra, hrb]
  · simp only [PairMeasure.share, hs, hab.symm, if_false] at hsells
    refine ⟨by simp, ?_, ?_, ?_, ?_⟩ <;>
      simp [PairMeasure.record, hs, Loop.soldBy_concat, Loop.salesOf_concat, hab.symm, hsells, ha,
        hb, hra, hrb]

/-- A settlement is credited exactly when it is between the pair and the share fits. -/
theorem sell_eq_ok {core : CoreLib} (hab : input.addressA ≠ input.addressB) {amount : U128}
    (hamount : amount.val = s.amount) {measure measure' : PairMeasure} :
    measure.sell input s.buyer s.seller ⟨settlementId core baseChainId s.position.blockNumber
        s.position.txIndex s.position.logIndex, amount⟩ = .ok measure' ↔
      Loop.BetweenPair input.addressA input.addressB s ∧ ∃ sells : U128,
        sells.val = (measure.share input s.seller).val + s.amount ∧
        measure' = measure.record core input s sells := by
  rw [recordOf_eq hamount]
  have hrecord : (recordOf core s).amount.val = s.amount := by
    rw [← recordOf_eq hamount]
    exact hamount
  unfold PairMeasure.sell
  split
  · rename_i hA
    simp only [bind_eq_ok, okOr_eq_ok, checkedAdd_eq_some, pure_eq_ok, hrecord]
    rw [PairMeasure.share, if_pos hA.2]
    simp only [PairMeasure.record, hA.2, if_true, eq_comm (b := measure')]
    exact ⟨fun h => ⟨.inl hA, h⟩, fun h => h.2⟩
  · rename_i hA
    split
    · rename_i hB
      have hne : s.seller ≠ input.addressA := fun h => hab (h.symm.trans hB.2)
      simp only [bind_eq_ok, okOr_eq_ok, checkedAdd_eq_some, pure_eq_ok, hrecord]
      rw [PairMeasure.share, if_neg hne]
      simp only [PairMeasure.record, hne, if_false, eq_comm (b := measure')]
      exact ⟨fun h => ⟨.inr hB, h⟩, fun h => h.2⟩
    · rename_i hB
      constructor
      · intro h
        cases h
      · rintro ⟨h | h, _⟩
        · exact absurd h hA
        · exact absurd h hB

/-- Every resolved log has a block time. -/
theorem timestamp_of_logKey {ref : LogRef} {key : LogKey}
    (h : resolver.logKey lib ref = .ok key) : ∃ time, resolver.timestamp ref = .ok time := by
  obtain ⟨_, _, block, hlog, _⟩ := ChainResolver.logKey_eq_ok.mp h
  obtain ⟨hblock, _⟩ := ChainResolver.log_eq_ok.mp hlog
  refine ⟨block.header.timestamp, ?_⟩
  simp only [ChainResolver.timestamp, ChainResolver.block, bind_eq_ok, okOr_eq_ok, pure_eq_ok]
  exact ⟨block, hblock, rfl⟩

/-- The measurement loop refines the growing list of settlements between the pair. -/
theorem pairSettlementStep_refines (hab : input.addressA ≠ input.addressB) :
    StepRefines (pairSettlementStep lib input resolver) (SettlementAt lib resolver)
      (SalesOk input) (MeasureState lib.toCoreLib input) where
  sound := by
    rintro ⟨measure, used⟩ ss ref ⟨measure', used'⟩ hok hrep hstep
    obtain rfl : used = _ := hrep.used
    simp only [pairSettlementStep, bind_eq_ok, ensure_eq_ok, ensureEventInPeriod_eq_ok, pure_eq_ok,
      insertNew_toFinset, Prod.exists, Prod.mk.injEq] at hstep
    obtain ⟨key, hkey, used₁, ⟨hfresh, rfl⟩, channel, buyer, seller, amount, n, hevent, _, hperiod,
      _, hpos, measure₁, hsell, rfl, rfl⟩ := hstep
    have hn := ChainResolver.settlement_block hevent hkey
    subst hn
    obtain ⟨time, htime⟩ := timestamp_of_logKey hkey
    have hitem : SettlementAt lib resolver ref ⟨key, buyer, seller, amount.val, time.val⟩ :=
      ⟨hkey, ⟨channel, amount, rfl, hevent⟩, ⟨time, rfl, htime⟩⟩
    have hpos : 0 < amount.val := Fin.pos_iff_ne_zero.mpr hpos
    obtain ⟨hpair, sells, hsells, rfl⟩ :=
      (sell_eq_ok (s := ⟨key, buyer, seller, amount.val, time.val⟩) hab rfl).mp hsell
    have hnext := measureState_concat hab hrep hpair hsells
    refine ⟨_, hitem, salesOk_concat.mpr ⟨hok, hfresh, hperiod, hpos, hpair, ?_, ?_⟩, hnext⟩
    · exact hnext.sellsA ▸ Fin.isLt _
    · exact hnext.sellsB ▸ Fin.isLt _
  complete := by
    rintro ⟨measure, used⟩ ss ref s hrep ⟨hkey, ⟨channel, amount, hamount, hevent⟩, _⟩ hok
    obtain ⟨hok, hfresh, hperiod, hpos, hpair, hfitsA, hfitsB⟩ := salesOk_concat.mp hok
    obtain rfl : used = _ := hrep.used
    obtain ⟨sells, hsells⟩ : ∃ sells : U128,
        sells.val = (measure.share input s.seller).val + s.amount := by
      have ha : measure.sellsA.val = _ := hrep.sellsA
      have hb : measure.sellsB.val = _ := hrep.sellsB
      rw [Loop.soldBy_concat] at hfitsA hfitsB
      rcases hpair with ⟨_, hs⟩ | ⟨_, hs⟩
      · rw [if_pos hs] at hfitsA
        rw [PairMeasure.share, if_pos hs, ha]
        exact ⟨⟨_, hfitsA⟩, rfl⟩
      · rw [if_pos hs] at hfitsB
        rw [PairMeasure.share, if_neg (hs ▸ hab.symm), hb]
        exact ⟨⟨_, hfitsB⟩, rfl⟩
    have hpos : amount ≠ 0 := Fin.pos_iff_ne_zero.mp (Fin.lt_def.mpr (hamount.symm ▸ hpos))
    refine ⟨_, ?_, measureState_concat hab hrep hpair hsells⟩
    simp only [pairSettlementStep, bind_eq_ok, ensure_eq_ok, ensureEventInPeriod_eq_ok, pure_eq_ok,
      insertNew_toFinset, Prod.exists]
    exact ⟨s.position, hkey, _, ⟨hfresh, rfl⟩, channel, s.buyer, s.seller, amount, _, hevent, (),
      hperiod, (), hpos, _, (sell_eq_ok hab hamount).mpr ⟨hpair, sells, hsells, rfl⟩, rfl⟩
  prefix_closed h := (salesOk_concat.mp h).1

end Measurement

section Deposits

variable {keys : List LogKey} {ds : List (Loop.Funding Address LogKey)}
  {d : Loop.Funding Address LogKey}

/-- The evidence entry is a deposit paid and signed by a member and crediting a member. -/
structure PairDepositAt (lib : Lib) (resolver : ChainResolver) (input : ReciprocalInput)
    (evidence : PairDepositEvidence) (d : Loop.Funding Address LogKey) : Prop where
  member : evidence.member = input.addressA ∨ evidence.member = input.addressB
  deposit : ∃ (t : Loop.Transfer Address LogKey) (key : LogKey),
    (t.sender = input.addressA ∨ t.sender = input.addressB) ∧
    DepositAt lib resolver evidence.transfer evidence.deposited t.sender evidence.member t key ∧
    d = ⟨evidence.member, t.amount, t.time, [t.position, key]⟩

/-- Deposits the loop can have accepted, after the positions consumed before them. -/
structure DepositsOk (input : ReciprocalInput) (keys : List LogKey)
    (ds : List (Loop.Funding Address LogKey)) : Prop where
  distinct : (keys ++ Loop.fundingPositions ds).Nodup
  inPeriod : ∀ p ∈ Loop.fundingPositions ds,
    EventPeriod input.periodStartBlock input.periodEndBlock p
  fits : Loop.fundedTotal ds < 2 ^ 128

/-- The loop state holds the internal total and the consumed positions. -/
structure DepositState (keys : List LogKey) (state : U128 × UsedLogs)
    (ds : List (Loop.Funding Address LogKey)) : Prop where
  used : state.2 = (keys ++ Loop.fundingPositions ds).toFinset
  total : state.1.val = Loop.fundedTotal ds

theorem depositState_empty {used : UsedLogs} (h : used = keys.toFinset) :
    DepositState keys (0, used) [] := by
  refine ⟨?_, rfl⟩
  rw [Loop.fundingPositions, List.flatMap_nil, List.append_nil]
  exact h

theorem depositsOk_nil (h : keys.Nodup) : DepositsOk input keys [] :=
  ⟨by simpa [Loop.fundingPositions] using h, by simp [Loop.fundingPositions],
    by simp [Loop.fundedTotal]⟩

/-- The accepted deposits grow by a fresh deposit whose amount fits. -/
theorem depositsOk_concat : DepositsOk input keys (ds ++ [d]) ↔ DepositsOk input keys ds ∧
    d.positions.Nodup ∧ (∀ p ∈ d.positions, p ∉ keys ++ Loop.fundingPositions ds) ∧
    (∀ p ∈ d.positions, EventPeriod input.periodStartBlock input.periodEndBlock p) ∧
    Loop.fundedTotal ds + d.amount < 2 ^ 128 := by
  have hkeys : keys ++ Loop.fundingPositions (ds ++ [d]) =
      (keys ++ Loop.fundingPositions ds) ++ d.positions := by
    rw [Loop.fundingPositions_append, Loop.fundingPositions_singleton, List.append_assoc]
  constructor
  · rintro ⟨hd, hp, hf⟩
    rw [hkeys, List.nodup_append] at hd
    rw [Loop.fundingPositions_append, Loop.fundingPositions_singleton,
      List.forall_mem_append] at hp
    rw [Loop.fundedTotal_append, Loop.fundedTotal_singleton] at hf
    exact ⟨⟨hd.1, hp.1, by omega⟩, hd.2.1, fun p hp hk => hd.2.2 p hk p hp rfl, hp.2, hf⟩
  · rintro ⟨⟨hd, hp, _⟩, hd', hu, hp', hf⟩
    refine ⟨?_, ?_, ?_⟩
    · rw [hkeys, List.nodup_append]
      exact ⟨hd, hd', fun a ha b hb heq => hu b hb (heq ▸ ha)⟩
    · rw [Loop.fundingPositions_append, Loop.fundingPositions_singleton]
      exact List.forall_mem_append.mpr ⟨hp, hp'⟩
    · rwa [Loop.fundedTotal_append, Loop.fundedTotal_singleton]

/-- The deposit loop refines the growing list of self-financed deposits. -/
theorem pairDepositStep_refines : StepRefines (pairDepositStep lib input resolver)
    (PairDepositAt lib resolver input) (DepositsOk input keys) (DepositState keys) where
  sound := by
    rintro ⟨total, used⟩ ds evidence ⟨total', used'⟩ hok hrep hstep
    obtain rfl : used = _ := hrep.used
    simp only [pairDepositStep, bind_eq_ok, ensure_eq_ok, ensureEventInPeriod_eq_ok, pure_eq_ok,
      okOr_eq_ok, checkedAdd_eq_some, Prod.exists, Prod.mk.injEq] at hstep
    obtain ⟨_, hmember, _, hsame, key, hkey, dkey, hdkey, _, horder, used₁, h₁, used₂, h₂, sender,
      recipient, amount, n, htransfer, _, hperiod, b, a, n', hdeposit, _,
      ⟨rfl, rfl, rfl, hpos, hpayer⟩, _, hsigner, sum, hsum, rfl, rfl⟩ := hstep
    obtain ⟨hfresh, rfl⟩ := insertNew_toFinset.mp h₁
    obtain ⟨hdfresh, rfl⟩ := insertNew_toFinset.mp h₂
    have hn := ChainResolver.usdcTransfer_block htransfer hkey
    subst hn
    obtain ⟨time, htime⟩ := timestamp_of_logKey hkey
    have hitem : DepositAt lib resolver evidence.transfer evidence.deposited sender evidence.member
        ⟨key, sender, depositsAddress, amount.val, time.val⟩ dkey :=
      ⟨hsame, ⟨hkey, ⟨amount, rfl, htransfer⟩, ⟨time, rfl, htime⟩⟩, hdkey, horder, rfl, rfl,
        ⟨amount, n', rfl, hdeposit⟩, Fin.pos_iff_ne_zero.mpr hpos, hsigner⟩
    have hdperiod : EventPeriod input.periodStartBlock input.periodEndBlock dkey := by
      have hblock : key.blockNumber = dkey.blockNumber := hitem.block_eq
      rwa [EventPeriod, ← hblock]
    have htotal : sum.val = Loop.fundedTotal ds + amount.val := by
      rw [hsum]
      exact congrArg (· + amount.val) hrep.total
    refine ⟨_, ⟨hmember, ⟨key, sender, depositsAddress, amount.val, time.val⟩, dkey, hpayer, hitem,
      rfl⟩, depositsOk_concat.mpr ⟨hok, ?_, ?_, ?_, ?_⟩, ⟨?_, ?_⟩⟩
    · simpa using horder.ne
    · simp only [List.forall_mem_cons, List.not_mem_nil, false_implies, implies_true, and_true]
      exact ⟨hfresh, fun h => hdfresh (List.mem_append_left _ h)⟩
    · simpa using ⟨hperiod, hdperiod⟩
    · exact htotal ▸ sum.isLt
    · simp [Loop.fundingPositions_append]
    · rw [Loop.fundedTotal_append, Loop.fundedTotal_singleton]
      exact htotal
  complete := by
    rintro ⟨total, used⟩ ds evidence _ hrep ⟨hmember, t, dkey, hpayer, hitem, rfl⟩ hok
    obtain ⟨hok, _, hfresh, hperiod, hfits⟩ := depositsOk_concat.mp hok
    obtain rfl : used = _ := hrep.used
    obtain ⟨hsame, ⟨hkey, ⟨amount, ha, htransfer⟩, _⟩, hdkey, horder, _, hrecipient,
      ⟨amount', n, ha', hdeposit⟩, hpos, hsigner⟩ := hitem
    obtain rfl : amount = amount' := Fin.ext (ha.trans ha'.symm)
    simp only [List.forall_mem_cons] at hfresh hperiod
    have hpos : amount ≠ 0 := Fin.pos_iff_ne_zero.mp (Fin.lt_def.mpr (ha.symm ▸ hpos))
    have hdfresh : dkey ∉ keys ++ Loop.fundingPositions ds ++ [t.position] := by
      rw [List.mem_append, List.mem_singleton, not_or]
      exact ⟨hfresh.2.1, horder.ne'⟩
    obtain ⟨sum, hsum⟩ : ∃ sum : U128, sum.val = total.val + t.amount := by
      have htotal : total.val = _ := hrep.total
      rw [htotal]
      exact ⟨⟨_, hfits⟩, rfl⟩
    refine ⟨(sum, (keys ++ Loop.fundingPositions ds ++ [t.position] ++ [dkey]).toFinset), ?_,
      ⟨?_, ?_⟩⟩
    · simp only [pairDepositStep, bind_eq_ok, ensure_eq_ok, ensureEventInPeriod_eq_ok, pure_eq_ok,
        okOr_eq_ok, checkedAdd_eq_some, Prod.exists]
      exact ⟨(), hmember, (), hsame, t.position, hkey, dkey, hdkey, (), horder, _,
        insertNew_toFinset.mpr ⟨hfresh.1, rfl⟩, _, insertNew_toFinset.mpr ⟨hdfresh, rfl⟩, _, _, _,
        _, htransfer, (), hperiod.1, _, _, _, hdeposit, (), ⟨hrecipient, rfl, rfl, hpos, hpayer⟩,
        (), hsigner, sum, ha ▸ hsum, rfl⟩
    · simp [Loop.fundingPositions_append]
    · rw [Loop.fundedTotal_append, Loop.fundedTotal_singleton, ← hrep.total]
      exact hsum
  prefix_closed h := (depositsOk_concat.mp h).1

end Deposits

section Verifier

variable {e : Loop.PairEvidence Address LogKey}

/-- The part of a pair claim that is checked before its evidence. -/
structure ReciprocalClaim (lib : Lib) (input : ReciprocalInput) : Prop where
  chain : input.chainId = baseChainId
  period : input.periodStartBlock ≠ 0 ∧ input.periodStartBlock ≤ input.periodEndBlock
  pair : input.addressA ≠ 0 ∧ input.addressB ≠ 0 ∧ input.addressA < input.addressB
  blocks : BlocksAuthentic lib.toCoreLib input.blocks input.periodStartBlock input.periodEndBlock

/-- The references of a pair claim resolve to the evidence, entry by entry. -/
structure ReciprocalResolves (lib : Lib) (input : ReciprocalInput)
    (e : Loop.PairEvidence Address LogKey) : Prop where
  settlements : List.Forall₂ (SettlementAt lib ⟨input.blocks⟩) input.settlements e.settlements
  deposits : List.Forall₂ (PairDepositAt lib ⟨input.blocks⟩ input) input.internalDeposits e.deposits

/-- The resolved evidence of a pair claim is determined by its references. -/
theorem ReciprocalResolves.unique {e' : Loop.PairEvidence Address LogKey}
    (h : ReciprocalResolves lib input e) (h' : ReciprocalResolves lib input e') : e = e' := by
  obtain ⟨ss, ds⟩ := e
  obtain ⟨ss', ds'⟩ := e'
  obtain rfl : ss = ss' :=
    List.right_unique_forall₂' (fun _ _ _ hr hr' => hr.unique hr') h.settlements h'.settlements
  obtain rfl : ds = ds' := by
    refine List.right_unique_forall₂' (fun _ _ _ hr hr' => ?_) h.deposits h'.deposits
    obtain ⟨_, t, key, _, hdeposit, rfl⟩ := hr
    obtain ⟨_, t', key', _, hdeposit', rfl⟩ := hr'
    obtain ⟨rfl, rfl⟩ := hdeposit.unique hdeposit'
    rfl
  rfl

/-- The exchange condition at the coded rule and the claim's own pair. -/
def CodedExchange (input : ReciprocalInput) (e : Loop.PairEvidence Address LogKey) : Prop :=
  Loop.Exchange codedPairRule (EventPeriod input.periodStartBlock input.periodEndBlock)
    input.addressA input.addressB e

/-- The pair reconciliation as the code computes it, with the left side reduced modulo the
width of its words. -/
def WrappedSelfFinanced (e : Loop.PairEvidence Address LogKey) (balanceA balanceB : ℕ) : Prop :=
  (balanceA + balanceB + Loop.settledTotal e.settlements) * 10000 % 2 ^ 256 ≤
    Loop.fundedTotal e.deposits * 10000 + Loop.settledTotal e.settlements * 1000

/-- Both balance reads succeed, and the given test accepts the balances. -/
def PairLedgersOk (lib : Lib) (input : ReciprocalInput) (accepts : ℕ → ℕ → Prop) : Prop :=
  ∃ endA endB : U256,
    endBalance lib ⟨input.blocks⟩ input.periodEndBlock input.addressA input.ledgerA = .ok endA ∧
    endBalance lib ⟨input.blocks⟩ input.periodEndBlock input.addressB input.ledgerB = .ok endB ∧
    accepts endA.val endB.val

/-- The subject record of one member. -/
def subjectOf (lib : CoreLib) (ss : List (Loop.Settlement Address LogKey)) (seller : Address) :
    SubjectRecord :=
  ⟨seller, Fin.ofNat (2 ^ 128) (Loop.soldBy ss seller),
    (Loop.salesOf ss seller).map (recordOf lib)⟩

/-- The journal of an accepted pair claim. -/
def reciprocalJournal (lib : Lib) (input : ReciprocalInput)
    (e : Loop.PairEvidence Address LogKey) (bytes : Bytes) : WashJournal where
  predicateId := reciprocalPredicateId
  chainId := baseChainId
  periodStartBlock := input.periodStartBlock
  periodEndBlock := input.periodEndBlock
  sourceClaimId := input.sourceClaimId
  claimId := reciprocalClaimId lib.toCoreLib input.periodStartBlock input.periodEndBlock
    input.addressA input.addressB (lib.keccak256 bytes)
  subjects := [subjectOf lib.toCoreLib e.settlements input.addressA,
    subjectOf lib.toCoreLib e.settlements input.addressB]
  blockRefs := sortedReferences lib.toCoreLib input.blocks

/-- The exchange is the conjunction of what the loops and the ratio test establish. -/
theorem codedExchange_iff (hab : input.addressA ≠ input.addressB) : CodedExchange input e ↔
    e.settlements ≠ [] ∧ SalesOk input e.settlements ∧
    Loop.soldBy e.settlements input.addressA + Loop.soldBy e.settlements input.addressB < 2 ^ 128 ∧
    Loop.Balanced codedPairRule e.settlements input.addressA input.addressB ∧
    DepositsOk input (e.settlements.map (·.position)) e.deposits := by
  constructor
  · rintro ⟨⟨hd, hp, hpair, hfits, hbal, hdep⟩, hne⟩
    rw [Loop.PairEvidence.positions] at hd hp
    rw [List.forall_mem_append, List.forall_mem_map] at hp
    have hsum := Loop.soldBy_pair hab fun s hs => (hpair s hs).2
    have hfits : Loop.settledTotal e.settlements < 2 ^ 128 := hfits
    exact ⟨hne, ⟨(List.nodup_append.mp hd).1, hp.1, hpair, by omega, by omega⟩, by omega, hbal,
      ⟨hd, hp.2, hdep⟩⟩
  · rintro ⟨hne, ⟨_, hps, hpair, _, _⟩, hfits, hbal, ⟨hd, hpd, hdep⟩⟩
    rw [Loop.soldBy_pair hab fun s hs => (hpair s hs).2] at hfits
    refine ⟨⟨hd, ?_, hpair, hfits, hbal, hdep⟩, hne⟩
    rw [Loop.PairEvidence.positions, List.forall_mem_append, List.forall_mem_map]
    exact ⟨hps, hpd⟩

/-- Sums and products of words below the width are exact. -/
private theorem wrappedPairSides {endA endB : U256} {total internal : U128} :
    (endA + endB + widen (by decide) total) * 10000 ≤
        (widen (by decide) internal : U256) * 10000 +
          widen (by decide) total * widen (by decide) (10000 - alphaSelfBps) ↔
      (endA.val + endB.val + total.val) * 10000 % 2 ^ 256 ≤
        internal.val * 10000 + total.val * 1000 := by
  have ht := total.isLt
  have hi := internal.isLt
  have hsum : internal.val * 10000 + total.val * 1000 < 2 ^ 256 := by omega
  have hleft : internal.val * 10000 < 2 ^ 256 := (Nat.le_add_right _ _).trans_lt hsum
  have hright : total.val * 1000 < 2 ^ 256 := (Nat.le_add_left _ _).trans_lt hsum
  have hten : ((10000 : U256) : ℕ) = 10000 := rfl
  have hself : ((10000 - alphaSelfBps : U64) : ℕ) = 1000 := by decide
  rw [Fin.le_def, Fin.val_mul, Fin.val_add, Fin.val_add, Fin.val_add, Fin.val_mul, Fin.val_mul,
    widen_val, widen_val, widen_val, hten, hself, Nat.mod_mul_mod, Nat.mod_eq_of_lt hleft,
    Nat.mod_eq_of_lt hright, Nat.mod_eq_of_lt hsum]
  rw [← Nat.mod_mul_mod, Nat.mod_add_mod, Nat.mod_mul_mod]

/-- Below the bound no intermediate of the pair reconciliation wraps. -/
theorem wrappedSelfFinanced_iff {balanceA balanceB : ℕ} (ha : balanceA < 2 ^ 240)
    (hb : balanceB < 2 ^ 240) (hfits : Loop.settledTotal e.settlements < 2 ^ 128) :
    WrappedSelfFinanced e balanceA balanceB ↔
      Loop.SelfFinanced codedPairRule e balanceA balanceB := by
  have hlt : (balanceA + balanceB + Loop.settledTotal e.settlements) * 10000 < 2 ^ 256 := by omega
  rw [WrappedSelfFinanced, Nat.mod_eq_of_lt hlt]
  rfl

/-- The reciprocity test of a represented measure. -/
private theorem balanced_iff {core : CoreLib} {state : PairMeasure × UsedLogs}
    {ss : List (Loop.Settlement Address LogKey)} (h : MeasureState core input state ss) :
    meetsRatio (min state.1.sellsA state.1.sellsB) (max state.1.sellsA state.1.sellsB)
        betaReciprocalBps = true ↔
      Loop.Balanced codedPairRule ss input.addressA input.addressB := by
  have hmin : (min state.1.sellsA state.1.sellsB).val =
      min state.1.sellsA.val state.1.sellsB.val := Fin.coe_min _ _
  have hmax : (max state.1.sellsA state.1.sellsB).val =
      max state.1.sellsA.val state.1.sellsB.val := Fin.coe_max _ _
  rw [meetsRatio_iff, hmin, hmax, h.sellsA, h.sellsB]
  rfl

/-- The subjects of a represented measure. -/
private theorem subjects_eq {core : CoreLib} {state : PairMeasure × UsedLogs}
    {ss : List (Loop.Settlement Address LogKey)} (h : MeasureState core input state ss) :
    [(⟨input.addressA, state.1.sellsA, state.1.settlementsA⟩ : SubjectRecord),
      ⟨input.addressB, state.1.sellsB, state.1.settlementsB⟩] =
      [subjectOf core ss input.addressA, subjectOf core ss input.addressB] := by
  have hA : state.1.sellsA = Fin.ofNat (2 ^ 128) (Loop.soldBy ss input.addressA) := by
    rw [← h.sellsA]
    exact (Fin.ofNat_val_eq_self _).symm
  have hB : state.1.sellsB = Fin.ofNat (2 ^ 128) (Loop.soldBy ss input.addressB) := by
    rw [← h.sellsB]
    exact (Fin.ofNat_val_eq_self _).symm
  rw [subjectOf, subjectOf, hA, hB, h.recordsA, h.recordsB]

/-- The verifier returns a journal exactly for the well-formed pair claims whose references
resolve to an exchange and whose ledgers pass, and the journal is determined by them. -/
theorem verifyReciprocal_eq_ok {journal : WashJournal} :
    verifyReciprocal lib input = .ok journal ↔ ReciprocalClaim lib input ∧
      ∃ e, ReciprocalResolves lib input e ∧ CodedExchange input e ∧
        PairLedgersOk lib input (WrappedSelfFinanced e) ∧
        ∃ bytes, lib.reciprocalJson input = .ok bytes ∧
          journal = reciprocalJournal lib input e bytes := by
  simp only [verifyReciprocal, validateChain, canonicalEvidenceHash, bind_eq_ok, ensure_eq_ok,
    mapError_eq_ok, pure_eq_ok, okOr_eq_ok, checkedAdd_eq_some, authenticateBlocks_eq_ok,
    Prod.exists]
  constructor
  · rintro ⟨_, hchain, _, hperiod, _, hpair, _, ⟨hblocks, rfl⟩, _, hne, measure, used, hs, total,
      htotal, _, hratio, internal, used', hd, endA, hA, endB, hB, _, hledger, _,
      ⟨bytes, hjson, rfl⟩, rfl⟩
    have hab := hpair.2.2.ne
    obtain ⟨ss, hsres, hsok, hsrep⟩ :=
      (pairSettlementStep_refines hab).run_sound measureState_empty salesOk_nil hs
    rw [List.nil_append] at hsok hsrep
    obtain ⟨ds, hdres, hdok, hdrep⟩ := pairDepositStep_refines.run_sound
      (depositState_empty hsrep.used) (depositsOk_nil hsok.distinct) hd
    rw [List.nil_append] at hdok hdrep
    have hsum := Loop.soldBy_pair hab fun s hs => (hsok.betweenPair s hs).2
    have htotal : total.val = Loop.settledTotal ss := by
      rw [htotal, ← hsum]
      exact congrArg₂ (· + ·) hsrep.sellsA hsrep.sellsB
    have hinternal : internal.val = Loop.fundedTotal ds := hdrep.total
    have hfits : Loop.soldBy ss input.addressA + Loop.soldBy ss input.addressB < 2 ^ 128 := by
      rw [hsum, ← htotal]
      exact total.isLt
    have hne' : ss ≠ [] := by
      rintro rfl
      exact hne (List.forall₂_nil_right_iff.mp hsres)
    rw [wrappedPairSides, htotal, hinternal] at hledger
    refine ⟨⟨hchain, hperiod, hpair, hblocks⟩, ⟨ss, ds⟩, ⟨hsres, hdres⟩,
      (codedExchange_iff hab).mpr ⟨hne', hsok, hfits, (balanced_iff hsrep).mp hratio, hdok⟩,
      ⟨endA, endB, hA, hB, hledger⟩, bytes, hjson, ?_⟩
    rw [reciprocalJournal, ← subjects_eq hsrep]
  · rintro ⟨⟨hchain, hperiod, hpair, hblocks⟩, ⟨ss, ds⟩, ⟨hsres, hdres⟩, hexchange,
      ⟨endA, endB, hA, hB, hledger⟩, bytes, hjson, rfl⟩
    have hab := hpair.2.2.ne
    obtain ⟨hne, hsok, hfits, hratio, hdok⟩ := (codedExchange_iff hab).mp hexchange
    simp only at hne hsok hfits hratio hdok
    obtain ⟨⟨measure, used⟩, hs, hsrep⟩ := (pairSettlementStep_refines hab).run_complete hsres
      measureState_empty (by simpa only [List.nil_append] using hsok)
    rw [List.nil_append] at hsrep
    obtain ⟨⟨internal, used'⟩, hd, hdrep⟩ := pairDepositStep_refines.run_complete hdres
      (depositState_empty hsrep.used) (by simpa only [List.nil_append] using hdok)
    rw [List.nil_append] at hdrep
    have hsum := Loop.soldBy_pair hab fun s hs => (hsok.betweenPair s hs).2
    have hshares : measure.sellsA.val + measure.sellsB.val = Loop.settledTotal ss := by
      rw [← hsum]
      exact congrArg₂ (· + ·) hsrep.sellsA hsrep.sellsB
    obtain ⟨total, htotal⟩ :
        ∃ total : U128, total.val = measure.sellsA.val + measure.sellsB.val := by
      rw [hshares, ← hsum]
      exact ⟨⟨_, hfits⟩, rfl⟩
    have hne' : input.settlements ≠ [] := by
      intro hnil
      rw [hnil] at hsres
      exact hne (List.forall₂_nil_left_iff.mp hsres)
    have hinternal : internal.val = Loop.fundedTotal ds := hdrep.total
    refine ⟨(), hchain, (), hperiod, (), hpair, _, ⟨hblocks, rfl⟩, (), hne', measure, used, hs,
      total, htotal, (), (balanced_iff hsrep).mpr hratio, internal, used', hd, endA, hA, endB, hB,
      (), ?_, _, ⟨bytes, hjson, rfl⟩, ?_⟩
    · rw [wrappedPairSides, htotal, hshares, hinternal]
      exact hledger
    · rw [reciprocalJournal, ← subjects_eq hsrep]

/-- The declarative specification of the pair predicate, with the ledger over the integers. -/
structure ReciprocalSpec (lib : Lib) (input : ReciprocalInput) : Prop where
  claim : ReciprocalClaim lib input
  exchange : ∃ e, ReciprocalResolves lib input e ∧ CodedExchange input e ∧
    PairLedgersOk lib input (Loop.SelfFinanced codedPairRule e)

/-- The same specification without a demand for settlements. -/
structure ReciprocalTerms (lib : Lib) (input : ReciprocalInput) : Prop where
  claim : ReciprocalClaim lib input
  terms : ∃ e, ReciprocalResolves lib input e ∧
    Loop.ExchangeTerms codedPairRule (EventPeriod input.periodStartBlock input.periodEndBlock)
      input.addressA input.addressB e ∧
    PairLedgersOk lib input (Loop.SelfFinanced codedPairRule e)

/-- How an accepted journal splits the referenced settlements between its two subjects. -/
structure SplitsEvidence (lib : Lib) (input : ReciprocalInput) (journal : WashJournal)
    (e : Loop.PairEvidence Address LogKey) (a b : SubjectRecord) : Prop where
  resolves : ReciprocalResolves lib input e
  subjects : journal.subjects = [a, b]
  members : a.subject = input.addressA ∧ b.subject = input.addressB
  positive : 0 < a.washVolume.val ∧ 0 < b.washVolume.val
  volumes : a.washVolume.val + b.washVolume.val = Loop.settledTotal e.settlements
  recordsA : a.settlements = (Loop.salesOf e.settlements input.addressA).map
    (recordOf lib.toCoreLib)
  recordsB : b.settlements = (Loop.salesOf e.settlements input.addressB).map
    (recordOf lib.toCoreLib)
  partition : (Loop.salesOf e.settlements input.addressA ++
    Loop.salesOf e.settlements input.addressB).Perm e.settlements
  once : ∀ s ∈ e.settlements, Xor (s ∈ Loop.salesOf e.settlements input.addressA)
    (s ∈ Loop.salesOf e.settlements input.addressB)

/-- The journal of an exchange splits its settlements between the two members. -/
theorem reciprocalJournal_splits {bytes : Bytes} (hclaim : ReciprocalClaim lib input)
    (hres : ReciprocalResolves lib input e) (hexchange : CodedExchange input e) :
    SplitsEvidence lib input (reciprocalJournal lib input e bytes) e
      (subjectOf lib.toCoreLib e.settlements input.addressA)
      (subjectOf lib.toCoreLib e.settlements input.addressB) := by
  have hab := hclaim.pair.2.2.ne
  have hsum := Loop.soldBy_pair hab fun s hs => (hexchange.betweenPair s hs).2
  have hfits : Loop.settledTotal e.settlements < 2 ^ 128 := hexchange.settledFits
  obtain ⟨hA, hB⟩ := hexchange.soldBy_pos hab (by decide)
  have hvalA : (Fin.ofNat (2 ^ 128) (Loop.soldBy e.settlements input.addressA)).val =
      Loop.soldBy e.settlements input.addressA := Nat.mod_eq_of_lt (by omega)
  have hvalB : (Fin.ofNat (2 ^ 128) (Loop.soldBy e.settlements input.addressB)).val =
      Loop.soldBy e.settlements input.addressB := Nat.mod_eq_of_lt (by omega)
  exact ⟨hres, rfl, ⟨rfl, rfl⟩, ⟨hvalA ▸ hA, hvalB ▸ hB⟩,
    (congrArg₂ (· + ·) hvalA hvalB).trans hsum, rfl, rfl, hexchange.salesOf_perm hab,
    fun s hs => hexchange.sales_once hab hs⟩

/-- Below the wrapping bound the coded pair ledger is the integer ledger. -/
theorem pairLedgersOk_iff (hfits : Loop.settledTotal e.settlements < 2 ^ 128)
    (hbalance : ∀ balance : U256,
      (endBalance lib ⟨input.blocks⟩ input.periodEndBlock input.addressA input.ledgerA =
          .ok balance ∨
        endBalance lib ⟨input.blocks⟩ input.periodEndBlock input.addressB input.ledgerB =
          .ok balance) → balance.val < 2 ^ 240) :
    PairLedgersOk lib input (WrappedSelfFinanced e) ↔
      PairLedgersOk lib input (Loop.SelfFinanced codedPairRule e) := by
  constructor
  · rintro ⟨endA, endB, hA, hB, h⟩
    exact ⟨endA, endB, hA, hB, (wrappedSelfFinanced_iff (hbalance endA (.inl hA))
      (hbalance endB (.inr hB)) hfits).mp h⟩
  · rintro ⟨endA, endB, hA, hB, h⟩
    exact ⟨endA, endB, hA, hB, (wrappedSelfFinanced_iff (hbalance endA (.inl hA))
      (hbalance endB (.inr hB)) hfits).mpr h⟩

/-- With end balances below 128 bits, and a serialization that does not fail, the verifier
decides the specification; what it accepts is split between the members, and the pair
financed nine tenths of its volume itself. -/
theorem verifyReciprocal_decides (lib : Lib) (input : ReciprocalInput)
    (hbalance : ∀ balance : U256,
      (endBalance lib ⟨input.blocks⟩ input.periodEndBlock input.addressA input.ledgerA =
          .ok balance ∨
        endBalance lib ⟨input.blocks⟩ input.periodEndBlock input.addressB input.ledgerB =
          .ok balance) → balance.val < 2 ^ 128)
    (hjson : ∃ bytes, lib.reciprocalJson input = .ok bytes) :
    ((∃ journal, verifyReciprocal lib input = .ok journal) ↔ ReciprocalSpec lib input) ∧
      ∀ journal, verifyReciprocal lib input = .ok journal →
        ∃ e a b, SplitsEvidence lib input journal e a b ∧
          9 * Loop.settledTotal e.settlements ≤ 10 * Loop.fundedTotal e.deposits := by
  have hbound : ∀ balance : U256,
      (endBalance lib ⟨input.blocks⟩ input.periodEndBlock input.addressA input.ledgerA =
          .ok balance ∨
        endBalance lib ⟨input.blocks⟩ input.periodEndBlock input.addressB input.ledgerB =
          .ok balance) → balance.val < 2 ^ 240 :=
    fun balance h => (hbalance balance h).trans (by norm_num)
  refine ⟨?_, fun journal h => ?_⟩
  · simp only [verifyReciprocal_eq_ok]
    constructor
    · rintro ⟨_, hclaim, e, hres, hexchange, hledgers, _⟩
      exact ⟨hclaim, e, hres, hexchange,
        (pairLedgersOk_iff hexchange.settledFits hbound).mp hledgers⟩
    · rintro ⟨hclaim, e, hres, hexchange, hledgers⟩
      obtain ⟨bytes, hbytes⟩ := hjson
      exact ⟨_, hclaim, e, hres, hexchange,
        (pairLedgersOk_iff hexchange.settledFits hbound).mpr hledgers, bytes, hbytes, rfl⟩
  · obtain ⟨hclaim, e, hres, hexchange, hledgers, bytes, _, rfl⟩ := verifyReciprocal_eq_ok.mp h
    obtain ⟨_, _, _, _, hfinanced⟩ := (pairLedgersOk_iff hexchange.settledFits hbound).mp hledgers
    have hcovers : Loop.settledTotal e.settlements * 9000 ≤ Loop.fundedTotal e.deposits * 10000 :=
      hfinanced.covers (by decide)
    exact ⟨e, _, _, reciprocalJournal_splits hclaim hres hexchange, by omega⟩

private theorem exchange_balances : ∀ balance : U256,
    (endBalance (exchangeExemplar none).lib ⟨exchangeChain⟩ 102 21 (exchangeInput none).ledgerA =
        .ok balance ∨
      endBalance (exchangeExemplar none).lib ⟨exchangeChain⟩ 102 22 (exchangeInput none).ledgerB =
        .ok balance) → balance.val < 2 ^ 128 := by
  have hA : endBalance (exchangeExemplar none).lib ⟨exchangeChain⟩ 102 21
      (exchangeInput none).ledgerA = .ok 0 := by decide +kernel
  have hB : endBalance (exchangeExemplar none).lib ⟨exchangeChain⟩ 102 22
      (exchangeInput none).ledgerB = .ok 0 := by decide +kernel
  rintro balance (h | h)
  · cases hA.symm.trans h
    decide
  · cases hB.symm.trans h
    decide

/-- The exemplary exchange meets the specification. -/
theorem exchange_meets_spec :
    ReciprocalSpec (exchangeExemplar none).lib (exchangeInput none) :=
  (verifyReciprocal_decides (exchangeExemplar none).lib (exchangeInput none) exchange_balances
    ⟨_, rfl⟩).1.mp (isOk_iff.mp (by decide +kernel))

/-- The exemplary claim without settlements and deposits. -/
def idlePairInput : ReciprocalInput :=
  { exchangeInput none with settlements := [], internalDeposits := [] }

/-- A pair that never settled meets every other term, yet the verifier refuses it. -/
theorem idle_pair_refused :
    (∀ balance : U256,
      (endBalance (exchangeExemplar none).lib ⟨idlePairInput.blocks⟩ idlePairInput.periodEndBlock
          idlePairInput.addressA idlePairInput.ledgerA = .ok balance ∨
        endBalance (exchangeExemplar none).lib ⟨idlePairInput.blocks⟩ idlePairInput.periodEndBlock
          idlePairInput.addressB idlePairInput.ledgerB = .ok balance) → balance.val < 2 ^ 128) ∧
      ReciprocalTerms (exchangeExemplar none).lib idlePairInput ∧
      ¬ ∃ journal, verifyReciprocal (exchangeExemplar none).lib idlePairInput = .ok journal := by
  refine ⟨exchange_balances, ?_, ?_⟩
  · obtain ⟨refs, hblocks⟩ := isOk_iff.mp (show (authenticateBlocks
      (exchangeExemplar none).lib.toCoreLib exchangeChain 100 102).isOk = true by decide +kernel)
    have hclaim : ReciprocalClaim (exchangeExemplar none).lib idlePairInput :=
      ⟨rfl, by decide, by decide, (authenticateBlocks_eq_ok.mp hblocks).1⟩
    refine ⟨hclaim, ⟨[], []⟩, ⟨.nil, .nil⟩, ⟨List.nodup_nil, by simp [Loop.PairEvidence.positions,
      Loop.fundingPositions], by simp, by decide, by decide, by decide⟩, 0, 0, ?_, ?_, by decide⟩
    · decide +kernel
    · decide +kernel
  · rw [← isOk_iff]
    decide +kernel

end Verifier

end LoopProof
