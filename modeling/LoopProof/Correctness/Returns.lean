import LoopProof.Correctness.Settlements

/-!
# The return stage

The walk along one path refines the growing path prefix, and the loop over paths refines
the growing list of complete paths. Both share the consumed positions of all roles.
-/

namespace LoopProof

variable {lib : Lib} {input : ClosedLoopInput} {resolver : ChainResolver}
  {ss : List (Loop.Settlement Address LogKey)} {before : List LogKey}

section Hops

variable {hops : List (Loop.Transfer Address LogKey)} {hop : Loop.Transfer Address LogKey}

/-- Hops one path can have walked, after the positions consumed before it. -/
structure HopsOk (input : ClosedLoopInput) (ss : List (Loop.Settlement Address LogKey))
    (before : List LogKey) (hops : List (Loop.Transfer Address LogKey)) : Prop where
  distinct : (before ++ hops.map (·.position)).Nodup
  inPeriod : ∀ hop ∈ hops, EventPeriod input.periodStartBlock input.periodEndBlock hop.position
  path : Loop.PathPrefix codedRule input.seller ss hops

/-- The walk state holds the last hop, the first time, the smallest amount and the
consumed positions. -/
structure HopState (input : ClosedLoopInput) (before : List LogKey) (state : PathState × ℕ)
    (hops : List (Loop.Transfer Address LogKey)) : Prop where
  used : state.1.used = (before ++ hops.map (·.position)).toFinset
  expectedFrom : state.1.expectedFrom = (hops.getLast?.map (·.recipient)).getD input.seller
  previousAmount : state.1.previousAmount.map Fin.val = hops.getLast?.map (·.amount)
  previousKey : state.1.previousKey = hops.getLast?.map (·.position)
  firstTime : ∀ first ∈ hops.head?, state.1.firstTime.val = first.time
  pathCredit : state.1.pathCredit.val = ((hops.map (·.amount)).min?).getD (2 ^ 128 - 1)
  count : state.2 = hops.length

theorem hopState_empty {used : UsedLogs} (h : used = before.toFinset) :
    HopState input before (⟨used, input.seller, none, none, 0, maxWord 128⟩, 0) [] := by
  refine ⟨?_, rfl, rfl, rfl, by simp, rfl, rfl⟩
  rw [List.map_nil, List.append_nil]
  exact h

theorem hopsOk_nil (h : before.Nodup) : HopsOk input ss before [] :=
  ⟨by simpa using h, by simp, ⟨by simp, by simp, by simp, .nil, by simp⟩⟩

/-- The walked hops grow by a fresh hop that extends the path. -/
theorem hopsOk_concat : HopsOk input ss before (hops ++ [hop]) ↔ HopsOk input ss before hops ∧
    hop.position ∉ before ++ hops.map (·.position) ∧
    EventPeriod input.periodStartBlock input.periodEndBlock hop.position ∧
    Loop.Extends codedRule input.seller ss hops hop := by
  have hkeys : before ++ (hops ++ [hop]).map (·.position) =
      (before ++ hops.map (·.position)) ++ [hop.position] := by
    rw [List.map_append, List.map_singleton, List.append_assoc]
  constructor
  · rintro ⟨hd, hp, hpath⟩
    rw [hkeys, nodup_concat] at hd
    rw [Loop.pathPrefix_concat] at hpath
    simp only [List.forall_mem_append, List.forall_mem_singleton] at hp
    exact ⟨⟨hd.1, hp.1, hpath.1⟩, hd.2, hp.2, hpath.2⟩
  · rintro ⟨⟨hd, hp, hpath⟩, hd', hp', hext⟩
    refine ⟨?_, List.forall_mem_append.mpr ⟨hp, by simpa using hp'⟩,
      Loop.pathPrefix_concat.mpr ⟨hpath, hext⟩⟩
    rw [hkeys, nodup_concat]
    exact ⟨hd, hd'⟩

/-- The recorded earliest settlement precedes a time exactly when some settlement does. -/
theorem opens_iff {earliest time : U64}
    (h : earliest.val = (Loop.earliestSettlement ss).getD (2 ^ 64 - 1)) :
    earliest < time ↔ ∃ t ∈ Loop.earliestSettlement ss, t < time.val := by
  rw [Fin.lt_def, h]
  have hlt := time.isLt
  cases Loop.earliestSettlement ss with
  | none => simp only [Option.getD_none, Option.mem_def, reduceCtorEq, false_and, exists_false,
      iff_false]; omega
  | some t => simp

/-- The first hop opens the window after the settlements; a later hop falls into it. -/
theorem pathFirstTime_eq_ok {position : ℕ} {earliest time first firstTime : U64} :
    pathFirstTime earliest position first time = .ok firstTime ↔
      (position = 0 → earliest < time) ∧ (position ≠ 0 → time.val - first.val ≤ tPathSeconds.val) ∧
        firstTime = if position = 0 then time else first := by
  unfold pathFirstTime
  split <;> rename_i hposition <;>
    simp only [bind_eq_ok, ensure_eq_ok, pure_eq_ok, Fin.le_def, saturatingSub_val]
  · simp [hposition, eq_comm]
  · simp [hposition, eq_comm]

/-- The checks of one hop are the extension conditions of the path. -/
theorem extends_iff {state : PathState} {earliest time : U64} {key : LogKey}
    {sender recipient : Address} {amount : U128}
    (hearliest : earliest.val = (Loop.earliestSettlement ss).getD (2 ^ 64 - 1))
    (h : HopState input before (state, hops.length) hops) :
    Loop.Extends codedRule input.seller ss hops ⟨key, sender, recipient, amount.val, time.val⟩ ↔
      (sender = state.expectedFrom ∧ sender ≠ recipient ∧ amount ≠ 0) ∧
      state.previousKey.all (· < key) = true ∧
      state.previousAmount.all (meetsRatio amount · rhoHopBps) = true ∧
      (hops.length = 0 → earliest < time) ∧
      (hops.length ≠ 0 → time.val - state.firstTime.val ≤ tPathSeconds.val) := by
  have hpos : 0 < amount.val ↔ amount ≠ 0 := Fin.pos_iff_ne_zero
  have hforward : (∀ last ∈ hops.getLast?, last.amount * codedRule.hopBps ≤ amount.val * 10000) ↔
      state.previousAmount.all (meetsRatio amount · rhoHopBps) = true := by
    have hp : state.previousAmount.map Fin.val = hops.getLast?.map (·.amount) := h.previousAmount
    cases hlast : hops.getLast? with
    | none =>
      rw [hlast, Option.map_none, Option.map_eq_none_iff] at hp
      simp [hp]
    | some last =>
      rw [hlast, Option.map_some, Option.map_eq_some_iff] at hp
      obtain ⟨previous, hprevious, hval⟩ := hp
      simp only [Option.mem_def, Option.some.injEq, forall_eq', hprevious, Option.all_some,
        meetsRatio_iff, ← hval, codedRule]
  have hlater : (∀ last ∈ hops.getLast?, last.position < key) ↔
      state.previousKey.all (· < key) = true := by
    have hp : state.previousKey = hops.getLast?.map (·.position) := h.previousKey
    rw [hp]
    cases hops.getLast? <;> simp
  have hopens : (hops = [] → ∃ t ∈ Loop.earliestSettlement ss, t < time.val) ↔
      (hops.length = 0 → earliest < time) := by
    rw [List.length_eq_zero_iff, opens_iff hearliest]
  have hwindow : (∀ first ∈ hops.head?, time.val - first.time ≤ codedRule.window) ↔
      (hops.length ≠ 0 → time.val - state.firstTime.val ≤ tPathSeconds.val) := by
    have hf := h.firstTime
    cases hops with
    | nil => simp
    | cons first rest =>
      have hfirst : state.firstTime.val = first.time := hf first rfl
      simp [hfirst, codedRule]
  have hfrom : state.expectedFrom = (hops.getLast?.map (·.recipient)).getD input.seller :=
    h.expectedFrom
  constructor
  · rintro ⟨hc, ⟨hm, hp⟩, hl, hf, ho, hw⟩
    exact ⟨⟨hfrom ▸ hc, hm, hpos.mp hp⟩, hlater.mp hl, hforward.mp hf, hopens.mp ho, hwindow.mp hw⟩
  · rintro ⟨⟨hc, hm, hp⟩, hl, hf, ho, hw⟩
    exact ⟨hfrom ▸ hc, ⟨hm, hpos.mpr hp⟩, hlater.mpr hl, hforward.mpr hf, hopens.mpr ho,
      hwindow.mpr hw⟩

/-- One accepted hop leaves a state that represents it as well. -/
theorem hopState_concat (hop : Loop.Transfer Address LogKey) {state : PathState} {amount : U128}
    {time : U64} (h : HopState input before (state, hops.length) hops)
    (hamount : amount.val = hop.amount) (htime : time.val = hop.time) :
    HopState input before
      (⟨(before ++ hops.map (·.position) ++ [hop.position]).toFinset, hop.recipient, some amount,
        some hop.position, if hops.length = 0 then time else state.firstTime,
        min state.pathCredit amount⟩, hops.length + 1) (hops ++ [hop]) := by
  have hcredit : state.pathCredit.val = ((hops.map (·.amount)).min?).getD (2 ^ 128 - 1) :=
    h.pathCredit
  refine ⟨?_, ?_, ?_, ?_, ?_, ?_, ?_⟩
  · rw [List.map_append, List.map_singleton, List.append_assoc]
  · simp
  · simp [hamount]
  · simp
  · intro first hfirst
    cases hops with
    | nil =>
      obtain rfl : hop = first := by simpa using hfirst
      exact htime
    | cons first' rest =>
      obtain rfl : first' = first := by simpa using hfirst
      exact h.firstTime first' rfl
  · have hlt := amount.isLt
    have hmin : (min state.pathCredit amount).val = min state.pathCredit.val amount.val :=
      Fin.coe_min _ _
    rw [List.map_append, List.map_singleton, Loop.min?_concat, Option.getD_some, hmin, hcredit,
      hamount]
    cases (hops.map (·.amount)).min? with
    | none => simp only [Option.getD_none, Option.map_none]; omega
    | some m => simp only [Option.getD_some, Option.map_some]
  · simp

/-- The walk along a path refines the growing path prefix. -/
theorem hopStep_refines {earliest : U64}
    (hearliest : earliest.val = (Loop.earliestSettlement ss).getD (2 ^ 64 - 1)) :
    StepRefines (counted (hopStep lib input resolver earliest)) (TransferAt lib resolver)
      (HopsOk input ss before) (HopState input before) where
  sound := by
    rintro ⟨state, count⟩ hops ref ⟨state', count'⟩ hok hrep hstep
    obtain rfl : count = _ := hrep.count
    have hused : state.used = _ := hrep.used
    simp only [counted, hopStep, hused, bind_eq_ok, ensure_eq_ok, ensureEventInPeriod_eq_ok,
      pure_eq_ok, insertNew_toFinset, pathFirstTime_eq_ok, Prod.exists, Prod.mk.injEq] at hstep
    obtain ⟨_, ⟨key, hkey, used₁, ⟨hfresh, rfl⟩, sender, recipient, amount, n, hevent, _, hperiod,
      time, htime, _, hends, _, hlater, _, hforward, first, ⟨hopens, hwindow, rfl⟩, rfl⟩, rfl,
      rfl⟩ := hstep
    have hn := ChainResolver.usdcTransfer_block hevent hkey
    subst hn
    have hitem : TransferAt lib resolver ref ⟨key, sender, recipient, amount.val, time.val⟩ :=
      ⟨hkey, ⟨amount, rfl, hevent⟩, ⟨time, rfl, htime⟩⟩
    have hext := (extends_iff hearliest hrep).mpr ⟨hends, hlater, hforward, hopens, hwindow⟩
    exact ⟨_, hitem, hopsOk_concat.mpr ⟨hok, hfresh, hperiod, hext⟩,
      hopState_concat ⟨key, sender, recipient, amount.val, time.val⟩ hrep rfl rfl⟩
  complete := by
    rintro ⟨state, count⟩ hops ref ⟨key, sender, recipient, amount', time'⟩ hrep
      ⟨hkey, ⟨amount, hamount, hevent⟩, ⟨time, htime_eq, htime⟩⟩ hok
    simp only at hkey hamount hevent htime_eq htime
    subst hamount htime_eq
    obtain ⟨_, hfresh, hperiod, hext⟩ := hopsOk_concat.mp hok
    obtain rfl : count = _ := hrep.count
    have hused : state.used = _ := hrep.used
    obtain ⟨hends, hlater, hforward, hopens, hwindow⟩ := (extends_iff hearliest hrep).mp hext
    refine ⟨_, ?_, hopState_concat _ hrep rfl rfl⟩
    simp only [counted, hopStep, hused, bind_eq_ok, ensure_eq_ok, ensureEventInPeriod_eq_ok,
      pure_eq_ok, insertNew_toFinset, pathFirstTime_eq_ok, Prod.exists]
    exact ⟨_, ⟨key, hkey, _, ⟨hfresh, rfl⟩, sender, recipient, amount, _, hevent, (), hperiod, time,
      htime, (), hends, (), hlater, (), hforward, _, ⟨hopens, hwindow, rfl⟩, rfl⟩, rfl⟩
  prefix_closed h := (hopsOk_concat.mp h).1

end Hops

section Paths

variable {paths : List (List (Loop.Transfer Address LogKey))}
  {path : List (Loop.Transfer Address LogKey)}

/-- Return paths the loop can have accepted, after the positions consumed before them. -/
structure PathsOk (input : ClosedLoopInput) (ss : List (Loop.Settlement Address LogKey))
    (before : List LogKey) (paths : List (List (Loop.Transfer Address LogKey))) : Prop where
  distinct : (before ++ Loop.hopPositions paths).Nodup
  inPeriod : ∀ p ∈ Loop.hopPositions paths,
    EventPeriod input.periodStartBlock input.periodEndBlock p
  complete : ∀ path ∈ paths, Loop.PathOk codedRule input.seller input.funder ss path
  fits : Loop.returnedTotal paths < 2 ^ 128

/-- The loop state holds the credited total and the consumed positions. -/
structure ReturnState (before : List LogKey) (state : U128 × UsedLogs)
    (paths : List (List (Loop.Transfer Address LogKey))) : Prop where
  used : state.2 = (before ++ Loop.hopPositions paths).toFinset
  returned : state.1.val = Loop.returnedTotal paths

theorem returnState_empty {used : UsedLogs} (h : used = before.toFinset) :
    ReturnState before (0, used) [] := by
  refine ⟨?_, rfl⟩
  rw [Loop.hopPositions, List.flatMap_nil, List.append_nil]
  exact h

theorem pathsOk_nil (h : before.Nodup) : PathsOk input ss before [] :=
  ⟨by simpa [Loop.hopPositions] using h, by simp [Loop.hopPositions], by simp,
    by simp [Loop.returnedTotal]⟩

/-- The accepted paths grow by a complete path walked after them. -/
theorem pathsOk_concat : PathsOk input ss before (paths ++ [path]) ↔
    PathsOk input ss before paths ∧
      HopsOk input ss (before ++ Loop.hopPositions paths) path ∧
      Loop.PathOk codedRule input.seller input.funder ss path ∧
      Loop.returnedTotal paths + Loop.credit path < 2 ^ 128 := by
  have hkeys : before ++ Loop.hopPositions (paths ++ [path]) =
      (before ++ Loop.hopPositions paths) ++ path.map (·.position) := by
    rw [Loop.hopPositions_append, Loop.hopPositions_singleton, List.append_assoc]
  constructor
  · rintro ⟨hd, hp, hc, hf⟩
    rw [hkeys] at hd
    rw [Loop.hopPositions_append, Loop.hopPositions_singleton, List.forall_mem_append,
      List.forall_mem_map] at hp
    rw [List.forall_mem_append, List.forall_mem_singleton] at hc
    rw [Loop.returnedTotal_append, Loop.returnedTotal_singleton] at hf
    exact ⟨⟨(List.nodup_append.mp hd).1, hp.1, hc.1, by omega⟩, ⟨hd, hp.2, hc.2.toPathPrefix⟩,
      hc.2, hf⟩
  · rintro ⟨⟨_, hp, hc, _⟩, ⟨hd', hp', _⟩, hc', hf'⟩
    refine ⟨hkeys ▸ hd', ?_, List.forall_mem_append.mpr ⟨hc, by simpa using hc'⟩, ?_⟩
    · rw [Loop.hopPositions_append, Loop.hopPositions_singleton, List.forall_mem_append,
        List.forall_mem_map]
      exact ⟨hp, hp'⟩
    · rwa [Loop.returnedTotal_append, Loop.returnedTotal_singleton]

/-- The smallest hop of a nonempty path is its credit. -/
theorem credit_eq {credited : U128} {m : ℕ} (hne : path ≠ [])
    (h : credited.val = ((path.map (·.amount)).min?).getD m) :
    credited.val = Loop.credit path := by
  cases path with
  | nil => exact absurd rfl hne
  | cons first rest =>
    simpa only [Loop.credit, List.map_cons, List.min?_cons', Option.getD_some] using h

/-- A walked path ends at the funder exactly when the walk expects it there. -/
theorem ends_iff {state : PathState × ℕ} {keys : List LogKey} (hne : path ≠ [])
    (h : HopState input keys state path) : state.1.expectedFrom = input.funder ↔
      ∀ last ∈ path.getLast?, last.recipient = input.funder := by
  obtain ⟨last, hlast⟩ : ∃ last, path.getLast? = some last :=
    Option.ne_none_iff_exists'.mp (by simpa [List.getLast?_eq_none_iff] using hne)
  rw [h.expectedFrom, hlast]
  simp

/-- The loop over paths refines the growing list of complete paths. -/
theorem pathStep_refines {earliest : U64}
    (hearliest : earliest.val = (Loop.earliestSettlement ss).getD (2 ^ 64 - 1)) :
    StepRefines (pathStep lib input resolver earliest) (PathAt lib resolver)
      (PathsOk input ss before) (ReturnState before) where
  sound := by
    rintro ⟨returned, used⟩ paths path ⟨returned', used'⟩ hok hrep hstep
    obtain rfl : used = _ := hrep.used
    simp only [pathStep, bind_eq_ok, ensure_eq_ok, okOr_eq_ok, checkedAdd_eq_some, pure_eq_ok,
      foldlM_zipIdx_eq_ok, Prod.mk.injEq] at hstep
    obtain ⟨_, ⟨hne, hshort⟩, walked, hwalk, _, hends, total, htotal, rfl, rfl⟩ := hstep
    obtain ⟨hops, hres, hhops, hstate⟩ :=
      (hopStep_refines hearliest).run_sound (hopState_empty rfl) (hopsOk_nil hok.distinct) hwalk
    rw [List.nil_append] at hhops hstate
    have hlen := hres.length_eq
    have hne' : hops ≠ [] := by
      rintro rfl
      exact hne (List.length_eq_zero_iff.mp hlen)
    have hpath : Loop.PathOk codedRule input.seller input.funder ss hops :=
      { toPathPrefix := hhops.path
        nonempty := hne'
        short := hlen ▸ hshort
        ends := (ends_iff hne' hstate).mp hends }
    rw [credit_eq hne' hstate.pathCredit] at htotal
    have hreturned : total.val = Loop.returnedTotal (paths ++ [hops]) := by
      rw [Loop.returnedTotal_append, Loop.returnedTotal_singleton, ← hrep.returned]
      exact htotal
    have hfits : Loop.returnedTotal paths + Loop.credit hops < 2 ^ 128 := by
      have hlt := total.isLt
      rwa [hreturned, Loop.returnedTotal_append, Loop.returnedTotal_singleton] at hlt
    refine ⟨hops, hres, pathsOk_concat.mpr ⟨hok, hhops, hpath, hfits⟩, ⟨?_, hreturned⟩⟩
    rw [Loop.hopPositions_append, Loop.hopPositions_singleton, ← List.append_assoc]
    exact hstate.used
  complete := by
    rintro ⟨returned, used⟩ paths path hops hrep hres hok
    obtain ⟨hok, hhops, hpath, hfits⟩ := pathsOk_concat.mp hok
    obtain rfl : used = _ := hrep.used
    obtain ⟨⟨walked, count⟩, hwalk, hstate⟩ := (hopStep_refines hearliest).run_complete hres
      (hopState_empty rfl) (by simpa only [List.nil_append] using hhops)
    rw [List.nil_append] at hstate
    have hlen := hres.length_eq
    obtain rfl : count = _ := hstate.count.trans hlen.symm
    have hne : path.transfers ≠ [] := by
      intro hnil
      rw [hnil] at hlen
      exact hpath.nonempty (List.length_eq_zero_iff.mp hlen.symm)
    obtain ⟨total, htotal⟩ : ∃ total : U128, total.val = returned.val + Loop.credit hops := by
      have hreturned : returned.val = _ := hrep.returned
      rw [hreturned]
      exact ⟨⟨_, hfits⟩, rfl⟩
    have hcredit : walked.pathCredit.val = _ := credit_eq hpath.nonempty hstate.pathCredit
    refine ⟨(total, walked.used), ?_, ⟨?_, ?_⟩⟩
    · simp only [pathStep, bind_eq_ok, ensure_eq_ok, okOr_eq_ok, checkedAdd_eq_some, pure_eq_ok,
        foldlM_zipIdx_eq_ok, Nat.zero_add]
      exact ⟨(), ⟨hne, hlen ▸ hpath.short⟩, walked, hwalk, (),
        (ends_iff hpath.nonempty hstate).mpr hpath.ends, total, hcredit ▸ htotal, rfl⟩
    · rw [Loop.hopPositions_append, Loop.hopPositions_singleton, ← List.append_assoc]
      exact hstate.used
    · rw [Loop.returnedTotal_append, Loop.returnedTotal_singleton, ← hrep.returned]
      exact htotal
  prefix_closed h := (pathsOk_concat.mp h).1

/-- What the return stage accepts, after the positions the other roles consumed. -/
structure ReturnsOk (input : ClosedLoopInput) (ss : List (Loop.Settlement Address LogKey))
    (before : List LogKey) (paths : List (List (Loop.Transfer Address LogKey))) : Prop where
  distinct : (before ++ Loop.hopPositions paths).Nodup
  inPeriod : ∀ p ∈ Loop.hopPositions paths,
    EventPeriod input.periodStartBlock input.periodEndBlock p
  leg : Loop.ReturnLeg codedRule input.seller input.funder ss paths

/-- Between different parties the return stage is the path loop with its coverage. -/
theorem returnsOk_of_ne (hne : input.seller ≠ input.funder) :
    ReturnsOk input ss before paths ↔ PathsOk input ss before paths ∧
      paths.length ≤ maxReturnPaths ∧
      Loop.settledTotal ss * alphaReturnBps.val ≤ Loop.returnedTotal paths * 10000 := by
  constructor
  · rintro ⟨hd, hp, hleg⟩
    rw [Loop.ReturnLeg, if_neg hne] at hleg
    obtain ⟨hcount, hpaths, hfits, hcover⟩ := hleg
    exact ⟨⟨hd, hp, hpaths, hfits⟩, hcount, hcover⟩
  · rintro ⟨⟨hd, hp, hpaths, hfits⟩, hcount, hcover⟩
    refine ⟨hd, hp, ?_⟩
    rw [Loop.ReturnLeg, if_neg hne]
    exact ⟨hcount, hpaths, hfits, hcover⟩

/-- The return stage accepts exactly the paths that resolve to a return leg. -/
theorem verifyReturns_eq_ok {fs : List (Loop.Funding Address LogKey)}
    {settle : SettleSummary × UsedLogs} (hsettle : SettleState lib.toCoreLib fs settle ss)
    (hss : SettlementsOk input fs ss) :
    verifyReturns lib input resolver settle.1 settle.2 = .ok () ↔
      ∃ paths, List.Forall₂ (PathAt lib resolver) input.returns paths ∧
        ReturnsOk input ss (Loop.fundingPositions fs ++ ss.map (·.position)) paths := by
  unfold verifyReturns
  split
  · rename_i heq
    rw [ensure_eq_ok]
    constructor
    · intro hnil
      rw [hnil]
      refine ⟨[], .nil, by simpa [Loop.hopPositions] using hss.distinct,
        by simp [Loop.hopPositions], ?_⟩
      rw [Loop.ReturnLeg, if_pos heq]
    · rintro ⟨paths, hres, _, _, hleg⟩
      rw [Loop.ReturnLeg, if_pos heq] at hleg
      subst hleg
      exact List.forall₂_nil_right_iff.mp hres
  · rename_i hne
    have hcover {returned : U128} {paths : List (List (Loop.Transfer Address LogKey))}
        (h : returned.val = Loop.returnedTotal paths) :
        meetsRatio returned settle.1.total alphaReturnBps = true ↔
          Loop.settledTotal ss * alphaReturnBps.val ≤ Loop.returnedTotal paths * 10000 := by
      rw [meetsRatio_iff, hsettle.total, h]
    simp only [bind_eq_ok, ensure_eq_ok, Prod.exists, returnsOk_of_ne hne]
    constructor
    · rintro ⟨_, hcount, returned, used, hrun, hratio⟩
      obtain ⟨paths, hres, hok, hrep⟩ := (pathStep_refines hsettle.earliest).run_sound
        (returnState_empty hsettle.used) (pathsOk_nil hss.distinct) hrun
      exact ⟨paths, hres, hok, hres.length_eq ▸ hcount, (hcover hrep.returned).mp hratio⟩
    · rintro ⟨paths, hres, hok, hcount, hratio⟩
      obtain ⟨⟨returned, used⟩, hrun, hrep⟩ := (pathStep_refines hsettle.earliest).run_complete
        hres (returnState_empty hsettle.used) (by simpa only [List.nil_append] using hok)
      rw [List.nil_append] at hrep
      exact ⟨(), hres.length_eq ▸ hcount, returned, used, hrun, (hcover hrep.returned).mpr hratio⟩

end Paths

end LoopProof
