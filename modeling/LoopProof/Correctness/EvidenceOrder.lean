import LoopProof.Correctness.LedgerSelection
import LoopProof.Planner.Plan

/-!
# The order of plan evidence

Single logs stand in position order, but an id decides as soon as a relay path is compared, and
relay paths of different cost are each greater than the other. The orders are strict exactly where
no relay path stands between two logs by id against their position, and all relay paths cost the
same.
-/

namespace LoopProof.Planner

variable {lib : PlannerLib} {dependencies : List Dependency}

/-! ## Dependencies -/

/-- No relay path closes a cycle: its id does not stand between those of two logs that are in
the other order by position. -/
def Uncrossed (dependencies : List Dependency) : Prop :=
  ∀ earlier later : Entry, ∀ path : RelayPath, .entry earlier ∈ dependencies →
    .entry later ∈ dependencies → .relayPath path ∈ dependencies →
    comparePositions earlier.toAtom later.toAtom = .lt →
    ¬ (later.dependencyId < path.dependencyId ∧ path.dependencyId < earlier.dependencyId)

/-- Entries are compared by their places. -/
theorem compareEvidence_entries (a b : Entry) :
    compareEvidence (.entry a) (.entry b) = compareEntries a b := rfl

/-- A path is compared to anything by its id. -/
theorem compareEvidence_path_left (path : RelayPath) (d : Dependency) :
    compareEvidence (.relayPath path) d = compare path.dependencyId d.dependencyId := by
  cases d <;> rfl

/-- Anything is compared to a path by its id. -/
theorem compareEvidence_path_right (d : Dependency) (path : RelayPath) :
    compareEvidence d (.relayPath path) = compare d.dependencyId path.dependencyId := by
  cases d <;> rfl

/-- An entry comes first by its place, or at the same place by its id. -/
theorem compareEntries_eq_lt {a b : Entry} : compareEntries a b = .lt ↔
    comparePositions a.toAtom b.toAtom = .lt ∨
      comparePositions a.toAtom b.toAtom = .eq ∧ a.dependencyId < b.dependencyId := by
  rw [← compare_lt_iff_lt]
  exact Ordering.then_eq_lt

/-- Evidence is equal to itself. -/
theorem compareEvidence_self (d : Dependency) : compareEvidence d d = .eq := by
  cases d with
  | entry entry =>
    rw [compareEvidence_entries]
    exact Std.ReflCmp.compare_self
  | relayPath path =>
    rw [compareEvidence_path_left]
    exact Std.ReflCmp.compare_self

/-- The other side compares the other way round. -/
theorem compareEvidence_swap (d d' : Dependency) :
    compareEvidence d d' = (compareEvidence d' d).swap := by
  cases d with
  | entry entry =>
    cases d' with
    | entry other =>
      rw [compareEvidence_entries, compareEvidence_entries]
      exact Std.OrientedCmp.eq_swap
    | relayPath path =>
      rw [compareEvidence_path_right, compareEvidence_path_left]
      exact Std.OrientedOrd.eq_swap
  | relayPath path =>
    rw [compareEvidence_path_left, compareEvidence_path_right]
    exact Std.OrientedOrd.eq_swap

/-- Dependencies that compare as equal have one id. -/
theorem dependencyId_of_compareEvidence {d d' : Dependency} (h : compareEvidence d d' = .eq) :
    d.dependencyId = d'.dependencyId := by
  cases d with
  | entry entry =>
    cases d' with
    | entry other =>
      rw [compareEvidence_entries, compareEntries, compareLex_eq_eq] at h
      exact compare_eq_iff_eq.mp h.2
    | relayPath path =>
      rw [compareEvidence_path_right] at h
      exact compare_eq_iff_eq.mp h
  | relayPath path =>
    rw [compareEvidence_path_left] at h
    exact compare_eq_iff_eq.mp h

/-- Two logs that are not crossed by a path between their ids stand in the order of these. -/
private theorem Uncrossed.entries_lt (h : Uncrossed dependencies) {a b : Entry} {path : RelayPath}
    (ha : .entry a ∈ dependencies) (hb : .entry b ∈ dependencies)
    (hpath : .relayPath path ∈ dependencies) (hleft : a.dependencyId < path.dependencyId)
    (hright : path.dependencyId < b.dependencyId) : compareEntries a b = .lt := by
  rw [compareEntries_eq_lt]
  cases horder : comparePositions a.toAtom b.toAtom with
  | lt => exact .inl rfl
  | eq => exact .inr ⟨rfl, hleft.trans hright⟩
  | gt =>
    exact absurd ⟨hleft, hright⟩ (h b a path hb ha hpath (Std.OrientedCmp.lt_of_gt horder))

/-- Where no path is crossed the evidence is ordered strictly. -/
theorem Uncrossed.orders (hids : (dependencies.map Dependency.dependencyId).Nodup)
    (h : Uncrossed dependencies) : OrdersStrictly compareEvidence dependencies := by
  have hsame : ∀ d ∈ dependencies, ∀ d' ∈ dependencies, d.dependencyId = d'.dependencyId → d = d' :=
    fun d hd d' hd' heq => List.inj_on_of_nodup_map hids hd hd' heq
  constructor
  · intro d _
    exact compareEvidence_self d
  · intro d _ d' _
    exact compareEvidence_swap d d'
  · intro d hd d' hd' heq
    exact hsame d hd d' hd' (dependencyId_of_compareEvidence heq)
  · intro a ha b hb c hc hab hbc
    cases a with
    | relayPath p =>
      rw [compareEvidence_path_left, compare_lt_iff_lt] at hab ⊢
      cases b with
      | relayPath q =>
        rw [compareEvidence_path_left, compare_lt_iff_lt] at hbc
        exact hab.trans hbc
      | entry e =>
        cases c with
        | relayPath q =>
          rw [compareEvidence_path_right, compare_lt_iff_lt] at hbc
          exact hab.trans hbc
        | entry f =>
          rw [compareEvidence_entries] at hbc
          -- the later log stands behind the path, else path and logs would cross
          by_contra hnot
          have hne : f.dependencyId ≠ p.dependencyId := by
            intro heq
            cases hsame _ hc _ ha heq
          have hlt : f.dependencyId < p.dependencyId := lt_of_le_of_ne (not_lt.mp hnot) hne
          rw [Std.OrientedCmp.gt_of_lt (h.entries_lt hc hb ha hlt hab)] at hbc
          cases hbc
    | entry e =>
      cases c with
      | relayPath q =>
        rw [compareEvidence_path_right, compare_lt_iff_lt] at hbc ⊢
        cases b with
        | relayPath p =>
          rw [compareEvidence_path_right, compare_lt_iff_lt] at hab
          exact hab.trans hbc
        | entry f =>
          rw [compareEvidence_entries] at hab
          by_contra hnot
          have hne : q.dependencyId ≠ e.dependencyId := by
            intro heq
            cases hsame _ hc _ ha heq
          have hlt : q.dependencyId < e.dependencyId := lt_of_le_of_ne (not_lt.mp hnot) hne
          rw [Std.OrientedCmp.gt_of_lt (h.entries_lt hb ha hc hbc hlt)] at hab
          cases hab
      | entry f =>
        rw [compareEvidence_entries]
        cases b with
        | relayPath p =>
          rw [compareEvidence_path_right, compare_lt_iff_lt] at hab
          rw [compareEvidence_path_left, compare_lt_iff_lt] at hbc
          exact h.entries_lt ha hc hb hab hbc
        | entry g =>
          rw [compareEvidence_entries] at hab hbc
          exact Std.TransCmp.lt_trans hab hbc

/-- An order that is transitive on the evidence leaves no path crossed. -/
theorem Uncrossed.of_orders (h : OrdersStrictly compareEvidence dependencies) :
    Uncrossed dependencies := by
  intro earlier later path hearlier hlater hpath hposition hbetween
  have hfirst : compareEvidence (.entry earlier) (.entry later) = .lt :=
    compareEntries_eq_lt.mpr (.inl hposition)
  have hsecond : compareEvidence (.entry later) (.relayPath path) = .lt := by
    rw [compareEvidence_path_right, compare_lt_iff_lt]
    exact hbetween.1
  have hthird := h.trans _ hearlier _ hlater _ hpath hfirst hsecond
  rw [compareEvidence_path_right, compare_lt_iff_lt] at hthird
  exact absurd hthird (not_lt.mpr hbetween.2.le)

/-! ## Relay paths -/

/-- The relay paths of the dependencies that have a cost. -/
def costedPaths (lib : PlannerLib) (dependencies : List Dependency) : List RelayPath :=
  (dependencies.filterMap Dependency.relayPath?).filter fun path => (relayCost lib path).isOk

/-- The paths among the dependencies. -/
theorem mem_relayPaths {path : RelayPath} :
    path ∈ dependencies.filterMap Dependency.relayPath? ↔ .relayPath path ∈ dependencies := by
  rw [List.mem_filterMap]
  constructor
  · intro h
    obtain ⟨d, hd, hpath⟩ := h
    cases d with
    | entry entry => cases hpath
    | relayPath other =>
      obtain rfl := Option.some.inj hpath
      exact hd
  · intro h
    exact ⟨_, h, rfl⟩

/-- The paths among the dependencies whose cost is known. -/
theorem mem_costedPaths {path : RelayPath} : path ∈ costedPaths lib dependencies ↔
    .relayPath path ∈ dependencies ∧ ∃ cost, relayCost lib path = .ok cost := by
  rw [costedPaths, List.mem_filter, mem_relayPaths, isOk_iff]

/-- Costs without a difference are equal. -/
theorem firstDiffering_eq_none {left right : ℕ × ℕ × ℕ} :
    firstDiffering left right = none ↔ left = right := by
  rw [firstDiffering, Prod.ext_iff, Prod.ext_iff]
  split
  · simp_all
  · split
    · simp_all
    · split <;> simp_all

/-- Of two costs that differ one has a number at the difference, so its path is greater. -/
theorem firstDiffering_pos {left right : ℕ × ℕ × ℕ} {value other : ℕ}
    (h : firstDiffering left right = some value) (h' : firstDiffering right left = some other) :
    value ≠ 0 ∨ other ≠ 0 := by
  rw [firstDiffering] at h h'
  grind

/-- Paths of one cost are ordered by their texts. -/
theorem relayPathOrder_of_same {p q : RelayPath} {cost : ℕ × ℕ × ℕ}
    (hp : relayCost lib p = .ok cost) (hq : relayCost lib q = .ok cost) :
    relayPathOrder lib p q = lib.compareHopTexts p.hops q.hops := by
  simp only [relayPathOrder, compareRelayPath, hp, hq, bind, Except.bind,
    firstDiffering_eq_none.mpr rfl]
  rfl

/-- Of two paths of different cost, one is greater whichever stands on the left. -/
theorem relayPathOrder_of_differing {p q : RelayPath} {c d : ℕ × ℕ × ℕ}
    (hp : relayCost lib p = .ok c) (hq : relayCost lib q = .ok d) (hne : c ≠ d) :
    relayPathOrder lib p q ≠ (relayPathOrder lib q p).swap := by
  cases hleft : firstDiffering c d with
  | none => exact absurd (firstDiffering_eq_none.mp hleft) hne
  | some value =>
    cases hright : firstDiffering d c with
    | none => exact absurd (firstDiffering_eq_none.mp hright) hne.symm
    | some other =>
      have hpos := firstDiffering_pos hleft hright
      have hpq : relayPathOrder lib p q = compare value 0 := by
        simp only [relayPathOrder, compareRelayPath, hp, hq, bind, Except.bind, hleft]
        rfl
      have hqp : relayPathOrder lib q p = compare other 0 := by
        simp only [relayPathOrder, compareRelayPath, hp, hq, bind, Except.bind, hright]
        rfl
      rw [hpq, hqp]
      cases value with
      | zero =>
        cases other with
        | zero => simp at hpos
        | succ other => simp [compare, compareOfLessAndEq]
      | succ value =>
        cases other with
        | zero => simp [compare, compareOfLessAndEq]
        | succ other => simp [compare, compareOfLessAndEq]

/-- All relay paths cost the same, and their texts tell them apart. -/
structure Uniform (lib : PlannerLib) (dependencies : List Dependency) : Prop where
  cost : ∀ p q, .relayPath p ∈ dependencies → .relayPath q ∈ dependencies → ∀ c d,
    relayCost lib p = .ok c → relayCost lib q = .ok d → c = d
  texts : ∀ p ∈ costedPaths lib dependencies, ∀ q ∈ costedPaths lib dependencies,
    lib.compareHopTexts p.hops q.hops = .eq → p = q

/-- The relay paths that have a cost are ordered strictly exactly where they all have the same. -/
theorem relayPathOrder_orders [Std.TransCmp lib.compareHopTexts] :
    OrdersStrictly (relayPathOrder lib) (costedPaths lib dependencies) ↔
      Uniform lib dependencies := by
  constructor
  · intro h
    have hcost : ∀ p q, .relayPath p ∈ dependencies → .relayPath q ∈ dependencies → ∀ c d,
        relayCost lib p = .ok c → relayCost lib q = .ok d → c = d := by
      intro p q hp hq c d hc hd
      by_contra hne
      exact relayPathOrder_of_differing hc hd hne
        (h.swap p (mem_costedPaths.mpr ⟨hp, c, hc⟩) q (mem_costedPaths.mpr ⟨hq, d, hd⟩))
    constructor
    · exact hcost
    · intro p hp q hq htexts
      obtain ⟨hpath, c, hc⟩ := mem_costedPaths.mp hp
      obtain ⟨hother, d, hd⟩ := mem_costedPaths.mp hq
      obtain rfl := hcost p q hpath hother c d hc hd
      apply h.same p hp q hq
      rw [relayPathOrder_of_same hc hd, htexts]
  · intro h
    have htexts : ∀ p ∈ costedPaths lib dependencies, ∀ q ∈ costedPaths lib dependencies,
        relayPathOrder lib p q = lib.compareHopTexts p.hops q.hops := by
      intro p hp q hq
      obtain ⟨hpath, c, hc⟩ := mem_costedPaths.mp hp
      obtain ⟨hother, d, hd⟩ := mem_costedPaths.mp hq
      obtain rfl := h.cost p q hpath hother c d hc hd
      exact relayPathOrder_of_same hc hd
    constructor
    · intro p hp
      rw [htexts p hp p hp]
      exact Std.ReflCmp.compare_self
    · intro p hp q hq
      rw [htexts p hp q hq, htexts q hq p hp]
      exact Std.OrientedCmp.eq_swap
    · intro p hp q hq heq
      rw [htexts p hp q hq] at heq
      exact h.texts p hp q hq heq
    · intro p hp q hq r hr hpq hqr
      rw [htexts p hp q hq] at hpq
      rw [htexts q hq r hr] at hqr
      rw [htexts p hp r hr]
      exact Std.TransCmp.lt_trans hpq hqr

/-! ## Plans -/

/-- The relay paths of a closure, in order. -/
def relayList (closure : Closure) : List RelayPath :=
  closure.evidence.filterMap Dependency.relayPath?

/-- The paths of a closure behind its direct returns. -/
theorem relayList_append (direct : List Entry) (relay : List RelayPath)
    (evidenceClass : ClosureClass) (rejected : List B256) :
    relayList ⟨direct.map Dependency.entry ++ relay.map Dependency.relayPath, evidenceClass,
      rejected⟩ = relay := by
  have hdirect : (direct.map Dependency.entry).filterMap Dependency.relayPath? = [] := by
    rw [List.filterMap_map]
    exact List.filterMap_eq_nil_iff.mpr fun _ _ => rfl
  have hrelay : (relay.map Dependency.relayPath).filterMap Dependency.relayPath? = relay := by
    rw [List.filterMap_map]
    exact List.filterMap_some
  rw [relayList, List.filterMap_append, hdirect, hrelay, List.nil_append]

/-- The evidence is ordered canonically, and plans and closures do not depend on the order in
which the dependencies stand. -/
structure CanonicalOrder (lib : PlannerLib) (dependencies : List Dependency) : Prop where
  evidence : OrdersStrictly compareEvidence dependencies
  relay : OrdersStrictly (relayPathOrder lib) (costedPaths lib dependencies)
  plan : ∀ {δ : Type} (claim : Claim δ) (rejected : List Alternative)
    (cohort : Option CohortDetails) (context : PlanContext) (other : List Dependency),
    dependencies.Perm other →
    finalizePlanClaim lib claim dependencies rejected cohort context =
      finalizePlanClaim lib claim other rejected cohort context
  closure : ∀ (funder : Address) (seller : Option Address) (period : Option Period)
    (other : List Dependency) (found : Closure), dependencies.Perm other →
    selectClosureForFunder lib dependencies funder seller period = .ok (some found) →
    ∃ found', selectClosureForFunder lib other funder seller period = .ok (some found') ∧
      relayList found = relayList found'

/-- A plan's evidence is sorted in one way only. -/
private theorem finalizePlanClaim_perm {δ : Type} (claim : Claim δ) (rejected : List Alternative)
    (cohort : Option CohortDetails) (context : PlanContext) {other : List Dependency}
    (hids : (dependencies.map Dependency.dependencyId).Nodup)
    (h : OrdersStrictly compareEvidence dependencies) (hperm : dependencies.Perm other) :
    finalizePlanClaim lib claim dependencies rejected cohort context =
      finalizePlanClaim lib claim other rejected cohort context := by
  have hids' : (other.map Dependency.dependencyId).Nodup :=
    (hperm.map Dependency.dependencyId).nodup_iff.mp hids
  have hselected : sortBy compareEvidence (dedupe dependencies) =
      sortBy compareEvidence (dedupe other) := by
    rw [dedupe, dedupe, dedupeBy_eq_self hids, dedupeBy_eq_self hids']
    exact h.sortBy_eq_of_perm hperm
  rw [finalizePlanClaim, finalizePlanClaim, hselected]

/-- The paths that pass their checks are among the dependencies. -/
private theorem mem_of_relayReturns {funder : Address} {period : Option Period}
    {valid : List RelayPath}
    (h : relayReturns (relayCandidates dependencies funder) period = .ok valid) {path : RelayPath}
    (hpath : path ∈ valid) : .relayPath path ∈ dependencies := by
  obtain ⟨candidate, hcandidate, hkept⟩ := mem_of_filterMapM_eq_ok h hpath
  rw [relayCandidates, List.mem_filter, mem_relayPaths] at hcandidate
  by_cases hself : candidate.hops.all nonSelfTransfer = false
  · simp [hself, pure_eq_ok] at hkept
  · rw [if_neg hself] at hkept
    simp only [bind_eq_ok, pure_eq_ok] at hkept
    obtain ⟨ok, _, hsome⟩ := hkept
    by_cases htrue : ok = true
    · rw [if_pos htrue] at hsome
      obtain rfl := Option.some.inj hsome
      exact hcandidate.1
    · rw [if_neg htrue] at hsome
      cases hsome

/-- Relay paths that are ordered strictly are sorted in one way only. -/
private theorem sortRelayPaths_perm {valid other relay : List RelayPath}
    (h : OrdersStrictly (relayPathOrder lib) (costedPaths lib dependencies))
    (hvalid : ∀ path ∈ valid, .relayPath path ∈ dependencies) (hperm : valid.Perm other)
    (hrelay : sortRelayPaths lib valid = .ok relay) : sortRelayPaths lib other = .ok relay := by
  simp only [sortRelayPaths, bind_eq_ok, pure_eq_ok] at hrelay ⊢
  obtain ⟨costs, hcosts, rfl⟩ := hrelay
  by_cases htwo : 2 ≤ valid.length
  · have hall : ∀ path ∈ valid, ∃ cost, relayCost lib path = .ok cost := by
      intro path hpath
      rw [if_pos htwo] at hcosts
      exact exists_mapM_eq_ok.mp ⟨costs, hcosts⟩ path hpath
    have hstrict : OrdersStrictly (relayPathOrder lib) valid :=
      h.mono fun path hpath => mem_costedPaths.mpr ⟨hvalid path hpath, hall path hpath⟩
    obtain ⟨costs', hcosts'⟩ := exists_mapM_eq_ok.mpr fun path hpath =>
      hall path (hperm.symm.subset hpath)
    refine ⟨costs', ?_, (hstrict.sortBy_eq_of_perm hperm).symm⟩
    rw [if_pos (hperm.length_eq ▸ htwo)]
    exact hcosts'
  · rw [if_neg htwo] at hcosts
    refine ⟨costs, ?_, ?_⟩
    · rw [if_neg (hperm.length_eq ▸ htwo)]
      exact hcosts
    · cases valid with
      | nil => rw [hperm.nil_eq]
      | cons path rest =>
        obtain rfl : rest = [] := List.length_eq_zero_iff.mp (by
          rw [List.length_cons] at htwo
          omega)
        rw [List.perm_singleton.mp hperm.symm]

private theorem selectClosureForFunder_perm {funder : Address} {seller : Option Address}
    {period : Option Period} {other : List Dependency} {found : Closure}
    (h : OrdersStrictly (relayPathOrder lib) (costedPaths lib dependencies))
    (hperm : dependencies.Perm other)
    (hfound : selectClosureForFunder lib dependencies funder seller period = .ok (some found)) :
    ∃ found', selectClosureForFunder lib other funder seller period = .ok (some found') ∧
      relayList found = relayList found' := by
  rw [selectClosureForFunder] at hfound ⊢
  by_cases hself : seller = some funder
  · rw [if_pos hself] at hfound ⊢
    exact ⟨found, hfound, rfl⟩
  · rw [if_neg hself] at hfound ⊢
    simp only [bind_eq_ok] at hfound
    obtain ⟨valid, hvalid, relay, hrelay, hsome⟩ := hfound
    have hcandidates : (relayCandidates dependencies funder).Perm (relayCandidates other funder) :=
      (hperm.filterMap _).filter _
    have hdirect : (directReturns dependencies funder period).Perm
        (directReturns other funder period) := (hperm.filterMap _).filter _
    obtain ⟨valid', hvalid', hsame⟩ := filterMapM_perm hcandidates hvalid
    have hrelay' := sortRelayPaths_perm h (fun path => mem_of_relayReturns hvalid) hsame hrelay
    by_cases hempty : (directReturns dependencies funder period).map Dependency.entry ++
        relay.map Dependency.relayPath = []
    · rw [if_pos hempty] at hsome
      cases hsome
    · rw [if_neg hempty] at hsome
      have hempty' : ¬ (directReturns other funder period).map Dependency.entry ++
          relay.map Dependency.relayPath = [] := by
        intro hnil
        apply hempty
        have hboth := (hdirect.map Dependency.entry).append_right (relay.map Dependency.relayPath)
        rw [hnil] at hboth
        exact hboth.eq_nil
      obtain rfl := Option.some.inj (pure_eq_ok.mp hsome)
      have hselect : relayReturns (relayCandidates other funder) period = .ok valid' := hvalid'
      simp only [hselect, hrelay', bind, Except.bind, if_neg hempty', pure_eq_ok, Option.some.injEq,
        exists_eq_left', relayList_append]

/-- The order of the evidence is canonical exactly where no relay path is crossed by two logs, and
the relay paths cost the same and differ in their texts. -/
theorem canonicalOrder_iff (lib : PlannerLib) [Std.TransCmp lib.compareHopTexts]
    (dependencies : List Dependency)
    (hids : (dependencies.map Dependency.dependencyId).Nodup) :
    CanonicalOrder lib dependencies ↔ Uncrossed dependencies ∧ Uniform lib dependencies := by
  constructor
  · intro h
    exact ⟨Uncrossed.of_orders h.evidence, relayPathOrder_orders.mp h.relay⟩
  · intro h
    have hevidence := h.1.orders hids
    have hrelay := relayPathOrder_orders.mpr h.2
    constructor
    · exact hevidence
    · exact hrelay
    · intro δ claim rejected cohort context other hperm
      exact finalizePlanClaim_perm claim rejected cohort context hids hevidence hperm
    · intro funder seller period other found hperm hfound
      exact selectClosureForFunder_perm hrelay hperm hfound

/-! ## Crossed and ordered evidence -/

/-- Texts that all compare as equal. -/
private def plainTexts : PlannerLib := ⟨fun _ => 0, fun _ => 0, fun _ _ => .eq⟩

private def settlementAt (id : B256) (block : ℕ) : Entry :=
  ⟨⟨.settlement, 7, block, 0, 0, .seconds block, some 1, some 2, none, none, none, 5, none⟩, id⟩

private def hopAt (block : ℕ) : Atom :=
  ⟨.relaySellerPayment, 8, block, 0, 0, .seconds block, none, none, none, some 1, some 3, 5, none⟩

private def pathThrough (id : B256) (blocks : List ℕ) : RelayPath :=
  ⟨id, some 1, some 3, blocks.map hopAt⟩

private def shortPath : RelayPath := pathThrough 2 [46000002]

private def longPath : RelayPath := pathThrough 4 [46000003, 46000004]

/-- Two settlements and two relay paths; the id of the first path stands between those of the
settlements. -/
private def crossedEvidence : List Dependency :=
  [.entry (settlementAt 3 46000000), .entry (settlementAt 1 46000001), .relayPath shortPath,
    .relayPath longPath]

/-- The first settlement stands before the second, the second before the path and the path before
the first; and each of the two paths is greater than the other. -/
theorem crossedEvidence_not_canonical :
    (crossedEvidence.map Dependency.dependencyId).Nodup ∧
      ¬ CanonicalOrder plainTexts crossedEvidence ∧
      compareEvidence (.entry (settlementAt 3 46000000)) (.entry (settlementAt 1 46000001)) = .lt ∧
      compareEvidence (.entry (settlementAt 1 46000001)) (.relayPath shortPath) = .lt ∧
      compareEvidence (.relayPath shortPath) (.entry (settlementAt 3 46000000)) = .lt ∧
      compareRelayPath plainTexts shortPath longPath = .ok .gt ∧
      compareRelayPath plainTexts longPath shortPath = .ok .gt := by
  refine ⟨by decide, ?_, by decide, by decide, by decide, by decide, by decide⟩
  intro h
  have hfirst : .entry (settlementAt 3 46000000) ∈ crossedEvidence := List.mem_cons_self
  have hsecond : .entry (settlementAt 1 46000001) ∈ crossedEvidence :=
    List.mem_cons_of_mem _ List.mem_cons_self
  have hpath : .relayPath shortPath ∈ crossedEvidence :=
    List.mem_cons_of_mem _ (List.mem_cons_of_mem _ List.mem_cons_self)
  have hcycle := h.evidence.trans _ hfirst _ hsecond _ hpath (by decide) (by decide)
  exact absurd hcycle (by decide)

/-- Texts of hops that are compared by their blocks. -/
private def blockTexts : PlannerLib :=
  ⟨fun _ => 0, fun _ => 0, List.compareLex (compareOn Atom.blockNumber)⟩

private def otherPath : RelayPath := pathThrough 4 [46000003]

/-- Two settlements and two relay paths of one hop, by id as by position. -/
private def orderedEvidence : List Dependency :=
  [.entry (settlementAt 1 46000000), .relayPath shortPath, .entry (settlementAt 3 46000001),
    .relayPath otherPath]

/-- Evidence whose paths are told apart by their texts has a canonical order. -/
theorem orderedEvidence_canonical :
    compareRelayPath blockTexts shortPath otherPath = .ok .lt ∧
      CanonicalOrder blockTexts orderedEvidence := by
  have hlawful : Std.TransCmp blockTexts.compareHopTexts :=
    inferInstanceAs (Std.TransCmp (List.compareLex (compareOn Atom.blockNumber)))
  have hpaths : ∀ path,
      .relayPath path ∈ orderedEvidence → path = shortPath ∨ path = otherPath := by
    intro path hmem
    simpa [orderedEvidence] using hmem
  have hcosts : ∀ path, .relayPath path ∈ orderedEvidence →
      relayCost blockTexts path = relayCost blockTexts shortPath := by
    intro path hmem
    rcases hpaths path hmem with rfl | rfl
    · rfl
    · decide +kernel
  refine ⟨by decide +kernel, (canonicalOrder_iff blockTexts orderedEvidence (by decide)).mpr ?_⟩
  constructor
  · intro earlier later path hearlier hlater hmem hposition
    simp only [orderedEvidence, List.mem_cons, Dependency.entry.injEq, reduceCtorEq,
      List.not_mem_nil, or_false, false_or] at hearlier hlater
    rcases hearlier with rfl | rfl
    · rcases hpaths path hmem with rfl | rfl
      · rcases hlater with rfl | rfl <;> decide
      · rcases hlater with rfl | rfl <;> decide
    · rcases hlater with rfl | rfl
      · exact absurd hposition (by decide)
      · exact absurd hposition (by decide)
  · constructor
    · intro p q hp hq c d hc hd
      rw [hcosts p hp] at hc
      rw [hcosts q hq, hc] at hd
      exact Except.ok.inj hd
    · intro p hp q hq htexts
      rcases hpaths p (mem_costedPaths.mp hp).1 with rfl | rfl
      · rcases hpaths q (mem_costedPaths.mp hq).1 with rfl | rfl
        · rfl
        · exact absurd htexts (by decide)
      · rcases hpaths q (mem_costedPaths.mp hq).1 with rfl | rfl
        · exact absurd htexts (by decide)
        · rfl

end LoopProof.Planner
