import LoopProof.Lib.LimitedSearch
import LoopProof.Correctness.ReturnChains

/-!
# Exhaustive search for return chains

The search of the expanded graph reports the unpruned list of chains, or a beginning of it where a
limit stops it: what the distance bound, the test whether the funder can still be reached, and the
binary search leave out has no completion.
-/

namespace LoopProof.Planner

variable {search : GraphSearch} {edges : List TraceTransfer} {funder address : Address}
  {first previous : TraceTransfer} {visited : List Address}

/-! ## What is left out has no completion -/

/-- An address with a completion is no further from the funder than the completion is long. -/
theorem distanceTo_le {suffix : List TraceTransfer}
    (h : Completes edges funder first address previous visited suffix)
    (hlength : suffix.length ≤ 9) :
    ∃ distance ≤ suffix.length, distanceTo edges funder address = some distance := by
  induction suffix generalizing address previous visited with
  | nil =>
    rw [Completes] at h
    refine ⟨0, le_rfl, ?_⟩
    rw [h]
    exact distanceTo_funder edges funder
  | cons hop rest ih =>
    obtain ⟨_, hedge, rfl, _, hrest⟩ := h
    rw [List.length_cons] at hlength ⊢
    obtain ⟨known, hle, hknown⟩ := ih hrest (by omega)
    obtain ⟨distance, hdistance, hsender⟩ := distanceTo_sender hedge hknown (by omega)
    exact ⟨distance, by omega, hsender⟩

/-- Where transfers from an address go. -/
theorem mem_destinations {next : Address} :
    next ∈ destinations edges address ↔
      ∃ hop ∈ edges, hop.sender = address ∧ hop.recipient = next := by
  simp [destinations, mem_outgoing, and_assoc]

/-- The funder can be reached from an address with a completion. -/
theorem canFinish_of_completes {suffix : List TraceTransfer} {remaining : ℕ}
    (h : Completes edges funder first address previous visited suffix)
    (hlength : suffix.length ≤ remaining) (hremaining : remaining ≤ 9) :
    canFinish edges funder remaining address visited = true := by
  induction remaining generalizing address previous visited suffix with
  | zero =>
    cases suffix with
    | nil => exact decide_eq_true h
    | cons hop rest => cases hlength
  | succ remaining ih =>
    rw [canFinish]
    by_cases hend : address = funder
    · rw [if_pos hend]
    · obtain ⟨distance, _, hdistance⟩ := distanceTo_le h (hlength.trans hremaining)
      rw [if_neg hend, hdistance, if_neg (by simp), List.any_eq_true]
      cases suffix with
      | nil => exact absurd h hend
      | cons hop rest =>
        obtain ⟨_, hedge, hsender, hfollows, hrest⟩ := h
        refine ⟨hop.recipient, mem_destinations.mpr ⟨hop, hedge, hsender, rfl⟩, ?_⟩
        rw [decide_eq_true_iff]
        exact ⟨hfollows.unvisited,
          ih hrest (Nat.le_of_succ_le_succ hlength) (Nat.le_of_succ_le hremaining)⟩

/-- A chain that is at the funder is complete. -/
theorem extensions_funder (room : ℕ) :
    extensions edges funder first room funder previous visited = [[]] := by
  cases room with
  | zero => rw [extensions, if_pos rfl]
  | succ room => rw [extensions, if_pos rfl]

/-- No completion starts at an address that is too far from the funder. -/
theorem extensions_eq_nil_of_far {room : ℕ} (hroom : room ≤ 9)
    (hfar : room < (distanceTo edges funder address).getD 10) :
    extensions edges funder first room address previous visited = [] := by
  rw [List.eq_nil_iff_forall_not_mem]
  intro suffix hmem
  obtain ⟨hlength, hcompletes⟩ := mem_extensions.mp hmem
  obtain ⟨distance, hle, hdistance⟩ := distanceTo_le hcompletes (hlength.trans hroom)
  rw [hdistance, Option.getD_some] at hfar
  omega

/-- No completion starts where the funder cannot be reached any more. -/
theorem extensions_eq_nil_of_cut {room : ℕ} (hroom : room ≤ 9)
    (hcut : canFinish edges funder room address visited = false) :
    extensions edges funder first room address previous visited = [] := by
  rw [List.eq_nil_iff_forall_not_mem]
  intro suffix hmem
  obtain ⟨hlength, hcompletes⟩ := mem_extensions.mp hmem
  rw [canFinish_of_completes hcompletes hlength hroom] at hcut
  cases hcut

/-- The completions that begin with a transfer. -/
def branch (edges : List TraceTransfer) (funder : Address) (first : TraceTransfer) (room : ℕ)
    (previous : TraceTransfer) (visited : List Address) (hop : TraceTransfer) :
    List (List TraceTransfer) :=
  if MayFollow first previous visited hop then
    (extensions edges funder first room hop.recipient hop (hop.recipient :: visited)).map (hop :: ·)
  else []

/-- A chain that is not at the funder goes on with any transfer that may follow. -/
theorem extensions_succ {room : ℕ} (hne : address ≠ funder) :
    extensions edges funder first (room + 1) address previous visited =
      (outgoing edges address).flatMap (branch edges funder first room previous visited) := by
  rw [extensions, if_neg hne]
  rfl

/-- A transfer that may not follow leads nowhere. -/
theorem branch_eq_nil {room : ℕ} {hop : TraceTransfer}
    (h : ¬ MayFollow first previous visited hop) :
    branch edges funder first room previous visited hop = [] :=
  if_neg h

/-- A transfer from whose recipient the funder is out of reach leads nowhere. -/
theorem branch_eq_nil_of_cut {room : ℕ} {hop : TraceTransfer} (hroom : room ≤ 9)
    (hcut : canFinish edges funder room hop.recipient (hop.recipient :: visited) = false) :
    branch edges funder first room previous visited hop = [] := by
  rw [branch, extensions_eq_nil_of_cut hroom hcut, List.map_nil, ite_self]

/-! ## Order of the outgoing transfers -/

instance : Std.TransCmp hopOrder :=
  inferInstanceAs (Std.TransCmp (compareLex (compareOn TraceTransfer.timestamp)
    (compareOn TraceTransfer.logIndex)))

/-- What comes first is no later. -/
theorem timestamp_le_of_isLE {left right : TraceTransfer}
    (h : (hopOrder left right).isLE = true) : left.timestamp ≤ right.timestamp := by
  by_contra hlt
  have hgt : compare left.timestamp right.timestamp = .gt :=
    Nat.compare_eq_gt.mpr (Nat.lt_of_not_le hlt)
  rw [hopOrder, compareLex, compareOn, hgt] at h
  cases h

/-- The transfers of an address are in the order of their times. -/
theorem outgoing_timestamps (edges : List TraceTransfer) (address : Address) :
    (outgoing edges address).Pairwise fun left right => left.timestamp ≤ right.timestamp :=
  (pairwise_sortBy _).imp timestamp_le_of_isLE

/-- A transfer before one that is not later than the previous one is not later either. -/
theorem outgoing_passesFirst (edges : List TraceTransfer) (address : Address)
    (previous : TraceTransfer) :
    PassesFirst (fun hop => (hopOrder previous hop).isGE) (outgoing edges address) := by
  apply (pairwise_sortBy (edges.filter (·.sender = address))).imp
  intro left right hle hge
  rw [Std.OrientedCmp.isGE_iff_isLE] at hge ⊢
  exact Std.TransCmp.isLE_trans hle hge

/-- The transfers that the binary search leaves out begin no completion. -/
theorem flatMap_branch_drop (room : ℕ) :
    ((outgoing edges address).drop
        (lowerBound (fun hop => (hopOrder previous hop).isGE) (outgoing edges address))).flatMap
      (branch edges funder first room previous visited) =
    (outgoing edges address).flatMap (branch edges funder first room previous visited) := by
  have hpass := lowerBound_take (outgoing_passesFirst edges address previous)
  generalize lowerBound (fun hop => (hopOrder previous hop).isGE) (outgoing edges address) = lower
    at hpass ⊢
  have hempty : ((outgoing edges address).take lower).flatMap
      (branch edges funder first room previous visited) = [] := by
    rw [List.flatMap_eq_nil_iff]
    intro hop hmem
    apply branch_eq_nil
    intro hfollows
    have hge := hpass hop hmem
    rw [hfollows.later] at hge
    cases hge
  conv_rhs => rw [← List.take_append_drop lower (outgoing edges address), List.flatMap_append,
    hempty, List.nil_append]

/-! ## What the search reports -/

/-- A walk goes on while it has found fewer paths and taken fewer steps than allowed. -/
theorem limited_eq_false {state : WalkState} : limited search state = false ↔
    state.paths.length < search.maxPaths ∧ state.steps < search.maxSteps := by
  rw [limited, decide_eq_false_iff_not, not_or, Nat.not_le, Nat.not_le]

/-- A walk that has taken all its steps ends. -/
theorem limited_of_steps {state : WalkState} (h : search.maxSteps ≤ state.steps) :
    limited search state = true := by
  rw [limited, decide_eq_true_iff]
  exact .inr h

/-- The chains of a list are reported, unless a limit stops the search. -/
abbrev ReportsChains (search : GraphSearch) : WalkState → WalkState → List FoundChain → Prop :=
  Reports WalkState.paths fun state => limited search state = true

/-- Where every transfer that may follow reports its chains, so does trying them in order. -/
theorem explore_reports {descend : TraceTransfer → WalkState → Option WalkState} {remaining : ℕ}
    {items : TraceTransfer → List FoundChain} {hops : List TraceTransfer} {state : WalkState}
    (hsorted : hops.Pairwise fun left right => left.timestamp ≤ right.timestamp)
    (hblocked : ∀ hop, ¬ MayFollow first previous visited hop → items hop = [])
    (hcut : ∀ hop, canFinish edges search.funder remaining hop.recipient
      (hop.recipient :: visited) = false → items hop = [])
    (hdescend : ∀ hop, MayFollow first previous visited hop → ∀ state : WalkState,
      state.steps ≤ search.maxSteps → ∃ state', descend hop state = some state' ∧
        ReportsChains search state state' (items hop) ∧ state'.steps ≤ search.maxSteps)
    (hstate : limited search state = false) :
    ∃ state', explore search edges descend first previous visited remaining hops state =
        some state' ∧ ReportsChains search state state' (hops.flatMap items) ∧
      state'.steps ≤ search.maxSteps := by
  induction hops generalizing state with
  | nil => exact ⟨state, rfl, .nil rfl, (limited_eq_false.mp hstate).2.le⟩
  | cons hop rest ih =>
    obtain ⟨hpaths, hsteps⟩ := limited_eq_false.mp hstate
    rw [List.pairwise_cons] at hsorted
    rw [explore]
    dsimp only
    split
    · rename_i hmax
      exact ⟨_, rfl, .of_stopped rfl (limited_of_steps hmax), hsteps⟩
    · rename_i hmax
      have hnext : limited search { state with steps := state.steps + 1 } = false :=
        limited_eq_false.mpr ⟨hpaths, Nat.lt_of_not_le hmax⟩
      split
      · rename_i hwindow
        -- The later transfers are outside the window as well.
        have hempty : (hop :: rest).flatMap items = [] := by
          rw [List.flatMap_eq_nil_iff]
          intro next hmem
          apply hblocked
          intro hfollows
          have hwithin := hfollows.window
          rcases List.mem_cons.mp hmem with rfl | hrest
          · omega
          · have hle := hsorted.1 next hrest
            omega
        rw [hempty]
        exact ⟨_, rfl, .nil rfl, hsteps⟩
      · rename_i hwindow
        rw [List.flatMap_cons]
        split
        · rename_i hskip
          have hempty : items hop = [] := by
            rcases hskip with horder | hvisited | hretains | hfinish
            · exact hblocked hop fun hfollows => horder hfollows.later
            · exact hblocked hop fun hfollows => hfollows.unvisited hvisited
            · apply hblocked hop
              intro hfollows
              rw [hfollows.retained] at hretains
              cases hretains
            · exact hcut hop hfinish
          rw [hempty, List.nil_append]
          obtain ⟨state', hrun, hreports, hbound⟩ := ih hsorted.2 hnext
          exact ⟨state', hrun, .of_same rfl hreports, hbound⟩
        · rename_i hnot
          simp only [not_or, not_not, Bool.not_eq_false] at hnot
          obtain ⟨horder, hvisited, hretains, _⟩ := hnot
          obtain ⟨next, hrun, hreports, hbound⟩ := hdescend hop
            ⟨horder, hvisited, hretains, Nat.le_of_not_lt hwindow⟩ _
            (limited_eq_false.mp hnext).2.le
          rw [hrun, Option.bind_eq_bind, Option.bind_some]
          by_cases hlimited : limited search next = true
          · rw [if_pos hlimited]
            exact ⟨next, rfl, .of_same rfl (hreports.append_stopped hlimited), hbound⟩
          · rw [if_neg hlimited]
            obtain ⟨state', hrest, hreports', hbound'⟩ :=
              ih hsorted.2 (Bool.eq_false_iff.mpr hlimited)
            exact ⟨state', hrest, .of_same rfl (.after (hreports.all hlimited) hreports'), hbound'⟩

/-- The chain that a completion makes of the transfers selected so far. -/
def chainItem (first : TraceTransfer) (later : List TraceTransfer) (credit : ℕ)
    (suffix : List TraceTransfer) : FoundChain :=
  ⟨first :: later ++ suffix, (suffix.map (·.amountRaw)).foldl min credit⟩

/-- A chain with one more transfer in front of its suffix. -/
theorem chainItem_cons {later suffix : List TraceTransfer} {credit : ℕ} {hop : TraceTransfer} :
    chainItem first later credit (hop :: suffix) =
      chainItem first (later ++ [hop]) (min credit hop.amountRaw) suffix := by
  simp [chainItem]

/-- With enough fuel for the chains that are left, the search from an address reports the
completions of the transfers selected so far. -/
theorem walk_reports {fuel : ℕ} {later : List TraceTransfer} {credit : ℕ} {state : WalkState}
    (hfuel : 9 ≤ fuel + later.length) (hlater : later.length ≤ 8)
    (hsteps : state.steps ≤ search.maxSteps) :
    ∃ state', walk search edges fuel address first later credit visited state = some state' ∧
      ReportsChains search state state'
        ((extensions edges search.funder first (8 - later.length) address (later.getLastD first)
          visited).map (chainItem first later credit)) ∧
      state'.steps ≤ search.maxSteps := by
  induction fuel generalizing address later credit visited state with
  | zero => omega
  | succ fuel ih =>
    rw [walk]
    by_cases hlimited : limited search state = true
    · rw [if_pos hlimited]
      exact ⟨_, rfl, .of_stopped rfl hlimited, hsteps⟩
    · rw [if_neg hlimited]
      by_cases hend : address = search.funder
      · rw [if_pos hend, hend, extensions_funder]
        refine ⟨_, rfl, ⟨_, List.prefix_rfl, ?_, fun _ => rfl⟩, hsteps⟩
        simp [chainItem]
      · rw [if_neg hend, List.length_cons]
        by_cases hfar : 9 < later.length + 1 + (distanceTo edges search.funder address).getD 10
        · rw [if_pos hfar, extensions_eq_nil_of_far (by omega) (by omega)]
          exact ⟨state, rfl, .nil rfl, hsteps⟩
        · rw [if_neg hfar]
          -- Only the funder is at distance zero, so that there is room for a transfer.
          have hroom : 8 - later.length = 8 - (later.length + 1) + 1 := by
            have hne : (distanceTo edges search.funder address).getD 10 ≠ 0 := by
              intro hzero
              cases hdistance : distanceTo edges search.funder address with
              | none =>
                rw [hdistance] at hzero
                cases hzero
              | some distance =>
                rw [hdistance, Option.getD_some] at hzero
                exact hend (eq_of_distanceTo_zero (hzero ▸ hdistance))
            omega
          generalize 8 - (later.length + 1) = room at hroom
          rw [hroom, extensions_succ hend, ← flatMap_branch_drop, List.map_flatMap]
          dsimp only
          apply explore_reports
          · exact (outgoing_timestamps edges address).sublist (List.drop_sublist _ _)
          · intro hop hnot
            rw [branch_eq_nil hnot, List.map_nil]
          · intro hop hcut
            rw [branch_eq_nil_of_cut (by omega) hcut, List.map_nil]
          · intro hop hfollows next hnext
            have hlength : (later ++ [hop]).length = later.length + 1 := by simp
            have hleft : 8 - (later ++ [hop]).length = room := by omega
            have hlast : (later ++ [hop]).getLastD first = hop := by simp
            have h := @ih hop.recipient (hop.recipient :: visited) (later ++ [hop])
              (min credit hop.amountRaw) next (by omega) (by omega) hnext
            rw [hleft, hlast] at h
            rw [branch, if_pos hfollows, List.map_map]
            have hitems : chainItem first later credit ∘ (hop :: ·) =
                chainItem first (later ++ [hop]) (min credit hop.amountRaw) :=
              funext fun _ => chainItem_cons
            rw [hitems]
            exact h
          · exact Bool.eq_false_iff.mpr hlimited

/-- The chains that the search is to report, with their credits. -/
def chainItems (edges : List TraceTransfer) (seller funder : Address) : List FoundChain :=
  (sortBy compareStarts (outgoing edges seller)).flatMap fun hop =>
    (extensions edges funder hop 8 hop.recipient hop [hop.recipient, seller]).map
      (chainItem hop [] hop.amountRaw)

/-- The search from the seller reports its chains, unless it says that it was cut off. -/
theorem walkStarts_reports {fuel : ℕ} (hfuel : 9 ≤ fuel) {hops : List TraceTransfer}
    {state : WalkState} (hsteps : state.steps ≤ search.maxSteps) :
    ∃ state', walkStarts search edges fuel hops state = some state' ∧
      Reports WalkState.paths (fun state => state.truncated = true) state state'
        (hops.flatMap fun hop =>
          (extensions edges search.funder hop 8 hop.recipient hop
            [hop.recipient, search.seller]).map (chainItem hop [] hop.amountRaw)) ∧
      state'.steps ≤ search.maxSteps := by
  induction hops generalizing state with
  | nil => exact ⟨state, rfl, .nil rfl, hsteps⟩
  | cons hop rest ih =>
    obtain ⟨next, hrun, hreports, hbound⟩ := @walk_reports search edges hop.recipient hop
      [hop.recipient, search.seller] fuel [] hop.amountRaw state hfuel (Nat.zero_le 8) hsteps
    rw [walkStarts, hrun, Option.bind_eq_bind, Option.bind_some, List.flatMap_cons]
    by_cases hlimited : limited search next = true
    · rw [if_pos hlimited]
      refine ⟨_, rfl, Reports.append_stopped ?_ rfl, hbound⟩
      exact hreports.of_imp rfl fun _ => rfl
    · rw [if_neg hlimited]
      obtain ⟨state', hrest, hreports', hbound'⟩ := ih hbound
      exact ⟨state', hrest, .after (hreports.all hlimited) hreports', hbound'⟩

/-! ## The chains of a result -/

/-- The items are the chains of the graph. -/
theorem chainItems_hops (edges : List TraceTransfer) (seller funder : Address) :
    (chainItems edges seller funder).map (·.hops) = allChains edges seller funder := by
  rw [chainItems, allChains, List.map_flatMap]
  apply List.flatMap_congr
  intro hop _
  rw [List.map_map]
  rfl

/-- The credit of a chain is its least amount. -/
theorem chainItems_credit {seller : Address} {path : FoundChain}
    (h : path ∈ chainItems edges seller funder) :
    (path.hops.map (·.amountRaw)).min? = some path.creditRaw := by
  obtain ⟨hop, _, hmem⟩ := List.mem_flatMap.mp h
  obtain ⟨suffix, _, rfl⟩ := List.mem_map.mp hmem
  rfl

/-- What a search says of its chains: each is a return chain, listed once, with its least amount
as credit, and where the search was not cut off there are no others. -/
structure FoundChains (search : GraphSearch) (edges : List TraceTransfer)
    (result : GraphResult) : Prop where
  chains : ∀ path ∈ result.paths, ReturnChain edges search.seller search.funder path.hops
  once : (result.paths.map (·.hops)).Nodup
  credit : ∀ path ∈ result.paths, (path.hops.map (·.amountRaw)).min? = some path.creditRaw
  exhaustive : result.truncated = false → ∀ hops,
    ReturnChain edges search.seller search.funder hops → hops ∈ result.paths.map (·.hops)
  withinSteps : result.steps ≤ search.maxSteps

/-- No edge of a loaded graph leads to its own sender. -/
theorem Loaded.self {graph : ReturnGraph} (h : Loaded search graph) :
    ∀ hop ∈ graph.edges, hop.sender ≠ hop.recipient := by
  intro hop hmem
  exact (of_decide_eq_true (h.admitted hop hmem)).2.2.1

/-- The search ends within its limits, and what it says of its chains is so: the edges are the
admitted transfers of the traces it loaded, its chains are return chains of these edges, and they
are all of them unless it says that it was cut off. -/
theorem discoverExpandedReturnGraph_exhaustive (search : GraphSearch) (fuel : ℕ)
    (hfuel : 9 ≤ fuel) (hpaths : validLimit search.maxPaths = true)
    (hsteps : validLimit search.maxSteps = true) :
    ∃ result, discoverExpandedReturnGraph fuel search = some (.ok result) ∧
      Loaded search (loadReturnGraph search) ∧
      FoundChains search (loadReturnGraph search).edges result := by
  have hloaded := loaded_loadReturnGraph search
  rw [discoverExpandedReturnGraph, hpaths, hsteps, if_neg (by simp)]
  dsimp only
  generalize loadReturnGraph search = graph at hloaded ⊢
  obtain ⟨state, hrun, hreports, hbound⟩ := @walkStarts_reports search graph.edges fuel hfuel
    (sortBy compareStarts (outgoing graph.edges search.seller)) ⟨[], 0, false⟩ (Nat.zero_le _)
  rw [hrun, Option.bind_eq_bind, Option.bind_some]
  have hnodup : graph.edges.Nodup := List.Nodup.of_map _ hloaded.nodup
  have hchains {hops : List TraceTransfer} :
      hops ∈ (chainItems graph.edges search.seller search.funder).map (·.hops) ↔
        ReturnChain graph.edges search.seller search.funder hops := by
    rw [chainItems_hops, mem_allChains hloaded.self]
  have hbegin : state.paths <+: chainItems graph.edges search.seller search.funder :=
    hreports.beginning rfl
  refine ⟨_, rfl, hloaded, ?_, ?_, ?_, ?_, hbound⟩
  · intro path hmem
    exact hchains.mp (List.mem_map_of_mem (hbegin.subset hmem))
  · apply List.Nodup.sublist (hbegin.sublist.map _)
    rw [chainItems_hops]
    exact nodup_allChains hnodup search.seller
  · intro path hmem
    exact chainItems_credit (hbegin.subset hmem)
  · intro htruncated hops hchain
    have hall := hreports.all (Bool.eq_false_iff.mp htruncated)
    change hops ∈ state.paths.map (·.hops)
    rw [hall]
    exact hchains.mpr hchain

section Example

private def edgeOf (sender recipient : Address) (amountRaw timestamp logIndex : ℕ) :
    TraceTransfer :=
  ⟨sender, recipient, amountRaw, timestamp, 5, logIndex, none, none⟩

/-- Seller 1 reaches funder 2 directly and over address 3; the way over 4 loses too much. -/
private def twoChains : GraphSearch where
  seller := 1
  funder := 2
  loadTrace address :=
    if address = 1 then some ⟨true, [], [edgeOf 1 3 100 10 1, edgeOf 1 2 50 11 2]⟩
    else if address = 3 then some ⟨true, [], [edgeOf 3 4 90 13 3, edgeOf 3 2 30 14 4]⟩
    else if address = 4 then some ⟨true, [], [edgeOf 4 2 20 15 5]⟩
    else none
  earliest := 0
  endTime := 100
  maxPaths := 10
  maxSteps := 100

/-- A search through two chains finds both. -/
theorem twoChains_exhaustive : ∃ result,
    discoverExpandedReturnGraph 9 twoChains = some (.ok result) ∧
      result.paths.map (·.creditRaw) = [30, 50] ∧ result.truncated = false ∧
      FoundChains twoChains (loadReturnGraph twoChains).edges result := by
  obtain ⟨result, hrun, _, hfound⟩ :=
    discoverExpandedReturnGraph_exhaustive twoChains 9 (by decide) (by decide) (by decide)
  have hpaths : (discoverExpandedReturnGraph 9 twoChains).map (fun outcome =>
      outcome.toOption.map fun result => (result.paths.map (·.creditRaw), result.truncated)) =
      some (some ([30, 50], false)) := by
    decide +kernel
  rw [hrun] at hpaths
  obtain ⟨hcredits, htruncated⟩ := Prod.mk.inj (Option.some.inj (Option.some.inj hpaths))
  exact ⟨result, hrun, hcredits, htruncated, hfound⟩

end Example

end LoopProof.Planner
