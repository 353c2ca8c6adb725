import LoopProof.Planner.ReturnGraph

/-!
# The loaded return graph

The edges of the graph are the admitted transfers of the traces that were asked for, and each
address that reaches the funder within nine transfers has a distance that is no larger.
-/

namespace LoopProof.Planner

variable {search : GraphSearch} {edges : List TraceTransfer}

/-! ## The loaded transfers -/

/-- What traces were asked for offers a transfer. -/
def Offered (search : GraphSearch) (loaded : List Address) (hop : TraceTransfer) : Prop :=
  (∃ trace, search.loadTrace search.funder = some trace ∧ hop ∈ trace.inboundUsdc) ∨
    ∃ address ∈ loaded, ∃ trace, search.loadTrace address = some trace ∧
      hop ∈ trace.outboundUsdc

/-- The edges are the admitted transfers of the loaded traces, one for each transaction and log. -/
structure Loaded (search : GraphSearch) (graph : ReturnGraph) : Prop where
  nodup : (graph.edges.map TraceTransfer.key).Nodup
  admitted : ∀ hop ∈ graph.edges, admitsEdge search hop = true
  offered : ∀ hop ∈ graph.edges, Offered search graph.loaded hop
  complete : ∀ hop, Offered search graph.loaded hop → admitsEdge search hop = true →
    hop.key ∈ graph.edges.map TraceTransfer.key

namespace ReturnGraph

/-- A further transfer loads no address. -/
@[simp] theorem add_loaded (graph : ReturnGraph) (hop : TraceTransfer) :
    (graph.add search hop).loaded = graph.loaded := by
  rw [add]
  split
  · rfl
  · split
    · rfl
    · rfl

/-- A transfer is added as an admitted edge that is not there yet. -/
theorem mem_add {graph : ReturnGraph} {hop edge : TraceTransfer} :
    edge ∈ (graph.add search hop).edges ↔ edge ∈ graph.edges ∨
      edge = hop ∧ admitsEdge search hop = true ∧
        hop.key ∉ graph.edges.map TraceTransfer.key := by
  by_cases hadmits : admitsEdge search hop = true
  · by_cases hkey : hop.key ∈ graph.edges.map TraceTransfer.key
    · simp [add, hadmits, hkey]
    · simp [add, hadmits, hkey]
  · simp [add, hadmits]

/-- A transfer that is added twice is in the graph once. -/
theorem nodup_add {graph : ReturnGraph} {hop : TraceTransfer}
    (h : (graph.edges.map TraceTransfer.key).Nodup) :
    ((graph.add search hop).edges.map TraceTransfer.key).Nodup := by
  rw [add]
  split
  · exact h
  · split
    · exact h
    · rename_i hkey
      rw [List.map_append, List.map_singleton, List.nodup_append_comm, List.singleton_append]
      exact List.nodup_cons.mpr ⟨hkey, h⟩

/-- The key of an admitted transfer is there after it is added. -/
theorem key_mem_add {graph : ReturnGraph} {hop : TraceTransfer}
    (hadmits : admitsEdge search hop = true) :
    hop.key ∈ (graph.add search hop).edges.map TraceTransfer.key := by
  by_cases hkey : hop.key ∈ graph.edges.map TraceTransfer.key
  · obtain ⟨edge, hedge, heq⟩ := List.mem_map.mp hkey
    exact List.mem_map.mpr ⟨edge, mem_add.mpr (.inl hedge), heq⟩
  · exact List.mem_map.mpr ⟨hop, mem_add.mpr (.inr ⟨rfl, hadmits, hkey⟩), rfl⟩

/-- Adding transfers keeps the keys that are there. -/
theorem keys_subset_add {graph : ReturnGraph} {hop : TraceTransfer} {key : TransferKey}
    (h : key ∈ graph.edges.map TraceTransfer.key) :
    key ∈ (graph.add search hop).edges.map TraceTransfer.key := by
  obtain ⟨edge, hedge, heq⟩ := List.mem_map.mp h
  exact List.mem_map.mpr ⟨edge, mem_add.mpr (.inl hedge), heq⟩

end ReturnGraph

/-- While a trace is read, its transfers read so far are offered too. -/
private theorem loaded_foldl {hops : List TraceTransfer} {graph : ReturnGraph}
    {offered : TraceTransfer → Prop}
    (hnodup : (graph.edges.map TraceTransfer.key).Nodup)
    (hadmitted : ∀ hop ∈ graph.edges, admitsEdge search hop = true)
    (hoffered : ∀ hop ∈ graph.edges, offered hop)
    (hcomplete : ∀ hop, offered hop → hop ∉ hops → admitsEdge search hop = true →
      hop.key ∈ graph.edges.map TraceTransfer.key)
    (hhops : ∀ hop ∈ hops, offered hop) :
    let graph' := hops.foldl (ReturnGraph.add search) graph
    (graph'.edges.map TraceTransfer.key).Nodup ∧
      (∀ hop ∈ graph'.edges, admitsEdge search hop = true) ∧
      (∀ hop ∈ graph'.edges, offered hop) ∧
      (∀ hop, offered hop → admitsEdge search hop = true →
        hop.key ∈ graph'.edges.map TraceTransfer.key) ∧
      graph'.loaded = graph.loaded := by
  induction hops generalizing graph with
  | nil =>
    exact ⟨hnodup, hadmitted, hoffered, fun hop h => hcomplete hop h List.not_mem_nil, rfl⟩
  | cons next hops ih =>
    rw [List.forall_mem_cons] at hhops
    have h := @ih (graph.add search next) (ReturnGraph.nodup_add hnodup) ?_ ?_ ?_ hhops.2
    · rwa [ReturnGraph.add_loaded] at h
    · intro hop hmem
      rcases ReturnGraph.mem_add.mp hmem with hold | ⟨rfl, hadmits, _⟩
      · exact hadmitted hop hold
      · exact hadmits
    · intro hop hmem
      rcases ReturnGraph.mem_add.mp hmem with hold | ⟨rfl, _, _⟩
      · exact hoffered hop hold
      · exact hhops.1
    · intro hop hoffer hnot hadmits
      by_cases heq : hop = next
      · subst heq
        exact ReturnGraph.key_mem_add hadmits
      · apply ReturnGraph.keys_subset_add
        exact hcomplete hop hoffer (by simp [heq, hnot]) hadmits

/-- The graph of the funder's trace is loaded. -/
theorem loaded_loadTerminal (search : GraphSearch) : Loaded search (loadTerminal search) := by
  rw [loadTerminal]
  generalize hmissing : (if (search.loadTrace search.funder).any Trace.complete = true then []
    else [search.funder]) = missing
  have h := @loaded_foldl search ((search.loadTrace search.funder).elim [] Trace.inboundUsdc)
    ⟨[], [], missing⟩ (Offered search []) List.nodup_nil nofun nofun ?_ ?_
  · obtain ⟨hnodup, hadmitted, hoffered, hcomplete, hloaded⟩ := h
    exact ⟨hnodup, hadmitted, hloaded ▸ hoffered, hloaded ▸ hcomplete⟩
  · rintro hop (⟨trace, htrace, hmem⟩ | ⟨_, hnil, _⟩) hnot _
    · rw [htrace] at hnot
      exact absurd hmem hnot
    · cases hnil
  · intro hop hmem
    cases htrace : search.loadTrace search.funder with
    | none =>
      rw [htrace] at hmem
      cases hmem
    | some trace =>
      rw [htrace] at hmem
      exact .inl ⟨trace, htrace, hmem⟩

/-- A graph stays loaded when an address is loaded. -/
theorem Loaded.load {graph : ReturnGraph} (h : Loaded search graph) (address : Address) :
    Loaded search (graph.load search address) := by
  rw [ReturnGraph.load]
  split
  · exact h
  · dsimp only
    generalize hmissing : (if (search.loadTrace address).any Trace.complete = true then
      graph.missing else graph.missing ++ [address]) = missing
    have hloaded := @loaded_foldl search ((search.loadTrace address).elim [] Trace.outboundUsdc)
      { graph with loaded := graph.loaded ++ [address], missing := missing }
      (Offered search (graph.loaded ++ [address])) h.nodup h.admitted ?_ ?_ ?_
    · obtain ⟨hnodup, hadmitted, hoffered, hcomplete, heq⟩ := hloaded
      exact ⟨hnodup, hadmitted, heq ▸ hoffered, heq ▸ hcomplete⟩
    · intro hop hmem
      rcases h.offered hop hmem with hfunder | ⟨sender, hsender, htrace⟩
      · exact .inl hfunder
      · exact .inr ⟨sender, List.mem_append_left _ hsender, htrace⟩
    · rintro hop (hfunder | ⟨sender, hsender, trace, htrace, hmem⟩) hnot hadmits
      · exact h.complete hop (.inl hfunder) hadmits
      · rcases List.mem_append.mp hsender with hold | hnew
        · exact h.complete hop (.inr ⟨sender, hold, trace, htrace, hmem⟩) hadmits
        · rw [List.mem_singleton.mp hnew] at htrace
          rw [htrace] at hnot
          exact absurd hmem hnot
    · intro hop hmem
      cases htrace : search.loadTrace address with
      | none =>
        rw [htrace] at hmem
        cases hmem
      | some trace =>
        rw [htrace] at hmem
        exact .inr ⟨address, by simp, trace, htrace, hmem⟩

/-- A graph stays loaded when a frontier is loaded. -/
theorem Loaded.loadFrontier {frontier : List Address} {graph : ReturnGraph} {next : List Address}
    (h : Loaded search graph) : Loaded search (loadFrontier search frontier graph next).1 := by
  induction frontier generalizing graph next with
  | nil => exact h
  | cons address frontier ih =>
    rw [Planner.loadFrontier]
    split
    · exact ih h
    · exact ih (h.load address)

/-- The graph that is searched holds the admitted transfers of the traces it loaded. -/
theorem loaded_loadReturnGraph (search : GraphSearch) :
    Loaded search (loadReturnGraph search) :=
  ((loaded_loadTerminal search).load search.seller).loadFrontier.loadFrontier

/-! ## Distance to the funder -/

/-- After a level: the funder alone has distance zero, no distance is above the depth, the
addresses at the depth are those of the level, and one transfer adds at most one to a distance
below the depth. -/
structure LevelReached (edges : List TraceTransfer) (funder : Address) (depth : ℕ)
    (reached : Reached) : Prop where
  start : reached.distance funder = some 0
  zero : ∀ address, reached.distance address = some 0 → address = funder
  bounded : ∀ address known, reached.distance address = some known → known ≤ depth
  level : ∀ address, reached.distance address = some depth → address ∈ reached.next
  closed : ∀ edge ∈ edges, ∀ known, reached.distance edge.recipient = some known →
    known < depth → ∃ distance ≤ known + 1, reached.distance edge.sender = some distance

/-- The addresses with a transfer to an address. -/
theorem mem_reverseOf {address previous : Address} :
    previous ∈ reverseOf edges address ↔
      ∃ edge ∈ edges, edge.recipient = address ∧ edge.sender = previous := by
  simp [reverseOf, List.mem_eraseDups, and_assoc]

/-- What one level changes: the given addresses have a distance afterwards, and the new distances
are the depth. -/
structure Visited (depth : ℕ) (addresses : List Address) (reached reached' : Reached) : Prop where
  kept : ∀ address known, reached.distance address = some known →
    reached'.distance address = some known
  new : ∀ address known, reached'.distance address = some known →
    reached.distance address = some known ∨ known = depth ∧ address ∈ reached'.next
  known : ∀ address ∈ addresses, (reached'.distance address).isSome = true
  next : ∀ address ∈ reached.next, address ∈ reached'.next

/-- One visited address is at the given distance unless it was reached before. -/
theorem visited_visit (depth : ℕ) (reached : Reached) (previous : Address) :
    Visited depth [previous] reached (reached.visit depth previous) := by
  rw [Reached.visit]
  split
  · rename_i hknown
    exact ⟨fun _ _ h => h, fun _ _ h => .inl h, List.forall_mem_singleton.mpr hknown,
      fun _ h => h⟩
  · rename_i hnot
    refine ⟨?_, ?_, ?_, fun _ h => List.mem_append_left _ h⟩
    · intro address known h
      have hne : address ≠ previous := by
        intro heq
        rw [heq] at h
        exact hnot (h ▸ rfl)
      exact (Function.update_of_ne hne _ _).trans h
    · intro address known h
      by_cases heq : address = previous
      · subst heq
        simp only [Function.update_self] at h
        exact .inr ⟨(Option.some.inj h).symm, by simp⟩
      · simp only [Function.update_of_ne heq] at h
        exact .inl h
    · simp

/-- Visited addresses are at the given distance unless they were reached before. -/
theorem visited_foldl (depth : ℕ) (addresses : List Address) (reached : Reached) :
    Visited depth addresses reached (addresses.foldl (Reached.visit depth) reached) := by
  induction addresses generalizing reached with
  | nil => exact ⟨fun _ _ h => h, fun _ _ h => .inl h, nofun, fun _ h => h⟩
  | cons previous addresses ih =>
    have hvisit := visited_visit depth reached previous
    have hrest := ih (reached.visit depth previous)
    refine ⟨?_, ?_, ?_, fun address h => hrest.next address (hvisit.next address h)⟩
    · intro address known h
      exact hrest.kept address known (hvisit.kept address known h)
    · intro address known h
      rcases hrest.new address known h with hold | hnew
      · rcases hvisit.new address known hold with hold | ⟨heq, hmem⟩
        · exact .inl hold
        · exact .inr ⟨heq, hrest.next address hmem⟩
      · exact .inr hnew
    · rw [List.forall_mem_cons]
      refine ⟨?_, hrest.known⟩
      have hsome := hvisit.known previous (List.mem_singleton_self previous)
      obtain ⟨known, hknown⟩ := Option.isSome_iff_exists.mp hsome
      rw [List.foldl_cons, hrest.kept previous known hknown]
      rfl

/-- One level keeps the invariant at the next depth. -/
theorem LevelReached.step {funder : Address} {depth : ℕ} {reached : Reached}
    (h : LevelReached edges funder depth reached) :
    LevelReached edges funder (depth + 1)
      (reachLevel edges (depth + 1) reached.next reached.distance) := by
  have hvisited := visited_foldl (depth + 1) (reached.next.flatMap (reverseOf edges))
    ⟨reached.distance, []⟩
  refine ⟨hvisited.kept funder 0 h.start, ?_, ?_, ?_, ?_⟩
  · intro address hzero
    rcases hvisited.new address 0 hzero with hold | ⟨hdepth, _⟩
    · exact h.zero address hold
    · exact absurd hdepth (Nat.succ_ne_zero depth).symm
  · intro address known hknown
    rcases hvisited.new address known hknown with hold | ⟨rfl, _⟩
    · exact (h.bounded address known hold).trans (Nat.le_succ depth)
    · exact le_rfl
  · intro address hknown
    rcases hvisited.new address (depth + 1) hknown with hold | ⟨_, hmem⟩
    · exact absurd (h.bounded address (depth + 1) hold) (by omega)
    · exact hmem
  · intro edge hedge known hknown hlt
    have hold : reached.distance edge.recipient = some known := by
      rcases hvisited.new edge.recipient known hknown with hold | ⟨heq, _⟩
      · exact hold
      · exact absurd heq (by omega)
    rcases Nat.lt_or_ge known depth with hbelow | hge
    · obtain ⟨distance, hle, hdistance⟩ := h.closed edge hedge known hold hbelow
      exact ⟨distance, hle, hvisited.kept edge.sender distance hdistance⟩
    · -- The recipient is of the last level, so that its senders are visited in this one.
      have heq : known = depth := by omega
      subst heq
      have hsender : edge.sender ∈ reached.next.flatMap (reverseOf edges) :=
        List.mem_flatMap.mpr ⟨edge.recipient, h.level _ hold,
          mem_reverseOf.mpr ⟨edge, hedge, rfl, rfl⟩⟩
      obtain ⟨distance, hdistance⟩ :=
        Option.isSome_iff_exists.mp (hvisited.known edge.sender hsender)
      refine ⟨distance, ?_, hdistance⟩
      rcases hvisited.new edge.sender distance hdistance with hold' | ⟨rfl, _⟩
      · exact (h.bounded edge.sender distance hold').trans (Nat.le_succ known)
      · exact le_rfl

/-- Further levels reach what is within their distance. -/
theorem LevelReached.levels {funder : Address} (levels : ℕ) {depth : ℕ} {reached : Reached}
    (h : LevelReached edges funder depth reached) :
    LevelReached edges funder (depth + levels)
      (reachLevels edges levels (depth + 1) reached) := by
  induction levels generalizing depth reached with
  | zero => exact h
  | succ levels ih =>
    have hrest := ih h.step
    rwa [Nat.add_assoc depth 1 levels, Nat.add_comm 1 levels] at hrest

/-- At the start the funder alone is reached. -/
theorem levelReached_start (edges : List TraceTransfer) (funder : Address) :
    LevelReached edges funder 0
      ⟨fun address => if address = funder then some 0 else none, [funder]⟩ := by
  refine ⟨if_pos rfl, ?_, ?_, ?_, fun _ _ _ _ hlt => absurd hlt (Nat.not_lt_zero _)⟩
  · intro address h
    by_contra hne
    simp [hne] at h
  · intro address known h
    by_cases heq : address = funder
    · simp only [heq, if_true, Option.some.injEq] at h
      exact h.ge
    · simp [heq] at h
  · intro address h
    by_cases heq : address = funder
    · simp [heq]
    · simp [heq] at h

/-- The invariant of the nine levels. -/
theorem distanceTo_reached (edges : List TraceTransfer) (funder : Address) :
    ∃ reached : Reached, reached.distance = distanceTo edges funder ∧
      LevelReached edges funder 9 reached := by
  have h := (levelReached_start edges funder).levels 9
  rw [Nat.zero_add, Nat.zero_add] at h
  exact ⟨_, by rw [distanceTo], h⟩

/-- The funder is at no distance from itself. -/
theorem distanceTo_funder (edges : List TraceTransfer) (funder : Address) :
    distanceTo edges funder funder = some 0 := by
  obtain ⟨_, heq, h⟩ := distanceTo_reached edges funder
  exact heq ▸ h.start

/-- Only the funder is at no distance. -/
theorem eq_of_distanceTo_zero {funder address : Address}
    (hzero : distanceTo edges funder address = some 0) : address = funder := by
  obtain ⟨_, heq, h⟩ := distanceTo_reached edges funder
  exact h.zero address (heq ▸ hzero)

/-- One transfer adds at most one to a distance below nine. -/
theorem distanceTo_sender {funder : Address} {edge : TraceTransfer} (hedge : edge ∈ edges)
    {known : ℕ} (hknown : distanceTo edges funder edge.recipient = some known) (hlt : known < 9) :
    ∃ distance ≤ known + 1, distanceTo edges funder edge.sender = some distance := by
  obtain ⟨_, heq, h⟩ := distanceTo_reached edges funder
  rw [← heq] at hknown ⊢
  exact h.closed edge hedge known hknown hlt

end LoopProof.Planner
