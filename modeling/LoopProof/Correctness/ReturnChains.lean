import LoopProof.Correctness.ReturnGraph

/-!
# Return chains of the expanded graph

The chains of transfers that lead from the seller back to the funder, and the list of all of them:
every way to complete a transfer, without any bound on what is worth trying. The list holds each
return chain once.
-/

namespace LoopProof.Planner

variable {search : GraphSearch} {edges : List TraceTransfer}

/-! ## Chains -/

/-- A chain of one to nine transfers that leads from the seller to the funder over distinct
addresses, each later than the one before it, with the retained share of its amount, and within
the window of the first one. -/
structure ReturnChain (edges : List TraceTransfer) (seller funder : Address)
    (hops : List TraceTransfer) : Prop where
  nonempty : hops ≠ []
  atMostNine : hops.length ≤ 9
  fromEdges : ∀ hop ∈ hops, hop ∈ edges
  starts : ∀ first ∈ hops.head?, first.sender = seller
  joined : hops.IsChain fun previous next => previous.recipient = next.sender
  ends : ∀ last ∈ hops.getLast?, last.recipient = funder
  simple : (seller :: hops.map (·.recipient)).Nodup
  increasing : hops.IsChain fun previous next => hopOrder previous next = .lt
  retained : hops.IsChain fun previous next =>
    previous.amountRaw * 2800 ≤ next.amountRaw * 10000
  window : ∀ first ∈ hops.head?, ∀ hop ∈ hops, hop.timestamp ≤ first.timestamp + 259200

/-- A transfer may follow another one in a chain that starts with the given first one. -/
structure MayFollow (first previous : TraceTransfer) (visited : List Address)
    (hop : TraceTransfer) : Prop where
  later : hopOrder previous hop = .lt
  unvisited : hop.recipient ∉ visited
  retained : retains hop.amountRaw previous.amountRaw = true
  window : hop.timestamp - first.timestamp ≤ maxRelaySeconds

instance (first previous : TraceTransfer) (visited : List Address) (hop : TraceTransfer) :
    Decidable (MayFollow first previous visited hop) :=
  decidable_of_iff (hopOrder previous hop = .lt ∧ hop.recipient ∉ visited ∧
    retains hop.amountRaw previous.amountRaw = true ∧
    hop.timestamp - first.timestamp ≤ maxRelaySeconds)
    ⟨fun ⟨h, h', h'', h'''⟩ => ⟨h, h', h'', h'''⟩, fun ⟨h, h', h'', h'''⟩ => ⟨h, h', h'', h'''⟩⟩

/-- Transfers that complete a chain from an address on. -/
def Completes (edges : List TraceTransfer) (funder : Address) (first : TraceTransfer) :
    Address → TraceTransfer → List Address → List TraceTransfer → Prop
  | address, _, _, [] => address = funder
  | address, previous, visited, hop :: rest =>
    address ≠ funder ∧ hop ∈ edges ∧ hop.sender = address ∧
      MayFollow first previous visited hop ∧
      Completes edges funder first hop.recipient hop (hop.recipient :: visited) rest

/-- The completions by at most the given number of transfers, without any pruning. -/
def extensions (edges : List TraceTransfer) (funder : Address) (first : TraceTransfer) :
    ℕ → Address → TraceTransfer → List Address → List (List TraceTransfer)
  | 0, address, _, _ => if address = funder then [[]] else []
  | room + 1, address, previous, visited =>
    if address = funder then [[]]
    else (outgoing edges address).flatMap fun hop =>
      if MayFollow first previous visited hop then
        (extensions edges funder first room hop.recipient hop (hop.recipient :: visited)).map
          (hop :: ·)
      else []

/-- All chains from the seller, without any pruning. -/
def allChains (edges : List TraceTransfer) (seller funder : Address) :
    List (List TraceTransfer) :=
  (sortBy compareStarts (outgoing edges seller)).flatMap fun hop =>
    (extensions edges funder hop 8 hop.recipient hop [hop.recipient, seller]).map (hop :: ·)

section Extensions

variable {funder address : Address} {first previous : TraceTransfer} {visited : List Address}
  {suffix : List TraceTransfer}

/-- The transfers from an address. -/
theorem mem_outgoing {hop : TraceTransfer} :
    hop ∈ outgoing edges address ↔ hop ∈ edges ∧ hop.sender = address := by
  simp [outgoing]

/-- The extensions are the suffixes that complete a chain within the room. -/
theorem mem_extensions {room : ℕ} :
    suffix ∈ extensions edges funder first room address previous visited ↔
      suffix.length ≤ room ∧ Completes edges funder first address previous visited suffix := by
  induction room generalizing address previous visited suffix with
  | zero =>
    rw [extensions]
    cases suffix with
    | nil => by_cases h : address = funder <;> simp [Completes, h]
    | cons hop rest => by_cases h : address = funder <;> simp [h]
  | succ room ih =>
    rw [extensions]
    by_cases h : address = funder
    · cases suffix with
      | nil => simp [Completes, h]
      | cons hop rest => simp [Completes, h]
    · rw [if_neg h, List.mem_flatMap]
      constructor
      · rintro ⟨hop, hmem, hsuffix⟩
        obtain ⟨hedge, hsender⟩ := mem_outgoing.mp hmem
        by_cases hfollows : MayFollow first previous visited hop
        · rw [if_pos hfollows] at hsuffix
          obtain ⟨rest, hrest, rfl⟩ := List.mem_map.mp hsuffix
          obtain ⟨hlength, hcompletes⟩ := ih.mp hrest
          exact ⟨Nat.succ_le_succ hlength, h, hedge, hsender, hfollows, hcompletes⟩
        · rw [if_neg hfollows] at hsuffix
          cases hsuffix
      · cases suffix with
        | nil => exact fun hcompletes => absurd hcompletes.2 h
        | cons hop rest =>
          rintro ⟨hlength, _, hedge, hsender, hfollows, hcompletes⟩
          refine ⟨hop, mem_outgoing.mpr ⟨hedge, hsender⟩, ?_⟩
          rw [if_pos hfollows]
          exact List.mem_map_of_mem (ih.mpr ⟨Nat.le_of_succ_le_succ hlength, hcompletes⟩)

/-- Branches of lists that begin with different transfers share no list. -/
private theorem nodup_branches {hops : List TraceTransfer} (hnodup : hops.Nodup)
    {branch : TraceTransfer → List (List TraceTransfer)}
    (hbranch : ∀ hop ∈ hops, (branch hop).Nodup)
    (hhead : ∀ hop, ∀ xs ∈ branch hop, xs.head? = some hop) : (hops.flatMap branch).Nodup := by
  rw [List.nodup_flatMap]
  refine ⟨hbranch, hnodup.imp ?_⟩
  intro left right hne xs hleft hright
  apply hne
  exact Option.some.inj ((hhead left xs hleft).symm.trans (hhead right xs hright))

/-- No transfer is outgoing twice. -/
theorem nodup_outgoing (hnodup : edges.Nodup) (address : Address) :
    (outgoing edges address).Nodup :=
  (sortBy_perm _).nodup_iff.mpr (hnodup.filter _)

/-- No suffix is listed twice. -/
theorem nodup_extensions (hnodup : edges.Nodup) {room : ℕ} :
    (extensions edges funder first room address previous visited).Nodup := by
  induction room generalizing address previous visited with
  | zero =>
    rw [extensions]
    split
    · exact List.nodup_singleton _
    · exact List.nodup_nil
  | succ room ih =>
    rw [extensions]
    split
    · exact List.nodup_singleton _
    · apply nodup_branches (nodup_outgoing hnodup address)
      · intro hop _
        split
        · exact ih.map List.cons_injective
        · exact List.nodup_nil
      · intro hop xs hmem
        split at hmem
        · obtain ⟨rest, _, rfl⟩ := List.mem_map.mp hmem
          rfl
        · cases hmem

/-- No chain is listed twice. -/
theorem nodup_allChains (hnodup : edges.Nodup) (seller : Address) :
    (allChains edges seller funder).Nodup := by
  have hstarts : (sortBy compareStarts (outgoing edges seller)).Nodup :=
    (sortBy_perm _).nodup_iff.mpr (nodup_outgoing hnodup seller)
  apply nodup_branches hstarts
  · intro hop _
    exact (nodup_extensions hnodup).map List.cons_injective
  · intro hop xs hmem
    obtain ⟨rest, _, rfl⟩ := List.mem_map.mp hmem
    rfl

end Extensions

/-! ## Chains from a transfer on -/

/-- The rest of a chain after its last transfer so far. -/
structure ChainFrom (edges : List TraceTransfer) (funder : Address) (first last : TraceTransfer)
    (visited : List Address) (rest : List TraceTransfer) : Prop where
  fromEdges : ∀ hop ∈ rest, hop ∈ edges
  joined : (last :: rest).IsChain fun previous next => previous.recipient = next.sender
  ends : ∀ final ∈ (last :: rest).getLast?, final.recipient = funder
  simple : (rest.map (·.recipient)).Nodup
  unvisited : ∀ hop ∈ rest, hop.recipient ∉ visited
  increasing : (last :: rest).IsChain fun previous next => hopOrder previous next = .lt
  retained : (last :: rest).IsChain fun previous next =>
    previous.amountRaw * 2800 ≤ next.amountRaw * 10000
  window : ∀ hop ∈ rest, hop.timestamp ≤ first.timestamp + 259200

section ChainFrom

variable {funder seller : Address} {first last hop : TraceTransfer} {visited : List Address}
  {rest : List TraceTransfer}

/-- A chain is complete at the funder. -/
theorem chainFrom_nil_iff :
    ChainFrom edges funder first last visited [] ↔ last.recipient = funder := by
  constructor
  · intro h
    exact h.ends last rfl
  · intro h
    refine ⟨nofun, .singleton _, ?_, List.nodup_nil, nofun, .singleton _, .singleton _, nofun⟩
    intro final hfinal
    rw [List.getLast?_singleton, Option.mem_some_iff] at hfinal
    exact hfinal ▸ h

/-- What a transfer must be to follow another one. -/
theorem mayFollow_iff : MayFollow first last visited hop ↔
    hopOrder last hop = .lt ∧ hop.recipient ∉ visited ∧
      last.amountRaw * 2800 ≤ hop.amountRaw * 10000 ∧
      hop.timestamp ≤ first.timestamp + 259200 := by
  have hretains : retains hop.amountRaw last.amountRaw = true ↔
      last.amountRaw * 2800 ≤ hop.amountRaw * 10000 := by
    rw [retains, decide_eq_true_iff, minRelayRetainedBps]
  have hwindow : hop.timestamp - first.timestamp ≤ maxRelaySeconds ↔
      hop.timestamp ≤ first.timestamp + 259200 := by
    rw [maxRelaySeconds]
    omega
  constructor
  · intro h
    exact ⟨h.later, h.unvisited, hretains.mp h.retained, hwindow.mp h.window⟩
  · rintro ⟨hlater, hunvisited, hretained, hwithin⟩
    exact ⟨hlater, hunvisited, hretains.mpr hretained, hwindow.mpr hwithin⟩

/-- A chain goes on with a transfer that may follow. -/
theorem chainFrom_cons_iff :
    ChainFrom edges funder first last visited (hop :: rest) ↔
      hop ∈ edges ∧ hop.sender = last.recipient ∧ MayFollow first last visited hop ∧
        ChainFrom edges funder first hop (hop.recipient :: visited) rest := by
  rw [mayFollow_iff]
  constructor
  · intro h
    obtain ⟨hedge, hedges⟩ := List.forall_mem_cons.mp h.fromEdges
    obtain ⟨hjoin, hjoined⟩ := List.isChain_cons_cons.mp h.joined
    obtain ⟨hlater, hincreasing⟩ := List.isChain_cons_cons.mp h.increasing
    obtain ⟨hretains, hretained⟩ := List.isChain_cons_cons.mp h.retained
    obtain ⟨hunvisited, hrest⟩ := List.forall_mem_cons.mp h.unvisited
    obtain ⟨hwithin, hwindow⟩ := List.forall_mem_cons.mp h.window
    obtain ⟨hnew, hsimple⟩ := List.nodup_cons.mp h.simple
    refine ⟨hedge, hjoin.symm, ⟨hlater, hunvisited, hretains, hwithin⟩, hedges, hjoined, ?_,
      hsimple, ?_, hincreasing, hretained, hwindow⟩
    · intro final hfinal
      exact h.ends final (by rwa [List.getLast?_cons_cons])
    · intro next hnext hmem
      rcases List.mem_cons.mp hmem with heq | hold
      · exact hnew (List.mem_map.mpr ⟨next, hnext, heq⟩)
      · exact hrest next hnext hold
  · rintro ⟨hedge, hjoin, ⟨hlater, hunvisited, hretains, hwithin⟩, h⟩
    refine ⟨List.forall_mem_cons.mpr ⟨hedge, h.fromEdges⟩, .cons_cons hjoin.symm h.joined, ?_, ?_,
      ?_, .cons_cons hlater h.increasing, .cons_cons hretains h.retained,
      List.forall_mem_cons.mpr ⟨hwithin, h.window⟩⟩
    · intro final hfinal
      exact h.ends final (by rwa [List.getLast?_cons_cons] at hfinal)
    · rw [List.map_cons, List.nodup_cons]
      refine ⟨?_, h.simple⟩
      intro hmem
      obtain ⟨next, hnext, heq⟩ := List.mem_map.mp hmem
      exact h.unvisited next hnext (heq ▸ List.mem_cons_self)
    · rw [List.forall_mem_cons]
      refine ⟨hunvisited, ?_⟩
      intro next hnext hmem
      exact h.unvisited next hnext (List.mem_cons_of_mem _ hmem)

/-- The rest of a chain that has one does not start at the funder, who is only visited last. -/
theorem ChainFrom.recipient_ne (h : ChainFrom edges funder first last visited rest)
    (hvisited : last.recipient ∈ visited) (hne : rest ≠ []) : last.recipient ≠ funder := by
  intro heq
  have hfinal : rest.getLast hne ∈ (last :: rest).getLast? := by
    rw [List.getLast?_cons, List.getLast?_eq_some_getLast hne]
    rfl
  apply h.unvisited (rest.getLast hne) (List.getLast_mem hne)
  rw [h.ends _ hfinal, ← heq]
  exact hvisited

/-- A suffix completes a chain if it is one from its last transfer. -/
theorem completes_iff (hvisited : last.recipient ∈ visited) :
    Completes edges funder first last.recipient last visited rest ↔
      ChainFrom edges funder first last visited rest := by
  induction rest generalizing last visited with
  | nil => rw [Completes, chainFrom_nil_iff]
  | cons hop rest ih =>
    rw [Completes, ih List.mem_cons_self, ← chainFrom_cons_iff]
    constructor
    · intro h
      exact h.2
    · intro h
      exact ⟨h.recipient_ne hvisited (List.cons_ne_nil _ _), h⟩

/-- A chain starts with a payment of the seller. -/
theorem returnChain_cons_iff :
    ReturnChain edges seller funder (first :: rest) ↔
      first ∈ edges ∧ first.sender = seller ∧ first.recipient ≠ seller ∧ rest.length ≤ 8 ∧
        ChainFrom edges funder first first [first.recipient, seller] rest := by
  constructor
  · intro h
    obtain ⟨hedge, hedges⟩ := List.forall_mem_cons.mp h.fromEdges
    obtain ⟨_, hwindow⟩ := List.forall_mem_cons.mp (h.window first rfl)
    obtain ⟨hseller, hsimple⟩ := List.nodup_cons.mp h.simple
    rw [List.map_cons, List.mem_cons, not_or] at hseller
    obtain ⟨hfirst, hsimple⟩ := List.nodup_cons.mp hsimple
    refine ⟨hedge, h.starts first rfl, Ne.symm hseller.1, Nat.le_of_succ_le_succ h.atMostNine,
      hedges, h.joined, h.ends, hsimple, ?_, h.increasing, h.retained, hwindow⟩
    intro hop hmem hvisited
    have hrecipient : hop.recipient ∈ rest.map (·.recipient) := List.mem_map_of_mem hmem
    rcases List.mem_cons.mp hvisited with heq | hlast
    · rw [heq] at hrecipient
      exact hfirst hrecipient
    · rw [List.mem_singleton.mp hlast] at hrecipient
      exact hseller.2 hrecipient
  · rintro ⟨hedge, hsender, hself, hlength, h⟩
    have hnot {address : Address} (hmem : address ∈ [first.recipient, seller]) :
        address ∉ rest.map (·.recipient) := by
      intro hrecipient
      obtain ⟨hop, hhop, rfl⟩ := List.mem_map.mp hrecipient
      exact h.unvisited hop hhop hmem
    refine ⟨List.cons_ne_nil _ _, Nat.succ_le_succ hlength,
      List.forall_mem_cons.mpr ⟨hedge, h.fromEdges⟩, ?_, h.joined, h.ends, ?_, h.increasing,
      h.retained, ?_⟩
    · intro other hother
      exact (Option.mem_some_iff.mp hother) ▸ hsender
    · rw [List.map_cons, List.nodup_cons, List.nodup_cons, List.mem_cons, not_or]
      exact ⟨⟨hself.symm, hnot (by simp)⟩, hnot (by simp), h.simple⟩
    · intro other hother
      rw [← Option.mem_some_iff.mp hother, List.forall_mem_cons]
      exact ⟨Nat.le_add_right _ _, h.window⟩

/-- Without self transfers, the unpruned lists are the return chains. -/
theorem mem_allChains (hself : ∀ hop ∈ edges, hop.sender ≠ hop.recipient)
    {hops : List TraceTransfer} :
    hops ∈ allChains edges seller funder ↔ ReturnChain edges seller funder hops := by
  rw [allChains, List.mem_flatMap]
  constructor
  · rintro ⟨first, hmem, hhops⟩
    obtain ⟨hedge, hsender⟩ := mem_outgoing.mp (mem_sortBy.mp hmem)
    obtain ⟨rest, hrest, rfl⟩ := List.mem_map.mp hhops
    obtain ⟨hlength, hcompletes⟩ := mem_extensions.mp hrest
    rw [completes_iff List.mem_cons_self] at hcompletes
    exact returnChain_cons_iff.mpr
      ⟨hedge, hsender, hsender ▸ (hself first hedge).symm, hlength, hcompletes⟩
  · intro h
    cases hops with
    | nil => exact absurd rfl h.nonempty
    | cons first rest =>
      obtain ⟨hedge, hsender, _, hlength, hchain⟩ := returnChain_cons_iff.mp h
      refine ⟨first, mem_sortBy.mpr (mem_outgoing.mpr ⟨hedge, hsender⟩), ?_⟩
      apply List.mem_map_of_mem
      exact mem_extensions.mpr ⟨hlength, (completes_iff List.mem_cons_self).mpr hchain⟩

end ChainFrom

end LoopProof.Planner
