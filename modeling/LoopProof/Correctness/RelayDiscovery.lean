import LoopProof.Correctness.Resolution
import LoopProof.Planner.RelayDiscovery

/-!
# Relay paths in traces

Which transfers the search for relay returns puts together, and that a path it completes passes
the rules for return paths unless its relay paid itself.
-/

namespace LoopProof.Planner

/-- A hop as the loop rules see it, at the position of its time. -/
def TraceTransfer.toHop (entry : TraceTransfer) : Loop.Transfer Address ℕ :=
  ⟨entry.timestamp, entry.sender, entry.recipient, entry.amountRaw, entry.timestamp⟩

/-- The rules for the paths of one search. -/
structure AdmissibleReturns (search : RelaySearch) (reservedKeys : List TransferKey)
    (found : DiscoveredReturns) : Prop where
  hopCount : ∀ path ∈ found.paths, path.hops.length = 2 ∨ path.hops.length = 3
  pathOk : ∀ path ∈ found.paths, ∀ settlements,
    Loop.earliestSettlement settlements = some search.earliestSettlementTimestamp →
      Loop.PathOk codedRule search.seller search.funder settlements
        (path.hops.map TraceTransfer.toHop)
  apart : found.paths.Pairwise fun left right =>
    (left.hops.map TraceTransfer.key).Disjoint (right.hops.map TraceTransfer.key)
  unreserved : ∀ path ∈ found.paths, (path.hops.map TraceTransfer.key).Disjoint reservedKeys
  returned : found.returnedRaw =
    (found.paths.map fun path => Loop.credit (path.hops.map TraceTransfer.toHop)).sum

/-! ## Transfers in order -/

section Order

/-- The order of transfers whose positions are known alike. -/
def compareRecorded : TraceTransfer → TraceTransfer → Ordering :=
  compareLex (compareOn (·.timestamp)) (compareLex (compareOn (·.transactionIndex.getD 0))
    (compareLex (compareOn (·.transactionHash)) (compareOn (·.logIndex))))

instance : Std.TransCmp compareRecorded :=
  inferInstanceAs (Std.TransCmp (compareLex _ (compareLex _ (compareLex _ _))))

/-- What comes first is no later. -/
theorem timestamp_le_of_compareRecorded {a b : TraceTransfer}
    (h : (compareRecorded a b).isLE) : a.timestamp ≤ b.timestamp := by
  by_contra hlt
  have hgt : compareRecorded a b = .gt := by
    rw [compareRecorded, compareLex, compareOn, Nat.compare_eq_gt.mpr (Nat.lt_of_not_le hlt)]
    rfl
  rw [hgt] at h
  cases h

/-- What is later comes last. -/
theorem compareRecorded_gt {a b : TraceTransfer} (h : b.timestamp < a.timestamp) :
    compareRecorded a b = .gt := by
  rw [compareRecorded, compareLex, compareOn, Nat.compare_eq_gt.mpr h]
  rfl

/-- A transfer that the search reads. -/
def Recorded (search : RelaySearch) (entry : TraceTransfer) : Prop :=
  entry ∈ search.sellerTrace.elim [] Trace.outboundUsdc ∨
    entry ∈ search.funderTrace.elim [] Trace.inboundUsdc ∨
      ∃ relay, ∃ trace, search.loadTrace relay = some trace ∧ entry ∈ trace.outboundUsdc

/-- Transfers as the chain has them: a log is one transfer, later blocks have later times, and
transaction indices are known everywhere or nowhere. -/
structure TrueTransfers (search : RelaySearch) : Prop where
  sameLog : ∀ a b, Recorded search a → Recorded search b → a.key = b.key → a = b
  blocks : ∀ a b, Recorded search a → Recorded search b → ∀ x ∈ a.blockNumber,
    ∀ y ∈ b.blockNumber, compare x y = compare a.timestamp b.timestamp
  indices : ∀ a b, Recorded search a → Recorded search b →
    a.transactionIndex.isSome = b.transactionIndex.isSome

variable {search : RelaySearch} {a b : TraceTransfer}

/-- Recorded transfers are compared by their times and their places. -/
theorem compareTraceTransfer_eq (htrue : TrueTransfers search) (ha : Recorded search a)
    (hb : Recorded search b) : compareTraceTransfer a b = compareRecorded a b := by
  have hblocks : compareKnown a.blockNumber b.blockNumber = .eq ∨
      compareKnown a.blockNumber b.blockNumber = compare a.timestamp b.timestamp := by
    cases hx : a.blockNumber with
    | none => exact .inl rfl
    | some x =>
      cases hy : b.blockNumber with
      | none => exact .inl rfl
      | some y => exact .inr (htrue.blocks a b ha hb x hx y hy)
  have hindices : compareKnown a.transactionIndex b.transactionIndex =
      compare (a.transactionIndex.getD 0) (b.transactionIndex.getD 0) := by
    have hknown := htrue.indices a b ha hb
    cases hx : a.transactionIndex with
    | none =>
      rw [hx, Option.isSome_none] at hknown
      rw [Option.isSome_eq_false_iff.mp hknown.symm |> Option.isNone_iff_eq_none.mp]
      rfl
    | some x =>
      cases hy : b.transactionIndex with
      | none => rw [hx, hy] at hknown; cases hknown
      | some y => rfl
  have hlater : compareRecorded a b = (compare a.timestamp b.timestamp).then
      ((compareKnown a.transactionIndex b.transactionIndex).then
        ((compare a.transactionHash b.transactionHash).then (compare a.logIndex b.logIndex))) := by
    rw [hindices]
    rfl
  rw [hlater, compareTraceTransfer, compareTransfer]
  simp only [TraceTransfer.toTransfer, Timestamp.toNumber, Option.getD_some]
  rcases hblocks with hblock | hblock
  · rw [hblock]
    rfl
  · rw [hblock]
    cases compare a.timestamp b.timestamp <;> rfl

end Order

/-! ## Prefixes -/

section Prefixes

variable {search : RelaySearch} {first second finish : TraceTransfer} {start : RelayPrefix}
  {entries : List TraceTransfer}

/-- A transfer passes the value of the one before it on in time, in the window of the first. -/
structure PassesOn (first previous next : TraceTransfer) : Prop where
  later : previous.timestamp < next.timestamp
  retains : retains next.amountRaw previous.amountRaw = true
  inWindow : next.timestamp - first.timestamp ≤ maxRelaySeconds

/-- The first hops are the seller's payments to relays after the first settlement. -/
theorem mem_firstHops : first ∈ firstHops search ↔
    first ∈ search.sellerTrace.elim [] Trace.outboundUsdc ∧ first.sender = search.seller ∧
      first.recipient ≠ search.seller ∧ first.recipient ≠ search.funder ∧ 0 < first.amountRaw ∧
        search.earliestSettlementTimestamp < first.timestamp := by
  simp [firstHops]

/-- A second hop passes the first one on. -/
theorem passesOn_of_mem_secondHops (h : second ∈ secondHops first entries) :
    second ∈ entries ∧ PassesOn first first second := by
  induction entries with
  | nil => cases h
  | cons entry rest ih =>
    rw [secondHops] at h
    split at h
    · exact (ih h).imp_left (List.mem_cons_of_mem entry)
    · rename_i hlater
      split at h
      · exact (ih h).imp_left (List.mem_cons_of_mem entry)
      · rename_i hretains
        split at h
        · cases h
        · rename_i hwindow
          rcases List.mem_cons.mp h with rfl | h
          · exact ⟨List.mem_cons_self .., Nat.lt_of_not_le hlater, by simpa using hretains,
              Nat.le_of_not_lt hwindow⟩
          · exact (ih h).imp_left (List.mem_cons_of_mem entry)

/-- Among transfers in order of time, the end of the window loses none that passes on. -/
theorem mem_secondHops_of_passesOn
    (hsorted : entries.Pairwise fun a b => a.timestamp ≤ b.timestamp)
    (hmem : second ∈ entries) (h : PassesOn first first second) :
    second ∈ secondHops first entries := by
  induction entries with
  | nil => cases hmem
  | cons entry rest ih =>
    obtain ⟨hearlier, hsorted⟩ := List.pairwise_cons.mp hsorted
    have hrest (hne : second ≠ entry) : second ∈ secondHops first rest :=
      ih hsorted ((List.mem_cons.mp hmem).resolve_left hne)
    have htime : entry.timestamp ≤ second.timestamp := by
      rcases List.mem_cons.mp hmem with rfl | hmem
      · exact Nat.le_refl _
      · exact hearlier second hmem
    rw [secondHops]
    split
    · rename_i hbefore
      apply hrest
      rintro rfl
      exact absurd h.later (Nat.not_lt.mpr hbefore)
    · split
      · rename_i hretains
        apply hrest
        rintro rfl
        rw [h.retains] at hretains
        cases hretains
      · split
        · rename_i hwindow
          have := h.inWindow
          omega
        · by_cases hsame : second = entry
          · rw [hsame]
            exact List.mem_cons_self ..
          · exact List.mem_cons_of_mem entry (hrest hsame)

/-- Two transfers through a relay that can start a path. -/
structure StartsPath (search : RelaySearch) (trace : Trace) (first second : TraceTransfer) :
    Prop where
  paid : first ∈ firstHops search
  loaded : search.loadTrace first.recipient = some trace
  complete : trace.complete = true
  sent : second ∈ trace.outboundUsdc
  forwarded : second.sender = first.recipient
  positive : 0 < second.amountRaw
  passesOn : PassesOn first first second

/-- The prefix that two transfers make. -/
def prefixOf (first second : TraceTransfer) : RelayPrefix :=
  ⟨first, second, first.recipient, min first.amountRaw second.amountRaw⟩

/-- What a relay pays according to its trace. -/
theorem mem_relayOutbound {relay : Address} {trace : Trace} {entry : TraceTransfer} :
    entry ∈ relayOutbound relay trace ↔
      entry ∈ trace.outboundUsdc ∧ entry.sender = relay ∧ 0 < entry.amountRaw := by
  simp [relayOutbound]

/-- A prefix is a payment of the seller that its relay passes on. -/
theorem startsPath_of_mem_sortedPrefixes (h : start ∈ sortedPrefixes search) :
    start = prefixOf start.first start.second ∧
      ∃ trace, StartsPath search trace start.first start.second := by
  rw [sortedPrefixes, mem_sortBy, List.mem_flatMap] at h
  obtain ⟨relay, _, h⟩ := h
  rw [relayPrefixes] at h
  split at h
  · cases h
  · rename_i trace hload
    split at h
    · cases h
    · rename_i hcomplete
      simp only [List.mem_flatMap, List.mem_map, List.mem_filter, decide_eq_true_eq] at h
      obtain ⟨first, ⟨hfirst, rfl⟩, second, hsecond, rfl⟩ := h
      obtain ⟨hmem, hpasses⟩ := passesOn_of_mem_secondHops hsecond
      obtain ⟨hmem, hsender, hpositive⟩ := mem_relayOutbound.mp hmem
      exact ⟨rfl, trace, hfirst, hload, by simpa using hcomplete, hmem, hsender, hpositive,
        hpasses⟩

/-- A first hop is in the trace of the seller. -/
theorem recorded_of_mem_firstHops (h : first ∈ firstHops search) : Recorded search first :=
  .inl (mem_firstHops.mp h).1

/-- The second hop of a path is in the trace of its relay. -/
theorem StartsPath.recorded {trace : Trace} (h : StartsPath search trace first second) :
    Recorded search second :=
  .inr (.inr ⟨first.recipient, trace, h.loaded, h.sent⟩)

/-- Of true transfers, the ones a relay made are in order of time. -/
theorem pairwise_relayOutbound (htrue : TrueTransfers search) {relay : Address} {trace : Trace}
    (hload : search.loadTrace relay = some trace) :
    (relayOutbound relay trace).Pairwise fun a b => a.timestamp ≤ b.timestamp := by
  have hcongr : relayOutbound relay trace = sortBy compareRecorded
      (trace.outboundUsdc.filter fun entry => entry.sender = relay ∧ 0 < entry.amountRaw) := by
    apply sortBy_congr
    intro a ha b hb
    exact compareTraceTransfer_eq htrue
      (.inr (.inr ⟨relay, trace, hload, List.mem_of_mem_filter ha⟩))
      (.inr (.inr ⟨relay, trace, hload, List.mem_of_mem_filter hb⟩))
  rw [hcongr]
  exact (pairwise_sortBy _).imp timestamp_le_of_compareRecorded

/-- Of true transfers, every two that can start a path are tried. -/
theorem mem_sortedPrefixes (htrue : TrueTransfers search) {trace : Trace}
    (h : StartsPath search trace first second) :
    prefixOf first second ∈ sortedPrefixes search := by
  rw [sortedPrefixes, mem_sortBy, List.mem_flatMap]
  refine ⟨first.recipient, mem_sortedSet.mpr (List.mem_map_of_mem h.paid), ?_⟩
  simp only [relayPrefixes, h.loaded, h.complete, Bool.true_eq_false, if_false, List.mem_flatMap,
    List.mem_map, List.mem_filter, decide_eq_true_eq]
  refine ⟨first, ⟨h.paid, rfl⟩, second, ?_, rfl⟩
  apply mem_secondHops_of_passesOn (pairwise_relayOutbound htrue h.loaded) _ h.passesOn
  exact mem_relayOutbound.mpr ⟨h.sent, h.forwarded, h.positive⟩

/-- The order of prefixes of transfers whose positions are known alike. -/
def compareRecordedPrefix : RelayPrefix → RelayPrefix → Ordering :=
  compareLex (fun left right => compare right.prefixCreditRaw left.prefixCreditRaw)
    (compareLex (fun left right => compareRecorded left.first right.first)
      fun left right => compareRecorded left.second right.second)

instance : Std.TransCmp compareRecordedPrefix :=
  haveI : Std.TransCmp fun left right : RelayPrefix =>
      compare right.prefixCreditRaw left.prefixCreditRaw :=
    @transCmp_on ℕ (fun left right => compare right left) transCmp_reverse _
      RelayPrefix.prefixCreditRaw
  haveI : Std.TransCmp fun left right : RelayPrefix => compareRecorded left.first right.first :=
    transCmp_on RelayPrefix.first
  haveI : Std.TransCmp fun left right : RelayPrefix => compareRecorded left.second right.second :=
    transCmp_on RelayPrefix.second
  inferInstanceAs (Std.TransCmp (compareLex _ (compareLex _ _)))

/-- The prefixes are in the order of what they carry. -/
theorem pairwise_sortedPrefixes (htrue : TrueTransfers search) :
    (sortedPrefixes search).Pairwise fun a b => (compareRecordedPrefix a b).isLE = true := by
  have hstarts : ∀ start ∈ (sortedSet ((firstHops search).map (·.recipient))).flatMap
      (relayPrefixes search), Recorded search start.first ∧ Recorded search start.second := by
    intro start hstart
    have hmem : start ∈ sortedPrefixes search := mem_sortBy.mpr hstart
    obtain ⟨_, trace, h⟩ := startsPath_of_mem_sortedPrefixes hmem
    exact ⟨recorded_of_mem_firstHops h.paid, h.recorded⟩
  have hcongr : sortedPrefixes search = sortBy compareRecordedPrefix
      ((sortedSet ((firstHops search).map (·.recipient))).flatMap (relayPrefixes search)) := by
    apply sortBy_congr
    intro a ha b hb
    obtain ⟨hfirst, hsecond⟩ := hstarts a ha
    obtain ⟨hfirst', hsecond'⟩ := hstarts b hb
    rw [compareRelayPrefix, compareRecordedPrefix, compareLex, compareLex, compareLex, compareLex,
      compareTraceTransfer_eq htrue hfirst hfirst', compareTraceTransfer_eq htrue hsecond hsecond']
  rw [hcongr]
  exact pairwise_sortBy _

/-- What comes first carries at least as much. -/
theorem credit_le_of_compareRecordedPrefix {a b : RelayPrefix}
    (h : (compareRecordedPrefix a b).isLE) : b.prefixCreditRaw ≤ a.prefixCreditRaw := by
  by_contra hlt
  have hgt : compareRecordedPrefix a b = .gt := by
    rw [compareRecordedPrefix, compareLex, Nat.compare_eq_gt.mpr (Nat.lt_of_not_le hlt)]
    rfl
  rw [hgt] at h
  cases h

end Prefixes

/-! ## Completed paths -/

section Paths

variable {search : RelaySearch} {start : RelayPrefix} {used : List TransferKey}
  {entries hops : List TraceTransfer} {best : Option TraceTransfer} {finish : TraceTransfer}
  {creditRaw : ℕ} {trace : Trace} {first second : TraceTransfer}

/-- What a sender pays to the funder according to the funder's trace. -/
theorem mem_funderInbound {sender : Address} {entry : TraceTransfer} :
    entry ∈ funderInbound search sender ↔
      entry ∈ search.funderTrace.elim [] Trace.inboundUsdc ∧ entry.recipient = search.funder ∧
        0 < entry.amountRaw ∧ entry.sender = sender := by
  simp [funderInbound]

/-- Of true transfers, the ones made to the funder are in order of time. -/
theorem pairwise_funderInbound (htrue : TrueTransfers search) {sender : Address} :
    (funderInbound search sender).Pairwise fun a b => a.timestamp ≤ b.timestamp := by
  have hcongr : funderInbound search sender = sortBy compareRecorded
      ((search.funderTrace.elim [] Trace.inboundUsdc).filter fun entry =>
        entry.recipient = search.funder ∧ 0 < entry.amountRaw ∧ entry.sender = sender) := by
    apply sortBy_congr
    intro a ha b hb
    exact compareTraceTransfer_eq htrue (.inr (.inl (List.mem_of_mem_filter ha)))
      (.inr (.inl (List.mem_of_mem_filter hb)))
  rw [hcongr]
  exact (pairwise_sortBy _).imp timestamp_le_of_compareRecorded

/-- A finish that is found passes on, and is not in use. -/
theorem bestAvailableFinish_eq_some
    (h : bestAvailableFinish start used entries best = some finish) :
    best = some finish ∨ finish ∈ entries ∧ finish.key ∉ used ∧
      PassesOn start.first start.second finish := by
  induction entries generalizing best with
  | nil => exact .inl h
  | cons entry rest ih =>
    have hlater (h : bestAvailableFinish start used rest best = some finish) :
        best = some finish ∨ finish ∈ entry :: rest ∧ finish.key ∉ used ∧
          PassesOn start.first start.second finish :=
      (ih h).imp_right fun h => h.imp_left (List.mem_cons_of_mem entry)
    rw [bestAvailableFinish] at h
    split at h
    · exact hlater h
    · rename_i htime
      split at h
      · exact .inl h
      · rename_i hwindow
        split at h
        · exact hlater h
        · rename_i husable
          split at h
          · rcases ih h with hentry | hrest
            · obtain rfl := Option.some.inj hentry
              refine .inr ⟨List.mem_cons_self .., fun hused => husable (.inl hused),
                Nat.lt_of_not_le htime, ?_, Nat.le_of_not_lt hwindow⟩
              exact Bool.of_not_eq_false fun hretains => husable (.inr hretains)
            · exact .inr (hrest.imp_left (List.mem_cons_of_mem entry))
          · exact hlater h

private theorem bestAvailableFinish_some (entries : List TraceTransfer) (entry : TraceTransfer) :
    (bestAvailableFinish start used entries (some entry)).isSome := by
  induction entries generalizing entry with
  | nil => rfl
  | cons next rest ih =>
    rw [bestAvailableFinish]
    split
    · exact ih entry
    · split
      · rfl
      · split
        · exact ih entry
        · split
          · exact ih next
          · exact ih entry

/-- Among transfers in order of time, a finish is found if there is one. -/
theorem bestAvailableFinish_isSome
    (hsorted : entries.Pairwise fun a b => a.timestamp ≤ b.timestamp) (hmem : finish ∈ entries)
    (hfree : finish.key ∉ used) (hpasses : PassesOn start.first start.second finish)
    (hcredit : 0 < finishCreditRaw start finish) :
    (bestAvailableFinish start used entries best).isSome := by
  induction entries generalizing best with
  | nil => cases hmem
  | cons entry rest ih =>
    obtain ⟨hearlier, hsorted⟩ := List.pairwise_cons.mp hsorted
    have hrest (hne : finish ≠ entry) (best : Option TraceTransfer) :
        (bestAvailableFinish start used rest best).isSome :=
      ih hsorted ((List.mem_cons.mp hmem).resolve_left hne)
    have htime : entry.timestamp ≤ finish.timestamp := by
      rcases List.mem_cons.mp hmem with rfl | hmem
      · exact Nat.le_refl _
      · exact hearlier finish hmem
    rw [bestAvailableFinish]
    split
    · rename_i hbefore
      apply hrest
      rintro rfl
      exact absurd hpasses.later (Nat.not_lt.mpr hbefore)
    · split
      · rename_i hwindow
        have := hpasses.inWindow
        omega
      · split
        · rename_i hunusable
          apply hrest
          rintro rfl
          rcases hunusable with hused | hretains
          · exact hfree hused
          · rw [hpasses.retains] at hretains
            cases hretains
        · split
          · exact bestAvailableFinish_some rest entry
          · rename_i hworse
            by_cases hsame : finish = entry
            · cases best with
              | none => exact absurd (decide_eq_true (hsame ▸ hcredit)) hworse
              | some best => exact bestAvailableFinish_some rest best
            · exact hrest hsame best

/-- What a completed path is made of. -/
inductive CompletedBy (search : RelaySearch) (used : List TransferKey) (start : RelayPrefix) :
    List TraceTransfer → ℕ → Prop
  | direct (hend : start.second.recipient = search.funder) :
      CompletedBy search used start [start.first, start.second] start.prefixCreditRaw
  | finished (finish : TraceTransfer) (hend : start.second.recipient ≠ search.funder)
      (hmem : finish ∈ funderInbound search start.second.recipient) (hfree : finish.key ∉ used)
      (hpasses : PassesOn start.first start.second finish) :
      CompletedBy search used start [start.first, start.second, finish]
        (finishCreditRaw start finish)

/-- A completed path has hops that are not used and carries the credit that it is given. -/
theorem completePath_eq_some (h : completePath search used start = some (hops, creditRaw)) :
    start.first.key ∉ used ∧ start.second.key ∉ used ∧
      CompletedBy search used start hops creditRaw := by
  rw [completePath] at h
  split at h
  · cases h
  · rename_i hfree
    obtain ⟨hfirst, hsecond⟩ := not_or.mp hfree
    refine ⟨hfirst, hsecond, ?_⟩
    split at h
    · rename_i hend
      cases h
      exact .direct hend
    · rename_i hend
      obtain ⟨finish, hfinish, heq⟩ := Option.map_eq_some_iff.mp h
      cases heq
      obtain ⟨hmem, hused, hpasses⟩ := (bestAvailableFinish_eq_some hfinish).resolve_left nofun
      exact .finished finish hend hmem hused hpasses

/-- A completed path is made of transfers that the search reads. -/
theorem CompletedBy.recorded (hstart : start ∈ sortedPrefixes search)
    (h : CompletedBy search used start hops creditRaw) : ∀ hop ∈ hops, Recorded search hop := by
  obtain ⟨_, trace, hstarts⟩ := startsPath_of_mem_sortedPrefixes hstart
  have hfirst := recorded_of_mem_firstHops hstarts.paid
  intro hop hhop
  cases h with
  | direct hend =>
    simp only [List.mem_cons, List.not_mem_nil, or_false] at hhop
    rcases hhop with rfl | rfl
    · exact hfirst
    · exact hstarts.recorded
  | finished finish hend hmem hfree hpasses =>
    simp only [List.mem_cons, List.not_mem_nil, or_false] at hhop
    rcases hhop with rfl | rfl | rfl
    · exact hfirst
    · exact hstarts.recorded
    · exact .inr (.inl (mem_funderInbound.mp hmem).1)

/-- Every hop of the found paths is a transfer that the search reads. -/
def FromTraces (search : RelaySearch) (found : DiscoveredReturns) : Prop :=
  ∀ path ∈ found.paths, ∀ hop ∈ path.hops, ∃ entry, Recorded search entry ∧
    hop = entry.serializeTransfer

/-- Going through further prefixes keeps all paths from the traces. -/
theorem discoverPaths_fromTraces {maxPaths required : ℕ} {rest : List RelayPrefix}
    {found : DiscoveredReturns} (hrest : ∀ start ∈ rest, start ∈ sortedPrefixes search)
    (hfound : FromTraces search found) :
    FromTraces search (discoverPaths search maxPaths required rest found) := by
  induction rest generalizing found with
  | nil => exact hfound
  | cons start rest ih =>
    obtain ⟨hstart, hrest⟩ := List.forall_mem_cons.mp hrest
    rw [discoverPaths]
    split
    · exact hfound
    · split
      · exact ih hrest hfound
      · rename_i hops creditRaw hcomplete
        split
        · exact ih hrest hfound
        · apply ih hrest
          intro path hpath hop hhop
          rcases List.mem_append.mp hpath with hpath | hpath
          · exact hfound path hpath hop hhop
          · rw [List.mem_singleton.mp hpath] at hhop
            obtain ⟨entry, hentry, rfl⟩ := List.mem_map.mp hhop
            exact ⟨entry, (completePath_eq_some hcomplete).2.2.recorded hstart entry hentry, rfl⟩

/-- All discovered paths are from the traces. -/
theorem discoverCachedRelayReturns_fromTraces {requiredRaw maxPaths : ℕ}
    {reservedKeys : List TransferKey} :
    FromTraces search (discoverCachedRelayReturns search requiredRaw maxPaths reservedKeys) := by
  apply discoverPaths_fromTraces
  · intro start hstart
    exact hstart
  · intro path hpath
    exact absurd hpath List.not_mem_nil

/-- A prefix that reaches the funder fails only over its own transfers. -/
theorem completePath_of_direct (hend : start.second.recipient = search.funder)
    (hfirst : start.first.key ∉ used) (hsecond : start.second.key ∉ used) :
    completePath search used start =
      some ([start.first, start.second], start.prefixCreditRaw) := by
  rw [completePath, if_neg (not_or.mpr ⟨hfirst, hsecond⟩), if_pos hend]

section Rules

variable {settlements : List (Loop.Settlement Address ℕ)}
  (hstarts : StartsPath search trace first second)
  (hearliest : Loop.earliestSettlement settlements = some search.earliestSettlementTimestamp)

/-- A transfer that passes another one on follows it by the rule. -/
theorem PassesOn.follows {previous next : TraceTransfer} (h : PassesOn first previous next)
    (hjoin : previous.recipient = next.sender) :
    Loop.Follows codedRule previous.toHop next.toHop :=
  ⟨hjoin, h.later, of_decide_eq_true h.retains⟩

include hstarts hearliest in
/-- A path of two transfers through a relay passes the rules. -/
theorem pathOk_direct (hself : second.sender ≠ second.recipient)
    (hend : second.recipient = search.funder) :
    Loop.PathOk codedRule search.seller search.funder settlements
      ([first, second].map TraceTransfer.toHop) := by
  obtain ⟨_, hsender, hrelay, _, hpositive, hafter⟩ := mem_firstHops.mp hstarts.paid
  refine ⟨⟨?_, ?_, ?_, ?_, ?_⟩, by simp, by simp [codedRule, hMaxIntermediateHops], ?_⟩
  · simpa [TraceTransfer.toHop] using hsender
  · simpa [TraceTransfer.toHop, hearliest] using hafter
  · simp only [List.map_cons, List.map_nil, List.forall_mem_cons, TraceTransfer.toHop]
    exact ⟨⟨hsender ▸ hrelay.symm, hpositive⟩, ⟨hself, hstarts.positive⟩, nofun⟩
  · exact .cons_cons (hstarts.passesOn.follows hstarts.forwarded.symm) (.singleton _)
  · simp only [List.map_cons, List.map_nil, List.head?_cons, Option.mem_some_iff,
      List.forall_mem_cons]
    rintro _ rfl
    refine ⟨?_, hstarts.passesOn.inWindow, nofun⟩
    rw [Nat.sub_self]
    exact Nat.zero_le _
  · simpa [TraceTransfer.toHop] using hend

include hstarts hearliest in
/-- A path that a third transfer completes passes the rules. -/
theorem pathOk_finished (hself : second.sender ≠ second.recipient)
    (hend : second.recipient ≠ search.funder)
    (hmem : finish ∈ funderInbound search second.recipient)
    (hpasses : PassesOn first second finish) :
    Loop.PathOk codedRule search.seller search.funder settlements
      ([first, second, finish].map TraceTransfer.toHop) := by
  obtain ⟨_, hsender, hrelay, _, hpositive, hafter⟩ := mem_firstHops.mp hstarts.paid
  obtain ⟨_, hrecipient, hamount, hjoin⟩ := mem_funderInbound.mp hmem
  refine ⟨⟨?_, ?_, ?_, ?_, ?_⟩, by simp, by simp [codedRule, hMaxIntermediateHops], ?_⟩
  · simpa [TraceTransfer.toHop] using hsender
  · simpa [TraceTransfer.toHop, hearliest] using hafter
  · simp only [List.map_cons, List.map_nil, List.forall_mem_cons, TraceTransfer.toHop]
    refine ⟨⟨hsender ▸ hrelay.symm, hpositive⟩, ⟨hself, hstarts.positive⟩, ⟨?_, hamount⟩, nofun⟩
    rw [hjoin, hrecipient]
    exact hend
  · exact .cons_cons (hstarts.passesOn.follows hstarts.forwarded.symm)
      (.cons_cons (hpasses.follows hjoin.symm) (.singleton _))
  · simp only [List.map_cons, List.map_nil, List.head?_cons, Option.mem_some_iff,
      List.forall_mem_cons]
    rintro _ rfl
    refine ⟨?_, hstarts.passesOn.inWindow, hpasses.inWindow, nofun⟩
    rw [Nat.sub_self]
    exact Nat.zero_le _
  · simpa [TraceTransfer.toHop] using hrecipient

end Rules

end Paths

end LoopProof.Planner
