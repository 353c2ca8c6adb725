import LoopProof.Correctness.RelayDiscovery

/-!
# Relay returns found in traces

The found paths pass every rule for return paths, except that a relay's transfer to itself can
be taken for its forward. What the traces must hold for that not to happen is stated on the
traces alone.
-/

namespace LoopProof.Planner

section Runs

variable {search : RelaySearch} {reserved : List TransferKey} {found : DiscoveredReturns}
  {start : RelayPrefix} {hops : List TraceTransfer} {creditRaw maxPaths required : ℕ}
  {rest : List RelayPrefix}

/-- Found paths that pass the rules, with the transfers they use. -/
structure Discovers (search : RelaySearch) (reserved : List TransferKey)
    (found : DiscoveredReturns) : Prop extends AdmissibleReturns search reserved found where
  used : found.usedKeys =
    reserved ++ found.paths.flatMap fun path => path.hops.map TraceTransfer.key

theorem discovers_nil : Discovers search reserved ⟨[], 0, reserved⟩ :=
  ⟨⟨nofun, nofun, .nil, nofun, rfl⟩, (List.append_nil _).symm⟩

theorem CompletedBy.creditRaw_eq (hstart : start = prefixOf start.first start.second)
    (h : CompletedBy search found.usedKeys start hops creditRaw) :
    creditRaw = Loop.credit (hops.map TraceTransfer.toHop) := by
  have hprefix : start.prefixCreditRaw = min start.first.amountRaw start.second.amountRaw :=
    congrArg RelayPrefix.prefixCreditRaw hstart
  cases h with
  | direct hend => exact hprefix
  | finished finish hend hmem hfree hpasses =>
    rw [finishCreditRaw, hprefix]
    rfl

/-- A path that passes the rules and shares no transfer is added. -/
theorem Discovers.push (h : Discovers search reserved found)
    (hlength : hops.length = 2 ∨ hops.length = 3)
    (hok : ∀ settlements,
      Loop.earliestSettlement settlements = some search.earliestSettlementTimestamp →
        Loop.PathOk codedRule search.seller search.funder settlements
          (hops.map TraceTransfer.toHop))
    (hcredit : creditRaw = Loop.credit (hops.map TraceTransfer.toHop))
    (hfree : (hops.map TraceTransfer.key).Disjoint found.usedKeys) :
    Discovers search reserved (found.push search start hops creditRaw) := by
  have hkeys : (hops.map TraceTransfer.serializeTransfer).map TraceTransfer.key =
      hops.map TraceTransfer.key := List.map_map
  have hhops : (hops.map TraceTransfer.serializeTransfer).map TraceTransfer.toHop =
      hops.map TraceTransfer.toHop := List.map_map
  rw [h.used, List.disjoint_append_right] at hfree
  refine ⟨⟨?_, ?_, ?_, ?_, ?_⟩, ?_⟩
  · intro path hpath
    rcases List.mem_append.mp hpath with hpath | hpath
    · exact h.hopCount path hpath
    · rw [List.mem_singleton.mp hpath, List.length_map]
      exact hlength
  · intro path hpath settlements hearliest
    rcases List.mem_append.mp hpath with hpath | hpath
    · exact h.pathOk path hpath settlements hearliest
    · rw [List.mem_singleton.mp hpath, hhops]
      exact hok settlements hearliest
  · rw [DiscoveredReturns.push, List.pairwise_append]
    refine ⟨h.apart, List.pairwise_singleton _ _, fun path hpath other hother => ?_⟩
    rw [List.mem_singleton.mp hother, hkeys]
    intro key hkey hnew
    exact hfree.2 hnew (List.mem_flatMap.mpr ⟨path, hpath, hkey⟩)
  · intro path hpath
    rcases List.mem_append.mp hpath with hpath | hpath
    · exact h.unreserved path hpath
    · rw [List.mem_singleton.mp hpath, hkeys]
      exact hfree.1
  · rw [DiscoveredReturns.push, List.map_append, List.sum_append, h.returned, hcredit,
      List.map_singleton, List.sum_singleton, hhops]
  · rw [DiscoveredReturns.push, List.flatMap_append, h.used, List.append_assoc,
      List.flatMap_singleton, hkeys]

/-- A relay's transfers to itself never make the best prefix: the relay also paid the funder
directly, and more than it paid itself. -/
def SelfTransfersOutbid (search : RelaySearch) : Prop :=
  ∀ trace first second finish, StartsPath search trace first second →
    second.recipient = second.sender → finish ∈ funderInbound search second.sender →
      PassesOn first second finish →
        finish ∈ trace.outboundUsdc ∧ second.amountRaw < first.amountRaw ∧
          second.amountRaw < finish.amountRaw

/-- A transfer that was outbid made a larger prefix than the transfer to itself. -/
private theorem startsPath_of_outbid {trace : Trace} {first second finish : TraceTransfer}
    (hstarts : StartsPath search trace first second)
    (hfinish : finish ∈ funderInbound search second.sender) (hpasses : PassesOn first second finish)
    (hsent : finish ∈ trace.outboundUsdc) (hless : second.amountRaw < finish.amountRaw) :
    StartsPath search trace first finish := by
  obtain ⟨_, _, hpositive, hsender⟩ := mem_funderInbound.mp hfinish
  refine ⟨hstarts.paid, hstarts.loaded, hstarts.complete, hsent, ?_, hpositive,
    hstarts.passesOn.later.trans hpasses.later, ?_, hpasses.inWindow⟩
  · rw [hsender, hstarts.forwarded]
  · have hretains := of_decide_eq_true hstarts.passesOn.retains
    exact decide_eq_true (hretains.trans (Nat.mul_le_mul_right _ hless.le))

/-- Every prefix that was tried and reaches the funder has a transfer in use. -/
def Settled (search : RelaySearch) (tried : List RelayPrefix) (used : List TransferKey) : Prop :=
  ∀ start ∈ tried, start.second.recipient = search.funder →
    start.first.key ∈ used ∨ start.second.key ∈ used

/-- A prefix through a relay's transfer to itself is not completed, if it was outbid. -/
private theorem not_self_of_completed (htrue : TrueTransfers search)
    (houtbid : SelfTransfersOutbid search) {tried : List RelayPrefix}
    (hall : sortedPrefixes search = tried ++ start :: rest)
    (hsettled : Settled search tried found.usedKeys)
    (h : completePath search found.usedKeys start = some (hops, creditRaw)) :
    start.second.sender ≠ start.second.recipient := by
  intro hself
  have hmem : start ∈ sortedPrefixes search := by simp [hall]
  obtain ⟨hstart, trace, hstarts⟩ := startsPath_of_mem_sortedPrefixes hmem
  obtain ⟨hfirst, hsecond, hcompleted⟩ := completePath_eq_some h
  have hrelay := (mem_firstHops.mp hstarts.paid).2.2.2.1
  cases hcompleted with
  | direct hend =>
    rw [← hself, hstarts.forwarded] at hend
    exact hrelay hend
  | finished finish hend hfinish hfree hpasses =>
    rw [← hself] at hfinish
    obtain ⟨hsent, hfirstLess, hfinishLess⟩ :=
      houtbid trace _ _ finish hstarts hself.symm hfinish hpasses
    have hother := startsPath_of_outbid hstarts hfinish hpasses hsent hfinishLess
    have htried : prefixOf start.first finish ∈ tried := by
      have hin := mem_sortedPrefixes htrue hother
      rw [hall] at hin
      apply (List.mem_append.mp hin).resolve_right
      intro hlater
      have hsorted := pairwise_sortedPrefixes htrue
      rw [hall, List.pairwise_append] at hsorted
      have hcredit : (prefixOf start.first finish).prefixCreditRaw ≤ start.prefixCreditRaw := by
        rcases List.mem_cons.mp hlater with heq | hlater
        · rw [heq]
        · exact credit_le_of_compareRecordedPrefix
            ((List.pairwise_cons.mp hsorted.2.1).1 _ hlater)
      rw [hstart] at hcredit
      simp only [prefixOf] at hcredit
      omega
    rcases hsettled _ htried (mem_funderInbound.mp hfinish).2.1 with hused | hused
    · exact hfirst hused
    · exact hfree hused

/-- Where transfers of relays to themselves are outbid, every run finds admissible paths. -/
theorem discoverPaths_discovers (htrue : TrueTransfers search)
    (houtbid : SelfTransfersOutbid search) (tried : List RelayPrefix)
    (hall : sortedPrefixes search = tried ++ rest) (hfound : Discovers search reserved found)
    (hsettled : Settled search tried found.usedKeys) :
    Discovers search reserved (discoverPaths search maxPaths required rest found) := by
  induction rest generalizing tried found with
  | nil => exact hfound
  | cons start rest ih =>
    have hnext : sortedPrefixes search = (tried ++ [start]) ++ rest := by
      rw [hall, List.append_assoc, List.singleton_append]
    have hgrown {used : List TransferKey} (hused : found.usedKeys ⊆ used)
        (hlast : start.second.recipient = search.funder →
          start.first.key ∈ used ∨ start.second.key ∈ used) :
        Settled search (tried ++ [start]) used := by
      intro start' hstart'
      rcases List.mem_append.mp hstart' with hstart' | hstart'
      · intro hend
        exact (hsettled start' hstart' hend).imp (fun h => hused h) (fun h => hused h)
      · rw [List.mem_singleton.mp hstart']
        exact hlast
    rw [discoverPaths]
    split
    · exact hfound
    · split
      · rename_i hnone
        apply ih (tried ++ [start]) hnext hfound
        apply hgrown (List.Subset.refl _)
        intro hend
        by_contra hfree
        obtain ⟨hfirst, hsecond⟩ := not_or.mp hfree
        rw [completePath_of_direct hend hfirst hsecond] at hnone
        cases hnone
      · rename_i hops creditRaw hsome
        have hself := not_self_of_completed htrue houtbid hall hsettled hsome
        obtain ⟨hfirst, hsecond, hcompleted⟩ := completePath_eq_some hsome
        split
        · rename_i hshared
          apply ih (tried ++ [start]) hnext hfound
          apply hgrown (List.Subset.refl _)
          intro hend
          cases hcompleted with
          | direct _ => simp [hfirst, hsecond] at hshared
          | finished _ hother _ _ _ => exact absurd hend hother
        · rename_i hfree
          have hmem : start ∈ sortedPrefixes search := by simp [hall]
          obtain ⟨hstart, trace, hstarts⟩ := startsPath_of_mem_sortedPrefixes hmem
          apply ih (tried ++ [start]) hnext
          · apply hfound.push
            · cases hcompleted with
              | direct _ => exact .inl rfl
              | finished _ _ _ _ _ => exact .inr rfl
            · intro settlements hearliest
              cases hcompleted with
              | direct hend => exact pathOk_direct hstarts hearliest hself hend
              | finished finish hend hfinish _ hpasses =>
                exact pathOk_finished hstarts hearliest hself hend hfinish hpasses
            · exact hcompleted.creditRaw_eq hstart
            · intro key hkey hused
              exact hfree (List.any_eq_true.mpr ⟨key, hkey, decide_eq_true hused⟩)
          · apply hgrown (List.subset_append_left _ _)
            intro _
            left
            apply List.mem_append_right
            cases hcompleted with
            | direct _ => exact List.mem_cons_self ..
            | finished _ _ _ _ _ => exact List.mem_cons_self ..

section Converse

variable {trace : Trace} {first second finish : TraceTransfer}

/-- The transfers of all prefixes but those of one path. -/
private def othersReserved (search : RelaySearch) (free : List TransferKey) :
    List TransferKey :=
  ((sortedPrefixes search).flatMap fun start => [start.first.key, start.second.key]).filter
    (· ∉ free)

private theorem mem_free_of_not_reserved {free : List TransferKey}
    (hmem : start ∈ sortedPrefixes search)
    (hfirst : start.first.key ∉ othersReserved search free)
    (hsecond : start.second.key ∉ othersReserved search free) :
    start.first.key ∈ free ∧ start.second.key ∈ free := by
  constructor
  · by_contra hnot
    apply hfirst
    rw [othersReserved, List.mem_filter]
    exact ⟨List.mem_flatMap.mpr ⟨start, hmem, by simp⟩, decide_eq_true hnot⟩
  · by_contra hnot
    apply hsecond
    rw [othersReserved, List.mem_filter]
    exact ⟨List.mem_flatMap.mpr ⟨start, hmem, by simp⟩, decide_eq_true hnot⟩

/-- Where all other transfers are reserved, a prefix that can be used is made of the free ones:
it ends with the transfer of the relay to itself, or with the one to the funder. -/
private theorem eq_of_free (htrue : TrueTransfers search)
    (hstarts : StartsPath search trace first second)
    (hfinish : finish ∈ funderInbound search second.sender)
    (hmem : start ∈ sortedPrefixes search)
    (hfirst : start.first.key ∈ [first.key, second.key, finish.key])
    (hsecond : start.second.key ∈ [first.key, second.key, finish.key]) :
    start = prefixOf first second ∨
      start = prefixOf first finish ∧ finish ∈ trace.outboundUsdc := by
  obtain ⟨hstart, trace', hstarts'⟩ := startsPath_of_mem_sortedPrefixes hmem
  obtain ⟨hinbound, hrecipient, _, hsender⟩ := mem_funderInbound.mp hfinish
  obtain ⟨_, hseller, hrelay, _⟩ := mem_firstHops.mp hstarts.paid
  have hpaid := mem_firstHops.mp hstarts'.paid
  have hrecorded : Recorded search finish := .inr (.inl hinbound)
  have hsame : ∀ entry, Recorded search entry →
      entry.key ∈ [first.key, second.key, finish.key] →
        entry = first ∨ entry = second ∨ entry = finish := by
    intro entry hentry hkey
    simp only [List.mem_cons, List.not_mem_nil, or_false] at hkey
    exact hkey.imp (htrue.sameLog _ _ hentry (recorded_of_mem_firstHops hstarts.paid))
      (Or.imp (htrue.sameLog _ _ hentry hstarts.recorded) (htrue.sameLog _ _ hentry hrecorded))
  have hfirstEq : start.first = first := by
    rcases hsame _ (recorded_of_mem_firstHops hstarts'.paid) hfirst with heq | heq | heq
    · exact heq
    · rw [heq, hstarts.forwarded] at hpaid
      exact absurd hpaid.2.1 hrelay
    · rw [heq, hsender, hstarts.forwarded] at hpaid
      exact absurd hpaid.2.1 hrelay
  rcases hsame _ hstarts'.recorded hsecond with heq | heq | heq
  · have hsent := hstarts'.forwarded
    rw [heq, hfirstEq, hseller] at hsent
    exact absurd hsent.symm hrelay
  · left
    rw [hstart, hfirstEq, heq]
  · right
    have hload := hstarts'.loaded
    rw [hfirstEq, hstarts.loaded] at hload
    obtain rfl := Option.some.inj hload
    exact ⟨by rw [hstart, hfirstEq, heq], heq ▸ hstarts'.sent⟩

/-- The first prefix that can be used decides a run that asks for one path. -/
private theorem discoverPaths_one (hmem : start ∈ rest)
    (honly : ∀ other ∈ rest, completePath search reserved other ≠ none → other ≠ start →
      (compareRecordedPrefix other start).isLE = false)
    (hsorted : rest.Pairwise fun a b => (compareRecordedPrefix a b).isLE = true)
    (hcomplete : completePath search reserved start = some (hops, creditRaw))
    (hfree : (hops.map TraceTransfer.key).Disjoint reserved) :
    discoverPaths search 1 1 rest ⟨[], 0, reserved⟩ =
      DiscoveredReturns.push search ⟨[], 0, reserved⟩ start hops creditRaw := by
  induction rest with
  | nil => cases hmem
  | cons next rest ih =>
    obtain ⟨hfirst, hsorted⟩ := List.pairwise_cons.mp hsorted
    obtain ⟨hnext, honly⟩ := List.forall_mem_cons.mp honly
    rw [discoverPaths, if_neg (by simp)]
    by_cases hsame : next = start
    · rw [hsame, hcomplete]
      dsimp only
      rw [if_neg]
      · cases rest with
        | nil => rfl
        | cons other rest =>
          rw [discoverPaths, if_pos]
          exact .inl (Nat.le_refl 1)
      · rw [List.any_eq_true]
        intro hused
        obtain ⟨key, hkey, hused⟩ := hused
        exact hfree hkey (of_decide_eq_true hused)
    · have hlater : start ∈ rest := (List.mem_cons.mp hmem).resolve_left fun h => hsame h.symm
      have hnone : completePath search reserved next = none := by
        by_contra hsome
        have hgt := hnext hsome hsame
        rw [hfirst start hlater] at hgt
        cases hgt
      rw [hnone]
      exact ih hlater honly hsorted

/-- A prefix that ends later, with no more credit, is tried later. -/
private theorem compareRecordedPrefix_finish (hlater : second.timestamp < finish.timestamp)
    (hcredit : min first.amountRaw finish.amountRaw ≤ min first.amountRaw second.amountRaw) :
    (compareRecordedPrefix (prefixOf first finish) (prefixOf first second)).isLE = false := by
  have hgt : compareRecordedPrefix (prefixOf first finish) (prefixOf first second) = .gt := by
    rw [compareRecordedPrefix, compareLex, compareLex]
    rcases Nat.lt_or_eq_of_le hcredit with hless | hsame
    · rw [prefixOf, prefixOf, Nat.compare_eq_gt.mpr hless]
      rfl
    · rw [prefixOf, prefixOf, Nat.compare_eq_eq.mpr hsame.symm,
        @Std.ReflCmp.compare_self _ compareRecorded,
        compareRecorded_gt hlater]
      rfl
  rw [hgt]
  rfl

/-- If every run finds admissible paths, transfers of relays to themselves are outbid. -/
theorem selfTransfersOutbid_of_admissible (htrue : TrueTransfers search)
    (h : ∀ requiredRaw maxPaths reserved, maxPaths ≤ maxReturnPaths →
      AdmissibleReturns search reserved
        (discoverCachedRelayReturns search requiredRaw maxPaths reserved)) :
    SelfTransfersOutbid search := by
  intro trace first second finish hstarts hself hfinish hpasses
  by_contra houtbid
  have hrelay := (mem_firstHops.mp hstarts.paid).2.2.2.1
  have hpositive := (mem_firstHops.mp hstarts.paid).2.2.2.2.1
  let reserved := othersReserved search [first.key, second.key, finish.key]
  have hunreserved : ∀ key ∈ [first.key, second.key, finish.key], key ∉ reserved := by
    intro key hkey hreserved
    exact of_decide_eq_true (List.mem_filter.mp hreserved).2 hkey
  have hfirst : first.key ∉ reserved := hunreserved _ (by simp)
  have hsecond : second.key ∉ reserved := hunreserved _ (by simp)
  have hother : second.recipient ≠ search.funder := by
    rw [hself, hstarts.forwarded]
    exact hrelay
  obtain ⟨found, hfound⟩ : ∃ found, bestAvailableFinish (prefixOf first second) reserved
      (funderInbound search second.recipient) none = some found := by
    apply Option.isSome_iff_exists.mp
    rw [hself]
    apply bestAvailableFinish_isSome _ hfinish (hunreserved _ (by simp)) hpasses
    · have hfinishPositive := (mem_funderInbound.mp hfinish).2.2.1
      have hsecondPositive := hstarts.positive
      simp only [finishCreditRaw, prefixOf]
      omega
    · exact pairwise_funderInbound htrue
  have hcomplete : completePath search reserved (prefixOf first second) =
      some ([first, second, found], finishCreditRaw (prefixOf first second) found) := by
    have hfree : ¬ ((prefixOf first second).first.key ∈ reserved ∨
        (prefixOf first second).second.key ∈ reserved) := not_or.mpr ⟨hfirst, hsecond⟩
    have hother : (prefixOf first second).second.recipient ≠ search.funder := hother
    rw [completePath, if_neg hfree, if_neg hother]
    exact Option.map_eq_some_iff.mpr ⟨found, hfound, rfl⟩
  have hrun : discoverCachedRelayReturns search 1 1 reserved =
      DiscoveredReturns.push search ⟨[], 0, reserved⟩ (prefixOf first second)
        [first, second, found] (finishCreditRaw (prefixOf first second) found) := by
    apply discoverPaths_one (mem_sortedPrefixes htrue hstarts) _ (pairwise_sortedPrefixes htrue)
      hcomplete
    · obtain ⟨_, hfree, _⟩ := (bestAvailableFinish_eq_some hfound).resolve_left (by simp)
      intro key hkey hreserved
      simp only [List.map_cons, List.map_nil, List.mem_cons, List.not_mem_nil, or_false] at hkey
      rcases hkey with rfl | rfl | rfl
      · exact hfirst hreserved
      · exact hsecond hreserved
      · exact hfree hreserved
    · intro other hmem hsome hne
      obtain ⟨hops, hops⟩ := Option.ne_none_iff_exists'.mp hsome
      obtain ⟨hfirst, hsecond, _⟩ := completePath_eq_some hops
      obtain ⟨hfirst, hsecond⟩ := mem_free_of_not_reserved hmem hfirst hsecond
      obtain ⟨rfl, hsent⟩ :=
        (eq_of_free htrue hstarts hfinish hmem hfirst hsecond).resolve_left hne
      apply compareRecordedPrefix_finish hpasses.later
      by_contra hlarger
      exact houtbid ⟨hsent, by omega, by omega⟩
  have hadmissible := h 1 1 reserved (by decide)
  rw [hrun] at hadmissible
  have hpath := hadmissible.pathOk _ (List.mem_singleton.mpr rfl)
    [⟨0, search.seller, search.seller, 0, search.earliestSettlementTimestamp⟩] rfl
  exact (hpath.moves second.toHop (by simp [TraceTransfer.toHop,
    TraceTransfer.serializeTransfer])).1 hself.symm

end Converse

/-- Relay paths found in true traces are admissible, whatever is asked for and reserved, if and
only if transfers of relays to themselves are outbid. -/
theorem discoverCachedRelayReturns_admissible_iff (search : RelaySearch)
    (htrue : TrueTransfers search) :
    (∀ requiredRaw maxPaths reserved, maxPaths ≤ maxReturnPaths →
      AdmissibleReturns search reserved
        (discoverCachedRelayReturns search requiredRaw maxPaths reserved)) ↔
      SelfTransfersOutbid search := by
  constructor
  · exact selfTransfersOutbid_of_admissible htrue
  · intro houtbid requiredRaw maxPaths reserved _
    exact (discoverPaths_discovers htrue houtbid [] rfl discovers_nil nofun).toAdmissibleReturns

end Runs

section Example

private def payment : TraceTransfer := ⟨1, 3, 100, 10, 1, 0, none, none⟩
private def forward (recipient : Address) : TraceTransfer :=
  ⟨3, recipient, 100, 11, 2, 0, none, none⟩
private def receipt : TraceTransfer := ⟨3, 2, 100, 12, 3, 0, none, none⟩

/-- Account 1 pays the relay 3, which forwards the payment and later pays the funder 2. -/
private def relaySearch (recipient : Address) : RelaySearch where
  seller := 1
  funder := 2
  sellerTrace := some ⟨true, [], [payment]⟩
  funderTrace := some ⟨true, [receipt], []⟩
  loadTrace relay := if relay = 3 then some ⟨true, [], [forward recipient]⟩ else none
  earliestSettlementTimestamp := 5

private theorem mem_outbound {recipient relay : Address} {trace : Trace} {entry : TraceTransfer}
    (hload : (relaySearch recipient).loadTrace relay = some trace)
    (hmem : entry ∈ trace.outboundUsdc) : entry = forward recipient := by
  simp only [relaySearch, Option.ite_none_right_eq_some, Option.some.injEq] at hload
  rw [← hload.2] at hmem
  exact List.mem_singleton.mp hmem

private theorem relaySearch_true (recipient : Address) : TrueTransfers (relaySearch recipient) := by
  have hall : ∀ entry, Recorded (relaySearch recipient) entry →
      entry = payment ∨ entry = receipt ∨ entry = forward recipient := by
    intro entry hentry
    rcases hentry with hsent | hreceived | ⟨relay, trace, hload, hmem⟩
    · exact .inl (List.mem_singleton.mp hsent)
    · exact .inr (.inl (List.mem_singleton.mp hreceived))
    · exact .inr (.inr (mem_outbound hload hmem))
  have hpayment : payment.key = (1, 0) := rfl
  have hforward : (forward recipient).key = (2, 0) := rfl
  have hreceipt : receipt.key = (3, 0) := rfl
  constructor
  · intro a b ha hb hkey
    rcases hall a ha with rfl | rfl | rfl <;> rcases hall b hb with rfl | rfl | rfl <;>
      first
      | rfl
      | rw [hpayment, hforward] at hkey; cases hkey
      | rw [hpayment, hreceipt] at hkey; cases hkey
      | rw [hforward, hreceipt] at hkey; cases hkey
  · intro a b ha hb x hx
    rcases hall a ha with rfl | rfl | rfl <;> cases hx
  · intro a b ha hb
    rcases hall a ha with rfl | rfl | rfl <;> rcases hall b hb with rfl | rfl | rfl <;> rfl

/-- A relay that forwards to the funder gives admissible paths. -/
theorem forwardingRelay_admissible : AdmissibleReturns (relaySearch 2) []
    (discoverCachedRelayReturns (relaySearch 2) 100 512 []) := by
  apply (discoverCachedRelayReturns_admissible_iff (relaySearch 2) (relaySearch_true 2)).mpr
  · intro trace first second finish hstarts hself
    rw [mem_outbound hstarts.loaded hstarts.sent] at hself
    exact absurd hself (by decide)
  · exact Nat.le_refl 512

/-- A relay's transfer to itself is taken for its forward. -/
theorem selfPayingRelay_not_admissible :
    (relaySearch 3).seller ≠ (relaySearch 3).funder ∧ TrueTransfers (relaySearch 3) ∧
      ¬ AdmissibleReturns (relaySearch 3) []
        (discoverCachedRelayReturns (relaySearch 3) 100 512 []) := by
  refine ⟨by decide, relaySearch_true 3, ?_⟩
  intro hadmissible
  have hfound : (discoverCachedRelayReturns (relaySearch 3) 100 512 []).paths =
      [⟨1, 2, 3, some 3, [payment, forward 3, receipt]⟩] := by decide
  have hpath := hadmissible.pathOk _ (hfound ▸ List.mem_singleton.mpr rfl) [⟨0, 1, 1, 0, 5⟩] rfl
  exact (hpath.moves (forward 3).toHop (by simp)).1 rfl

end Example

end LoopProof.Planner
