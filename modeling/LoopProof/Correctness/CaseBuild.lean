import LoopProof.Correctness.CaseFundings
import LoopProof.Correctness.History

/-!
# What the builder writes

Against a history, the settlements of every buyer are those of the period, every funding of a case
was discovered in it, and the chosen fundings are worth what the rules require.
-/

namespace LoopProof.Host

open Case (Entry Built entryOf entriesOf totalAmount settledTotal)

section Logs

variable {β : Type} {history : History β}

/-- The logs of declared contracts have their shape. -/
theorem shaped_of_logs (hdeclared : history.Declared) {found : MinedLog}
    (h : found ∈ history.logs) : Shaped found.log := by
  obtain ⟨mined, hmined, _, _, log, hlog, _, hsame⟩ := mem_logs h
  rw [← hsame]
  exact shaped_of_mem hdeclared (transaction_eq_some.mp hmined).1 hlog

variable {log : ParsedLog} {sender recipient buyer seller : Address}

/-- What a log must be to match. -/
theorem matchesLog_iff {address : Address} {topic0 : B256} {topic1 topic2 : Option B256} :
    matchesLog address topic0 topic1 topic2 log = true ↔ log.address = address ∧
      log.topics[0]? = some topic0 ∧ (topic1 = none ∨ log.topics[1]? = topic1) ∧
      (topic2 = none ∨ log.topics[2]? = topic2) := by
  rw [matchesLog, decide_eq_true_iff]

/-- A transfer names its two sides. -/
theorem isTransfer_iff (hshaped : Shaped log) : isTransfer sender recipient log = true ↔
    log.address = usdcAddress ∧
      log.topics = [transferTopic, addrTopic sender, addrTopic recipient] := by
  rw [isTransfer, matchesLog_iff]
  constructor
  · intro h
    obtain ⟨haddress, htopic, hsender, hrecipient⟩ := h
    obtain ⟨s, r, htopics, _⟩ := hshaped.transfer haddress htopic
    simp only [htopics, reduceCtorEq, false_or, List.getElem?_cons_succ, List.getElem?_cons_zero,
      Option.some.injEq] at hsender hrecipient
    rw [htopics, hsender, hrecipient]
    exact ⟨haddress, rfl⟩
  · intro h
    rw [h.1, h.2]
    exact ⟨rfl, rfl, .inr rfl, .inr rfl⟩

/-- A deposit has two topics. -/
theorem isDeposited_iff (hshaped : Shaped log) : isDeposited buyer log = true ↔
    log.address = depositsAddress ∧ log.topics = [depositedTopic, addrTopic buyer] := by
  rw [isDeposited, matchesLog_iff]
  constructor
  · intro h
    obtain ⟨haddress, htopic, hbuyer, _⟩ := h
    obtain ⟨b, htopics, _⟩ := hshaped.deposited haddress htopic
    simp only [htopics, reduceCtorEq, false_or, List.getElem?_cons_succ, List.getElem?_cons_zero,
      Option.some.injEq] at hbuyer
    rw [htopics, hbuyer]
    exact ⟨haddress, rfl⟩
  · intro h
    rw [h.1, h.2]
    exact ⟨rfl, rfl, .inr rfl, .inl rfl⟩

/-- A log that matches has the first topic. -/
theorem head_of_matchesTopics {topic : B256} {wanted : List (Option B256)} {topics : List B256}
    (h : matchesTopics (some topic :: wanted) topics = true) : topics[0]? = some topic := by
  cases topics with
  | nil => cases h
  | cons found rest =>
    simp only [matchesTopics, Bool.and_eq_true, decide_eq_true_eq] at h
    rw [h.1]
    rfl

/-- What the filter of a seller's settlements selects. -/
theorem settled_selects (hshaped : Shaped log) {wanted : Option B256} :
    LogFilter.selects
        ⟨channelsAddress, [some channelSettledTopic, none, wanted, some (addrTopic seller)]⟩ log =
        true ↔
      ∃ channel buyer, log.address = channelsAddress ∧
        log.topics = [channelSettledTopic, channel, addrTopic buyer, addrTopic seller] ∧
        wanted.all (· = addrTopic buyer) = true := by
  rw [LogFilter.selects, Bool.and_eq_true, decide_eq_true_iff]
  constructor
  · intro h
    obtain ⟨haddress, htopics⟩ := h
    obtain ⟨channel, b, s, hlog, _⟩ := hshaped.settled haddress (head_of_matchesTopics htopics)
    rw [hlog] at htopics ⊢
    cases wanted with
    | none =>
      simp only [matchesTopics, decide_true, Bool.true_and, Bool.and_true,
        decide_eq_true_eq] at htopics
      rw [htopics]
      exact ⟨channel, b, haddress, rfl, rfl⟩
    | some topic =>
      simp only [matchesTopics, decide_true, Bool.true_and, Bool.and_true, Bool.and_eq_true,
        decide_eq_true_eq] at htopics
      rw [htopics.2]
      exact ⟨channel, b, haddress, rfl, by simpa using htopics.1⟩
  · intro h
    obtain ⟨channel, buyer, haddress, htopics, hwanted⟩ := h
    rw [haddress, htopics]
    cases wanted with
    | none => simp [matchesTopics]
    | some topic => simpa [matchesTopics] using hwanted

/-- What the filter of a buyer's inflows selects. -/
theorem inflow_selects (hshaped : Shaped log) {target : Option Address} :
    LogFilter.selects
        ⟨usdcAddress, [some transferTopic, target.map addrTopic, some (addrTopic recipient)]⟩ log =
        true ↔
      ∃ sender, isTransfer sender recipient log = true ∧ target.all (· = sender) = true := by
  simp only [isTransfer_iff hshaped]
  rw [LogFilter.selects, Bool.and_eq_true, decide_eq_true_iff]
  constructor
  · intro h
    obtain ⟨haddress, htopics⟩ := h
    obtain ⟨s, r, hlog, _⟩ := hshaped.transfer haddress (head_of_matchesTopics htopics)
    rw [hlog] at htopics ⊢
    cases target with
    | none =>
      simp only [Option.map_none, matchesTopics, decide_true, Bool.true_and, Bool.and_true,
        decide_eq_true_eq] at htopics
      rw [htopics]
      exact ⟨s, ⟨haddress, rfl⟩, rfl⟩
    | some address =>
      simp only [Option.map_some, matchesTopics, decide_true, Bool.true_and, Bool.and_true,
        Bool.and_eq_true, decide_eq_true_eq] at htopics
      rw [htopics.2]
      exact ⟨s, ⟨haddress, rfl⟩, by simpa using addrTopic_injective htopics.1⟩
  · intro h
    obtain ⟨s, ⟨haddress, htopics⟩, hwanted⟩ := h
    rw [haddress, htopics]
    cases target with
    | none => simp [matchesTopics]
    | some address => simpa [matchesTopics] using congrArg addrTopic (of_decide_eq_true hwanted)

/-- What the filter of all deposits selects. -/
theorem deposited_selects (hshaped : Shaped log) :
    LogFilter.selects ⟨depositsAddress, [some depositedTopic]⟩ log = true ↔
      ∃ buyer, isDeposited buyer log = true := by
  simp only [isDeposited_iff hshaped]
  rw [LogFilter.selects, Bool.and_eq_true, decide_eq_true_iff]
  constructor
  · intro h
    obtain ⟨haddress, htopics⟩ := h
    obtain ⟨b, hlog, _⟩ := hshaped.deposited haddress (head_of_matchesTopics htopics)
    exact ⟨b, haddress, hlog⟩
  · intro h
    obtain ⟨b, haddress, htopics⟩ := h
    rw [haddress, htopics]
    exact ⟨rfl, rfl⟩

end Logs

/-! ## Settlements -/

/-- A buyer's settlements with a seller over the period. -/
def History.settlementsOf {β : Type} (history : History β) (seller buyer : Address) : List Entry :=
  (history.select (settledFilter buyer seller) Case.periodStart Case.periodEnd).map fun found =>
    entryOf found (settledAmount found.log)

section Found

variable {β : Type} {history : History β} {rpc : Case.BuilderRpc}

/-- A word of the data. -/
theorem dataWord_eq_ok {data : Bytes} {index word : ℕ} (h : Case.dataWord data index = .ok word) :
    word = beNat ((data.drop (32 * index)).take 32) := by
  simp only [Case.dataWord, bind_eq_ok, pure_eq_ok] at h
  obtain ⟨_, _, rfl⟩ := h
  rfl

/-- A list that is related to another one by a function is its image. -/
theorem map_of_forall₂ {α γ : Type} {f : α → γ} {xs : List α} {ys : List γ}
    (h : List.Forall₂ (fun x y => f x = y) xs ys) : ys = xs.map f := by
  rw [eq_comm, ← List.forall₂_eq_eq_eq, List.forall₂_map_left_iff]
  exact h

/-- The entries of a buyer are those with its key. -/
theorem entriesOf_map {α : Type} {key : α → Address} {value : α → Entry} (xs : List α)
    (buyer : Address) :
    entriesOf (xs.map fun x => (key x, value x)) buyer =
      (xs.filter fun x => key x = buyer).map value := by
  rw [Case.entriesOf, List.filter_map, List.map_map]
  rfl

/-- The buyer whose topic a settlement carries. -/
def settledBuyer (found : MinedLog) : Address := topicAddress (found.log.topics[2]?.getD 0)

/-- The settlements of one buyer among those of all. -/
theorem settled_filter (hdeclared : history.Declared) (seller buyer : Address) (first last : ℕ) :
    (history.select ⟨channelsAddress,
        [some channelSettledTopic, none, none, some (addrTopic seller)]⟩ first last).filter
      (fun found => settledBuyer found = buyer) =
        history.select (settledFilter buyer seller) first last := by
  rw [History.select, History.select, ← filter_itemsBetween, List.filter_filter]
  congr 1
  apply List.filter_congr
  intro found hfound
  have hshaped := shaped_of_logs hdeclared hfound
  rw [Bool.eq_iff_iff, Bool.and_eq_true, decide_eq_true_iff, settled_selects hshaped,
    settledFilter, settled_selects hshaped]
  constructor
  · intro h
    obtain ⟨hbuyer, channel, b, haddress, htopics, _⟩ := h
    rw [settledBuyer, htopics] at hbuyer
    obtain rfl : b = buyer := (topicAddress_addrTopic b).symm.trans hbuyer
    exact ⟨channel, b, haddress, htopics, decide_eq_true rfl⟩
  · intro h
    obtain ⟨channel, b, haddress, htopics, hsame⟩ := h
    obtain rfl := addrTopic_injective (of_decide_eq_true hsame)
    refine ⟨?_, channel, buyer, haddress, htopics, rfl⟩
    rw [settledBuyer, htopics]
    exact topicAddress_addrTopic buyer

/-- The builder groups by buyer what the host asks for by buyer. -/
theorem findSettlements_spec (hdeclared : history.Declared) (hlists : ListsLogs rpc history)
    {seller : Address}
    {found : List (Address × Entry)} (h : Case.findSettlements rpc seller = .ok found)
    (buyer : Address) : entriesOf found buyer = history.settlementsOf seller buyer := by
  simp only [Case.findSettlements, bind_eq_ok, mapM_eq_ok, pure_eq_ok, Case.topicAt,
    okOr_eq_ok] at h
  obtain ⟨logs, hlogs, hall⟩ := h
  have hread : found = logs.map fun l => (settledBuyer l, entryOf l (settledAmount l.log)) := by
    apply map_of_forall₂
    apply hall.imp
    intro l entry hentry
    obtain ⟨topic, htopic, amount, hamount, rfl⟩ := hentry
    rw [settledBuyer, htopic, dataWord_eq_ok hamount]
    rfl
  rw [hread, entriesOf_map, getLogs_select hlists hlogs, settled_filter hdeclared]
  rfl

/-! ## Fundings -/

/-- A funding was discovered as a transfer of the funder to the buyer. -/
def FoundTransfer (history : History β) (funder buyer : Address) (entry : Entry) : Prop :=
  ∃ found ∈ history.logs, isTransfer funder buyer found.log = true ∧
    entry = entryOf found (paidAmount found.log)

/-- A funding was discovered as a deposit for the buyer, in a transaction that the funder paid. -/
def FoundDeposit (history : History β) (funder buyer : Address) (entry : Entry) : Prop :=
  ∃ found ∈ history.logs, isDeposited buyer found.log = true ∧
    entry = entryOf found (paidAmount found.log) ∧
    ∃ paid ∈ history.logs, isTransfer funder depositsAddress paid.log = true ∧
      paid.transactionHash = found.transactionHash

/-- Whatever reached a buyer was found before its first settlement ended. -/
theorem inflowsTo_spec (hdeclared : history.Declared) (hlists : ListsLogs rpc history)
    {target : Option Address}
    {settlements : List (Address × Entry)} {buyer : Address} {inflows : List Case.Inflow}
    (h : Case.inflowsTo rpc target settlements buyer = .ok inflows) :
    ∀ inflow ∈ inflows, inflow.buyer = buyer ∧
      FoundTransfer history inflow.sender buyer inflow.entry ∧
      ∀ settlement ∈ entriesOf settlements buyer, inflow.entry.block ≤ settlement.block := by
  simp only [Case.inflowsTo, bind_eq_ok, mapM_eq_ok, pure_eq_ok, Case.topicAt,
    okOr_eq_ok] at h
  obtain ⟨firstSettled, hfirst, logs, hlogs, hall⟩ := h
  obtain rfl := getLogs_select hlists hlogs
  intro inflow hinflow
  obtain ⟨found, hfound, topic, htopic, amount, hamount, rfl⟩ := forall₂_exists_left hall hinflow
  obtain ⟨hmem, hselects, _, hbefore⟩ := mem_select.mp hfound
  obtain ⟨sender, htransfer, _⟩ := (inflow_selects (shaped_of_logs hdeclared hmem)).mp hselects
  have htopics := ((isTransfer_iff (shaped_of_logs hdeclared hmem)).mp htransfer).2
  rw [htopics] at htopic
  obtain rfl : addrTopic sender = topic := Option.some.inj htopic
  refine ⟨rfl, ⟨found, hmem, ?_, ?_⟩, ?_⟩
  · rw [topicAddress_addrTopic]
    exact htransfer
  · rw [dataWord_eq_ok hamount]
    rfl
  · intro settlement hsettlement
    have hleast := (List.min?_eq_some_iff.mp hfirst).2 settlement.block
      (List.mem_map_of_mem hsettlement)
    exact hbefore.trans hleast

/-- The funder's entries are transfers to the buyer before its settlements. -/
theorem findFunder_spec (hdeclared : history.Declared) (hlists : ListsLogs rpc history)
    {target : Option Address}
    {settlements : List (Address × Entry)} {funder : Address} {fundings : List (Address × Entry)}
    (h : Case.findFunder rpc target settlements = .ok (funder, fundings)) {buyer : Address}
    {entry : Entry} (hentry : entry ∈ entriesOf fundings buyer) :
    FoundTransfer history funder buyer entry ∧
      ∀ settlement ∈ entriesOf settlements buyer, entry.block ≤ settlement.block := by
  simp only [Case.findFunder, bind_eq_ok, mapM_eq_ok, pure_eq_ok, okOr_eq_ok,
    Prod.mk.injEq] at h
  obtain ⟨groups, hgroups, _, _, rfl, rfl⟩ := h
  rw [entriesOf_map] at hentry
  obtain ⟨inflow, hinflow, rfl⟩ := List.mem_map.mp hentry
  obtain ⟨hinflow, hbuyer⟩ := List.mem_filter.mp hinflow
  obtain ⟨hinflow, hsender⟩ := List.mem_filter.mp hinflow
  obtain ⟨group, hgroup, hmem⟩ := List.mem_flatten.mp hinflow
  obtain ⟨buyer', _, hread⟩ := forall₂_exists_left hgroups hgroup
  obtain ⟨rfl, hfound, hbefore⟩ := inflowsTo_spec hdeclared hlists hread inflow hmem
  obtain rfl := of_decide_eq_true hbuyer
  obtain rfl := of_decide_eq_true hsender
  exact ⟨hfound, hbefore⟩

/-- The entries of a seller who funds itself are deposits. -/
theorem findSelfFundings_spec (hdeclared : history.Declared) (hlists : ListsLogs rpc history)
    {seller : Address}
    {fundings : List (Address × Entry)} (h : Case.findSelfFundings rpc seller = .ok fundings)
    {buyer : Address} {entry : Entry} (hentry : entry ∈ entriesOf fundings buyer) :
    FoundDeposit history seller buyer entry := by
  simp only [Case.findSelfFundings, bind_eq_ok] at h
  obtain ⟨transfers, htransfers, _, _, h⟩ := h
  obtain rfl := getLogs_select hlists htransfers
  split at h
  · obtain rfl := pure_eq_ok.mp h
    cases hentry
  · simp only [bind_eq_ok, mapM_eq_ok, pure_eq_ok, Case.topicAt, okOr_eq_ok] at h
    obtain ⟨deposits, hdeposits, hall⟩ := h
    obtain rfl := getLogs_select hlists hdeposits
    obtain ⟨pair, hpair, rfl⟩ := List.mem_map.mp hentry
    obtain ⟨hpair, hbuyer⟩ := List.mem_filter.mp hpair
    obtain ⟨found, hfound, topic, htopic, amount, hamount, rfl⟩ := forall₂_exists_left hall hpair
    obtain ⟨hfound, hpaid⟩ := List.mem_filter.mp hfound
    obtain ⟨hmem, hselects, _⟩ := mem_select.mp hfound
    obtain ⟨b, hdeposited⟩ := (deposited_selects (shaped_of_logs hdeclared hmem)).mp hselects
    have htopics := ((isDeposited_iff (shaped_of_logs hdeclared hmem)).mp hdeposited).2
    rw [htopics] at htopic
    obtain rfl : addrTopic b = topic := Option.some.inj htopic
    have hsame : b = buyer := by
      rw [← topicAddress_addrTopic b]
      exact of_decide_eq_true hbuyer
    subst hsame
    obtain ⟨paid, hpaidMem, hhash⟩ := List.mem_map.mp (of_decide_eq_true hpaid)
    obtain ⟨hpaidLog, hpaidSelects, _⟩ := mem_select.mp hpaidMem
    have hshaped := shaped_of_logs hdeclared hpaidLog
    obtain ⟨sender, htransfer, hsender⟩ :=
      (@inflow_selects _ _ hshaped (some seller)).mp hpaidSelects
    obtain rfl := of_decide_eq_true hsender
    refine ⟨found, hmem, hdeposited, ?_, paid, hpaidLog, htransfer, hhash⟩
    rw [dataWord_eq_ok hamount]
    rfl

end Found

/-! ## The case -/

/-- The kind under which fundings are written. -/
def kindOf (selfFund : Bool) : String := if selfFund then "deposit" else "usdc"

/-- Where a chosen funding comes from. -/
def Discovered {β : Type} (history : History β) (selfFund : Bool) (funder : Address)
    (entry : Case.CaseFunding) : Prop :=
  if selfFund then FoundDeposit history funder entry.buyer entry.toEntry
  else FoundTransfer history funder entry.buyer entry.toEntry

/-- What is known of a case that the builder wrote. -/
structure WrittenCase {β : Type} (history : History β) (rpc : Case.BuilderRpc)
    (args : Case.Arguments) (built : Built) : Prop where
  seller : built.file.seller = args.seller
  buyers : built.file.buyers.Nodup
  fundings : built.file.fundings = built.caseFundings.map fun entry =>
    ⟨entry.kind, entry.buyer, entry.tx⟩
  returns : built.file.returns = some (if args.selfFund then [] else args.returnPaths)
  limit : built.file.maxSettlementsPerBuyer = some args.maxSettlementsPerBuyer
  settlements : ∀ buyer, built.selectedSettlements buyer =
    (history.settlementsOf args.seller buyer).take args.maxSettlementsPerBuyer
  kind : ∀ entry ∈ built.caseFundings, entry.kind = kindOf args.selfFund
  cohort : ∀ entry ∈ built.caseFundings, entry.buyer ∈ built.file.buyers
  discovered : ∀ entry ∈ built.caseFundings,
    Discovered history args.selfFund built.file.funder entry
  early : args.selfFund = false → ∀ entry ∈ built.caseFundings,
    ∀ settlement ∈ history.settlementsOf args.seller entry.buyer, entry.block ≤ settlement.block
  positive : ∀ entry ∈ built.caseFundings, 0 < entry.amount
  ledger : ∀ buyer ∈ built.file.buyers, ∃ data, rpc.callBuyers buyer = .ok data ∧
    (totalAmount (built.selectedSettlements buyer) + beNat (data.take 32)) * 10000 ≤
      ((built.caseFundings.filter (·.buyer = buyer)).map fun entry => entry.amount).sum * 10500
  fund : 9000 * settledTotal built.selectedSettlements built.file.buyers ≤
    (built.caseFundings.map fun entry => entry.amount).sum * 10000

section Written

variable {β : Type} {history : History β} {rpc : Case.BuilderRpc}

/-- What the search for fundings yields in either mode. -/
theorem findFundings_spec (hdeclared : history.Declared) (hlists : ListsLogs rpc history)
    {args : Case.Arguments}
    {settlements : List (Address × Entry)} {funder : Address} {fundings : List (Address × Entry)}
    {kind : String}
    (h : Case.findFundings rpc args settlements = .ok (funder, fundings, kind)) :
    kind = kindOf args.selfFund ∧ ∀ entry : Case.CaseFunding,
      entry.toEntry ∈ entriesOf fundings entry.buyer →
        Discovered history args.selfFund funder entry ∧
          (args.selfFund = false → ∀ settlement ∈ entriesOf settlements entry.buyer,
            entry.block ≤ settlement.block) := by
  rw [Case.findFundings] at h
  split at h
  · rename_i hself
    simp only [bind_eq_ok, pure_eq_ok, Prod.mk.injEq] at h
    obtain ⟨_, hfound, _, _, rfl, rfl, rfl⟩ := h
    refine ⟨by rw [kindOf, if_pos hself], ?_⟩
    intro entry hentry
    rw [Discovered, if_pos hself]
    refine ⟨findSelfFundings_spec hdeclared hlists hfound hentry, ?_⟩
    intro hdirect
    rw [hself] at hdirect
    cases hdirect
  · rename_i hdirect
    simp only [bind_eq_ok, pure_eq_ok, Prod.exists, Prod.mk.injEq] at h
    obtain ⟨_, _, hfound, rfl, rfl, rfl⟩ := h
    refine ⟨by rw [kindOf, if_neg hdirect], ?_⟩
    intro entry hentry
    rw [Discovered, if_neg hdirect]
    obtain ⟨htransfer, hbefore⟩ := findFunder_spec hdeclared hlists hfound hentry
    exact ⟨htransfer, fun _ => hbefore⟩

/-- The end balance of a buyer that was asked for. -/
theorem lookup_balances {cohort : List Address} {balances : List (Address × ℕ)}
    (h : cohort.mapM (Case.findBuyerEndBalance rpc) = .ok balances) {buyer : Address}
    (hbuyer : buyer ∈ cohort) : ∃ data, rpc.callBuyers buyer = .ok data ∧
      (balances.lookup buyer).getD 0 = beNat (data.take 32) := by
  rw [mapM_eq_ok] at h
  induction h with
  | nil => cases hbuyer
  | @cons first balance rest balances hfirst _ ih =>
    simp only [Case.findBuyerEndBalance, bind_eq_ok, mapError_eq_ok, pure_eq_ok] at hfirst
    obtain ⟨data, hdata, _, _, rfl⟩ := hfirst
    by_cases hsame : buyer = first
    · subst hsame
      exact ⟨data, hdata, by rw [List.lookup_cons_self, Option.getD_some]⟩
    · have hrest := (List.mem_cons.mp hbuyer).resolve_left hsame
      rw [List.lookup_cons, beq_false_of_ne hsame]
      exact ih hrest

/-- Every case that the builder writes is one. -/
theorem main_writtenCase (hdeclared : history.Declared) (hlists : ListsLogs rpc history)
    {args : Case.Arguments} {built : Built}
    (h : Case.main rpc args = .ok built) : WrittenCase history rpc args built := by
  simp only [Case.main, bind_eq_ok, Prod.exists] at h
  obtain ⟨settlements, hsettlements, _, _, funder, fundings, kind, hfundings, balances, hbalances,
    h⟩ := h
  simp only [Case.buildCase, bind_eq_ok, mapError_eq_ok, pure_eq_ok] at h
  obtain ⟨_, _, _, _, chosen, hchosen, rfl⟩ := h
  obtain ⟨rfl, hfound⟩ := findFundings_spec hdeclared hlists hfundings
  have hsettled := findSettlements_spec hdeclared hlists hsettlements
  have henough := Case.selectCaseFundings_sufficient hchosen
  refine ⟨rfl, nodup_sortedSet _, rfl, rfl, rfl, ?_, ?_, ?_, ?_, ?_, henough.positive, ?_,
    henough.fund⟩
  · intro buyer
    change (entriesOf settlements buyer).take _ = _
    rw [hsettled]
  · intro entry hentry
    exact (henough.discovered entry hentry).2.1
  · intro entry hentry
    exact (henough.discovered entry hentry).1
  · intro entry hentry
    exact (hfound entry (henough.discovered entry hentry).2.2).1
  · intro hdirect entry hentry
    rw [← hsettled]
    exact (hfound entry (henough.discovered entry hentry).2.2).2 hdirect
  · intro buyer hbuyer
    obtain ⟨data, hdata, hbalance⟩ := lookup_balances hbalances hbuyer
    refine ⟨data, hdata, ?_⟩
    rw [← hbalance]
    exact henough.ledger buyer hbuyer

end Written

end LoopProof.Host
