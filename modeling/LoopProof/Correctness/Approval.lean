import Mathlib.Algebra.Order.Floor.Div
import Mathlib.GroupTheory.GroupAction.Ring
import LoopProof.Correctness.Refresh

/-!
# What a refreshed batch approves

However often the quotes of a batch are refreshed, each keeps the scope and the price limits it was
prepared with, the sellers that have a request keep their quotes, and the live base fee a repriced
quote tolerates is within the cost that the quote names.
-/

namespace LoopProof.Proving

variable {lib : QuoteLib} {input : RefreshInput} {dir₀ dir dir' mid : BatchDirectory}
  {plan : RefreshPlan} {entry : BatchEntry} {item : PreparedEntry} {quote repriced : SellerQuote}

/-! ## Repricing -/

/-- Repricing leaves the scope, the program, the sources and the price limits as they were. -/
structure SameApproval (body body' : QuoteBody) : Prop where
  seller : body'.seller = body.seller
  requester : body'.requester = body.requester
  output : body'.output = body.output
  sellerProgramVKey : body'.sellerProgramVKey = body.sellerProgramVKey
  proverGasUnits : body'.proverGasUnits = body.proverGasUnits
  maxPricePerPguWei : body'.maxPricePerPguWei = body.maxPricePerPguWei
  sourceSha256 : body'.sourceSha256 = body.sourceSha256

/-- A quote approves what it approves. -/
theorem SameApproval.refl (body : QuoteBody) : SameApproval body body :=
  ⟨rfl, rfl, rfl, rfl, rfl, rfl, rfl⟩

/-- A quote that is repriced twice approves the same. -/
theorem SameApproval.trans {body body' body'' : QuoteBody} (h : SameApproval body body')
    (h' : SameApproval body' body'') : SameApproval body body'' :=
  ⟨h'.seller.trans h.seller, h'.requester.trans h.requester, h'.output.trans h.output,
    h'.sellerProgramVKey.trans h.sellerProgramVKey, h'.proverGasUnits.trans h.proverGasUnits,
    h'.maxPricePerPguWei.trans h.maxPricePerPguWei, h'.sourceSha256.trans h.sourceSha256⟩

/-- A quote accepts a live base fee of up to 105% of the quoted one, rounded up, and names a cost
that covers the gas units at their price cap with any such fee. -/
structure Tolerates (body : QuoteBody) (maxEstimatedCostWei : ℕ) : Prop where
  named : body.maxEstimatedCostWei = some maxEstimatedCostWei
  accepts : ∀ live, checkBaseFee body live false = .ok () ↔
    live ≤ (body.quotedBaseFeeWei * 10500) ⌈/⌉ 10000
  covers : ∀ live, checkBaseFee body live false = .ok () →
    body.proverGasUnits * body.maxPricePerPguWei + live ≤ maxEstimatedCostWei

/-- The budget of one proof. -/
theorem calculateBudget_single {gas price baseFee balance : ℕ} {budget : Budget}
    (h : calculateBudget [gas] price baseFee balance = .ok budget) :
    budget.totalAtPriceCapWei = gas * price + baseFee := by
  simp only [calculateBudget, bind_eq_ok, ensure_eq_ok, pure_eq_ok] at h
  obtain ⟨_, _, _, _, rfl⟩ := h
  simp

/-- A live base fee is accepted up to the allowance. -/
theorem checkBaseFee_eq_ok {body : QuoteBody} {live : ℕ} :
    checkBaseFee body live false = .ok () ↔
      live ≤ body.maxBaseFeeWei.getD body.quotedBaseFeeWei := by
  simp [checkBaseFee]

/-- The default allowance is five percent, rounded up. -/
theorem baseFeeCeiling_default (baseFee : ℕ) :
    baseFeeCeiling baseFee 500 = (baseFee * 10500) ⌈/⌉ 10000 := by
  have heq : baseFee * (10000 + 500) + 9999 = baseFee * 10500 + 10000 - 1 := by omega
  rw [Nat.ceilDiv_eq_add_pred_div, baseFeeCeiling, heq]

/-- What repricing by the default allowance returns. -/
structure Repriced (lib : QuoteLib) (quote repriced : SellerQuote) : Prop where
  same : SameApproval quote.body repriced.body
  valid : ∀ now, validateQuote lib repriced repriced.digest true now = .ok ()
  tolerates : ∃ maxCost, Tolerates repriced.body maxCost

/-- A repriced quote approves the same, is valid, and tolerates a higher base fee. -/
theorem repriced_of_ok {baseFee now : ℕ}
    (h : repriceQuote lib quote baseFee now 500 = .ok repriced) :
    Repriced lib quote repriced := by
  simp only [repriceQuote, bind_eq_ok, ensure_eq_ok, pure_eq_ok] at h
  obtain ⟨_, hvalid, _, _, budget, hbudget, buffered, hbuffered, rfl⟩ := h
  refine ⟨⟨rfl, rfl, rfl, rfl, rfl, rfl, rfl⟩, ?_, ?_⟩
  · intro now
    simp only [validateQuote, bind_eq_ok, ensure_eq_ok] at hvalid ⊢
    obtain ⟨_, ⟨hkind, hversion, _, _⟩, _, _, _, hscope, _⟩ := hvalid
    refine ⟨(), ⟨hkind, hversion, trivial, trivial⟩, (), .inl trivial, (), hscope, ?_⟩
    simp only [validateAllowance, bind_eq_ok, ensure_eq_ok]
    exact ⟨(), by simp, (), rfl, buffered, hbuffered, rfl⟩
  · refine ⟨_, rfl, ?_, ?_⟩
    · intro live
      rw [checkBaseFee_eq_ok, Option.getD_some, baseFeeCeiling_default]
    · intro live hlive
      rw [checkBaseFee_eq_ok, Option.getD_some] at hlive
      rw [calculateBudget_single hbuffered]
      exact Nat.add_le_add_left hlive _

/-! ## The batch -/

/-- The quote of an entry: stored, valid for the recorded digest, and of the entry's scope and
costs. -/
structure QuoteOf (lib : QuoteLib) (dir : BatchDirectory) (entry : BatchEntry)
    (quote : SellerQuote) : Prop where
  stored : dir.sellerQuotes entry.quotePath = some quote
  valid : ∀ now, validateQuote lib quote entry.quoteDigest true now = .ok ()
  seller : quote.body.seller = entry.seller
  requester : quote.body.requester = dir.quote.body.requester
  cost : entry.estimatedCostWei = quote.body.estimatedCostWei
  maxCost : ∀ maxCost, entry.maxEstimatedCostWei = some maxCost →
    maxCost = quote.body.maxEstimatedCostWei.getD quote.body.estimatedCostWei

/-- A valid batch with the quotes of its entries and their sums. -/
structure ValidBatch (lib : QuoteLib) (dir : BatchDirectory) : Prop where
  valid : validateBatch lib dir.quote dir.quote.digest = .ok ()
  quotes : ∀ entry ∈ dir.quote.body.entries, ∃ quote, QuoteOf lib dir entry quote
  total : dir.quote.body.estimatedTotalCostWei =
    (dir.quote.body.entries.map (·.estimatedCostWei)).sum
  totalWithAllowance : ∀ total, dir.quote.body.estimatedTotalCostWithFeeAllowanceWei = some total →
    total = (dir.quote.body.entries.map fun entry => entry.maxEstimatedCostWei.getD 0).sum

/-- The current quote of an entry against the one it was prepared with: what was approved is the
same, and the entry still names the prepared quote or a repriced one, which tolerates what its cost
covers. -/
def KeepsApproval (lib : QuoteLib) (dir₀ dir : BatchDirectory) (entry₀ entry : BatchEntry) :
    Prop :=
  entry.seller = entry₀.seller ∧ ∃ quote₀ quote, QuoteOf lib dir₀ entry₀ quote₀ ∧
    QuoteOf lib dir entry quote ∧ SameApproval quote₀.body quote.body ∧
    (entry.quotePath = entry₀.quotePath ∧ quote = quote₀ ∨ ∃ maxCost, Tolerates quote.body maxCost)

/-- An entry whose output holds a request keeps its quote. -/
def KeepsRequested (dir dir' : BatchDirectory) (entry entry' : BatchEntry) : Prop :=
  ∀ quote, dir.sellerQuotes entry.quotePath = some quote →
    dir.requested quote.body.output = true →
      entry'.quotePath = entry.quotePath ∧ entry'.quoteDigest = entry.quoteDigest ∧
        dir'.sellerQuotes entry'.quotePath = some quote

/-- The batch is valid and every entry keeps what was approved for it. -/
structure Approved (lib : QuoteLib) (dir₀ dir : BatchDirectory) : Prop where
  valid : ValidBatch lib dir
  entries : List.Forall₂ (KeepsApproval lib dir₀ dir) dir₀.quote.body.entries
    dir.quote.body.entries

/-- A valid batch approves itself. -/
theorem approved_initial (h : ValidBatch lib dir) : Approved lib dir dir := by
  refine ⟨h, List.forall₂_same.mpr ?_⟩
  intro entry hentry
  obtain ⟨quote, hquote⟩ := h.quotes entry hentry
  exact ⟨rfl, quote, quote, hquote, hquote, .refl _, .inl ⟨rfl, rfl⟩⟩

/-! ## One refresh -/

/-- Stored quotes stay as they are. -/
def Extends (dir dir' : BatchDirectory) : Prop :=
  ∀ path quote, dir.sellerQuotes path = some quote → dir'.sellerQuotes path = some quote

/-- A write keeps what was started, requested and archived. -/
theorem extends_applyOp {op : RefreshOp} (h : applyOp dir op = some dir') : Extends dir dir' := by
  intro path quote hquote
  cases op with
  | publishBatch | publishSummary =>
    obtain ⟨_, _, rfl⟩ := Option.map_eq_some_iff.mp h
    exact hquote
  | stageBatch | stageSummary | unlock =>
    obtain rfl := Option.some.inj h
    exact hquote
  | storeQuote stamp seller stored =>
    rw [applyOp] at h
    split at h
    · cases h
    · rename_i hfree
      obtain rfl := Option.some.inj h
      have hne : path ≠ .history stamp seller := by
        rintro rfl
        exact hfree (hquote ▸ rfl)
      exact (Function.update_of_ne hne _ _).trans hquote
  | lock | archiveBatch | archiveSummary =>
    rw [applyOp] at h
    split at h
    · cases h
    · obtain rfl := Option.some.inj h
      exact hquote

/-- A refresh that dies anywhere keeps what was started, requested and archived. -/
theorem extends_runWhile (ops : List RefreshOp) : Extends dir (runWhile applyOp dir ops) := by
  apply @runWhile_invariant _ _ applyOp (Extends dir) ops _ dir fun _ _ h => h
  intro op _ s s' hs hstep path quote hquote
  exact extends_applyOp hstep path quote (hs path quote hquote)

/-- After all operations of a list, its quotes are stored. -/
theorem stored_of_run {ops : List RefreshOp} (hrun : run applyOp dir ops = some dir') {stamp : ℕ}
    {seller : Address} (hop : .storeQuote stamp seller quote ∈ ops) :
    dir'.sellerQuotes (.history stamp seller) = some quote := by
  induction ops generalizing dir with
  | nil => cases hop
  | cons op ops ih =>
    obtain ⟨mid, hmid, hrest⟩ := run_cons_eq_some.mp hrun
    rcases List.mem_cons.mp hop with rfl | hlater
    · have hstored : mid.sellerQuotes (.history stamp seller) = some quote := by
        rw [applyOp] at hmid
        split at hmid
        · cases hmid
        · obtain rfl := Option.some.inj hmid
          exact Function.update_self _ _ _
      have hextends := @extends_runWhile mid ops
      have happend := @runWhile_append _ _ applyOp mid dir' ops [] hrest
      rw [List.append_nil] at happend
      rw [happend] at hextends
      exact hextends _ _ hstored
    · exact ih hrest hlater

/-- What preparing an entry did: its quote was checked, and kept if there is a request, repriced
otherwise. -/
structure PreparedOf (lib : QuoteLib) (dir : BatchDirectory) (entry : BatchEntry)
    (item : PreparedEntry) (quote : SellerQuote) : Prop where
  same : item.entry = entry
  stored : dir.sellerQuotes entry.quotePath = some quote
  digest : entry.quoteDigest = quote.digest
  valid : ∀ now, validateQuote lib quote quote.digest true now = .ok ()
  seller : quote.body.seller = entry.seller
  requester : quote.body.requester = dir.quote.body.requester
  kept : dir.requested quote.body.output = true ∧ item.changed = false ∧ item.quote = quote ∨
    dir.requested quote.body.output = false ∧ item.changed = true ∧ Repriced lib quote item.quote

/-- The check of a resumed quote does not read the time. -/
theorem validateQuote_resuming {digest : B256} {now : ℕ} (later : ℕ) :
    validateQuote lib quote digest true now = validateQuote lib quote digest true later := by
  simp [validateQuote]

/-- A prepared entry has a quote for its seller. -/
theorem preparedOf (h : prepareEntry lib input dir entry = .ok item) :
    ∃ quote, PreparedOf lib dir entry item quote := by
  have hentry := prepareEntry_entry h
  simp only [prepareEntry, bind_eq_ok, okOr_eq_ok, ensure_eq_ok] at h
  obtain ⟨quote, hstored, _, hvalid, _, hscope, _, _, _, _, _, _, h⟩ := h
  have hdigest : entry.quoteDigest = quote.digest := by
    simp only [validateQuote, bind_eq_ok, ensure_eq_ok] at hvalid
    obtain ⟨_, ⟨_, _, _, hdigest⟩, _⟩ := hvalid
    exact hdigest
  rw [hdigest] at hvalid
  refine ⟨quote, hentry, hstored, hdigest, ?_, hscope.1, hscope.2, ?_⟩
  · intro now
    rw [validateQuote_resuming input.now]
    exact hvalid
  · split at h
    · rename_i hrequested
      rw [pure_eq_ok] at h
      rw [← h]
      exact .inl ⟨hrequested, rfl, rfl⟩
    · rename_i hrequested
      simp only [bind_eq_ok, pure_eq_ok] at h
      obtain ⟨_, _, repriced, hrepriced, rfl⟩ := h
      exact .inr ⟨Bool.eq_false_iff.mpr hrequested, rfl, repriced_of_ok hrepriced⟩

/-- A quote stays the quote of its entry while stored quotes stay. -/
theorem QuoteOf.mono (h : QuoteOf lib dir entry quote) (hextends : Extends dir dir')
    (hrequester : dir'.quote.body.requester = dir.quote.body.requester) :
    QuoteOf lib dir' entry quote :=
  ⟨hextends _ _ h.stored, h.valid, h.seller, h.requester.trans hrequester.symm, h.cost, h.maxCost⟩

/-- A refresh that publishes nothing keeps everything. -/
theorem Approved.congr (h : Approved lib dir₀ dir) (hquote : dir'.quote = dir.quote)
    (hextends : Extends dir dir') : Approved lib dir₀ dir' := by
  have hrequester : dir'.quote.body.requester = dir.quote.body.requester := by rw [hquote]
  refine ⟨⟨?_, ?_, ?_, ?_⟩, ?_⟩
  · rw [hquote]
    exact h.valid.valid
  · rw [hquote]
    intro entry hentry
    obtain ⟨quote, hof⟩ := h.valid.quotes entry hentry
    exact ⟨quote, hof.mono hextends hrequester⟩
  · rw [hquote]
    exact h.valid.total
  · rw [hquote]
    exact h.valid.totalWithAllowance
  · rw [hquote]
    apply h.entries.imp
    rintro entry₀ entry ⟨hseller, quote₀, quote, hof₀, hof, hsame, hrepriced⟩
    exact ⟨hseller, quote₀, quote, hof₀, hof.mono hextends hrequester, hsame, hrepriced⟩

/-- Entries that were requested stay as they are when only other files change. -/
theorem keepsRequested_congr (hquote : dir'.quote = dir.quote) (hextends : Extends dir dir') :
    List.Forall₂ (KeepsRequested dir dir') dir.quote.body.entries dir'.quote.body.entries := by
  rw [hquote, List.forall₂_same]
  intro entry _ quote hstored _
  exact ⟨rfl, rfl, hextends _ _ hstored⟩

/-- A published refresh: the files hold the refreshed batch and all quotes it names. -/
structure Published (lib : QuoteLib) (dir dir' : BatchDirectory) (plan : RefreshPlan) : Prop where
  quote : dir'.quote = plan.refreshed lib
  keeps : Extends dir dir'
  stored : ∀ item ∈ plan.prepared, item.changed = true →
    dir'.sellerQuotes (.history plan.stamp item.entry.seller) = some item.quote

section Published

variable (hplan : PlanOf lib input dir plan) (h : Published lib dir dir' plan)

include hplan h in

/-- A published batch has the same requester. -/
theorem Published.requester : dir'.quote.body.requester = dir.quote.body.requester := by
  rw [h.quote, ← hplan.quote]
  rfl

include hplan h in
/-- The refreshed entry of a prepared one has the prepared quote. -/
theorem Published.quoteOf (hitem : item ∈ plan.prepared)
    (hprepared : PreparedOf lib dir entry item quote) :
    QuoteOf lib dir' (refreshedEntry plan.stamp item) item.quote := by
  have hseller : item.quote.body.seller = quote.body.seller ∧
      item.quote.body.requester = quote.body.requester := by
    rcases hprepared.kept with ⟨_, _, hkept⟩ | ⟨_, _, hrepriced⟩
    · rw [hkept]
      exact ⟨rfl, rfl⟩
    · exact ⟨hrepriced.same.seller, hrepriced.same.requester⟩
  refine ⟨?_, ?_, ?_, ?_, rfl, ?_⟩
  · rcases hprepared.kept with ⟨_, hunchanged, hkept⟩ | ⟨_, hchanged, _⟩
    · rw [refreshedEntry, hunchanged, if_neg Bool.false_ne_true, hkept, hprepared.same]
      exact h.keeps _ _ hprepared.stored
    · rw [refreshedEntry, hchanged, if_pos rfl]
      exact h.stored item hitem hchanged
  · intro now
    rcases hprepared.kept with ⟨_, _, hkept⟩ | ⟨_, _, hrepriced⟩
    · rw [refreshedEntry, hkept]
      exact hprepared.valid now
    · exact hrepriced.valid now
  · rw [hseller.1, hprepared.seller, refreshedEntry, hprepared.same]
  · rw [hseller.2, hprepared.requester, h.requester hplan]
  · intro maxCost hmax
    exact (Option.some.inj hmax).symm

include hplan h in
/-- A published refresh keeps what was approved. -/
theorem Approved.published (happroved : Approved lib dir₀ dir) : Approved lib dir₀ dir' := by
  have hprepared : List.Forall₂ (fun entry item => item ∈ plan.prepared ∧
      ∃ quote, PreparedOf lib dir entry item quote) dir.quote.body.entries plan.prepared := by
    have hmem : List.Forall₂ (fun item entry => item ∈ plan.prepared ∧
        ∃ quote, PreparedOf lib dir entry item quote) plan.prepared dir.quote.body.entries :=
      forall₂_mem_imp hplan.prepared.flip fun item entry hitem hok => ⟨hitem, preparedOf hok⟩
    exact hmem.flip
  refine ⟨⟨?_, ?_, ?_, ?_⟩, ?_⟩
  · rw [h.quote]
    exact validateBatch_refreshed hplan
  · rw [h.quote]
    intro entry hentry
    obtain ⟨item, hitem, rfl⟩ := List.mem_map.mp hentry
    obtain ⟨_, _, _, _, hof⟩ := forall₂_exists_left hprepared hitem
    exact ⟨item.quote, h.quoteOf hplan hitem hof⟩
  · rw [h.quote]
    rfl
  · rw [h.quote]
    intro total htotal
    exact (Option.some.inj htotal).symm
  · rw [h.quote, RefreshPlan.refreshed, refreshedBatch, List.forall₂_map_right_iff]
    apply forall₂_replace happroved.entries.flip hprepared
    rintro entry entry₀ item ⟨hseller, quote₀, quote, hof₀, hof, hsame, hrepriced⟩
      ⟨hitem, quote', hprepared⟩
    obtain rfl : quote' = quote :=
      Option.some.inj (hprepared.stored.symm.trans hof.stored)
    refine ⟨?_, quote₀, item.quote, hof₀, h.quoteOf hplan hitem hprepared, ?_, ?_⟩
    · rw [refreshedEntry, hprepared.same]
      exact hseller
    · rcases hprepared.kept with ⟨_, _, hkept⟩ | ⟨_, _, hnew⟩
      · rw [hkept]
        exact hsame
      · exact hsame.trans hnew.same
    · rcases hprepared.kept with ⟨_, hunchanged, hkept⟩ | ⟨_, _, hnew⟩
      · rw [refreshedEntry, hunchanged, if_neg Bool.false_ne_true, hkept, hprepared.same]
        exact hrepriced
      · exact .inr hnew.tolerates

include hplan h in

/-- A published batch leaves the requested entries as they are. -/
theorem Published.keepsRequested :
    List.Forall₂ (KeepsRequested dir dir') dir.quote.body.entries dir'.quote.body.entries := by
  rw [h.quote, RefreshPlan.refreshed, refreshedBatch, List.forall₂_map_right_iff]
  apply hplan.prepared.imp
  intro entry item hok quote hstored hrequested
  obtain ⟨quote', hprepared⟩ := preparedOf hok
  obtain rfl : quote' = quote := Option.some.inj (hprepared.stored.symm.trans hstored)
  rcases hprepared.kept with ⟨_, hunchanged, hkept⟩ | ⟨hnone, _⟩
  · rw [refreshedEntry, hunchanged, if_neg Bool.false_ne_true, hkept, hprepared.same]
    exact ⟨rfl, hprepared.digest.symm, h.keeps _ _ hstored⟩
  · rw [hrequested] at hnone
    cases hnone

end Published

/-- A refresh publishes nothing, or the refreshed batch with all its quotes. -/
theorem refreshBatch_cases (lib : QuoteLib) (input : RefreshInput) (survived : ℕ)
    (dir : BatchDirectory) :
    Extends dir (refreshBatch lib input survived dir) ∧
      ((refreshBatch lib input survived dir).quote = dir.quote ∨
        ∃ plan, PlanOf lib input dir plan ∧
          Published lib dir (refreshBatch lib input survived dir) plan) := by
  rw [refreshBatch]
  by_cases hlocked : dir.locked = true
  · rw [if_pos hlocked]
    exact ⟨fun _ _ h => h, .inl rfl⟩
  rw [if_neg hlocked]
  cases hplan : planRefresh lib input dir with
  | error error => exact ⟨fun _ _ h => h, .inl rfl⟩
  | ok plan =>
    have h := planOf hplan
    have hextends := @extends_runWhile dir ((plan.ops lib).take survived)
    refine ⟨hextends, ?_⟩
    rcases Nat.lt_or_ge survived (plan.archiving.length + 2) with hbefore | hafter
    · exact .inl (sameFiles_before hbefore).quote
    · cases hrun : run applyOp dir plan.archiving with
      | none => exact .inl (sameFiles_stuck hrun survived).quote
      | some mid =>
        refine .inr ⟨plan, h, (files_after h hrun hafter).1, hextends, ?_⟩
        intro item hitem hchanged
        have hop : .storeQuote plan.stamp item.entry.seller item.quote ∈ plan.archiving := by
          simp only [RefreshPlan.archiving, List.mem_cons, List.mem_append, List.mem_map,
            List.mem_filter]
          exact .inr (.inr (.inr ⟨item, ⟨hitem, hchanged⟩, rfl⟩))
        have hstored := stored_of_run hrun hop
        -- What comes after the history stores no quotes and keeps the stored ones.
        have hsplit : (plan.ops lib).take survived = plan.archiving ++
            ((plan.ops lib).take survived).drop plan.archiving.length := by
          conv_lhs => rw [← List.take_append_drop plan.archiving.length
            ((plan.ops lib).take survived)]
          rw [List.take_take, Nat.min_eq_left (by omega), ops_eq, List.take_left]
        change (runWhile applyOp dir ((plan.ops lib).take survived)).sellerQuotes _ = _
        rw [hsplit, runWhile_append hrun]
        exact extends_runWhile _ _ _ hstored

/-! ## Any sequence of refreshes -/

/-- An event keeps the directory approved. -/
theorem approved_step (h : Approved lib dir₀ dir) (event : BatchFileEvent) :
    Approved lib dir₀ (batchFileStep lib dir event) := by
  cases event with
  | refresh input survived =>
    obtain ⟨hextends, hquote | ⟨plan, hplan, hpublished⟩⟩ :=
      refreshBatch_cases lib input survived dir
    · exact h.congr hquote hextends
    · exact h.published hplan hpublished
  | start | request | execute => exact h.congr rfl fun _ _ h => h

/-- In every run the directory stays approved. -/
theorem approved_run (h : ValidBatch lib dir₀) (events : List BatchFileEvent) :
    Approved lib dir₀ (events.foldl (batchFileStep lib) dir₀) := by
  induction events using List.reverseRecOn with
  | nil => exact approved_initial h
  | append_singleton events event ih =>
    rw [List.foldl_append]
    exact approved_step ih event

/-- After any refreshes and submissions, finished or interrupted: the batch is valid with the sums
over its entries, each entry has a valid quote of the scope and the limits it was prepared with,
which is the prepared one or tolerates what its cost covers, and a refresh keeps the quotes of the
entries that have a request. -/
theorem refreshBatch_keepsApproval (lib : QuoteLib) (dir₀ : BatchDirectory)
    (h : ValidBatch lib dir₀) (events : List BatchFileEvent) :
    let dir := events.foldl (batchFileStep lib) dir₀
    Approved lib dir₀ dir ∧ ∀ input survived,
      List.Forall₂ (KeepsRequested dir (refreshBatch lib input survived dir))
        dir.quote.body.entries (refreshBatch lib input survived dir).quote.body.entries := by
  dsimp only
  refine ⟨approved_run h events, ?_⟩
  intro input survived
  obtain ⟨hextends, hquote | ⟨plan, hplan, hpublished⟩⟩ :=
    refreshBatch_cases lib input survived (events.foldl (batchFileStep lib) dir₀)
  · exact keepsRequested_congr hquote hextends
  · exact hpublished.keepsRequested hplan

section Example

private theorem paidBatch_valid : ValidBatch timeDigests paidBatch := by
  refine ⟨by decide +kernel, ?_, rfl, nofun⟩
  have hof (seller : Address) (output : String)
      (hstored : paidBatch.sellerQuotes (.prepared output) = some (sellerQuote seller output))
      (hvalid : validateQuote timeDigests (sellerQuote seller output) 3 true 0 = .ok ()) :
      QuoteOf timeDigests paidBatch ⟨seller, "", .prepared output, 3, 10, 120, none⟩
        (sellerQuote seller output) := by
    refine ⟨hstored, ?_, rfl, rfl, rfl, nofun⟩
    intro now
    rw [validateQuote_resuming 0]
    exact hvalid
  intro entry hentry
  rcases List.mem_cons.mp hentry with rfl | hentry
  · exact ⟨_, hof 1 "first" (by decide +kernel) (by decide +kernel)⟩
  · rw [List.mem_singleton.mp hentry]
    exact ⟨_, hof 2 "second" (by decide +kernel) (by decide +kernel)⟩

/-- A refresh of the batch, and a second one that dies early. -/
theorem paidBatch_keepsApproval : ValidBatch timeDigests paidBatch ∧
    Approved timeDigests paidBatch ([.refresh laterPrices 9, .request "second",
      .refresh { laterPrices with now := 5 } 3].foldl (batchFileStep timeDigests) paidBatch) :=
  ⟨paidBatch_valid, (refreshBatch_keepsApproval timeDigests paidBatch paidBatch_valid
    [.refresh laterPrices 9, .request "second", .refresh { laterPrices with now := 5 } 3]).1⟩

end Example

end LoopProof.Proving
