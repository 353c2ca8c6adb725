import LoopProof.Proving.Refresh

/-!
# Interrupted refreshes

A refresh replaces the batch and the progress by two renames. Wherever it dies, the batch is the
old or the new one and no result is lost; the two files agree unless it dies between the renames.
-/

namespace LoopProof.Proving

variable {lib : QuoteLib} {input : RefreshInput} {dir dir' mid : BatchDirectory}
  {plan : RefreshPlan}

/-! ## Plans -/

/-- What a plan was made from. -/
structure PlanOf (lib : QuoteLib) (input : RefreshInput) (dir : BatchDirectory)
    (plan : RefreshPlan) : Prop where
  stamp : plan.stamp = input.now
  quote : plan.quote = dir.quote
  state : plan.state = dir.summary
  valid : validateBatch lib dir.quote dir.quote.digest = .ok ()
  accepted : ∀ state, dir.summary = some state →
    state.kind = "frozen-seller-batch-progress" ∧ state.batchDigest = dir.quote.digest
  prepared : List.Forall₂ (fun entry item => prepareEntry lib input dir entry = .ok item)
    dir.quote.body.entries plan.prepared

/-- A planned refresh is a plan of the directory. -/
theorem planOf (h : planRefresh lib input dir = .ok plan) : PlanOf lib input dir plan := by
  simp only [planRefresh, bind_eq_ok, ensure_eq_ok, pure_eq_ok, mapM_eq_ok] at h
  obtain ⟨_, hvalid, _, haccepted, prepared, hprepared, rfl⟩ := h
  exact ⟨rfl, rfl, rfl, hvalid, haccepted, hprepared⟩

/-- A prepared entry is the entry it was prepared for. -/
theorem prepareEntry_entry {entry : BatchEntry} {item : PreparedEntry}
    (h : prepareEntry lib input dir entry = .ok item) : item.entry = entry := by
  simp only [prepareEntry, bind_eq_ok] at h
  obtain ⟨sellerQuote, _, _, _, _, _, _, _, _, _, _, _, h⟩ := h
  split at h
  · rw [pure_eq_ok] at h
    rw [← h]
  · simp only [bind_eq_ok, pure_eq_ok] at h
    obtain ⟨_, _, _, _, rfl⟩ := h
    rfl

/-- A plan prepares every entry. -/
theorem PlanOf.entries (h : PlanOf lib input dir plan) :
    plan.prepared.map (·.entry) = dir.quote.body.entries := by
  symm
  rw [← List.forall₂_eq_eq_eq, List.forall₂_map_right_iff]
  exact h.prepared.imp fun _ _ hitem => (prepareEntry_entry hitem).symm

/-- The sellers of the published batch are those of the old one. -/
theorem refreshed_sellers (h : PlanOf lib input dir plan) :
    (plan.refreshed lib).body.entries.map (·.seller) = dir.quote.body.entries.map (·.seller) := by
  rw [← h.entries]
  simp [RefreshPlan.refreshed, refreshedBatch, refreshedEntry, Function.comp_def]

/-- The published batch passes its checks. -/
theorem validateBatch_refreshed (h : PlanOf lib input dir plan) :
    validateBatch lib (plan.refreshed lib) (plan.refreshed lib).digest = .ok () := by
  have hsellers := refreshed_sellers h
  have hlength := congrArg List.length hsellers
  rw [List.length_map, List.length_map] at hlength
  have hvalid := h.valid
  simp only [validateBatch, bind_eq_ok, ensure_eq_ok] at hvalid ⊢
  obtain ⟨_, ⟨hversion, hkind, _, _⟩, _, ⟨hentries, hcount, hnodup, haip, hconcurrency⟩,
    hrequester⟩ := hvalid
  rw [← h.quote] at hversion hkind haip hconcurrency hrequester
  refine ⟨(), ⟨hversion, hkind, rfl, trivial⟩, (), ⟨?_, ?_, ?_, haip, hconcurrency⟩, hrequester⟩
  · apply List.ne_nil_of_length_pos
    rw [hlength]
    exact List.length_pos_of_ne_nil hentries
  · rw [hlength, ← hcount, ← h.quote]
    rfl
  · rw [hsellers]
    exact hnodup

/-! ## The history -/

/-- Nothing was archived at the time of the plan. -/
structure HistoryFree (dir : BatchDirectory) (plan : RefreshPlan) : Prop where
  batch : dir.previousBatch plan.stamp = none
  summary : plan.state ≠ none → dir.previousSummary plan.stamp = none
  quotes : ∀ item ∈ plan.prepared, item.changed = true →
    dir.sellerQuotes (.history plan.stamp item.entry.seller) = none

/-- The batch and the progress are those of another state of the files. -/
structure SameFiles (dir dir' : BatchDirectory) : Prop where
  quote : dir'.quote = dir.quote
  summary : dir'.summary = dir.summary

/-- A directory has its own files. -/
theorem SameFiles.refl (dir : BatchDirectory) : SameFiles dir dir := ⟨rfl, rfl⟩

/-- Removing the lock keeps the files. -/
theorem sameFiles_unlocked (dir : BatchDirectory) : SameFiles dir dir.unlocked := ⟨rfl, rfl⟩

/-- A directory that is the same twice is the same. -/
theorem SameFiles.trans (h : SameFiles dir mid) (h' : SameFiles mid dir') : SameFiles dir dir' :=
  ⟨h'.quote.trans h.quote, h'.summary.trans h.summary⟩

/-- Only publishing changes the batch or the progress. -/
theorem sameFiles_applyOp {op : RefreshOp} (hbatch : op ≠ .publishBatch)
    (hsummary : op ≠ .publishSummary) (h : applyOp dir op = some dir') : SameFiles dir dir' := by
  cases op with
  | publishBatch => exact absurd rfl hbatch
  | publishSummary => exact absurd rfl hsummary
  | stageBatch | stageSummary | unlock =>
    obtain rfl := Option.some.inj h
    exact ⟨rfl, rfl⟩
  | lock | archiveBatch | archiveSummary | storeQuote =>
    rw [applyOp] at h
    split at h
    · cases h
    · obtain rfl := Option.some.inj h
      exact ⟨rfl, rfl⟩

/-- Archiving publishes nothing. -/
theorem mem_archiving {op : RefreshOp} (h : op ∈ plan.archiving) :
    op ≠ .publishBatch ∧ op ≠ .publishSummary := by
  simp only [RefreshPlan.archiving, List.mem_cons, List.mem_append, List.mem_map] at h
  rcases h with rfl | rfl | ⟨_, _, rfl⟩ | ⟨_, _, rfl⟩
  · constructor <;> intro hop <;> cases hop
  · constructor <;> intro hop <;> cases hop
  · constructor <;> intro hop <;> cases hop
  · constructor <;> intro hop <;> cases hop

/-- Archiving leaves the batch and the progress alone, wherever it stops. -/
theorem sameFiles_runWhile {ops : List RefreshOp}
    (hops : ∀ op ∈ ops, op ≠ .publishBatch ∧ op ≠ .publishSummary) :
    SameFiles dir (runWhile applyOp dir ops) := by
  apply @runWhile_invariant _ _ applyOp (SameFiles dir) ops _ dir (SameFiles.refl dir)
  intro op hop s s' hs hstep
  obtain ⟨hbatch, hsummary⟩ := hops op hop
  exact hs.trans (sameFiles_applyOp hbatch hsummary hstep)

/-- Storing the quotes of different sellers succeeds where none of them is stored. -/
theorem storeQuotes_isSome (stamp : ℕ) {items : List PreparedEntry}
    (hnodup : (items.map (·.entry.seller)).Nodup) :
    (run applyOp dir (items.map fun item => .storeQuote stamp item.entry.seller item.quote)).isSome
        = true ↔
      ∀ item ∈ items, dir.sellerQuotes (.history stamp item.entry.seller) = none := by
  induction items generalizing dir with
  | nil => simp [run]
  | cons item items ih =>
    rw [List.map_cons, List.nodup_cons] at hnodup
    rw [List.map_cons, run, applyOp, List.forall_mem_cons]
    by_cases hfree : dir.sellerQuotes (.history stamp item.entry.seller) = none
    · rw [if_neg (by simp [hfree]), Option.bind_some, ih hnodup.2]
      have hother : ∀ other ∈ items, Function.update dir.sellerQuotes
          (.history stamp item.entry.seller) (some item.quote)
            (.history stamp other.entry.seller) =
          dir.sellerQuotes (.history stamp other.entry.seller) := by
        intro other hmem
        apply Function.update_of_ne
        intro heq
        exact hnodup.1 (List.mem_map.mpr ⟨other, hmem, (QuotePath.history.inj heq).2⟩)
      constructor
      · intro h
        exact ⟨hfree, fun other hmem => (hother other hmem).symm.trans (h other hmem)⟩
      · intro h other hmem
        exact (hother other hmem).trans (h.2 other hmem)
    · rw [if_pos (Option.isSome_iff_ne_none.mpr hfree), Option.bind_none]
      simp [hfree]

/-- No seller is changed twice. -/
theorem PlanOf.nodup_changed (h : PlanOf lib input dir plan) :
    ((plan.prepared.filter (·.changed)).map (·.entry.seller)).Nodup := by
  have hvalid := h.valid
  simp only [validateBatch, bind_eq_ok, ensure_eq_ok] at hvalid
  obtain ⟨_, _, _, ⟨_, _, hnodup, _⟩, _⟩ := hvalid
  rw [← h.entries, List.map_map] at hnodup
  exact hnodup.sublist (List.filter_sublist.map _)

/-- The history is written exactly where it is free. -/
theorem archiving_isSome (h : PlanOf lib input dir plan) :
    (run applyOp dir plan.archiving).isSome = true ↔ dir.locked = false ∧ HistoryFree dir plan := by
  have hquotes : (∀ item ∈ plan.prepared.filter (·.changed),
      dir.sellerQuotes (.history plan.stamp item.entry.seller) = none) ↔
        ∀ item ∈ plan.prepared, item.changed = true →
          dir.sellerQuotes (.history plan.stamp item.entry.seller) = none := by
    simp only [List.mem_filter, and_imp]
  rw [RefreshPlan.archiving, run, applyOp]
  by_cases hlocked : dir.locked = true
  · simp [hlocked]
  rw [if_neg hlocked, Option.bind_some, run, applyOp]
  by_cases hbatch : dir.previousBatch plan.stamp = none
  swap
  · rw [if_pos (Option.isSome_iff_ne_none.mpr hbatch), Option.bind_none]
    constructor
    · intro hnone
      cases hnone
    · intro hfree
      exact absurd hfree.2.batch hbatch
  rw [if_neg (by simp [hbatch]), Option.bind_some, run_append]
  cases hstate : plan.state with
  | none =>
    rw [Option.toList_none, List.map_nil, run, Option.bind_some,
      storeQuotes_isSome plan.stamp h.nodup_changed, hquotes]
    constructor
    · intro hfree
      exact ⟨Bool.eq_false_iff.mpr hlocked, hbatch, fun hsome => absurd hstate hsome, hfree⟩
    · intro hfree
      exact hfree.2.quotes
  | some state =>
    rw [Option.toList_some, List.map_singleton, run, applyOp]
    by_cases hsummary : dir.previousSummary plan.stamp = none
    · rw [if_neg (by simp [hsummary]), Option.bind_some, run, Option.bind_some,
        storeQuotes_isSome plan.stamp h.nodup_changed, hquotes]
      constructor
      · intro hfree
        exact ⟨Bool.eq_false_iff.mpr hlocked, hbatch, fun _ => hsummary, hfree⟩
      · intro hfree
        exact hfree.2.quotes
    · rw [if_pos (Option.isSome_iff_ne_none.mpr hsummary), Option.bind_none, Option.bind_none]
      constructor
      · intro hnone
        cases hnone
      · intro hfree
        exact absurd (hfree.2.summary (by simp [hstate])) hsummary

/-! ## Dying anywhere -/

/-- The batch is valid, and the progress is the one of this batch. -/
structure Consistent (lib : QuoteLib) (dir : BatchDirectory) : Prop where
  valid : validateBatch lib dir.quote dir.quote.digest = .ok ()
  agrees : ∀ state, dir.summary = some state → state.batchDigest = dir.quote.digest

/-- A refresh takes the progress for the one of the batch. -/
def refreshAccepts (quote : BatchQuote) (state : BatchProgress) : Prop :=
  state.kind = "frozen-seller-batch-progress" ∧ state.batchDigest = quote.digest

/-- What a refresh leaves, wherever it dies: consistent files with the old batch or the refreshed
one, a progress with the old results, which a refresh and an invocation of the queue accept if
they accepted the old one. -/
structure CrashAtomic (lib : QuoteLib) (input : RefreshInput) (dir dir' : BatchDirectory) :
    Prop where
  consistent : Consistent lib dir'
  oldOrNew : dir'.quote = dir.quote ∨
    ∃ plan, planRefresh lib input dir = .ok plan ∧ dir'.quote = plan.refreshed lib
  fresh : dir.summary = none → dir'.summary = none
  kept : ∀ state, dir.summary = some state → ∃ state', dir'.summary = some state' ∧
    state'.results = state.results ∧
    (refreshAccepts dir.quote state → refreshAccepts dir'.quote state') ∧
    (checkpointMatches dir.quote state = true → checkpointMatches dir'.quote state' = true)

/-- The refresh replaces the batch and dies before it replaces the progress. -/
def DiesBetweenRenames (lib : QuoteLib) (input : RefreshInput) (survived : ℕ)
    (dir : BatchDirectory) : Prop :=
  dir.locked = false ∧ dir.summary ≠ none ∧ ∃ plan, planRefresh lib input dir = .ok plan ∧
    HistoryFree dir plan ∧ (plan.refreshed lib).digest ≠ dir.quote.digest ∧
      plan.archiving.length + 2 ≤ survived ∧ survived < plan.archiving.length + 4

/-- Where neither file changed, nothing is lost. -/
theorem SameFiles.crashAtomic (h : SameFiles dir dir') (hdir : Consistent lib dir) :
    CrashAtomic lib input dir dir' := by
  obtain ⟨hquote, hsummary⟩ := h
  refine ⟨⟨?_, ?_⟩, .inl hquote, fun hnone => hsummary.trans hnone, ?_⟩
  · rw [hquote]
    exact hdir.valid
  · rw [hquote, hsummary]
    exact hdir.agrees
  · rw [hquote, hsummary]
    intro state hstate
    exact ⟨state, hstate, rfl, id, id⟩

/-- The checkpoint of the old batch, under the refreshed one. -/
theorem checkpointMatches_refreshed (h : PlanOf lib input dir plan) {state : BatchProgress}
    (hmatches : checkpointMatches dir.quote state = true) :
    checkpointMatches (plan.refreshed lib)
      (refreshedSummary (plan.refreshed lib) state) = true := by
  rw [checkpointMatches, decide_eq_true_iff] at hmatches ⊢
  obtain ⟨hkind, _, hnodup, hentries⟩ := hmatches
  refine ⟨hkind, rfl, hnodup, ?_⟩
  intro result hresult
  obtain ⟨entry, hentry, heq⟩ := hentries result hresult
  have hseller : result.seller ∈ (plan.refreshed lib).body.entries.map (·.seller) := by
    rw [refreshed_sellers h]
    exact List.mem_map.mpr ⟨entry, hentry, heq⟩
  exact List.mem_map.mp hseller

/-- Where both files were replaced, nothing is lost. -/
theorem crashAtomic_refreshed (hplan : planRefresh lib input dir = .ok plan)
    (hquote : dir'.quote = plan.refreshed lib)
    (hsummary : dir'.summary = dir.summary.map (refreshedSummary (plan.refreshed lib))) :
    CrashAtomic lib input dir dir' := by
  have h := planOf hplan
  refine ⟨⟨?_, ?_⟩, .inr ⟨plan, hplan, hquote⟩, ?_, ?_⟩
  · rw [hquote]
    exact validateBatch_refreshed h
  · intro state hstate
    rw [hsummary] at hstate
    obtain ⟨_, _, rfl⟩ := Option.map_eq_some_iff.mp hstate
    rw [hquote]
    rfl
  · intro hnone
    rw [hsummary, hnone]
    rfl
  · intro state hstate
    rw [hsummary, hquote, hstate]
    refine ⟨_, rfl, rfl, ?_, checkpointMatches_refreshed h⟩
    intro haccepts
    exact ⟨haccepts.1, rfl⟩

/-- Where only the batch was replaced, the files agree exactly if its digest is the old one. -/
theorem crashAtomic_between (hdir : Consistent lib dir)
    (hplan : planRefresh lib input dir = .ok plan) (hquote : dir'.quote = plan.refreshed lib)
    (hsummary : dir'.summary = dir.summary) (hsome : dir.summary ≠ none) :
    CrashAtomic lib input dir dir' ↔ (plan.refreshed lib).digest = dir.quote.digest := by
  have h := planOf hplan
  obtain ⟨state, hstate⟩ := Option.ne_none_iff_exists'.mp hsome
  constructor
  · intro hatomic
    have hagrees := hatomic.consistent.agrees state (hsummary.trans hstate)
    rw [hquote] at hagrees
    exact hagrees.symm.trans (hdir.agrees state hstate)
  · intro hdigest
    refine ⟨⟨?_, ?_⟩, .inr ⟨plan, hplan, hquote⟩, fun hnone => hsummary.trans hnone, ?_⟩
    · rw [hquote]
      exact validateBatch_refreshed h
    · rw [hquote, hsummary, hdigest]
      exact hdir.agrees
    · rw [hquote, hsummary]
      intro state hstate
      refine ⟨state, hstate, rfl, ?_, ?_⟩
      · intro haccepts
        exact ⟨haccepts.1, haccepts.2.trans hdigest.symm⟩
      · intro hmatches
        have hrefreshed := checkpointMatches_refreshed h hmatches
        rw [checkpointMatches, decide_eq_true_iff] at hmatches hrefreshed ⊢
        exact ⟨hmatches.1, hmatches.2.1.trans hdigest.symm, hmatches.2.2.1, hrefreshed.2.2.2⟩

/-- The operations that follow the history. -/
theorem ops_eq (lib : QuoteLib) (plan : RefreshPlan) : plan.ops lib = plan.archiving ++
    (.stageBatch (plan.refreshed lib) :: .publishBatch ::
      ((plan.state.toList.flatMap fun state =>
        [.stageSummary (refreshedSummary (plan.refreshed lib) state), .publishSummary]) ++
        [.unlock])) := by
  simp [RefreshPlan.ops]

/-- Up to the first rename, neither file changes. -/
theorem sameFiles_before {count : ℕ} (hcount : count < plan.archiving.length + 2) :
    SameFiles dir (runWhile applyOp dir ((plan.ops lib).take count)) := by
  apply sameFiles_runWhile
  intro op hop
  rw [ops_eq, List.take_append] at hop
  rcases List.mem_append.mp hop with hhistory | hstage
  · exact mem_archiving (List.mem_of_mem_take hhistory)
  · have hone : count - plan.archiving.length ≤ 1 := by omega
    have hmem := (List.take_subset_take_left _ hone) hstage
    rw [List.take_succ_cons, List.take_zero, List.mem_singleton] at hmem
    rw [hmem]
    exact ⟨nofun, nofun⟩

/-- If the history cannot be written, neither file changes. -/
theorem sameFiles_stuck (hstuck : run applyOp dir plan.archiving = none) (count : ℕ) :
    SameFiles dir (runWhile applyOp dir ((plan.ops lib).take count)) := by
  rcases Nat.lt_or_ge count (plan.archiving.length + 2) with hbefore | hafter
  · exact sameFiles_before hbefore
  · rw [ops_eq, List.take_append, List.take_of_length_le (by omega), runWhile_append_stuck hstuck]
    exact sameFiles_runWhile fun op hop => mem_archiving hop

/-- From the first rename on, the batch is the refreshed one, and the progress follows with the
second rename. -/
theorem files_after (h : PlanOf lib input dir plan) {mid : BatchDirectory}
    (hrun : run applyOp dir plan.archiving = some mid) {count : ℕ}
    (hcount : plan.archiving.length + 2 ≤ count) :
    let dir' := runWhile applyOp dir ((plan.ops lib).take count)
    dir'.quote = plan.refreshed lib ∧
      dir'.summary = if count < plan.archiving.length + 4 then dir.summary
        else dir.summary.map (refreshedSummary (plan.refreshed lib)) := by
  have hmid : SameFiles dir mid := by
    have hwhile := @sameFiles_runWhile dir plan.archiving fun op hop => mem_archiving hop
    have happend := @runWhile_append _ _ applyOp dir mid plan.archiving [] hrun
    rw [List.append_nil] at happend
    rwa [happend] at hwhile
  obtain ⟨left, rfl⟩ := Nat.exists_eq_add_of_le hcount
  rw [ops_eq, Nat.add_assoc, List.take_length_add_append, runWhile_append hrun, Nat.add_comm 2 left,
    List.take_succ_cons, List.take_succ_cons, ← h.state]
  cases hstate : plan.state with
  | none =>
    rw [h.state] at hstate
    cases left with
    | zero => simp [runWhile, applyOp, hmid.summary, hstate]
    | succ left => simp [runWhile, applyOp, BatchDirectory.unlocked, hmid.summary, hstate]
  | some state =>
    rw [h.state] at hstate
    rcases left with _ | _ | _ | left
    · simp [runWhile, applyOp, hmid.summary, hstate]
    · simp [runWhile, applyOp, hmid.summary, hstate]
    · simp [runWhile, applyOp]
    · simp [runWhile, applyOp, BatchDirectory.unlocked]

/-- A refresh of a consistent batch is atomic against dying anywhere if and only if it does not die
between the renames of the batch and of the progress. -/
theorem refreshBatch_crashAtomic_iff (lib : QuoteLib) (input : RefreshInput) (survived : ℕ)
    (dir : BatchDirectory) (hdir : Consistent lib dir) :
    CrashAtomic lib input dir (refreshBatch lib input survived dir) ↔
      ¬ DiesBetweenRenames lib input survived dir := by
  have hsame {dir' : BatchDirectory} (h : SameFiles dir dir')
      (hnot : ¬ DiesBetweenRenames lib input survived dir) :
      CrashAtomic lib input dir dir' ↔ ¬ DiesBetweenRenames lib input survived dir := by
    constructor
    · exact fun _ => hnot
    · exact fun _ => h.crashAtomic hdir
  rw [refreshBatch]
  by_cases hlocked : dir.locked = true
  · rw [if_pos hlocked]
    apply hsame (SameFiles.refl dir)
    rintro ⟨hunlocked, _⟩
    rw [hunlocked] at hlocked
    cases hlocked
  rw [if_neg hlocked]
  cases hplan : planRefresh lib input dir with
  | error error =>
    apply hsame (SameFiles.refl dir)
    rintro ⟨_, _, plan, hok, _⟩
    rw [hplan] at hok
    cases hok
  | ok plan =>
    dsimp only
    have h := planOf hplan
    have hdies : DiesBetweenRenames lib input survived dir ↔ dir.summary ≠ none ∧
        HistoryFree dir plan ∧ (plan.refreshed lib).digest ≠ dir.quote.digest ∧
          plan.archiving.length + 2 ≤ survived ∧ survived < plan.archiving.length + 4 := by
      simp [DiesBetweenRenames, hplan, Bool.eq_false_iff.mpr hlocked]
    have hunlock := sameFiles_unlocked (runWhile applyOp dir ((plan.ops lib).take survived))
    rcases Nat.lt_or_ge survived (plan.archiving.length + 2) with hbefore | hafter
    · apply hsame ((sameFiles_before hbefore).trans hunlock)
      rw [hdies]
      rintro ⟨_, _, _, hlate, _⟩
      omega
    · cases hrun : run applyOp dir plan.archiving with
      | none =>
        apply hsame ((sameFiles_stuck hrun survived).trans hunlock)
        rw [hdies]
        rintro ⟨_, hfree, _⟩
        have hsome := (archiving_isSome h).mpr ⟨Bool.eq_false_iff.mpr hlocked, hfree⟩
        rw [hrun] at hsome
        cases hsome
      | some mid =>
        have hfree := ((archiving_isSome h).mp (hrun ▸ rfl)).2
        obtain ⟨hquote, hsummary⟩ := files_after h hrun hafter
        rw [← hunlock.quote] at hquote
        rw [← hunlock.summary] at hsummary
        rw [hdies]
        by_cases hlate : survived < plan.archiving.length + 4
        · rw [if_pos hlate] at hsummary
          by_cases hsome : dir.summary = none
          · constructor
            · rintro _ ⟨hne, _⟩
              exact hne hsome
            · intro _
              exact crashAtomic_refreshed hplan hquote (by rw [hsummary, hsome]; rfl)
          · rw [crashAtomic_between hdir hplan hquote hsummary hsome]
            constructor
            · rintro hdigest ⟨_, _, hne, _⟩
              exact hne hdigest
            · intro hnot
              by_contra hne
              exact hnot ⟨hsome, hfree, hne, hafter, hlate⟩
        · rw [if_neg hlate] at hsummary
          constructor
          · rintro _ ⟨_, _, _, _, hearly⟩
            exact hlate hearly
          · intro _
            exact crashAtomic_refreshed hplan hquote hsummary

section Example

/-- The digests are the times at which quotes were made. -/
def timeDigests : QuoteLib where
  quoteDigest body := ⟨body.generatedAt % 2 ^ 256, Nat.mod_lt _ (by decide)⟩
  batchDigest body := ⟨body.generatedAt % 2 ^ 256, Nat.mod_lt _ (by decide)⟩
  showAddress _ := ""

/-- An account in lower case. -/
def requesterText : String := "0x1212121212121212121212121212121212121212"

/-- A quote of a seller with an output of its own. -/
def sellerQuote (seller : Address) (output : String) : SellerQuote :=
  ⟨⟨1, "frozen-seller-canary-approval", 1, false, 3, some 9, networkRpc, requesterText, seller, 0,
    10, 2, 100, 120, none, none, none, none, output, "", []⟩, 3⟩

/-- The first of two sellers has a paid result, and the second one is to be repriced. -/
def paidBatch : BatchDirectory where
  quote := ⟨⟨1, "frozen-seller-batch-approval", 3, 2, 1, false, requesterText, 20, 240, none, none,
    none, [⟨1, "", .prepared "first", 3, 10, 120, none⟩,
      ⟨2, "", .prepared "second", 3, 10, 120, none⟩]⟩, 3⟩
  quoteTemp := none
  summary := some { BatchProgress.initial 3 with results := [⟨⟨true, 5, "", 6, true⟩, 1, ""⟩] }
  summaryTemp := none
  locked := false
  sellerQuotes path :=
    if path = .prepared "first" then some (sellerQuote 1 "first")
    else if path = .prepared "second" then some (sellerQuote 2 "second")
    else none
  previousBatch _ := none
  previousSummary _ := none
  requested output := output = "first"
  started output := output = "first"
  executing _ := false

/-- A refresh at a higher base fee. -/
def laterPrices : RefreshInput := ⟨4, fun _ => .ok 200, fun _ => .ok ()⟩

private theorem paidBatch_consistent : Consistent timeDigests paidBatch := by
  constructor
  · decide +kernel
  · intro state hstate
    obtain rfl := Option.some.inj hstate
    rfl

/-- Dying after the rename of the batch leaves the progress of the old batch. -/
theorem paidBatch_torn : Consistent timeDigests paidBatch ∧
    ¬ CrashAtomic timeDigests laterPrices paidBatch
      (refreshBatch timeDigests laterPrices 6 paidBatch) := by
  refine ⟨paidBatch_consistent, ?_⟩
  intro hatomic
  have hdigests : (refreshBatch timeDigests laterPrices 6 paidBatch).summary.map (·.batchDigest) =
      some 3 ∧ (refreshBatch timeDigests laterPrices 6 paidBatch).quote.digest = 4 := by
    decide +kernel
  obtain ⟨state, hstate, hold⟩ := Option.map_eq_some_iff.mp hdigests.1
  have hagrees := hatomic.consistent.agrees state hstate
  rw [hold, hdigests.2] at hagrees
  cases hagrees

/-- A refresh that is not interrupted. -/
theorem paidBatch_atomic : CrashAtomic timeDigests laterPrices paidBatch
    (refreshBatch timeDigests laterPrices 9 paidBatch) := by
  apply (refreshBatch_crashAtomic_iff timeDigests laterPrices 9 paidBatch
    paidBatch_consistent).mpr
  rintro ⟨_, _, plan, hplan, _, _, _, hearly⟩
  have hlength : (planRefresh timeDigests laterPrices paidBatch).toOption.map
      (fun plan => plan.archiving.length) = some 4 := by
    decide +kernel
  rw [hplan] at hlength
  have heq : plan.archiving.length = 4 := Option.some.inj hlength
  omega

end Example

end LoopProof.Proving
