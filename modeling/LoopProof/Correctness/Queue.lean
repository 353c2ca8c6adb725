import LoopProof.Proving.Queue

/-!
# The paid queue

What is stored of a batch holds verified results of its sellers only, each seller once, and says
that it is complete only if every seller has one. A seller whose result is stored is not proved
again, in whatever order invocations fail, die and are repeated.
-/

namespace LoopProof.Proving

variable {quote : BatchQuote} {entries rest : List BatchEntry} {entry : BatchEntry}
  {s s' : QueueState} {state : BatchProgress} {returned : List (Address × RunResult)}

/-! ## The invariant -/

/-- The results belong to different sellers, and each was returned complete and verified. -/
structure SoundProgress (returned : List (Address × RunResult)) (state : BatchProgress) :
    Prop where
  nodup : (state.results.map (·.seller)).Nodup
  complete : ∀ result ∈ state.results, result.complete = true
  verified : ∀ result ∈ state.results, result.productionProofVerified = true
  returned : ∀ result ∈ state.results, (result.seller, result.toRunResult) ∈ returned

/-- Every entry has a result. -/
def Done (entries : List BatchEntry) (state : BatchProgress) : Prop :=
  ∀ entry ∈ entries, ∃ result ∈ state.results, result.seller = entry.seller

/-- The stored progress is sound, and says that it is complete only if it is. -/
def StoredInv (entries : List BatchEntry) (s : QueueState) : Prop :=
  ∀ state, s.stored = some state → SoundProgress s.returned state ∧
    (state.complete = true → Done entries state)

/-- The progress in memory is sound and has lost none of the stored results. -/
structure MemoryInv (s : QueueState) : Prop where
  sound : SoundProgress s.returned s.memory
  kept : ∀ state, s.stored = some state → state.results ⊆ s.memory.results

/-- The entries before the given ones have their results. -/
def DoneBefore (entries rest : List BatchEntry) (state : BatchProgress) : Prop :=
  ∃ done, entries = done ++ rest ∧ Done done state

/-- The invariant of an invocation at what it waits for. -/
def StageInv (entries : List BatchEntry) (s : QueueState) : QueueStage → Prop
  | .idle => True
  | .opening => MemoryInv s ∧ s.memory.complete = false
  | .verifying _ rest =>
    MemoryInv s ∧ s.memory.complete = false ∧ DoneBefore entries rest s.memory
  | .announcing entry rest | .proving entry rest =>
    MemoryInv s ∧ s.memory.complete = false ∧ DoneBefore entries (entry :: rest) s.memory ∧
      s.memory.completed entry.seller = none
  | .recording rest =>
    MemoryInv s ∧ s.memory.complete = false ∧ DoneBefore entries rest s.memory
  | .stopping => MemoryInv s ∧ s.memory.complete = false
  | .closing => MemoryInv s ∧ Done entries s.memory

/-- The invariant of a queue: what is stored is sound, and the stage knows what was done. -/
structure QueueInv (entries : List BatchEntry) (s : QueueState) : Prop where
  stored : StoredInv entries s
  stage : StageInv entries s s.stage

/-- The invariant holds before the first run. -/
theorem queueInv_initial (entries : List BatchEntry) (digest : B256) :
    QueueInv entries (QueueState.initial digest) :=
  ⟨nofun, trivial⟩

/-! ## The operations -/

/-- Nothing was recorded yet. -/
theorem SoundProgress.initial (digest : B256) :
    SoundProgress returned (BatchProgress.initial digest) :=
  ⟨List.nodup_nil, nofun, nofun, nofun⟩

/-- Only the results matter to soundness. -/
theorem SoundProgress.congr {state' : BatchProgress} (h : SoundProgress returned state)
    (hresults : state'.results = state.results) : SoundProgress returned state' := by
  constructor
  · rw [hresults]
    exact h.nodup
  · rw [hresults]
    exact h.complete
  · rw [hresults]
    exact h.verified
  · rw [hresults]
    exact h.returned

/-- Progress stays sound when more results are returned. -/
theorem SoundProgress.mono {returned' : List (Address × RunResult)}
    (h : SoundProgress returned state) (hsub : returned ⊆ returned') :
    SoundProgress returned' state :=
  ⟨h.nodup, h.complete, h.verified, fun result hresult => hsub (h.returned result hresult)⟩

/-- A seller without a completed result has no result at all. -/
theorem SoundProgress.fresh (h : SoundProgress returned state) {seller : Address}
    (hnone : state.completed seller = none) : ∀ result ∈ state.results, result.seller ≠ seller := by
  intro result hresult heq
  have hnot := List.find?_eq_none.mp hnone result hresult
  rw [decide_eq_true_iff] at hnot
  exact hnot ⟨heq, h.complete result hresult⟩

/-- The recorded results of a fresh seller are the old ones and the new one. -/
theorem SoundProgress.record_results (h : SoundProgress returned state)
    (hnone : state.completed entry.seller = none) (result : RunResult) :
    (state.record entry result).results =
      state.results ++
        [{ toRunResult := result, seller := entry.seller, label := entry.label }] := by
  rw [BatchProgress.record, List.filter_eq_self.mpr]
  intro result hresult
  exact decide_eq_true (h.fresh hnone result hresult)

/-- Recording a returned result that is complete and verified keeps progress sound. -/
theorem SoundProgress.record (h : SoundProgress returned state)
    (hnone : state.completed entry.seller = none) {result : RunResult}
    (hcomplete : result.complete = true) (hverified : result.productionProofVerified = true) :
    SoundProgress (returned ++ [(entry.seller, result)]) (state.record entry result) := by
  have hresults := h.record_results hnone result
  constructor
  · rw [hresults, List.map_append, List.map_singleton, List.nodup_append_comm,
      List.singleton_append, List.nodup_cons]
    refine ⟨?_, h.nodup⟩
    intro hmem
    obtain ⟨other, hother, heq⟩ := List.mem_map.mp hmem
    exact h.fresh hnone other hother heq
  · rw [hresults]
    simpa [or_imp, forall_and] using ⟨h.complete, hcomplete⟩
  · rw [hresults]
    simpa [or_imp, forall_and] using ⟨h.verified, hverified⟩
  · rw [hresults]
    intro other hother
    rcases List.mem_append.mp hother with hold | hnew
    · exact List.mem_append_left _ (h.returned other hold)
    · rw [List.mem_singleton.mp hnew]
      exact List.mem_append_right _ (List.mem_singleton_self _)

/-- What is done stays done when results are added. -/
theorem Done.mono {state' : BatchProgress} (h : Done entries state)
    (hsub : state.results ⊆ state'.results) : Done entries state' := by
  intro entry hentry
  obtain ⟨result, hresult, heq⟩ := h entry hentry
  exact ⟨result, hsub hresult, heq⟩

/-- A result for the next entry. -/
theorem DoneBefore.next (h : DoneBefore entries (entry :: rest) state)
    (hentry : ∃ result ∈ state.results, result.seller = entry.seller) :
    DoneBefore entries rest state := by
  obtain ⟨done, heq, hdone⟩ := h
  refine ⟨done ++ [entry], by simp [heq], ?_⟩
  intro other hother
  rcases List.mem_append.mp hother with hold | hnew
  · exact hdone other hold
  · exact List.mem_singleton.mp hnew ▸ hentry

/-- What is done before the rest stays done when results are added. -/
theorem DoneBefore.mono {state' : BatchProgress} (h : DoneBefore entries rest state)
    (hsub : state.results ⊆ state'.results) : DoneBefore entries rest state' := by
  obtain ⟨done, heq, hdone⟩ := h
  exact ⟨done, heq, hdone.mono hsub⟩

/-- Storing the progress keeps the invariant where a complete progress is done. -/
theorem StoredInv.persist (hmemory : MemoryInv s)
    (hcomplete : s.memory.complete = true → Done entries s.memory) :
    StoredInv entries s.persist := by
  intro state hstate
  obtain rfl : s.memory = state := Option.some.inj hstate
  exact ⟨hmemory.sound, hcomplete⟩

/-- Storing the memory keeps its invariant. -/
theorem MemoryInv.persist (h : MemoryInv s) : MemoryInv s.persist := by
  refine ⟨h.sound, ?_⟩
  intro state hstate
  obtain rfl : s.memory = state := Option.some.inj hstate
  exact List.Subset.refl _

/-- Changes beside the results keep the invariant of the memory. -/
theorem MemoryInv.congr (h : MemoryInv s) (hstored : s'.stored = s.stored)
    (hreturned : s'.returned = s.returned) (hresults : s'.memory.results = s.memory.results) :
    MemoryInv s' := by
  constructor
  · rw [hreturned]
    exact h.sound.congr hresults
  · rw [hstored, hresults]
    exact h.kept

/-- Going on to the next entry stores nothing. -/
@[simp] theorem QueueState.advance_stored (s : QueueState) (rest : List BatchEntry) :
    (s.advance rest).stored = s.stored := by
  unfold QueueState.advance
  split
  · rfl
  · split
    · rfl
    · rfl

/-- Going on to the next entry returns nothing. -/
@[simp] theorem QueueState.advance_returned (s : QueueState) (rest : List BatchEntry) :
    (s.advance rest).returned = s.returned := by
  unfold QueueState.advance
  split
  · rfl
  · split
    · rfl
    · rfl

/-- Going on with the next entry keeps the invariant of the stage. -/
theorem StageInv.advance (hmemory : MemoryInv s) (hcomplete : s.memory.complete = false)
    (hdone : DoneBefore entries rest s.memory) :
    StageInv entries (s.advance rest) (s.advance rest).stage := by
  cases rest with
  | nil =>
    refine ⟨hmemory.congr rfl rfl rfl, ?_⟩
    obtain ⟨done, heq, hdone⟩ := hdone
    rw [List.append_nil] at heq
    exact heq ▸ hdone
  | cons entry rest =>
    rw [QueueState.advance]
    cases hfind : s.memory.completed entry.seller with
    | some completed =>
      refine ⟨hmemory.congr rfl rfl rfl, hcomplete, hdone.next ?_⟩
      have hseller := List.find?_some hfind
      exact ⟨completed, List.mem_of_find?_eq_some hfind, (of_decide_eq_true hseller).1⟩
    | none => exact ⟨hmemory.congr rfl rfl rfl, hcomplete, hdone, hfind⟩

/-- Going on to the next entry keeps the invariant. -/
theorem QueueInv.advance (hstored : StoredInv entries s) (hmemory : MemoryInv s)
    (hcomplete : s.memory.complete = false) (hdone : DoneBefore entries rest s.memory) :
    QueueInv entries (s.advance rest) := by
  refine ⟨?_, StageInv.advance hmemory hcomplete hdone⟩
  rw [StoredInv, QueueState.advance_stored, QueueState.advance_returned]
  exact hstored

/-- Handling an error keeps the invariant. -/
theorem QueueInv.handle (hstored : StoredInv entries s) (hmemory : MemoryInv s)
    (hcomplete : s.memory.complete = false) (message : String) :
    QueueInv entries (s.handle message) :=
  ⟨hstored, hmemory.congr rfl rfl rfl, hcomplete⟩

/-- The end of a run keeps the invariant. -/
theorem QueueInv.finish (hstored : StoredInv entries s) : QueueInv entries s.finish :=
  ⟨hstored, trivial⟩

/-- A new run keeps the invariant. -/
theorem QueueInv.invoke (h : QueueInv quote.body.entries s) :
    QueueInv quote.body.entries (invokeQueue quote s) := by
  unfold invokeQueue
  dsimp only
  split
  · exact h
  · refine ⟨h.stored, ⟨?_, ?_⟩, rfl⟩
    · cases hstored : s.stored with
      | none => exact (SoundProgress.initial quote.digest).congr rfl
      | some state => exact (h.stored state hstored).1.congr rfl
    · intro state hstate
      change s.stored = some state at hstate
      rw [hstate]
      exact List.Subset.refl _

/-- One step keeps the invariant. -/
theorem queueInv_step {event : QueueEvent} (h : QueueInv quote.body.entries s)
    (hstep : queueStep quote s event = some s') : QueueInv quote.body.entries s' := by
  obtain ⟨hstored, hstage⟩ := h
  have hnot {state : BatchProgress} (hcomplete : state.complete = false) :
      state.complete = true → Done quote.body.entries state := by
    intro htrue
    rw [hcomplete] at htrue
    cases htrue
  unfold queueStep at hstep
  split at hstep
  case h_1 hidle =>
    obtain rfl := Option.some.inj hstep
    exact QueueInv.invoke ⟨hstored, hstage⟩
  case h_2 hopening =>
    obtain rfl := Option.some.inj hstep
    rw [hopening] at hstage
    obtain ⟨hmemory, hcomplete⟩ := hstage
    exact .advance (.persist hmemory (hnot hcomplete)) hmemory.persist hcomplete ⟨[], rfl, nofun⟩
  case h_3 hverifying =>
    obtain rfl := Option.some.inj hstep
    rw [hverifying] at hstage
    obtain ⟨hmemory, hcomplete, hdone⟩ := hstage
    exact .advance hstored hmemory hcomplete hdone
  case h_4 hannouncing =>
    obtain rfl := Option.some.inj hstep
    rw [hannouncing] at hstage
    obtain ⟨hmemory, hcomplete, hdone, hnone⟩ := hstage
    exact ⟨.persist hmemory (hnot hcomplete), hmemory.persist.congr rfl rfl rfl, hcomplete, hdone,
      hnone⟩
  case h_5 entry rest result hproving =>
    rw [hproving] at hstage
    obtain ⟨hmemory, hcomplete, hdone, hnone⟩ := hstage
    have hgrown : s.returned ⊆ s.returned ++ [(entry.seller, result)] := List.subset_append_left _ _
    have hstored' : StoredInv quote.body.entries
        { s with returned := s.returned ++ [(entry.seller, result)] } := by
      intro state hstate
      obtain ⟨hsound, hall⟩ := hstored state hstate
      exact ⟨hsound.mono hgrown, hall⟩
    dsimp only at hstep
    split at hstep
    · obtain rfl := Option.some.inj hstep
      exact .handle hstored' ⟨hmemory.sound.mono hgrown, hmemory.kept⟩ hcomplete _
    · rename_i hverified
      obtain rfl := Option.some.inj hstep
      rw [not_or, Bool.not_eq_false, Bool.not_eq_false] at hverified
      have hresults := hmemory.sound.record_results hnone result
      have hsub : s.memory.results ⊆ (s.memory.record entry result).results := by
        rw [hresults]
        exact List.subset_append_left _ _
      refine ⟨hstored', ⟨hmemory.sound.record hnone hverified.1 hverified.2, ?_⟩, hcomplete, ?_⟩
      · intro state hstate
        exact List.Subset.trans (hmemory.kept state hstate) hsub
      · apply (hdone.mono hsub).next
        rw [hresults]
        exact ⟨_, List.mem_append_right _ (List.mem_singleton_self _), rfl⟩
  case h_6 hrecording =>
    obtain rfl := Option.some.inj hstep
    rw [hrecording] at hstage
    obtain ⟨hmemory, hcomplete, hdone⟩ := hstage
    exact .advance (.persist hmemory (hnot hcomplete)) hmemory.persist hcomplete hdone
  case h_7 hstopping =>
    obtain rfl := Option.some.inj hstep
    rw [hstopping] at hstage
    exact ⟨StoredInv.persist hstage.1 (hnot hstage.2), trivial⟩
  case h_8 hclosing =>
    obtain rfl := Option.some.inj hstep
    rw [hclosing] at hstage
    exact ⟨StoredInv.persist hstage.1 fun _ => hstage.2, trivial⟩
  case h_9 hproving =>
    obtain rfl := Option.some.inj hstep
    rw [hproving] at hstage
    exact .handle hstored hstage.1 hstage.2.1 _
  case h_10 hrecording =>
    obtain rfl := Option.some.inj hstep
    rw [hrecording] at hstage
    exact .handle hstored hstage.1 hstage.2.1 _
  -- The other steps end the invocation, or are not possible.
  all_goals first
    | exact Option.some.inj hstep ▸ QueueInv.finish hstored
    | cases hstep

/-! ## Results stay, and their sellers are not proved again -/

/-- While a run is under way, its memory is sound. -/
theorem StageInv.memoryInv {stage : QueueStage} (h : StageInv entries s stage)
    (hrunning : stage ≠ .idle) : MemoryInv s := by
  cases stage with
  | idle => exact absurd rfl hrunning
  | opening => exact h.1
  | verifying => exact h.1
  | announcing => exact h.1
  | proving => exact h.1
  | recording => exact h.1
  | stopping => exact h.1
  | closing => exact h.1

/-- A step stores the progress in memory, or nothing. -/
theorem queueStep_stored {event : QueueEvent} (hstep : queueStep quote s event = some s') :
    s'.stored = s.stored ∨ s.stage ≠ .idle ∧ s'.stored = some s.memory := by
  unfold queueStep at hstep
  split at hstep
  case h_1 =>
    obtain rfl := Option.some.inj hstep
    unfold invokeQueue
    dsimp only
    split
    · exact .inl rfl
    · exact .inl rfl
  case h_2 hstage | h_4 hstage | h_6 hstage | h_7 hstage | h_8 hstage =>
    obtain rfl := Option.some.inj hstep
    refine .inr ⟨by simp [hstage], ?_⟩
    first
      | rfl
      | exact QueueState.advance_stored _ _
  case h_3 =>
    obtain rfl := Option.some.inj hstep
    exact .inl (QueueState.advance_stored _ _)
  case h_5 =>
    dsimp only at hstep
    split at hstep
    · exact .inl (Option.some.inj hstep ▸ rfl)
    · exact .inl (Option.some.inj hstep ▸ rfl)
  all_goals first
    | exact .inl (Option.some.inj hstep ▸ rfl)
    | cases hstep

/-- No step loses a stored result. -/
theorem stored_kept_step {event : QueueEvent} (h : QueueInv quote.body.entries s)
    (hstep : queueStep quote s event = some s') (hstate : s.stored = some state) :
    ∃ state', s'.stored = some state' ∧ state.results ⊆ state'.results := by
  rcases queueStep_stored hstep with hsame | ⟨hrunning, hstored⟩
  · exact ⟨state, hsame.trans hstate, List.Subset.refl _⟩
  · exact ⟨s.memory, hstored, (h.stage.memoryInv hrunning).kept state hstate⟩

/-- No run removes a stored result. -/
theorem stored_kept_run {events : List QueueEvent} (h : QueueInv quote.body.entries s)
    (hrun : run (queueStep quote) s events = some s') (hstate : s.stored = some state) :
    ∃ state', s'.stored = some state' ∧ state.results ⊆ state'.results := by
  induction events generalizing s state with
  | nil =>
    obtain rfl : s = s' := Option.some.inj hrun
    exact ⟨state, hstate, List.Subset.refl _⟩
  | cons event events ih =>
    obtain ⟨mid, hmid, hrest⟩ := run_cons_eq_some.mp hrun
    obtain ⟨state', hstate', hsub⟩ := stored_kept_step h hmid hstate
    obtain ⟨state'', hstate'', hsub'⟩ := ih (queueInv_step h hmid) hrest hstate'
    exact ⟨state'', hstate'', List.Subset.trans hsub hsub'⟩

/-- A seller is proved only while no result of it is stored. -/
theorem QueueInv.proving_fresh (h : QueueInv quote.body.entries s)
    (hstage : s.stage = .proving entry rest) (hstate : s.stored = some state) :
    ∀ result ∈ state.results, entry.seller ≠ result.seller := by
  intro result hresult heq
  have hinv := h.stage
  rw [hstage] at hinv
  obtain ⟨hmemory, _, _, hnone⟩ := hinv
  exact hmemory.sound.fresh hnone result (hmemory.kept state hstate hresult) heq.symm

/-! ## A failure ends the invocation -/

/-- Proving or verifying a seller fails. -/
def Fails (s : QueueState) (event : QueueEvent) : Prop :=
  (∃ entry rest, s.stage = .proving entry rest ∧
    ((∃ message, event = .throw message) ∨ ∃ result, event = .proved result ∧
      (result.complete = false ∨ result.productionProofVerified = false))) ∨
  ∃ completed rest, s.stage = .verifying completed rest ∧ ∃ message, event = .throw message

/-- The invocation starts no further entry. -/
def Ending (stage : QueueStage) : Prop := stage = .idle ∨ stage = .stopping

/-- A failing event ends the run. -/
theorem ending_of_fails {event : QueueEvent} (hfails : Fails s event)
    (hstep : queueStep quote s event = some s') : Ending s'.stage := by
  rcases hfails with ⟨entry, rest, hstage, ⟨message, rfl⟩ | ⟨result, rfl, hbad⟩⟩ |
    ⟨completed, rest, hstage, message, rfl⟩
  · simp only [queueStep, hstage, Option.some.injEq] at hstep
    exact .inr (hstep ▸ rfl)
  · simp only [queueStep, hstage, if_pos hbad, Option.some.injEq] at hstep
    exact .inr (hstep ▸ rfl)
  · simp only [queueStep, hstage, Option.some.injEq] at hstep
    exact .inl (hstep ▸ rfl)

/-- A run that is ending does not go on. -/
theorem ending_step {event : QueueEvent} (hending : Ending s.stage) (hevent : event ≠ .invoke)
    (hstep : queueStep quote s event = some s') : Ending s'.stage := by
  left
  rcases hending with hstage | hstage
  · cases event with
    | invoke => exact absurd rfl hevent
    | _ =>
      simp only [queueStep, hstage] at hstep
      cases hstep
  · cases event with
    | invoke => exact absurd rfl hevent
    | proved =>
      simp only [queueStep, hstage] at hstep
      cases hstep
    | _ =>
      simp only [queueStep, hstage, Option.some.injEq] at hstep
      exact hstep ▸ rfl

/-- A run that is ending does not go on before it is invoked again. -/
theorem ending_run {events : List QueueEvent} (hending : Ending s.stage)
    (hevents : ∀ event ∈ events, event ≠ .invoke)
    (hrun : run (queueStep quote) s events = some s') : Ending s'.stage := by
  induction events generalizing s with
  | nil =>
    obtain rfl : s = s' := Option.some.inj hrun
    exact hending
  | cons event events ih =>
    obtain ⟨hevent, hrest⟩ := List.forall_mem_cons.mp hevents
    obtain ⟨mid, hmid, hrun⟩ := run_cons_eq_some.mp hrun
    exact ih (ending_step hending hevent hmid) hrest hrun

/-! ## The runs of the queue -/

/-- The stored results of a state: of different sellers, each returned complete and verified by
proving the seller, and of all entries where the progress says that it is complete. -/
structure StoredResults (quote : BatchQuote) (s : QueueState) (state : BatchProgress) :
    Prop where
  oneEach : (state.results.map (·.seller)).Nodup
  proved : ∀ result ∈ state.results, result.complete = true ∧
    result.productionProofVerified = true ∧ (result.seller, result.toRunResult) ∈ s.returned
  all : state.complete = true → ∀ entry ∈ quote.body.entries,
    ∃ result ∈ state.results, result.seller = entry.seller

/-- After any sequence of invocations with failures and deaths anywhere: the stored results are
as above, no seller with a stored result is proved from then on, and after a failure no entry is
started until the next invocation. -/
theorem runQueue_safe (quote : BatchQuote) {events : List QueueEvent} {s : QueueState}
    (hrun : run (queueStep quote) (QueueState.initial quote.digest) events = some s) :
    (∀ state, s.stored = some state → StoredResults quote s state ∧
      ∀ result ∈ state.results, ∀ later s', run (queueStep quote) s later = some s' →
        ∀ entry rest, s'.stage = .proving entry rest → entry.seller ≠ result.seller) ∧
    ∀ event s', Fails s event → queueStep quote s event = some s' →
      ∀ later s'', (∀ event ∈ later, event ≠ .invoke) →
        run (queueStep quote) s' later = some s'' →
          ∀ entry rest, s''.stage ≠ .announcing entry rest ∧ s''.stage ≠ .proving entry rest := by
  have hinv : QueueInv quote.body.entries s :=
    run_invariant queueInv_step (queueInv_initial quote.body.entries quote.digest) hrun
  constructor
  · intro state hstate
    obtain ⟨hsound, hall⟩ := hinv.stored state hstate
    refine ⟨⟨hsound.nodup, ?_, hall⟩, ?_⟩
    · intro result hresult
      exact ⟨hsound.complete result hresult, hsound.verified result hresult,
        hsound.returned result hresult⟩
    · intro result hresult later s' hlater entry rest hstage
      obtain ⟨state', hstate', hsub⟩ := stored_kept_run hinv hlater hstate
      exact (run_invariant queueInv_step hinv hlater).proving_fresh hstage hstate' result
        (hsub hresult)
  · intro event s' hfails hstep later s'' hlater hrun' entry rest
    rcases ending_run (ending_of_fails hfails hstep) hlater hrun' with hidle | hstopping
    · rw [hidle]
      exact ⟨nofun, nofun⟩
    · rw [hstopping]
      exact ⟨nofun, nofun⟩

section Example

private def sellerEntry (seller : Address) : BatchEntry :=
  ⟨seller, "", .prepared "", 0, 1, 0, none⟩

private def twoSellers : BatchQuote :=
  ⟨⟨1, "frozen-seller-batch-approval", 0, 2, 1, false, "", 2, 0, none, none, none,
    [sellerEntry 1, sellerEntry 2]⟩, 7⟩

/-- The first seller is proved, the second one fails, and the next invocation dies. -/
private def pausedRun : List QueueEvent :=
  [.invoke, .succeed, .succeed, .proved ⟨true, 5, "", 6, true⟩, .succeed, .succeed,
    .throw "prover-network balance is zero", .succeed, .invoke, .succeed, .succeed, .crash]

/-- A run over two sellers that pauses, resumes and dies keeps the result of the first one. -/
theorem twoSellers_safe : ∃ s state,
    run (queueStep twoSellers) (QueueState.initial twoSellers.digest) pausedRun = some s ∧
      s.stored = some state ∧ state.results.map (·.seller) = [1] ∧
        StoredResults twoSellers s state := by
  obtain ⟨s, hrun⟩ : ∃ s, run (queueStep twoSellers) (QueueState.initial twoSellers.digest)
      pausedRun = some s := Option.isSome_iff_exists.mp (by decide +kernel)
  have hresults : ((run (queueStep twoSellers) (QueueState.initial twoSellers.digest)
      pausedRun).bind (·.stored)).map (fun state => state.results.map (·.seller)) = some [1] := by
    decide +kernel
  rw [hrun, Option.bind_some] at hresults
  obtain ⟨state, hstate, hsellers⟩ := Option.map_eq_some_iff.mp hresults
  exact ⟨s, state, hrun, hstate, hsellers, ((runQueue_safe twoSellers hrun).1 state hstate).1⟩

end Example

end LoopProof.Proving
