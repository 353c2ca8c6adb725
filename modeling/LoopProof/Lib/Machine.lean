import Mathlib.Logic.Function.Basic
import Mathlib.Data.List.Basic

/-!
# Runs of labelled steps

A machine whose steps are chosen by labels: any interleaving of concurrent parties is a list
of labels. An invariant is proved on one step and carried along a run; a condition on the
steps restricts the runs for which a conditional invariant is carried.
-/

namespace LoopProof

universe u v

section Machine

variable {σ : Type u} {ε : Type v} {step : σ → ε → Option σ}

/-- The state after a list of labels; a label that is not enabled yields no state. -/
def run (step : σ → ε → Option σ) : σ → List ε → Option σ
  | s, [] => some s
  | s, e :: es => (step s e).bind fun s' => run step s' es

/-- Every step of a run meets a condition on the state it leaves and its label. -/
def RunMeets (step : σ → ε → Option σ) (condition : σ → ε → Prop) : σ → List ε → Prop
  | _, [] => True
  | s, e :: es => condition s e ∧ ∀ s', step s e = some s' → RunMeets step condition s' es

theorem run_cons_eq_some {s s' : σ} {e : ε} {es : List ε} :
    run step s (e :: es) = some s' ↔ ∃ mid, step s e = some mid ∧ run step mid es = some s' := by
  rw [run, Option.bind_eq_some_iff]

theorem run_append (s : σ) (es es' : List ε) :
    run step s (es ++ es') = (run step s es).bind fun mid => run step mid es' := by
  induction es generalizing s with
  | nil => rfl
  | cons e es ih =>
    rw [List.cons_append, run, run, Option.bind_assoc]
    exact congrArg _ (funext ih)

/-- A step that meets the condition begins such a run. -/
theorem RunMeets.cons {condition : σ → ε → Prop} {s s' : σ} {e : ε} {es : List ε}
    (hstep : step s e = some s') (he : condition s e) (hes : RunMeets step condition s' es) :
    RunMeets step condition s (e :: es) := by
  refine ⟨he, fun mid hmid => ?_⟩
  rw [hstep] at hmid
  exact Option.some.inj hmid ▸ hes

/-- What every step that meets the condition preserves holds after every such run. -/
theorem run_invariant_of_meets {condition : σ → ε → Prop} {invariant : σ → Prop}
    (hstep : ∀ {s e s'}, invariant s → condition s e → step s e = some s' → invariant s')
    {s s' : σ} {es : List ε} (hs : invariant s) (hmeets : RunMeets step condition s es)
    (hrun : run step s es = some s') : invariant s' := by
  induction es generalizing s with
  | nil =>
    obtain rfl : s = s' := Option.some.inj hrun
    exact hs
  | cons e es ih =>
    obtain ⟨mid, hmid, hrest⟩ := run_cons_eq_some.mp hrun
    exact ih (hstep hs hmeets.1 hmid) (hmeets.2 mid hmid) hrest

/-- What every step preserves holds after every run. -/
theorem run_invariant {invariant : σ → Prop}
    (hstep : ∀ {s e s'}, invariant s → step s e = some s' → invariant s') {s s' : σ}
    {es : List ε} (hs : invariant s) (hrun : run step s es = some s') : invariant s' := by
  induction es generalizing s with
  | nil =>
    obtain rfl : s = s' := Option.some.inj hrun
    exact hs
  | cons e es ih =>
    obtain ⟨mid, hmid, hrest⟩ := run_cons_eq_some.mp hrun
    exact ih (hstep hs hmid) hrest

/-! ## Interrupted runs -/

/-- The state after the labels up to the first one that is not enabled. -/
def runWhile (step : σ → ε → Option σ) : σ → List ε → σ
  | s, [] => s
  | s, e :: es =>
    match step s e with
    | none => s
    | some s' => runWhile step s' es

/-- After labels that are all enabled, the run goes on with the others. -/
theorem runWhile_append {s mid : σ} {es es' : List ε} (h : run step s es = some mid) :
    runWhile step s (es ++ es') = runWhile step mid es' := by
  induction es generalizing s with
  | nil =>
    obtain rfl : s = mid := Option.some.inj h
    rfl
  | cons e es ih =>
    obtain ⟨next, hnext, hrest⟩ := run_cons_eq_some.mp h
    rw [List.cons_append, runWhile, hnext]
    exact ih hrest

/-- After a label that is not enabled, the others do nothing. -/
theorem runWhile_append_stuck {s : σ} {es es' : List ε} (h : run step s es = none) :
    runWhile step s (es ++ es') = runWhile step s es := by
  induction es generalizing s with
  | nil => cases h
  | cons e es ih =>
    rw [List.cons_append, runWhile, runWhile]
    cases hstep : step s e with
    | none => rfl
    | some s' =>
      rw [run, hstep, Option.bind_some] at h
      exact ih h

/-- What the labels of a list preserve holds wherever the run stops. -/
theorem runWhile_invariant {invariant : σ → Prop} {es : List ε}
    (hstep : ∀ e ∈ es, ∀ s s', invariant s → step s e = some s' → invariant s') {s : σ}
    (hs : invariant s) : invariant (runWhile step s es) := by
  induction es generalizing s with
  | nil => exact hs
  | cons e es ih =>
    rw [runWhile]
    cases hnext : step s e with
    | none => exact hs
    | some s' =>
      obtain ⟨hfirst, hrest⟩ := List.forall_mem_cons.mp hstep
      exact ih hrest (hfirst s s' hs hnext)

end Machine

section Update

variable {ι : Type u} [DecidableEq ι] {α : Type v}

/-- A stored entry is the updated one, or was stored before. -/
theorem update_eq_some {f : ι → Option α} {i j : ι} {a b : α}
    (h : Function.update f i (some a) j = some b) : (j = i ∧ b = a) ∨ (j ≠ i ∧ f j = some b) := by
  by_cases hj : j = i
  · rw [hj, Function.update_self, Option.some.injEq] at h
    exact .inl ⟨hj, h.symm⟩
  · rw [Function.update_of_ne hj] at h
    exact .inr ⟨hj, h⟩

end Update

end LoopProof
