import Mathlib.Data.List.Infix
import Mathlib.Data.List.Basic

/-!
# Searches that stop at a limit

A search passes a state along and reports results in it. What it should report is a list; a search
that stops at a limit reports a beginning of it. The parts of a search compose: a part that is not
stopped has reported its whole list.
-/

namespace LoopProof

universe u v

variable {σ : Type u} {α : Type v} {results : σ → List α} {stopped : σ → Prop}
  {s s' s'' : σ} {xs ys : List α}

/-- Between two states a beginning of the list is reported, and the whole list unless the search
is stopped. -/
def Reports (results : σ → List α) (stopped : σ → Prop) (s s' : σ) (xs : List α) : Prop :=
  ∃ found, found <+: xs ∧ results s' = results s ++ found ∧ (¬ stopped s' → found = xs)

theorem Reports.nil (h : results s' = results s) : Reports results stopped s s' [] :=
  ⟨[], List.prefix_rfl, by rw [h, List.append_nil], fun _ => rfl⟩

theorem Reports.of_stopped (h : results s' = results s) (hstopped : stopped s') :
    Reports results stopped s s' xs :=
  ⟨[], List.nil_prefix, by rw [h, List.append_nil], fun hnot => absurd hstopped hnot⟩

/-- Changes that report nothing may come first. -/
theorem Reports.of_same (h : results s' = results s) (hnext : Reports results stopped s' s'' xs) :
    Reports results stopped s s'' xs := by
  obtain ⟨found, hbegin, hresults, hall⟩ := hnext
  exact ⟨found, hbegin, h ▸ hresults, hall⟩

/-- A search that is stopped after its first part reports nothing more. -/
theorem Reports.append_stopped (h : Reports results stopped s s' xs) (hstopped : stopped s') :
    Reports results stopped s s' (xs ++ ys) := by
  obtain ⟨found, hbegin, hresults, _⟩ := h
  exact ⟨found, hbegin.trans (List.prefix_append _ _), hresults,
    fun hnot => absurd hstopped hnot⟩

/-- A search that is not stopped reported the whole list. -/
theorem Reports.all (h : Reports results stopped s s' xs) (hnot : ¬ stopped s') :
    results s' = results s ++ xs := by
  obtain ⟨found, _, hresults, hall⟩ := h
  rw [hresults, hall hnot]

/-- After a first part that reported its whole list, a search goes on with the second one. -/
theorem Reports.after (h : results s' = results s ++ xs)
    (hnext : Reports results stopped s' s'' ys) : Reports results stopped s s'' (xs ++ ys) := by
  obtain ⟨found, hbegin, hresults, hall⟩ := hnext
  refine ⟨xs ++ found, (List.prefix_append_right_inj xs).mpr hbegin, ?_, ?_⟩
  · rw [hresults, h, List.append_assoc]
  · intro hnot
    rw [hall hnot]

/-- The same reports under another test that stops whenever the first one does. -/
theorem Reports.of_imp {stopped' : σ → Prop} (h : Reports results stopped s s' xs)
    (hsame : results s'' = results s') (hstop : stopped s' → stopped' s'') :
    Reports results stopped' s s'' xs := by
  obtain ⟨found, hbegin, hresults, hall⟩ := h
  refine ⟨found, hbegin, hsame.trans hresults, ?_⟩
  intro hnot
  exact hall fun hstopped => hnot (hstop hstopped)

/-- What a search reports from the beginning is a beginning of its list. -/
theorem Reports.beginning (h : Reports results stopped s s' xs) (hempty : results s = []) :
    results s' <+: xs := by
  obtain ⟨found, hbegin, hresults, _⟩ := h
  rw [hresults, hempty, List.nil_append]
  exact hbegin

end LoopProof
