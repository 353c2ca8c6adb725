import Mathlib.Data.List.Forall2
import Mathlib.Data.List.Perm.Basic
import Mathlib.Data.List.Induction

/-!
# Fallible computations and accumulating loops

A loop over evidence is a monadic fold whose state carries running totals and a
set of consumed names. `StepRefines.run_iff` replaces such a fold by an
order-explicit description: the list of resolved items, one admissibility predicate
on that list, and a representation relation between the state and the processed
prefix. One step lemma per loop is all a client supplies.
-/

namespace LoopProof

universe u v

section Except

variable {ε ε' : Type u} {α β : Type v}

/-- Refuse with the given error unless the condition holds. -/
def ensure (c : Prop) [Decidable c] (error : ε) : Except ε Unit :=
  if c then .ok () else .error error

@[simp] theorem ensure_eq_ok {c : Prop} [Decidable c] {error : ε} {u : Unit} :
    ensure c error = .ok u ↔ c := by
  unfold ensure
  split <;> simp_all

/-- Read an optional value, refusing with the given error when it is absent. -/
def okOr (x : Option α) (error : ε) : Except ε α :=
  match x with
  | some a => .ok a
  | none => .error error

@[simp] theorem okOr_eq_ok {x : Option α} {error : ε} {a : α} :
    okOr x error = .ok a ↔ x = some a := by
  cases x <;> simp [okOr]

theorem ok_bind {a : α} {f : α → Except ε β} : (Except.ok a >>= f) = f a := by
  simp only [bind, Except.bind]

theorem error_bind {error : ε} {f : α → Except ε β} :
    (Except.error error >>= f) = .error error := by
  simp only [bind, Except.bind]

/-- A sequenced computation succeeds exactly when both of its parts do. -/
theorem bind_eq_ok {x : Except ε α} {f : α → Except ε β} {b : β} :
    (x >>= f) = .ok b ↔ ∃ a, x = .ok a ∧ f a = .ok b := by
  cases x <;> simp [bind, Except.bind]

theorem pure_eq_ok {a b : α} : (pure a : Except ε α) = .ok b ↔ a = b := by
  simp [pure, Except.pure]

/-- A sequenced computation fails in its first part or after it. -/
theorem bind_eq_error {x : Except ε α} {f : α → Except ε β} {error : ε} :
    (x >>= f) = .error error ↔ x = .error error ∨ ∃ a, x = .ok a ∧ f a = .error error := by
  cases x <;> simp [bind, Except.bind]

theorem ensure_eq_error {c : Prop} [Decidable c] {error error' : ε} :
    ensure c error = .error error' ↔ ¬ c ∧ error = error' := by
  unfold ensure
  split <;> simp_all

/-- Translating the error leaves every success unchanged. -/
@[simp] theorem mapError_eq_ok {x : Except ε α} {f : ε → ε'} {a : α} :
    x.mapError f = .ok a ↔ x = .ok a := by
  cases x <;> simp [Except.mapError]

/-- A result is a success exactly when its success test says so. -/
theorem isOk_iff {x : Except ε α} : x.isOk = true ↔ ∃ a, x = .ok a := by
  cases x <;> simp [Except.isOk, Except.toBool]

/-- A kept result comes from one of the computations. -/
theorem mem_of_filterMapM_eq_ok {f : α → Except ε (Option β)} {xs : List α} {ys : List β}
    (h : xs.filterMapM f = .ok ys) {y : β} (hy : y ∈ ys) : ∃ x ∈ xs, f x = .ok (some y) := by
  induction xs generalizing ys with
  | nil =>
    rw [List.filterMapM_nil, pure_eq_ok] at h
    exact absurd hy (h ▸ List.not_mem_nil)
  | cons x xs ih =>
    rw [List.filterMapM_cons, bind_eq_ok] at h
    obtain ⟨kept, hkept, hrest⟩ := h
    cases kept with
    | none =>
      obtain ⟨x', hx', hy'⟩ := ih hrest hy
      exact ⟨x', List.mem_cons_of_mem x hx', hy'⟩
    | some first =>
      simp only [bind_eq_ok, pure_eq_ok] at hrest
      obtain ⟨rest, hrest, rfl⟩ := hrest
      rcases List.mem_cons.mp hy with rfl | hy
      · exact ⟨x, List.mem_cons_self .., hkept⟩
      · obtain ⟨x', hx', hy'⟩ := ih hrest hy
        exact ⟨x', List.mem_cons_of_mem x hx', hy'⟩

/-- All computations succeed, and what they keep is the result. -/
theorem filterMapM_eq_ok {f : α → Except ε (Option β)} {xs : List α} {ys : List β} :
    xs.filterMapM f = .ok ys ↔
      (∀ x ∈ xs, ∃ kept, f x = .ok kept) ∧ xs.filterMap (fun x => (f x).toOption.join) = ys := by
  induction xs generalizing ys with
  | nil => simp [pure_eq_ok]
  | cons x xs ih =>
    rw [List.filterMapM_cons, bind_eq_ok, List.forall_mem_cons]
    cases hx : f x with
    | error error => simp
    | ok kept =>
      cases kept with
      | none =>
        rw [List.filterMap_cons_none (by rw [hx]; rfl)]
        simpa using ih
      | some first =>
        rw [List.filterMap_cons_some (by rw [hx]; rfl)]
        constructor
        · intro h
          obtain ⟨kept, hkept, hrest⟩ := h
          cases hkept
          obtain ⟨rest, hrest, hys⟩ := bind_eq_ok.mp hrest
          obtain ⟨hall, rfl⟩ := ih.mp hrest
          exact ⟨⟨⟨_, rfl⟩, hall⟩, pure_eq_ok.mp hys⟩
        · intro h
          obtain ⟨⟨_, hall⟩, rfl⟩ := h
          exact ⟨_, rfl, bind_eq_ok.mpr ⟨_, ih.mpr ⟨hall, rfl⟩, rfl⟩⟩

/-- The order of the inputs is that of what is kept. -/
theorem filterMapM_perm {f : α → Except ε (Option β)} {xs xs' : List α} {ys : List β}
    (hperm : xs.Perm xs') (h : xs.filterMapM f = .ok ys) :
    ∃ ys', xs'.filterMapM f = .ok ys' ∧ ys.Perm ys' := by
  obtain ⟨hall, rfl⟩ := filterMapM_eq_ok.mp h
  refine ⟨_, filterMapM_eq_ok.mpr ⟨fun x hx => hall x (hperm.symm.subset hx), rfl⟩, ?_⟩
  exact hperm.filterMap _

/-- The kept results belong to the inputs that are kept. -/
theorem forall₂_of_filterMapM_eq_ok {f : α → Except ε (Option β)} {kept : α → Bool}
    {r : α → β → Prop} {xs : List α} {ys : List β}
    (hnone : ∀ x ∈ xs, f x = .ok none → kept x = false)
    (hsome : ∀ x ∈ xs, ∀ y, f x = .ok (some y) → kept x = true ∧ r x y)
    (h : xs.filterMapM f = .ok ys) : List.Forall₂ r (xs.filter kept) ys := by
  induction xs generalizing ys with
  | nil =>
    rw [List.filterMapM_nil, pure_eq_ok] at h
    exact h ▸ .nil
  | cons x xs ih =>
    rw [List.filterMapM_cons, bind_eq_ok] at h
    obtain ⟨first, hfirst, hrest⟩ := h
    obtain ⟨hnone, hnones⟩ := List.forall_mem_cons.mp hnone
    obtain ⟨hsome, hsomes⟩ := List.forall_mem_cons.mp hsome
    cases first with
    | none =>
      rw [List.filter_cons_of_neg (by rw [hnone hfirst]; exact Bool.false_ne_true)]
      exact ih hnones hsomes hrest
    | some y =>
      simp only [bind_eq_ok, pure_eq_ok] at hrest
      obtain ⟨rest, hrest, rfl⟩ := hrest
      rw [List.filter_cons_of_pos (hsome y hfirst).1]
      exact .cons (hsome y hfirst).2 (ih hnones hsomes hrest)

/-- What a field of a successful result says. -/
theorem toOption_map_eq_some {x : Except ε α} {f : α → β} {b : β} :
    x.toOption.map f = some b ↔ ∃ a, x = .ok a ∧ f a = b := by
  cases x <;> simp [Except.toOption]

end Except

section Resolution

variable {α β : Type*} {r : α → β → Prop} {xs : List α} {ys : List β}

/-- Every input of a resolved list has its item. -/
theorem forall₂_exists_right (h : List.Forall₂ r xs ys) {x : α} (hx : x ∈ xs) :
    ∃ y ∈ ys, r x y := by
  induction h with
  | nil => cases hx
  | @cons a b xs ys hab _ ih =>
    rcases List.mem_cons.mp hx with rfl | hx
    · exact ⟨b, List.mem_cons_self .., hab⟩
    · obtain ⟨y, hy, hxy⟩ := ih hx
      exact ⟨y, List.mem_cons_of_mem _ hy, hxy⟩

/-- Every input of a resolved list is paired with its item. -/
theorem forall₂_exists_zip (h : List.Forall₂ r xs ys) {x : α} (hx : x ∈ xs) :
    ∃ y, (x, y) ∈ xs.zip ys ∧ r x y := by
  induction h with
  | nil => cases hx
  | @cons a b xs ys hab _ ih =>
    rcases List.mem_cons.mp hx with rfl | hx
    · exact ⟨b, List.mem_cons_self .., hab⟩
    · obtain ⟨y, hy, hxy⟩ := ih hx
      exact ⟨y, List.mem_cons_of_mem _ hy, hxy⟩

/-- Every item of a resolved list has its input. -/
theorem forall₂_exists_left (h : List.Forall₂ r xs ys) {y : β} (hy : y ∈ ys) :
    ∃ x ∈ xs, r x y :=
  forall₂_exists_right h.flip hy

/-- Inputs that have items one by one have a list of items. -/
theorem exists_forall₂ (h : ∀ x ∈ xs, ∃ y, r x y) : ∃ ys, List.Forall₂ r xs ys := by
  induction xs with
  | nil => exact ⟨[], .nil⟩
  | cons x xs ih =>
    obtain ⟨hx, hxs⟩ := List.forall_mem_cons.mp h
    obtain ⟨y, hy⟩ := hx
    obtain ⟨ys, hys⟩ := ih hxs
    exact ⟨y :: ys, .cons hy hys⟩

/-- The input and the item at one position belong together. -/
theorem forall₂_getElem? (h : List.Forall₂ r xs ys) {i : ℕ} {y : β} (hy : ys[i]? = some y) :
    ∃ x, xs[i]? = some x ∧ r x y := by
  induction h generalizing i with
  | nil => simp at hy
  | @cons a b xs ys hab _ ih =>
    cases i with
    | zero =>
      obtain rfl : b = y := by simpa using hy
      exact ⟨a, rfl, hab⟩
    | succ i => exact ih hy

/-- Reordering the inputs reorders their items. -/
theorem forall₂_perm {xs' : List α} (h : List.Forall₂ r xs ys) (hperm : xs.Perm xs') :
    ∃ ys', ys.Perm ys' ∧ List.Forall₂ r xs' ys' := by
  have hcomp : Relation.Comp List.Perm (List.Forall₂ r) xs' ys := ⟨xs, hperm.symm, h⟩
  rw [← List.forall₂_comp_perm_eq_perm_comp_forall₂] at hcomp
  obtain ⟨ys', hall, hperm'⟩ := hcomp
  exact ⟨ys', hperm'.symm, hall⟩

/-- A relation may use that its input is in the list. -/
theorem forall₂_mem_imp {r' : α → β → Prop} (h : List.Forall₂ r xs ys)
    (himp : ∀ x y, x ∈ xs → r x y → r' x y) : List.Forall₂ r' xs ys := by
  induction h with
  | nil => exact .nil
  | @cons x y xs ys hxy _ ih =>
    constructor
    · exact himp x y (List.mem_cons_self ..) hxy
    · apply ih
      intro x' y' hx'
      exact himp x' y' (List.mem_cons_of_mem _ hx')

/-- Items stay items of inputs that were replaced one by one. -/
theorem forall₂_replace {α' : Type*} {m : α → α' → Prop} {r' : α' → β → Prop} {xs' : List α'}
    (hm : List.Forall₂ m xs xs') (h : List.Forall₂ r xs ys)
    (himp : ∀ x x' y, m x x' → r x y → r' x' y) : List.Forall₂ r' xs' ys := by
  induction hm generalizing ys with
  | nil =>
    cases h
    exact .nil
  | cons hx _ ih =>
    cases h with
    | cons hr hrest => exact .cons (himp _ _ _ hx hr) (ih hrest)

/-- Expanding every input and its item resolves piece by piece. -/
theorem forall₂_flatMap {γ δ : Type*} {p : γ → δ → Prop} {f : α → List γ} {g : β → List δ}
    (h : List.Forall₂ r xs ys) (hfg : ∀ x y, r x y → List.Forall₂ p (f x) (g y)) :
    List.Forall₂ p (xs.flatMap f) (ys.flatMap g) := by
  induction h with
  | nil => exact .nil
  | @cons x y xs ys hxy _ ih =>
    rw [List.flatMap_cons, List.flatMap_cons]
    exact List.rel_append (hfg x y hxy) ih

end Resolution

section Loops

variable {ε : Type u} {σ α β : Type v}

/-- What one pass of an accumulating loop does: from a state that represents the
processed items `done`, input `a` is accepted exactly when it resolves to an item
that keeps the whole prefix admissible, and the new state represents that prefix. -/
structure StepRefines (step : σ → α → Except ε σ) (resolve : α → β → Prop)
    (admissible : List β → Prop) (represents : σ → List β → Prop) : Prop where
  /-- An accepted input resolves, and the state follows. -/
  sound : ∀ {s done a s'}, admissible done → represents s done → step s a = .ok s' →
    ∃ b, resolve a b ∧ admissible (done ++ [b]) ∧ represents s' (done ++ [b])
  /-- Every admissible input is accepted. -/
  complete : ∀ {s done a b}, represents s done → resolve a b → admissible (done ++ [b]) →
    ∃ s', step s a = .ok s' ∧ represents s' (done ++ [b])
  /-- Admissibility is inherited by every processed prefix. -/
  prefix_closed : ∀ {done b}, admissible (done ++ [b]) → admissible done

/-- An admissible list stays admissible when its tail is cut off. -/
theorem StepRefines.admissible_prefix {step : σ → α → Except ε σ} {resolve : α → β → Prop}
    {admissible : List β → Prop} {represents : σ → List β → Prop}
    (h : StepRefines step resolve admissible represents) {done rest : List β}
    (ha : admissible (done ++ rest)) : admissible done := by
  induction rest using List.reverseRecOn with
  | nil => simpa only [List.append_nil] using ha
  | append_singleton rest b ih =>
    exact ih (h.prefix_closed (by simpa only [List.append_assoc] using ha))

/-- A completed run resolved every input and its state represents all items. -/
theorem StepRefines.run_sound {step : σ → α → Except ε σ} {resolve : α → β → Prop}
    {admissible : List β → Prop} {represents : σ → List β → Prop}
    (h : StepRefines step resolve admissible represents) {inputs : List α}
    {s s' : σ} {done : List β} (hs : represents s done) (hd : admissible done)
    (hrun : inputs.foldlM step s = .ok s') :
    ∃ items, List.Forall₂ resolve inputs items ∧ admissible (done ++ items) ∧
      represents s' (done ++ items) := by
  induction inputs generalizing s done with
  | nil =>
    simp only [List.foldlM_nil, pure_eq_ok] at hrun
    subst hrun
    exact ⟨[], .nil, by simpa only [List.append_nil] using hd,
      by simpa only [List.append_nil] using hs⟩
  | cons a inputs ih =>
    rw [List.foldlM_cons, bind_eq_ok] at hrun
    obtain ⟨mid, hstep, hrest⟩ := hrun
    obtain ⟨b, hb, hadm, hmid⟩ := h.sound hd hs hstep
    obtain ⟨items, hall, hfinal, hrep⟩ := ih hmid hadm hrest
    refine ⟨b :: items, .cons hb hall, ?_, ?_⟩
    · simpa only [List.append_assoc, List.singleton_append] using hfinal
    · simpa only [List.append_assoc, List.singleton_append] using hrep

/-- A list of inputs whose items are admissible together is accepted by the loop. -/
theorem StepRefines.run_complete {step : σ → α → Except ε σ} {resolve : α → β → Prop}
    {admissible : List β → Prop} {represents : σ → List β → Prop}
    (h : StepRefines step resolve admissible represents) {inputs : List α} {items : List β}
    (hall : List.Forall₂ resolve inputs items) {s : σ} {done : List β}
    (hs : represents s done) (ha : admissible (done ++ items)) :
    ∃ s', inputs.foldlM step s = .ok s' ∧ represents s' (done ++ items) := by
  induction hall generalizing s done with
  | nil => exact ⟨s, rfl, by simpa only [List.append_nil] using hs⟩
  | @cons a b inputs items hab _ ih =>
    have hsplit : done ++ b :: items = (done ++ [b]) ++ items := by simp
    rw [hsplit] at ha ⊢
    obtain ⟨mid, hstep, hmid⟩ := h.complete hs hab (h.admissible_prefix ha)
    obtain ⟨s', hrun, hrep⟩ := ih hmid ha
    refine ⟨s', ?_, hrep⟩
    rw [List.foldlM_cons, bind_eq_ok]
    exact ⟨mid, hstep, hrun⟩

/-- A run from nothing processed resolved its inputs to admissible items. -/
theorem StepRefines.run_sound_nil {step : σ → α → Except ε σ} {resolve : α → β → Prop}
    {admissible : List β → Prop} {represents : σ → List β → Prop}
    (h : StepRefines step resolve admissible represents) {inputs : List α} {s s' : σ}
    (hs : represents s []) (hnil : admissible []) (hrun : inputs.foldlM step s = .ok s') :
    ∃ items, List.Forall₂ resolve inputs items ∧ admissible items ∧ represents s' items :=
  h.run_sound hs hnil hrun

/-- Inputs that resolve to admissible items are accepted from nothing processed. -/
theorem StepRefines.run_complete_nil {step : σ → α → Except ε σ} {resolve : α → β → Prop}
    {admissible : List β → Prop} {represents : σ → List β → Prop}
    (h : StepRefines step resolve admissible represents) {inputs : List α} {items : List β}
    (hall : List.Forall₂ resolve inputs items) {s : σ} (hs : represents s [])
    (ha : admissible items) :
    ∃ s', inputs.foldlM step s = .ok s' ∧ represents s' items :=
  h.run_complete hall hs ha

/-- A loop fails at one of its inputs. -/
theorem foldlM_eq_error {step : σ → α → Except ε σ} {inputs : List α} {s : σ} {error : ε}
    (h : inputs.foldlM step s = .error error) : ∃ s', ∃ a ∈ inputs, step s' a = .error error := by
  induction inputs generalizing s with
  | nil => cases h
  | cons a inputs ih =>
    rw [List.foldlM_cons, bind_eq_error] at h
    rcases h with h | ⟨mid, _, h⟩
    · exact ⟨s, a, List.mem_cons_self .., h⟩
    · obtain ⟨s', b, hb, hstep⟩ := ih h
      exact ⟨s', b, List.mem_cons_of_mem _ hb, hstep⟩

/-- A loop of independent checks passes exactly when every check does. -/
theorem forM_eq_ok {check : α → Except ε PUnit} {inputs : List α} :
    inputs.forM check = .ok ⟨⟩ ↔ ∀ a ∈ inputs, check a = .ok ⟨⟩ := by
  induction inputs with
  | nil => simp [List.forM, pure_eq_ok]
  | cons a inputs ih =>
    rw [List.forM, bind_eq_ok, List.forall_mem_cons, ← ih]
    exact ⟨fun ⟨_, ha, h⟩ => ⟨ha, h⟩, fun ⟨ha, h⟩ => ⟨⟨⟩, ha, h⟩⟩

/-- A fallible map succeeds exactly when every input has its result. -/
theorem mapM_eq_ok {f : α → Except ε β} {inputs : List α} {outputs : List β} :
    inputs.mapM f = .ok outputs ↔ List.Forall₂ (fun a b => f a = .ok b) inputs outputs := by
  induction inputs generalizing outputs with
  | nil =>
    rw [List.mapM_nil, pure_eq_ok, List.forall₂_nil_left_iff]
    exact eq_comm
  | cons a inputs ih =>
    simp only [List.mapM_cons, bind_eq_ok, pure_eq_ok, ih, List.forall₂_cons_left_iff]
    constructor
    · rintro ⟨b, hb, rest, hrest, rfl⟩
      exact ⟨b, rest, hb, hrest, rfl⟩
    · rintro ⟨b, rest, hb, hrest, rfl⟩
      exact ⟨b, hb, rest, hrest, rfl⟩

/-- A fallible map succeeds exactly when it does on every input. -/
theorem exists_mapM_eq_ok {f : α → Except ε β} {inputs : List α} :
    (∃ outputs, inputs.mapM f = .ok outputs) ↔ ∀ a ∈ inputs, ∃ b, f a = .ok b := by
  induction inputs with
  | nil => simp [pure_eq_ok]
  | cons a inputs ih =>
    rw [List.forall_mem_cons, ← ih]
    simp only [List.mapM_cons, bind_eq_ok, pure_eq_ok]
    constructor
    · intro h
      obtain ⟨_, b, hb, rest, hrest, _⟩ := h
      exact ⟨⟨b, hb⟩, rest, hrest⟩
    · intro h
      obtain ⟨⟨b, hb⟩, rest, hrest⟩ := h
      exact ⟨b :: rest, b, hb, rest, hrest, rfl⟩

/-- A loop body that also receives the position of its input, as a body that keeps count. -/
def counted (step : σ → α × ℕ → Except ε σ) (state : σ × ℕ) (a : α) : Except ε (σ × ℕ) := do
  let next ← step state.1 (a, state.2)
  return (next, state.2 + 1)

/-- A loop over numbered inputs is the counting loop. -/
theorem foldlM_zipIdx_eq_ok {step : σ → α × ℕ → Except ε σ} {inputs : List α} {k : ℕ} {s s' : σ} :
    (inputs.zipIdx k).foldlM step s = .ok s' ↔
      inputs.foldlM (counted step) (s, k) = .ok (s', k + inputs.length) := by
  induction inputs generalizing k s with
  | nil => simp [pure_eq_ok]
  | cons a inputs ih =>
    simp only [List.zipIdx_cons, List.foldlM_cons, bind_eq_ok, counted, pure_eq_ok, ih,
      List.length_cons]
    constructor
    · rintro ⟨mid, hstep, hrest⟩
      exact ⟨(mid, k + 1), ⟨mid, hstep, rfl⟩, by rw [hrest]; congr 2; omega⟩
    · rintro ⟨_, ⟨mid, hstep, rfl⟩, hrest⟩
      exact ⟨mid, hstep, by rw [hrest]; congr 2; omega⟩

end Loops

end LoopProof
