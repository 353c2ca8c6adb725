import LoopProof.Loop.Pair

/-!
# Order of the evidence

Totals, earliest times and distinctness do not depend on the order in which evidence is
listed, and neither do the conditions built from them.
-/

namespace LoopProof.Loop

variable {α κ : Type*}

/-! ## Totals and times -/

section Totals

/-- The total of fundings does not depend on their order. -/
theorem fundedTotal_perm {fs gs : List (Funding α κ)} (h : fs.Perm gs) :
    fundedTotal fs = fundedTotal gs :=
  (h.map _).sum_eq

/-- What a buyer was funded with does not depend on the order. -/
theorem fundedTo_perm [DecidableEq α] {fs gs : List (Funding α κ)} (h : fs.Perm gs) (buyer : α) :
    fundedTo fs buyer = fundedTo gs buyer :=
  fundedTotal_perm (h.filter _)

/-- The total of settlements does not depend on their order. -/
theorem settledTotal_perm {ss ts : List (Settlement α κ)} (h : ss.Perm ts) :
    settledTotal ss = settledTotal ts :=
  (h.map _).sum_eq

/-- What a buyer settled does not depend on the order. -/
theorem settledBy_perm [DecidableEq α] {ss ts : List (Settlement α κ)} (h : ss.Perm ts)
    (buyer : α) : settledBy ss buyer = settledBy ts buyer :=
  settledTotal_perm (h.filter _)

/-- What a seller was paid does not depend on the order. -/
theorem soldBy_perm [DecidableEq α] {ss ts : List (Settlement α κ)} (h : ss.Perm ts)
    (seller : α) : soldBy ss seller = soldBy ts seller :=
  settledTotal_perm (h.filter _)

/-- The total of returns does not depend on their order. -/
theorem returnedTotal_perm {ps qs : List (List (Transfer α κ))} (h : ps.Perm qs) :
    returnedTotal ps = returnedTotal qs :=
  (h.map _).sum_eq

/-- The least element of a list is a property of its elements. -/
theorem min?_perm {xs ys : List ℕ} (h : xs.Perm ys) : xs.min? = ys.min? := by
  induction h with
  | nil => rfl
  | cons x _ ih => rw [List.min?_cons, List.min?_cons, ih]
  | swap x y zs =>
    simp only [List.min?_cons]
    cases zs.min? with
    | none => simp [Nat.min_comm]
    | some z => simp [Nat.min_left_comm]
  | trans _ _ ih ih' => exact ih.trans ih'

/-- The first funding of a buyer does not depend on the order. -/
theorem earliestFunding_perm [DecidableEq α] {fs gs : List (Funding α κ)} (h : fs.Perm gs)
    (buyer : α) : earliestFunding fs buyer = earliestFunding gs buyer :=
  min?_perm ((h.filter _).map _)

/-- The first settlement does not depend on the order. -/
theorem earliestSettlement_perm {ss ts : List (Settlement α κ)} (h : ss.Perm ts) :
    earliestSettlement ss = earliestSettlement ts :=
  min?_perm (h.map _)

end Totals

/-! ## Circuits -/

section Circuits

/-- The same evidence in another order. -/
structure Evidence.Perm (e e' : Evidence α κ) : Prop where
  fundings : e.fundings.Perm e'.fundings
  settlements : e.settlements.Perm e'.settlements
  returns : e.returns.Perm e'.returns

/-- Either evidence is a permutation of the other. -/
theorem Evidence.Perm.symm {e e' : Evidence α κ} (h : e.Perm e') : e'.Perm e :=
  ⟨h.fundings.symm, h.settlements.symm, h.returns.symm⟩

/-- Permuted evidence has the same positions in some order. -/
theorem Evidence.Perm.positions {e e' : Evidence α κ} (h : e.Perm e') :
    e.positions.Perm e'.positions :=
  ((h.fundings.flatMap_right _).append (h.settlements.map _)).append (h.returns.flatMap_right _)

variable [LT κ]

/-- A return is valid whatever the order of the settlements. -/
theorem PathOk.settlements_perm {rule : Rule} {seller funder : α}
    {ss ts : List (Settlement α κ)} (hperm : ss.Perm ts) {path : List (Transfer α κ)}
    (h : PathOk rule seller funder ss path) : PathOk rule seller funder ts path := by
  obtain ⟨⟨hstarts, hopens, hmoves, hchained, hwindow⟩, hne, hshort, hends⟩ := h
  refine ⟨⟨hstarts, ?_, hmoves, hchained, hwindow⟩, hne, hshort, hends⟩
  rw [← earliestSettlement_perm hperm]
  exact hopens

variable [DecidableEq α]

/-- The returns of a loop are valid in any order. -/
theorem ReturnLeg.perm {rule : Rule} {seller funder : α} {ss ts : List (Settlement α κ)}
    {ps qs : List (List (Transfer α κ))} (hs : ss.Perm ts) (hp : ps.Perm qs)
    (h : ReturnLeg rule seller funder ss ps) : ReturnLeg rule seller funder ts qs := by
  unfold ReturnLeg at h ⊢
  split
  · rename_i heq
    rw [if_pos heq] at h
    subst h
    exact hp.nil_eq.symm
  · rename_i hne
    rw [if_neg hne] at h
    obtain ⟨hcount, hpaths, hfits, hratio⟩ := h
    rw [← hp.length_eq, ← returnedTotal_perm hp, ← settledTotal_perm hs]
    exact ⟨hcount, fun path hpath => (hpaths path (hp.mem_iff.mpr hpath)).settlements_perm hs,
      hfits, hratio⟩

/-- A circuit stays a circuit when its evidence is reordered. -/
theorem Circuit.perm {rule : Rule} {period : κ → Prop} {seller funder : α} {cohort : List α}
    {e e' : Evidence α κ} (hperm : e.Perm e') (h : Circuit rule period seller funder cohort e) :
    Circuit rule period seller funder cohort e' := by
  obtain ⟨hf, hs, hr⟩ := hperm
  have hpositions := Evidence.Perm.positions ⟨hf, hs, hr⟩
  refine ⟨hpositions.nodup_iff.mp h.distinct, fun p hp => h.inPeriod p (hpositions.mem_iff.mpr hp),
    fun f hmem => h.fundsCohort f (hf.mem_iff.mpr hmem), fun b hb => ?_, ?_,
    fun s hmem => h.settlesWithSeller s (hs.mem_iff.mpr hmem), fun s hmem => ?_, ?_, ?_, ?_,
    h.returns.perm hs hr⟩
  · obtain ⟨f, hmem, hbuyer⟩ := h.everyBuyerFunded b hb
    exact ⟨f, hf.mem_iff.mp hmem, hbuyer⟩
  · intro hnil
    rw [hnil] at hs
    exact h.settles hs.eq_nil
  · rw [← earliestFunding_perm hf]
    exact h.settlesAfterFunding s (hs.mem_iff.mpr hmem)
  · rw [← fundedTotal_perm hf]
    exact h.fundedFits
  · rw [← settledTotal_perm hs]
    exact h.settledFits
  · rw [← settledTotal_perm hs, ← fundedTotal_perm hf]
    exact h.coverage

omit [LT κ] in
/-- A ledger reconciles in any order of the evidence. -/
theorem Reconciled.perm {rule : Rule} {e e' : Evidence α κ} (hperm : e.Perm e') {buyer : α}
    {balance : ℕ} (h : Reconciled rule e buyer balance) : Reconciled rule e' buyer balance := by
  rw [Reconciled, ← settledBy_perm hperm.settlements, ← fundedTo_perm hperm.fundings]
  exact h

end Circuits

/-! ## Exchanges -/

section Exchanges

/-- The same pair evidence in another order. -/
structure PairEvidence.Perm (e e' : PairEvidence α κ) : Prop where
  settlements : e.settlements.Perm e'.settlements
  deposits : e.deposits.Perm e'.deposits

/-- Permuted evidence of a pair has the same positions in some order. -/
theorem PairEvidence.Perm.positions {e e' : PairEvidence α κ} (h : e.Perm e') :
    e.positions.Perm e'.positions :=
  (h.settlements.map _).append (h.deposits.flatMap_right _)

variable [DecidableEq α]

/-- An exchange stays an exchange when its evidence is reordered. -/
theorem Exchange.perm {rule : PairRule} {period : κ → Prop} {a b : α} {e e' : PairEvidence α κ}
    (hperm : e.Perm e') (h : Exchange rule period a b e) : Exchange rule period a b e' := by
  have hpositions := hperm.positions
  obtain ⟨hs, hd⟩ := hperm
  refine ⟨⟨hpositions.nodup_iff.mp h.distinct,
    fun p hp => h.inPeriod p (hpositions.mem_iff.mpr hp),
    fun s hmem => h.betweenPair s (hs.mem_iff.mpr hmem), ?_, ?_, ?_⟩, ?_⟩
  · rw [← settledTotal_perm hs]
    exact h.settledFits
  · rw [Balanced, ← soldBy_perm hs, ← soldBy_perm hs]
    exact h.balanced
  · rw [← fundedTotal_perm hd]
    exact h.depositsFit
  · intro hnil
    rw [hnil] at hs
    exact h.settles hs.eq_nil

omit [DecidableEq α] in
/-- A pair is self-financed in any order of the evidence. -/
theorem SelfFinanced.perm {rule : PairRule} {e e' : PairEvidence α κ} (hperm : e.Perm e')
    {balanceA balanceB : ℕ} (h : SelfFinanced rule e balanceA balanceB) :
    SelfFinanced rule e' balanceA balanceB := by
  rw [SelfFinanced, ← settledTotal_perm hperm.settlements, ← fundedTotal_perm hperm.deposits]
  exact h

end Exchanges

end LoopProof.Loop
