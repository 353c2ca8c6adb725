import LoopProof.Loop.Model

/-!
# Reciprocal exchange

The circular form of a conserved loop: two accounts settle with each other in both
directions out of capital they deposited themselves. The settlements split into the two
sellers' shares; `soldBy_pair` is the exactness of that split.
-/

namespace LoopProof.Loop

/-- The parameters of the pair rule; ratios are in basis points. -/
structure PairRule where
  balanceBps : ℕ
  selfBps : ℕ
  amountBound : ℕ

/-- Everything a pair claim refers to. -/
structure PairEvidence (α κ : Type*) where
  settlements : List (Settlement α κ)
  deposits : List (Funding α κ)

section Shares

variable {α κ : Type*} [DecidableEq α]

/-- The settlements of one seller. -/
def salesOf (settlements : List (Settlement α κ)) (seller : α) : List (Settlement α κ) :=
  settlements.filter (·.seller = seller)

/-- The volume one seller sold. -/
def soldBy (settlements : List (Settlement α κ)) (seller : α) : ℕ :=
  settledTotal (salesOf settlements seller)

theorem salesOf_concat (ss : List (Settlement α κ)) (s : Settlement α κ) (a : α) :
    salesOf (ss ++ [s]) a = salesOf ss a ++ if s.seller = a then [s] else [] := by
  unfold salesOf
  split <;> simp_all [List.filter_append]

theorem soldBy_concat (ss : List (Settlement α κ)) (s : Settlement α κ) (a : α) :
    soldBy (ss ++ [s]) a = soldBy ss a + if s.seller = a then s.amount else 0 := by
  rw [soldBy, salesOf_concat, settledTotal_append, ← soldBy]
  split <;> simp [settledTotal]

/-- A settlement between the two members, in either direction. -/
def BetweenPair (a b : α) (s : Settlement α κ) : Prop :=
  (s.buyer = b ∧ s.seller = a) ∨ (s.buyer = a ∧ s.seller = b)

instance (a b : α) (s : Settlement α κ) : Decidable (BetweenPair a b s) :=
  inferInstanceAs (Decidable (_ ∨ _))

/-- The two shares of an exchange add up to all of its volume. -/
theorem soldBy_pair {a b : α} (hab : a ≠ b) {ss : List (Settlement α κ)}
    (h : ∀ s ∈ ss, BetweenPair a b s) : soldBy ss a + soldBy ss b = settledTotal ss := by
  induction ss with
  | nil => rfl
  | cons s ss ih =>
    have ih' := ih fun x hx => h x (List.mem_cons_of_mem _ hx)
    have hs := h s (List.mem_cons_self ..)
    simp only [soldBy, salesOf, settledTotal, List.filter_cons, List.map_cons,
      List.sum_cons] at ih' ⊢
    rcases hs with ⟨_, hs⟩ | ⟨_, hs⟩
    · simp only [hs, decide_true, if_true, hab, decide_false, Bool.false_eq_true, if_false,
        List.map_cons, List.sum_cons]
      omega
    · simp only [hs, decide_true, if_true, hab.symm, decide_false, Bool.false_eq_true, if_false,
        List.map_cons, List.sum_cons]
      omega

end Shares

section Conditions

variable {α κ : Type*}

/-- The positions of all pair roles, in role order. -/
def PairEvidence.positions (e : PairEvidence α κ) : List κ :=
  e.settlements.map (·.position) ++ fundingPositions e.deposits

/-- Whether the two directional volumes are within the reciprocity ratio. -/
def Balanced [DecidableEq α] (rule : PairRule) (ss : List (Settlement α κ)) (a b : α) : Prop :=
  max (soldBy ss a) (soldBy ss b) * rule.balanceBps ≤ min (soldBy ss a) (soldBy ss b) * 10000

instance [DecidableEq α] (rule : PairRule) (ss : List (Settlement α κ)) (a b : α) :
    Decidable (Balanced rule ss a b) :=
  inferInstanceAs (Decidable (_ ≤ _))

/-- The terms of an exchange: distinct roles inside the period, settlements between the
pair in reciprocal shares, totals that fit. -/
structure ExchangeTerms [DecidableEq α] (rule : PairRule) (period : κ → Prop) (a b : α)
    (e : PairEvidence α κ) : Prop where
  /-- No log plays two roles. -/
  distinct : e.positions.Nodup
  inPeriod : ∀ p ∈ e.positions, period p
  betweenPair : ∀ s ∈ e.settlements, 0 < s.amount ∧ BetweenPair a b s
  settledFits : settledTotal e.settlements < rule.amountBound
  balanced : Balanced rule e.settlements a b
  depositsFit : fundedTotal e.deposits < rule.amountBound

/-- An exchange of a pair; the ledger reconciliation is separate. -/
structure Exchange [DecidableEq α] (rule : PairRule) (period : κ → Prop) (a b : α)
    (e : PairEvidence α κ) : Prop extends ExchangeTerms rule period a b e where
  settles : e.settlements ≠ []

/-- The pair ledger over unbounded integers: what both kept and what they settled came out
of their own deposits, up to the external share. -/
def SelfFinanced (rule : PairRule) (e : PairEvidence α κ) (balanceA balanceB : ℕ) : Prop :=
  (balanceA + balanceB + settledTotal e.settlements) * 10000 ≤
    fundedTotal e.deposits * 10000 + settledTotal e.settlements * (10000 - rule.selfBps)

instance (rule : PairRule) (e : PairEvidence α κ) (balanceA balanceB : ℕ) :
    Decidable (SelfFinanced rule e balanceA balanceB) :=
  inferInstanceAs (Decidable (_ ≤ _))

/-- The two shares partition the settlements of an exchange. -/
theorem ExchangeTerms.salesOf_perm [DecidableEq α] {rule : PairRule} {period : κ → Prop} {a b : α}
    {e : PairEvidence α κ} (h : ExchangeTerms rule period a b e) (hab : a ≠ b) :
    (salesOf e.settlements a ++ salesOf e.settlements b).Perm e.settlements := by
  have hrest : salesOf e.settlements b = e.settlements.filter fun s => !decide (s.seller = a) := by
    refine List.filter_congr fun s hs => ?_
    rcases (h.betweenPair s hs).2 with ⟨_, hs⟩ | ⟨_, hs⟩
    · simp [hs, hab]
    · simp [hs, hab.symm]
  rw [hrest]
  exact List.filter_append_perm _ _

/-- Each settlement of an exchange is in exactly one share. -/
theorem ExchangeTerms.sales_once [DecidableEq α] {rule : PairRule} {period : κ → Prop} {a b : α}
    {e : PairEvidence α κ} (h : ExchangeTerms rule period a b e) (hab : a ≠ b)
    {s : Settlement α κ} (hs : s ∈ e.settlements) :
    Xor (s ∈ salesOf e.settlements a) (s ∈ salesOf e.settlements b) := by
  simp only [salesOf, List.mem_filter, hs, true_and, decide_eq_true_eq]
  rcases (h.betweenPair s hs).2 with ⟨_, hs⟩ | ⟨_, hs⟩
  · exact .inl ⟨hs, fun h => hab (hs.symm.trans h)⟩
  · exact .inr ⟨hs, fun h => hab (h.symm.trans hs)⟩

/-- An exchange moves a positive volume. -/
theorem settledTotal_pos {ss : List (Settlement α κ)} (hne : ss ≠ [])
    (h : ∀ s ∈ ss, 0 < s.amount) : 0 < settledTotal ss := by
  obtain ⟨s, rest, rfl⟩ := List.exists_cons_of_ne_nil hne
  have hs := h s (List.mem_cons_self ..)
  simp only [settledTotal, List.map_cons, List.sum_cons]
  omega

/-- Reciprocity makes both shares positive. -/
theorem Exchange.soldBy_pos [DecidableEq α] {rule : PairRule} {period : κ → Prop} {a b : α}
    {e : PairEvidence α κ} (h : Exchange rule period a b e) (hab : a ≠ b)
    (hrule : 0 < rule.balanceBps) :
    0 < soldBy e.settlements a ∧ 0 < soldBy e.settlements b := by
  have htotal := settledTotal_pos h.settles fun s hs => (h.betweenPair s hs).1
  rw [← soldBy_pair hab fun s hs => (h.betweenPair s hs).2] at htotal
  have hbalanced := h.balanced
  have hmax : 0 < max (soldBy e.settlements a) (soldBy e.settlements b) := by omega
  have hmin : 0 < min (soldBy e.settlements a) (soldBy e.settlements b) := by
    by_contra hzero
    have hprod := Nat.mul_pos hmax hrule
    have hle : min (soldBy e.settlements a) (soldBy e.settlements b) * 10000 = 0 := by omega
    rw [Balanced, hle] at hbalanced
    omega
  omega

/-- A self-financed exchange covered its own share of the volume. -/
theorem SelfFinanced.covers {rule : PairRule} {e : PairEvidence α κ} {balanceA balanceB : ℕ}
    (h : SelfFinanced rule e balanceA balanceB) (hrule : rule.selfBps ≤ 10000) :
    settledTotal e.settlements * rule.selfBps ≤ fundedTotal e.deposits * 10000 := by
  unfold SelfFinanced at h
  have hsplit : settledTotal e.settlements * (10000 - rule.selfBps) +
      settledTotal e.settlements * rule.selfBps = settledTotal e.settlements * 10000 := by
    rw [← Nat.mul_add, Nat.sub_add_cancel hrule]
  rw [Nat.add_mul] at h
  omega

end Conditions

end LoopProof.Loop
