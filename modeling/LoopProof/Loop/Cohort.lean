import LoopProof.Loop.Pair
import Mathlib.Algebra.BigOperators.Ring.List
import Mathlib.Algebra.Order.Ring.Nat
import Mathlib.Algebra.Order.BigOperators.Group.List

/-!
# Ledgers of a cohort

The ledgers of single buyers add up over the cohort, and a smaller balance never breaks a
ledger.
-/

namespace LoopProof.Loop

/-- A value placed at one key of a duplicate-free list is its sum. -/
theorem sum_indicator {α : Type*} [DecidableEq α] {keys : List α} (hkeys : keys.Nodup) {a : α}
    (ha : a ∈ keys) (v : ℕ) : (keys.map fun k => if k = a then v else 0).sum = v := by
  induction keys with
  | nil => cases ha
  | cons k keys ih =>
    obtain ⟨hk, hkeys⟩ := List.nodup_cons.mp hkeys
    rw [List.map_cons, List.sum_cons]
    by_cases heq : k = a
    · have hrest : (keys.map fun k => if k = a then v else 0) = keys.map fun _ => 0 :=
        List.map_congr_left fun k' hk' => if_neg fun (h : k' = a) => hk (heq.trans h.symm ▸ hk')
      rw [if_pos heq, hrest]
      simp
    · rw [if_neg heq, Nat.zero_add]
      exact ih hkeys ((List.mem_cons.mp ha).resolve_left (Ne.symm heq))

/-- Sums grouped by a key add up to the whole sum when every key is listed once. -/
theorem sum_groups {α β : Type*} [DecidableEq α] {key : β → α} {value : β → ℕ} {keys : List α}
    (hkeys : keys.Nodup) {xs : List β} (h : ∀ x ∈ xs, key x ∈ keys) :
    (keys.map fun k => ((xs.filter (key · = k)).map value).sum).sum = (xs.map value).sum := by
  induction xs with
  | nil => simp
  | cons x xs ih =>
    rw [List.forall_mem_cons] at h
    have hsplit : ∀ k, (((x :: xs).filter (key · = k)).map value).sum =
        (if k = key x then value x else 0) + ((xs.filter (key · = k)).map value).sum := by
      intro k
      by_cases hk : key x = k
      · rw [List.filter_cons_of_pos (by simpa using hk), if_pos hk.symm, List.map_cons,
          List.sum_cons]
      · rw [List.filter_cons_of_neg (by simpa using hk), if_neg (Ne.symm hk), Nat.zero_add]
    simp only [hsplit]
    rw [List.sum_map_add, ih h.2, List.map_cons, List.sum_cons, sum_indicator hkeys h.1]

variable {α κ : Type*} [DecidableEq α] {rule : Rule} {e : Evidence α κ}

/-- A reconciled buyer stays reconciled with a smaller balance. -/
theorem Reconciled.mono {buyer : α} {balance balance' : ℕ} (h : Reconciled rule e buyer balance)
    (hle : balance' ≤ balance) : Reconciled rule e buyer balance' := by
  unfold Reconciled at h ⊢
  exact (Nat.mul_le_mul_right _ (Nat.add_le_add_right hle _)).trans h

omit [DecidableEq α] in
/-- A self-financed pair stays self-financed with smaller balances. -/
theorem SelfFinanced.mono {rule : PairRule} {e : PairEvidence α κ}
    {balanceA balanceA' balanceB balanceB' : ℕ} (h : SelfFinanced rule e balanceA balanceB)
    (hA : balanceA' ≤ balanceA) (hB : balanceB' ≤ balanceB) :
    SelfFinanced rule e balanceA' balanceB' := by
  unfold SelfFinanced at h ⊢
  refine (Nat.mul_le_mul_right _ ?_).trans h
  omega

/-- A cohort whose ledgers all reconcile settled at most its funding, within the tolerance. -/
theorem settledTotal_le_funded {cohort : List α} (hcohort : cohort.Nodup)
    (hfunds : ∀ f ∈ e.fundings, f.buyer ∈ cohort) (hbuys : ∀ s ∈ e.settlements, s.buyer ∈ cohort)
    (h : ∀ b ∈ cohort, ∃ balance, Reconciled rule e b balance) :
    settledTotal e.settlements * 10000 ≤ fundedTotal e.fundings * (10000 + rule.toleranceBps) := by
  have hsettled : (cohort.map (settledBy e.settlements)).sum = settledTotal e.settlements :=
    sum_groups hcohort hbuys
  have hfunded : (cohort.map (fundedTo e.fundings)).sum = fundedTotal e.fundings :=
    sum_groups hcohort hfunds
  calc settledTotal e.settlements * 10000
      = (cohort.map fun b => settledBy e.settlements b * 10000).sum := by
        rw [← hsettled, List.sum_map_mul_right]
    _ ≤ (cohort.map fun b => fundedTo e.fundings b * (10000 + rule.toleranceBps)).sum := by
        refine List.sum_le_sum fun b hb => ?_
        obtain ⟨balance, hb⟩ := h b hb
        exact (Nat.mul_le_mul_right _ (Nat.le_add_left _ _)).trans hb
    _ = fundedTotal e.fundings * (10000 + rule.toleranceBps) := by
        rw [← hfunded, List.sum_map_mul_right]

end LoopProof.Loop
