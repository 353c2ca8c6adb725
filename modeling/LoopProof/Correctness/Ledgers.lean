import LoopProof.Correctness.Settlements

/-!
# The ledger stage

The reconciliation is computed with wrapping operators. It is the integer comparison as
long as the proven balance stays below a bound the rule itself does not enforce.
-/

namespace LoopProof

variable {lib : Lib} {input : ClosedLoopInput} {resolver : ChainResolver}
  {fs : List (Loop.Funding Address LogKey)} {ss : List (Loop.Settlement Address LogKey)}

/-- The reconciliation of one buyer as the code computes it, with the left side reduced
modulo the width of its words. -/
def WrappedReconciled (fundings : List (Loop.Funding Address LogKey))
    (settlements : List (Loop.Settlement Address LogKey)) (buyer : Address) (balance : ℕ) : Prop :=
  (balance + Loop.settledBy settlements buyer) * 10000 % 2 ^ 256 ≤
    Loop.fundedTo fundings buyer * 10500

/-- Sums and products of words below the width are exact. -/
private theorem wrappedSides {balance : U256} {settled funded : U128} :
    (balance + widen (by decide) settled) * 10000 ≤
        (widen (by decide) funded : U256) * widen (by decide) (10000 + epsilonLedgerBps) ↔
      (balance.val + settled.val) * 10000 % 2 ^ 256 ≤ funded.val * 10500 := by
  have hten : ((10000 : U256) : ℕ) = 10000 := rfl
  have htol : ((10000 + epsilonLedgerBps : U64) : ℕ) = 10500 := rfl
  have hfunded : funded.val * 10500 < 2 ^ 256 := by
    have := funded.isLt
    omega
  rw [Fin.le_def, Fin.val_mul, Fin.val_mul, Fin.val_add, widen_val, widen_val, widen_val, hten,
    htol, Nat.mod_mul_mod, Nat.mod_eq_of_lt hfunded]

/-- What the ledger stage accepts: one witness per buyer, each proving a balance that the
given test accepts. -/
structure LedgersOk (lib : Lib) (input : ClosedLoopInput) (accepts : Address → ℕ → Prop) :
    Prop where
  count : input.ledgers.length = input.buyers.length
  reconciled : ∀ w ∈ input.buyers.zip input.ledgers, ∃ balance : U256,
    endBalance lib ⟨input.blocks⟩ input.periodEndBlock w.1 w.2 = .ok balance ∧
      accepts w.1 balance.val

theorem LedgersOk.imp {p q : Address → ℕ → Prop} (h : LedgersOk lib input p)
    (himp : ∀ w ∈ input.buyers.zip input.ledgers, ∀ balance : U256,
      endBalance lib ⟨input.blocks⟩ input.periodEndBlock w.1 w.2 = .ok balance →
      p w.1 balance.val → q w.1 balance.val) : LedgersOk lib input q := by
  refine ⟨h.count, fun w hw => ?_⟩
  obtain ⟨balance, hread, hp⟩ := h.reconciled w hw
  exact ⟨balance, hread, himp w hw balance hread hp⟩

/-- The ledger stage accepts exactly the balances that pass the wrapped reconciliation. -/
theorem verifyLedgers_eq_ok {funding : FundingSummary × UsedLogs}
    {settle : SettleSummary × UsedLogs} (hfunding : FundingState funding fs)
    (hsettle : SettleState lib.toCoreLib fs settle ss) :
    verifyLedgers lib input ⟨input.blocks⟩ funding.1 settle.1 = .ok () ↔
      LedgersOk lib input (WrappedReconciled fs ss) := by
  have hone (w : Address × BuyerLedger) :
      verifyLedger lib input ⟨input.blocks⟩ funding.1 settle.1 w = .ok () ↔
        ∃ balance : U256,
          endBalance lib ⟨input.blocks⟩ input.periodEndBlock w.1 w.2 = .ok balance ∧
            WrappedReconciled fs ss w.1 balance.val := by
    simp only [verifyLedger, bind_eq_ok, ensure_eq_ok, wrappedSides, hsettle.perBuyer,
      hfunding.perBuyer]
    rfl
  simp only [verifyLedgers, bind_eq_ok, ensure_eq_ok]
  constructor
  · rintro ⟨_, hcount, hall⟩
    exact ⟨hcount, fun w hw => (hone w).mp (forM_eq_ok.mp hall w hw)⟩
  · rintro ⟨hcount, hall⟩
    exact ⟨(), hcount, forM_eq_ok.mpr fun w hw => (hone w).mpr (hall w hw)⟩

/-- Below the bound no intermediate of the reconciliation wraps. -/
theorem wrappedReconciled_iff {e : Loop.Evidence Address LogKey} {buyer : Address} {balance : ℕ}
    (hbalance : balance < 2 ^ 240) (hfits : Loop.settledTotal e.settlements < 2 ^ 128) :
    WrappedReconciled e.fundings e.settlements buyer balance ↔
      Loop.Reconciled codedRule e buyer balance := by
  have hle := Loop.settledBy_le e.settlements buyer
  have hlt : (balance + Loop.settledBy e.settlements buyer) * 10000 < 2 ^ 256 := by omega
  rw [WrappedReconciled, Nat.mod_eq_of_lt hlt]
  rfl

end LoopProof
