import LoopProof.Predicate.Evidence

/-!
# Claim journals and identifiers

The journal a predicate returns, and the hashes that name settlements and claims.
Every preimage is a sequence of ABI argument words.
-/

namespace LoopProof

/-- A settlement by the id of its log, with its amount. -/
structure SettlementRecord where
  settlementId : B256
  amount : U128
  deriving DecidableEq, Repr

/-- One address whose volume is proven, with its settlements. -/
structure SubjectRecord where
  subject : Address
  washVolume : U128
  settlements : List SettlementRecord
  deriving DecidableEq, Repr

/-- What a claim proves, and the blocks it rests on. -/
structure WashJournal where
  predicateId : UInt8
  chainId : U64
  periodStartBlock : U64
  periodEndBlock : U64
  sourceClaimId : B256
  claimId : B256
  subjects : List SubjectRecord
  blockRefs : List (U64 × B256)
  deriving DecidableEq, Repr

/-- The bytes hashed for a settlement identifier: four static argument words. -/
def settlementPreimage (chainId blockNumber transactionIndex : U64) (logIndex : Usize) : Bytes :=
  abiWords [chainId.val, blockNumber.val, transactionIndex.val, logIndex.val]

/-- Identifier of a settlement by its on-chain position. -/
def settlementId (lib : CoreLib) (chainId blockNumber transactionIndex : U64)
    (logIndex : Usize) : B256 :=
  lib.keccak256 (settlementPreimage chainId blockNumber transactionIndex logIndex)

/-- Different positions are hashed from different bytes. -/
theorem settlementPreimage_injective {c c' n n' t t' : U64} {l l' : Usize}
    (h : settlementPreimage c n t l = settlementPreimage c' n' t' l') :
    c = c' ∧ n = n' ∧ t = t' ∧ l = l' := by
  have hfit (a b d e : U64) : ∀ n ∈ [a.val, b.val, d.val, e.val], n < 2 ^ 256 := by
    simp only [List.forall_mem_cons, List.not_mem_nil, false_implies, implies_true]
    exact ⟨val_lt_abi (by decide) a, val_lt_abi (by decide) b, val_lt_abi (by decide) d,
      val_lt_abi (by decide) e, trivial⟩
  have hw := abiWords_injective (hfit c n t l) (hfit c' n' t' l') h
  simpa only [List.cons.injEq, Fin.val_inj, and_true] using hw

/-- Hash of the ABI-encoded buyer array: offset, length, then one word per buyer. -/
def cohortHash (lib : CoreLib) (buyers : List Address) : B256 :=
  lib.keccak256 (abiWords (32 :: buyers.length :: buyers.map Fin.val))

/-- Hash of a successful serialization. -/
def canonicalEvidenceHash (lib : CoreLib) (serialized : Except String Bytes) : Outcome B256 := do
  let bytes ← serialized.mapError fun e => .err s!"canonical evidence serialization: {e}"
  return lib.keccak256 bytes

/-- Identifier of a closed-loop claim. -/
def closedLoopClaimId (lib : CoreLib) (periodStartBlock periodEndBlock : U64)
    (seller funder : Address) (cohort evidenceHash : B256) : B256 :=
  lib.keccak256 (abiWords [baseChainId.val, closedLoopPredicateId.toNat, predicateVersion,
    periodStartBlock.val, periodEndBlock.val, seller.val, funder.val, cohort.val,
    evidenceHash.val])

/-- Identifier of a reciprocal claim. -/
def reciprocalClaimId (lib : CoreLib) (periodStartBlock periodEndBlock : U64)
    (addressA addressB : Address) (evidenceHash : B256) : B256 :=
  lib.keccak256 (abiWords [baseChainId.val, reciprocalPredicateId.toNat, predicateVersion,
    periodStartBlock.val, periodEndBlock.val, addressA.val, addressB.val, evidenceHash.val])

end LoopProof
