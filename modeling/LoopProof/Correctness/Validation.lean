import LoopProof.Predicate.Shared

/-!
# What the shared checks accept

Order-free characterizations of the address check, block authentication and the ratio
test. The ratio test is exact over the integers: neither product can reach 256 bits.
-/

namespace LoopProof

/-- The ratio test compares the integer products. -/
theorem meetsRatio_iff {numerator total : U128} {ratioBps : U64} :
    meetsRatio numerator total ratioBps = true ↔
      total.val * ratioBps.val ≤ numerator.val * 10000 := by
  have hn := numerator.isLt
  have ht := total.isLt
  have hr := ratioBps.isLt
  have hprod : total.val * ratioBps.val < 2 ^ 256 := by
    calc total.val * ratioBps.val ≤ 2 ^ 128 * 2 ^ 64 := Nat.mul_le_mul ht.le hr.le
      _ < 2 ^ 256 := by norm_num
  have hnum : numerator.val * 10000 < 2 ^ 256 := by omega
  have hten : ((10000 : U256) : ℕ) = 10000 := rfl
  simp only [meetsRatio, decide_eq_true_eq, Fin.le_def, Fin.val_mul, widen_val, hten,
    Nat.mod_eq_of_lt hprod, Nat.mod_eq_of_lt hnum]

theorem ensureEventInPeriod_eq_ok {block periodStart periodEnd : U64} {label : String} {u : Unit} :
    ensureEventInPeriod block periodStart periodEnd label = .ok u ↔
      periodStart ≤ block ∧ block ≤ periodEnd := by
  simp only [ensureEventInPeriod, ensure_eq_ok]

/-- A duplicate-free list grows by new elements. -/
theorem nodup_concat {α : Type*} {xs : List α} {x : α} : (xs ++ [x]).Nodup ↔ xs.Nodup ∧ x ∉ xs := by
  rw [← List.concat_eq_append, List.nodup_concat]
  exact and_comm

theorem nodup_map_concat {α β : Type*} {f : α → β} {xs : List α} {x : α} :
    ((xs ++ [x]).map f).Nodup ↔ (xs.map f).Nodup ∧ f x ∉ xs.map f := by
  rw [List.map_append, List.map_singleton, nodup_concat]

section Consumption

variable {keys : List LogKey} {key key' : LogKey} {duplicate : String} {used : UsedLogs}

/-- Consuming one position extends a duplicate-free list of consumed positions. -/
theorem insertNew_toFinset : UsedLogs.insertNew keys.toFinset key duplicate = .ok used ↔
    key ∉ keys ∧ used = (keys ++ [key]).toFinset := by
  rw [UsedLogs.insertNew_eq_ok, List.mem_toFinset]
  refine and_congr_right fun _ => ?_
  rw [eq_comm]
  refine iff_of_eq (congrArg (used = ·) ?_)
  ext p
  simp

end Consumption

section Addresses

private theorem sortedUniqueFrom_iff_isChain {previous : Option Address} {values : List Address} :
    sortedUniqueFrom previous values = true ↔
      (∀ v ∈ values, v ≠ 0) ∧ (previous.toList ++ values).IsChain (· < ·) := by
  induction values generalizing previous with
  | nil => cases previous <;> simp [sortedUniqueFrom]
  | cons v rest ih =>
    cases previous with
    | none =>
      simp only [sortedUniqueFrom, Option.all_none, Bool.and_true, Bool.and_eq_true, bne_iff_ne,
        ih, Option.toList_some, List.singleton_append, Option.toList_none, List.nil_append,
        List.forall_mem_cons]
      tauto
    | some p =>
      simp only [sortedUniqueFrom, Option.all_some, Bool.and_eq_true, bne_iff_ne,
        decide_eq_true_eq, ih, Option.toList_some, List.singleton_append, List.forall_mem_cons,
        List.isChain_cons_cons]
      tauto

/-- The address check accepts exactly the strictly increasing lists of nonzero values. -/
theorem sortedUniqueFrom_iff {values : List Address} :
    sortedUniqueFrom none values = true ↔ (∀ v ∈ values, v ≠ 0) ∧ values.Pairwise (· < ·) := by
  rw [sortedUniqueFrom_iff_isChain, Option.toList_none, List.nil_append,
    List.isChain_iff_pairwise]

theorem validateSortedUniqueAddresses_eq_ok {values : List Address} {lo hi : ℕ} {label : String}
    {u : Unit} : validateSortedUniqueAddresses values lo hi label = .ok u ↔
      (lo ≤ values.length ∧ values.length ≤ hi) ∧ (∀ v ∈ values, v ≠ 0) ∧
        values.Pairwise (· < ·) := by
  simp only [validateSortedUniqueAddresses, bind_eq_ok, ensure_eq_ok, sortedUniqueFrom_iff]
  constructor
  · rintro ⟨_, h, hs⟩
    exact ⟨h, hs⟩
  · rintro ⟨h, hs⟩
    exact ⟨(), h, hs⟩

end Addresses

section Blocks

/-- Items verified in order are exactly distinct, individually verified items. -/
theorem authenticateItems_eq_ok {α : Type} {index : α → U64} {verify : α → Outcome Unit}
    {duplicate : String} {seen : Finset U64} {items : List α} :
    authenticateItems index verify duplicate seen items = .ok () ↔
      (∀ item ∈ items, index item ∉ seen) ∧ (items.map index).Nodup ∧
        ∀ item ∈ items, verify item = .ok () := by
  induction items generalizing seen with
  | nil => simp [authenticateItems]
  | cons item rest ih =>
    simp only [authenticateItems, bind_eq_ok, ensure_eq_ok, ih, Finset.mem_insert, not_or,
      List.map_cons, List.nodup_cons, List.mem_map, not_exists, not_and, List.forall_mem_cons]
    constructor
    · rintro ⟨_, hseen, _, hverify, hrest, hnodup, hall⟩
      exact ⟨⟨hseen, fun x hx => (hrest x hx).2⟩, ⟨fun x hx => (hrest x hx).1, hnodup⟩,
        hverify, hall⟩
    · rintro ⟨⟨hseen, hrest⟩, ⟨hne, hnodup⟩, hverify, hall⟩
      exact ⟨(), hseen, (), hverify, fun x hx => ⟨hne x hx, hrest x hx⟩, hnodup, hall⟩

variable {lib : CoreLib}

/-- The reference of one block: its number and header hash. -/
def EvidenceBlock.reference (lib : CoreLib) (block : EvidenceBlock) : U64 × B256 :=
  (block.header.number, lib.hashSlow block.header)

/-- Every proof of the block authenticates, and no index is proved twice. -/
structure BlockAuthentic (lib : CoreLib) (block : EvidenceBlock) : Prop where
  receiptIndexes : (block.receipts.map ReceiptProof.txIndex).Nodup
  receipts : ∀ r ∈ block.receipts, verifyReceiptInclusion lib block.header r = .ok ()
  transactionIndexes : (block.transactions.map TransactionProof.txIndex).Nodup
  transactions : ∀ t ∈ block.transactions, verifyTransactionInclusion lib block.header t = .ok ()

/-- The block evidence of a claim: distinct, authentic blocks of the witness window. -/
structure BlocksAuthentic (lib : CoreLib) (blocks : List EvidenceBlock)
    (periodStart periodEnd : U64) : Prop where
  nonempty : blocks ≠ []
  count : blocks.length ≤ maxBlockRefs
  numbers : (blocks.map (·.header.number)).Nodup
  window : ∀ b ∈ blocks, periodStart.val - 1 ≤ b.header.number.val ∧ b.header.number ≤ periodEnd
  authentic : ∀ b ∈ blocks, BlockAuthentic lib b

private theorem blockAuthentic_iff {block : EvidenceBlock} :
    BlockAuthentic lib block ↔ authenticateReceipts lib block = .ok () ∧
      authenticateTransactions lib block = .ok () := by
  simp only [authenticateReceipts, authenticateTransactions, authenticateItems_eq_ok,
    Finset.notMem_empty, not_false_eq_true, implies_true, true_and]
  constructor
  · rintro ⟨hri, hr, hti, ht⟩
    exact ⟨⟨hri, hr⟩, hti, ht⟩
  · rintro ⟨⟨hri, hr⟩, hti, ht⟩
    exact ⟨hri, hr, hti, ht⟩

private theorem authenticateBlockList_eq_ok {periodStart periodEnd : U64} {seen : Finset U64}
    {blocks : List EvidenceBlock} {refs : List (U64 × B256)} :
    authenticateBlockList lib periodStart periodEnd seen blocks = .ok refs ↔
      (∀ b ∈ blocks, b.header.number ∉ seen) ∧ (blocks.map (·.header.number)).Nodup ∧
      (∀ b ∈ blocks, periodStart.val - 1 ≤ b.header.number.val ∧ b.header.number ≤ periodEnd) ∧
      (∀ b ∈ blocks, BlockAuthentic lib b) ∧ refs = blocks.map (EvidenceBlock.reference lib) := by
  induction blocks generalizing seen refs with
  | nil => simp [authenticateBlockList, eq_comm]
  | cons b rest ih =>
    simp only [authenticateBlockList, bind_eq_ok, ensure_eq_ok, pure_eq_ok, ih,
      Finset.mem_insert, not_or, List.map_cons, List.nodup_cons, List.mem_map, not_exists,
      not_and, List.forall_mem_cons, Fin.le_def, saturatingSub_val]
    constructor
    · rintro ⟨_, hwindow, _, hseen, _, hr, _, ht, refs', ⟨hrest, hnodup, hw, ha, rfl⟩, rfl⟩
      exact ⟨⟨hseen, fun x hx => (hrest x hx).2⟩, ⟨fun x hx => (hrest x hx).1, hnodup⟩,
        ⟨hwindow, hw⟩, ⟨blockAuthentic_iff.mpr ⟨hr, ht⟩, ha⟩, rfl⟩
    · rintro ⟨⟨hseen, hrest⟩, ⟨hne, hnodup⟩, ⟨hwindow, hw⟩, ⟨hb, ha⟩, rfl⟩
      obtain ⟨hr, ht⟩ := blockAuthentic_iff.mp hb
      exact ⟨(), hwindow, (), hseen, (), hr, (), ht, _,
        ⟨fun x hx => ⟨hne x hx, hrest x hx⟩, hnodup, hw, ha, rfl⟩, rfl⟩

/-- The references of the blocks in order of number. -/
def sortedReferences (lib : CoreLib) (blocks : List EvidenceBlock) : List (U64 × B256) :=
  (blocks.map (EvidenceBlock.reference lib)).insertionSort fun left right => left.1 ≤ right.1

/-- Block authentication accepts exactly the authentic blocks and returns their sorted
references. -/
theorem authenticateBlocks_eq_ok {blocks : List EvidenceBlock} {periodStart periodEnd : U64}
    {refs : List (U64 × B256)} :
    authenticateBlocks lib blocks periodStart periodEnd = .ok refs ↔
      BlocksAuthentic lib blocks periodStart periodEnd ∧ refs = sortedReferences lib blocks := by
  simp only [authenticateBlocks, bind_eq_ok, pure_eq_ok, ensure_eq_ok,
    authenticateBlockList_eq_ok, Finset.notMem_empty, not_false_eq_true, implies_true, true_and]
  constructor
  · rintro ⟨_, ⟨hne, hcount⟩, _, ⟨hnodup, hw, ha, rfl⟩, rfl⟩
    exact ⟨⟨hne, hcount, hnodup, hw, ha⟩, rfl⟩
  · rintro ⟨⟨hne, hcount, hnodup, hw, ha⟩, rfl⟩
    exact ⟨(), ⟨hne, hcount⟩, _, ⟨hnodup, hw, ha, rfl⟩, rfl⟩

theorem mem_sortedReferences {blocks : List EvidenceBlock} {entry : U64 × B256} :
    entry ∈ sortedReferences lib blocks ↔ ∃ b ∈ blocks, b.reference lib = entry := by
  simp only [sortedReferences, List.mem_insertionSort, List.mem_map]

/-- Blocks of distinct numbers have strictly increasing references. -/
theorem sortedReferences_pairwise {blocks : List EvidenceBlock}
    (h : (blocks.map (·.header.number)).Nodup) :
    (sortedReferences lib blocks).Pairwise fun left right => left.1 < right.1 := by
  have hle : (sortedReferences lib blocks).Pairwise fun left right => left.1 ≤ right.1 :=
    List.pairwise_insertionSort _ _
  have hmap : ((sortedReferences lib blocks).map Prod.fst).Perm
      (blocks.map (·.header.number)) := by
    have := (List.perm_insertionSort (fun left right : U64 × B256 => left.1 ≤ right.1)
      (blocks.map (EvidenceBlock.reference lib))).map Prod.fst
    rwa [List.map_map] at this
  have hne : (sortedReferences lib blocks).Pairwise fun left right => left.1 ≠ right.1 :=
    List.pairwise_map.mp (hmap.nodup_iff.mpr h)
  exact hle.imp₂ (fun _ _ hab hne => lt_of_le_of_ne hab hne) hne

end Blocks

end LoopProof
