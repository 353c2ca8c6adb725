import LoopProof.Case.Funding
import LoopProof.Lib.GroupCover

/-!
# The fundings of a case are exact and fewest

Every buyer's fundings are a group that its ledger requires to be covered, and the share of the
whole volume is required over all groups. The builder's choice is the cover of these groups.
-/

namespace LoopProof.Case

/-- A quotient rounded up is the least bound of its numerator. -/
theorem ceilDiv_le_iff {numerator denominator bound : ℕ} (h : 0 < denominator) :
    ceilDiv numerator denominator ≤ bound ↔ numerator ≤ bound * denominator := by
  rw [ceilDiv, Nat.div_le_iff_le_mul h, Nat.mul_comm]
  omega

/-- The target is met exactly when the ledger inequality holds. -/
theorem requiredFunding_le_iff {settled balanceEnd funded : ℕ} :
    requiredFunding settled balanceEnd ≤ funded ↔
      (settled + balanceEnd) * 10000 ≤ funded * 10500 := by
  rw [requiredFunding, ceilDiv_le_iff (by decide), Nat.add_comm]
  rfl

theorem requiredFunding_pos {settled balanceEnd : ℕ} (h : 0 < settled) :
    0 < requiredFunding settled balanceEnd := by
  by_contra hzero
  have hle := requiredFunding_le_iff.mp (Nat.le_of_not_lt hzero)
  omega

instance transCmpLargestFirst : Std.TransCmp largestFirst :=
  haveI : Std.TransCmp fun left right : Entry => compare right.amount left.amount :=
    @transCmp_on ℕ (fun left right => compare right left) _ _ Entry.amount
  inferInstanceAs (Std.TransCmp (compareLex (fun left right : Entry =>
    compare right.amount left.amount) (compareOn Entry.tx)))

theorem amount_le_of_largestFirst {left right : Entry} (h : (largestFirst left right).isLE) :
    right.amount ≤ left.amount := by
  rw [largestFirst, Ordering.isLE_then_iff_and] at h
  exact Nat.isLE_compare.mp h.1

/-- Sorted entries stand from the largest amount on. -/
theorem pairwise_largestFirst (entries : List Entry) :
    (sortBy largestFirst entries).Pairwise fun a b => b.amount ≤ a.amount :=
  (pairwise_sortBy entries).imp fun {_ _} => amount_le_of_largestFirst

private theorem forall₂_and {α β : Type} {R S : α → β → Prop} {xs : List α} {ys : List β}
    (hR : List.Forall₂ R xs ys) (hS : List.Forall₂ S xs ys) :
    List.Forall₂ (fun x y => R x y ∧ S x y) xs ys := by
  induction hR with
  | nil => exact .nil
  | cons hxy _ ih =>
    obtain ⟨hfirst, hrest⟩ := List.forall₂_cons.mp hS
    exact .cons ⟨hxy, hfirst⟩ (ih hrest)

section Selection

variable (buyerSettlements buyerFundings : Address → List Entry) (buyerEndBalances : Address → ℕ)
  (kind : String)

/-- A buyer's fundings, with what its ledger requires of them. -/
def fundingGroup (buyer : Address) : CoverGroup fun entry : CaseFunding => entry.amount where
  required := requiredFunding (totalAmount (buyerSettlements buyer)) (buyerEndBalances buyer)
  entries := (sortBy largestFirst (buyerFundings buyer)).map (caseFunding kind buyer)
  sorted := List.pairwise_map.mpr (pairwise_largestFirst (buyerFundings buyer))

/-- A share of its fundings for every listed buyer that meets every rule of the predicate. -/
structure Satisfies (fundedBuyers : List Address) (shares : List (List CaseFunding)) : Prop where
  part : List.Forall₂
    (fun buyer share => share.Subperm ((buyerFundings buyer).map (caseFunding kind buyer)))
    fundedBuyers shares
  ledger : List.Forall₂
    (fun buyer share =>
      (totalAmount (buyerSettlements buyer) + buyerEndBalances buyer) * 10000 ≤
        (share.map fun entry => entry.amount).sum * 10500)
    fundedBuyers shares
  fund : 9000 * settledTotal buyerSettlements fundedBuyers ≤
    (shares.flatten.map fun entry => entry.amount).sum * 10000

/-- A group's chosen fundings are selected and its spare ones are left over. -/
def Covered.add (covered : Covered) (group : CoverGroup fun entry : CaseFunding => entry.amount) :
    Covered :=
  ⟨covered.selected ++ group.chosen, covered.remaining ++ group.spare,
    covered.fundedTotal + (group.chosen.map fun entry => entry.amount).sum⟩

/-- What the fundings of all buyers are required to reach together. -/
def aggregateTarget (fundedBuyers : List Address) : ℕ :=
  ceilDiv (settledTotal buyerSettlements fundedBuyers * alphaFundBps) 10000

variable {buyerSettlements buyerFundings buyerEndBalances kind}

/-- The rules are the requirements of the groups. -/
theorem satisfies_iff {fundedBuyers : List Address} {shares : List (List CaseFunding)} :
    Satisfies buyerSettlements buyerFundings buyerEndBalances kind fundedBuyers shares ↔
      GroupCover (aggregateTarget buyerSettlements fundedBuyers)
        (fundedBuyers.map (fundingGroup buyerSettlements buyerFundings buyerEndBalances kind))
        shares := by
  have hshare (buyer : Address) (share : List CaseFunding) :
      (fundingGroup buyerSettlements buyerFundings buyerEndBalances kind buyer).Share share ↔
        share.Subperm ((buyerFundings buyer).map (caseFunding kind buyer)) ∧
          (totalAmount (buyerSettlements buyer) + buyerEndBalances buyer) * 10000 ≤
            (share.map fun entry => entry.amount).sum * 10500 := by
    have hperm := (@sortBy_perm _ largestFirst (buyerFundings buyer)).map (caseFunding kind buyer)
    constructor
    · intro h
      exact ⟨h.part.trans hperm.subperm, requiredFunding_le_iff.mp h.enough⟩
    · intro h
      exact ⟨h.1.trans hperm.symm.subperm, requiredFunding_le_iff.mpr h.2⟩
  have hshares : List.Forall₂ CoverGroup.Share
      (fundedBuyers.map (fundingGroup buyerSettlements buyerFundings buyerEndBalances kind))
        shares ↔ List.Forall₂ (fun buyer share =>
        share.Subperm ((buyerFundings buyer).map (caseFunding kind buyer)) ∧
          (totalAmount (buyerSettlements buyer) + buyerEndBalances buyer) * 10000 ≤
            (share.map fun entry => entry.amount).sum * 10500) fundedBuyers shares := by
    rw [List.forall₂_map_left_iff]
    simp only [hshare]
  have htotal : aggregateTarget buyerSettlements fundedBuyers ≤
        (shares.flatten.map fun entry => entry.amount).sum ↔
      9000 * settledTotal buyerSettlements fundedBuyers ≤
        (shares.flatten.map fun entry => entry.amount).sum * 10000 := by
    rw [aggregateTarget, ceilDiv_le_iff (by decide), Nat.mul_comm]
    rfl
  constructor
  · intro h
    exact ⟨hshares.mpr (forall₂_and h.part h.ledger), htotal.mpr h.fund⟩
  · intro h
    have hboth := hshares.mp h.share
    exact ⟨hboth.imp fun _ _ => And.left, hboth.imp fun _ _ => And.right, htotal.mp h.enough⟩

/-- A covered buyer has fundings, adds its chosen ones and leaves its spare ones over. -/
theorem coverBuyer_iff {covered next : Covered} {buyer : Address}
    {group : CoverGroup fun entry : CaseFunding => entry.amount}
    (hgroup : fundingGroup buyerSettlements buyerFundings buyerEndBalances kind buyer = group) :
    coverBuyer buyerSettlements buyerFundings buyerEndBalances kind covered buyer = .ok next ↔
      group.entries ≠ [] ∧
        group.required ≤ (group.chosen.map fun entry => entry.amount).sum ∧
        covered.add group = next := by
  subst hgroup
  let group := fundingGroup buyerSettlements buyerFundings buyerEndBalances kind buyer
  have hchosen : group.chosen = (takeEnough Entry.amount
      (sortBy largestFirst (buyerFundings buyer)).length group.required 0 0
      (sortBy largestFirst (buyerFundings buyer))).map (caseFunding kind buyer) := by
    rw [CoverGroup.chosen]
    change takeEnough _ (List.map _ _).length _ _ _ (List.map _ _) = _
    rw [takeEnough_map, List.length_map]
    rfl
  have hspare : group.spare = ((sortBy largestFirst (buyerFundings buyer)).drop
      (takeEnough Entry.amount (sortBy largestFirst (buyerFundings buyer)).length group.required 0 0
        (sortBy largestFirst (buyerFundings buyer))).length).map (caseFunding kind buyer) := by
    rw [CoverGroup.spare, hchosen, List.length_map, List.map_drop]
    rfl
  have htotal : (group.chosen.map fun entry => entry.amount).sum =
      totalAmount (takeEnough Entry.amount
        (sortBy largestFirst (buyerFundings buyer)).length group.required 0 0
        (sortBy largestFirst (buyerFundings buyer))) := by
    rw [hchosen, List.map_map]
    rfl
  have hsome : group.entries ≠ [] ↔ sortBy largestFirst (buyerFundings buyer) ≠ [] :=
    not_congr List.map_eq_nil_iff
  have hadd : covered.add group = ⟨covered.selected ++ group.chosen,
      covered.remaining ++ group.spare,
      covered.fundedTotal + (group.chosen.map fun entry => entry.amount).sum⟩ := rfl
  rw [hspare, htotal, hchosen] at hadd
  change _ ↔ group.entries ≠ [] ∧
    group.required ≤ (group.chosen.map fun entry => entry.amount).sum ∧ covered.add group = next
  rw [htotal, hadd, hsome]
  simp only [coverBuyer, bind_eq_ok, ensure_eq_ok, pure_eq_ok]
  constructor
  · rintro ⟨_, hcandidates, _, henough, hnext⟩
    exact ⟨hcandidates, henough, hnext⟩
  · rintro ⟨hcandidates, henough, hnext⟩
    exact ⟨(), hcandidates, (), henough, hnext⟩

/-- A buyer that settled has fundings as soon as they are enough for it. -/
theorem coverBuyer_eq_ok {covered next : Covered} {buyer : Address}
    {group : CoverGroup fun entry : CaseFunding => entry.amount}
    (hgroup : fundingGroup buyerSettlements buyerFundings buyerEndBalances kind buyer = group)
    (hpos : 0 < totalAmount (buyerSettlements buyer)) :
    coverBuyer buyerSettlements buyerFundings buyerEndBalances kind covered buyer = .ok next ↔
      group.required ≤ (group.chosen.map fun entry => entry.amount).sum ∧
        covered.add group = next := by
  rw [coverBuyer_iff hgroup, and_iff_right_of_imp]
  intro h hempty
  have hzero : (group.chosen.map fun entry => entry.amount).sum = 0 := by
    rw [CoverGroup.chosen, hempty]
    rfl
  have hrequired : 0 < group.required := hgroup ▸ requiredFunding_pos hpos
  have henough := h.1
  omega

theorem foldl_add (groups : List (CoverGroup fun entry : CaseFunding => entry.amount))
    (covered : Covered) :
    groups.foldl Covered.add covered =
      ⟨covered.selected ++ groups.flatMap CoverGroup.chosen,
        covered.remaining ++ groups.flatMap CoverGroup.spare,
        covered.fundedTotal +
          ((groups.flatMap CoverGroup.chosen).map fun entry => entry.amount).sum⟩ := by
  induction groups generalizing covered with
  | nil => simp only [List.foldl_nil, List.flatMap_nil, List.append_nil, List.map_nil,
      List.sum_nil, Nat.add_zero]
  | cons group groups ih =>
    rw [List.foldl_cons, ih]
    simp only [Covered.add, List.flatMap_cons, List.append_assoc, List.map_append,
      List.sum_append, Nat.add_assoc]

/-- The buyers are covered when every group's chosen fundings are enough for it. -/
theorem foldlM_coverBuyer {fundedBuyers : List Address} {covered next : Covered}
    (hpos : ∀ buyer ∈ fundedBuyers, 0 < totalAmount (buyerSettlements buyer)) :
    fundedBuyers.foldlM (coverBuyer buyerSettlements buyerFundings buyerEndBalances kind) covered =
        .ok next ↔
      (∀ group ∈ fundedBuyers.map
          (fundingGroup buyerSettlements buyerFundings buyerEndBalances kind),
        group.required ≤ (group.chosen.map fun entry => entry.amount).sum) ∧
      (fundedBuyers.map (fundingGroup buyerSettlements buyerFundings buyerEndBalances kind)).foldl
        Covered.add covered = next := by
  induction fundedBuyers generalizing covered with
  | nil => simp [pure_eq_ok]
  | cons buyer buyers ih =>
    obtain ⟨hbuyer, hbuyers⟩ := List.forall_mem_cons.mp hpos
    rw [List.foldlM_cons, bind_eq_ok, List.map_cons, List.forall_mem_cons, List.foldl_cons]
    simp only [coverBuyer_eq_ok rfl hbuyer, ih hbuyers]
    constructor
    · rintro ⟨_, ⟨hfirst, rfl⟩, hrest, hnext⟩
      exact ⟨⟨hfirst, hrest⟩, hnext⟩
    · rintro ⟨⟨hfirst, hrest⟩, hnext⟩
      exact ⟨_, ⟨hfirst, rfl⟩, hrest, hnext⟩

/-- The spare fundings of all groups, from the largest on. -/
def spareFundings (groups : List (CoverGroup fun entry : CaseFunding => entry.amount)) :
    List CaseFunding :=
  sortBy (fun left right => largestFirst left.toEntry right.toEntry)
    (groups.flatMap CoverGroup.spare)

theorem pairwise_spareFundings
    (groups : List (CoverGroup fun entry : CaseFunding => entry.amount)) :
    (spareFundings groups).Pairwise fun a b => b.amount ≤ a.amount := by
  have := @transCmp_on _ largestFirst _ _ CaseFunding.toEntry
  exact (pairwise_sortBy _).imp fun {_ _} => amount_le_of_largestFirst

/-- The selection is the cover of the buyers' groups. -/
theorem selectCaseFundings_eq_ok {fundedBuyers : List Address} {selected : List CaseFunding}
    {groups : List (CoverGroup fun entry : CaseFunding => entry.amount)}
    (hgroups : fundedBuyers.map
      (fundingGroup buyerSettlements buyerFundings buyerEndBalances kind) = groups)
    (hpos : ∀ buyer ∈ fundedBuyers, 0 < totalAmount (buyerSettlements buyer)) :
    selectCaseFundings buyerSettlements buyerFundings buyerEndBalances kind fundedBuyers =
        .ok selected ↔
      (∀ group ∈ groups, group.required ≤ (group.chosen.map fun entry => entry.amount).sum) ∧
      aggregateTarget buyerSettlements fundedBuyers ≤
        ((groups.flatMap CoverGroup.chosen).map fun entry => entry.amount).sum +
          ((topUp (aggregateTarget buyerSettlements fundedBuyers) groups
            (spareFundings groups)).map fun entry => entry.amount).sum ∧
      groups.flatMap CoverGroup.chosen ++ topUp (aggregateTarget buyerSettlements fundedBuyers)
        groups (spareFundings groups) = selected := by
  simp only [selectCaseFundings, bind_eq_ok, ensure_eq_ok, pure_eq_ok, foldlM_coverBuyer hpos,
    hgroups, foldl_add, List.nil_append, Nat.zero_add]
  constructor
  · rintro ⟨_, ⟨hcovered, rfl⟩, _, henough, hselected⟩
    exact ⟨hcovered, henough, hselected⟩
  · rintro ⟨hcovered, henough, hselected⟩
    exact ⟨_, ⟨hcovered, rfl⟩, (), henough, hselected⟩

/-- Buyers that were covered have enough chosen fundings. -/
theorem foldlM_coverBuyer_sound {fundedBuyers : List Address} {covered next : Covered}
    (h : fundedBuyers.foldlM (coverBuyer buyerSettlements buyerFundings buyerEndBalances kind)
      covered = .ok next) :
    (∀ group ∈ fundedBuyers.map
        (fundingGroup buyerSettlements buyerFundings buyerEndBalances kind),
      group.required ≤ (group.chosen.map fun entry => entry.amount).sum) ∧
    (fundedBuyers.map (fundingGroup buyerSettlements buyerFundings buyerEndBalances kind)).foldl
      Covered.add covered = next := by
  induction fundedBuyers generalizing covered with
  | nil =>
    rw [List.foldlM_nil, pure_eq_ok] at h
    exact ⟨fun group hgroup => absurd hgroup List.not_mem_nil, h⟩
  | cons buyer buyers ih =>
    rw [List.foldlM_cons, bind_eq_ok] at h
    obtain ⟨_, hbuyer, hbuyers⟩ := h
    obtain ⟨_, hfirst, rfl⟩ := (coverBuyer_iff rfl).mp hbuyer
    obtain ⟨hrest, hnext⟩ := ih hbuyers
    rw [List.map_cons, List.forall_mem_cons, List.foldl_cons]
    exact ⟨⟨hfirst, hrest⟩, hnext⟩

/-- What a successful selection is worth to the predicate. -/
structure Sufficient (buyerSettlements buyerFundings : Address → List Entry)
    (buyerEndBalances : Address → ℕ) (kind : String) (fundedBuyers : List Address)
    (selected : List CaseFunding) : Prop where
  discovered : ∀ entry ∈ selected, entry.buyer ∈ fundedBuyers ∧ entry.kind = kind ∧
    entry.toEntry ∈ buyerFundings entry.buyer
  positive : ∀ entry ∈ selected, 0 < entry.amount
  ledger : ∀ buyer ∈ fundedBuyers,
    (totalAmount (buyerSettlements buyer) + buyerEndBalances buyer) * 10000 ≤
      ((selected.filter (·.buyer = buyer)).map fun entry => entry.amount).sum * 10500
  fund : 9000 * settledTotal buyerSettlements fundedBuyers ≤
    (selected.map fun entry => entry.amount).sum * 10000

theorem mem_fundingGroup {buyer : Address} {entry : CaseFunding}
    (h : entry ∈ (fundingGroup buyerSettlements buyerFundings buyerEndBalances kind
      buyer).entries) :
    entry.buyer = buyer ∧ entry.kind = kind ∧ entry.toEntry ∈ buyerFundings buyer := by
  obtain ⟨candidate, hcandidate, rfl⟩ := List.mem_map.mp h
  exact ⟨rfl, rfl, (@sortBy_perm _ largestFirst _).mem_iff.mp hcandidate⟩

theorem selectCaseFundings_sufficient {fundedBuyers : List Address} {selected : List CaseFunding}
    (h : selectCaseFundings buyerSettlements buyerFundings buyerEndBalances kind fundedBuyers =
      .ok selected) :
    Sufficient buyerSettlements buyerFundings buyerEndBalances kind fundedBuyers selected := by
  let groups := fundedBuyers.map
    (fundingGroup buyerSettlements buyerFundings buyerEndBalances kind)
  simp only [selectCaseFundings, bind_eq_ok, ensure_eq_ok, pure_eq_ok] at h
  obtain ⟨covered, hcovered, _, htarget, rfl⟩ := h
  obtain ⟨hgroups, rfl⟩ := foldlM_coverBuyer_sound hcovered
  simp only [foldl_add, List.nil_append, Nat.zero_add] at htarget ⊢
  have hspare : ∀ entry ∈ spareFundings groups, ∃ group ∈ groups, entry ∈ group.entries := by
    intro entry hentry
    obtain ⟨group, hgroup, hmem⟩ := List.mem_flatMap.mp ((sortBy_perm _).mem_iff.mp hentry)
    exact ⟨group, hgroup, List.mem_of_mem_drop hmem⟩
  have hmem : ∀ entry ∈ groups.flatMap CoverGroup.chosen ++
      topUp (aggregateTarget buyerSettlements fundedBuyers) groups (spareFundings groups),
      ∃ group ∈ groups, entry ∈ group.entries := by
    intro entry hentry
    rcases List.mem_append.mp hentry with hchosen | hspared
    · obtain ⟨group, hgroup, hmem⟩ := List.mem_flatMap.mp hchosen
      rw [CoverGroup.chosen, takeEnough_eq_take] at hmem
      exact ⟨group, hgroup, List.mem_of_mem_take hmem⟩
    · rw [topUp, takeEnough_eq_take] at hspared
      exact hspare entry (List.mem_of_mem_take hspared)
  refine ⟨?_, ?_, ?_, ?_⟩
  · intro entry hentry
    obtain ⟨group, hgroup, hmem⟩ := hmem entry hentry
    obtain ⟨buyer, hbuyer, rfl⟩ := List.mem_map.mp hgroup
    obtain ⟨rfl, hkind, hfound⟩ := mem_fundingGroup hmem
    exact ⟨hbuyer, hkind, hfound⟩
  · intro entry hentry
    rcases List.mem_append.mp hentry with hchosen | hspared
    · obtain ⟨group, hgroup, hmem⟩ := List.mem_flatMap.mp hchosen
      apply pos_of_mem_takeEnough group.sorted _ hmem
      rw [Nat.zero_add]
      exact hgroups group hgroup
    · exact pos_of_mem_takeEnough (pairwise_spareFundings groups) htarget hspared
  · intro buyer hbuyer
    let group := fundingGroup buyerSettlements buyerFundings buyerEndBalances kind buyer
    have hgroup : group ∈ groups := List.mem_map_of_mem hbuyer
    have hown : group.chosen.filter (·.buyer = buyer) = group.chosen := by
      rw [List.filter_eq_self]
      intro entry hentry
      rw [CoverGroup.chosen, takeEnough_eq_take] at hentry
      exact decide_eq_true (mem_fundingGroup (List.mem_of_mem_take hentry)).1
    have hpart : group.chosen.Sublist ((groups.flatMap CoverGroup.chosen ++
        topUp (aggregateTarget buyerSettlements fundedBuyers) groups
          (spareFundings groups)).filter (·.buyer = buyer)) := by
      rw [← hown]
      exact ((List.sublist_flatten_of_mem (List.mem_map_of_mem hgroup)).trans
        (List.sublist_append_left _ _)).filter _
    have hle := @sum_map_le_of_subperm _ (fun entry : CaseFunding => entry.amount) _ _
      hpart.subperm
    exact (requiredFunding_le_iff.mp (hgroups group hgroup)).trans
      (Nat.mul_le_mul_right 10500 hle)
  · have hsum := ceilDiv_le_iff (by decide) |>.mp htarget
    rw [List.map_append, List.sum_append]
    rw [Nat.mul_comm]
    exact hsum

/-- The selection succeeds exactly when the fundings can meet every rule. What it selects is a
share for every buyer that meets them, with a positive funding for each buyer and none of amount
zero, and no shares that meet them have fewer fundings. -/
theorem selectCaseFundings_exact {fundedBuyers : List Address}
    (hpos : ∀ buyer ∈ fundedBuyers, 0 < totalAmount (buyerSettlements buyer)) :
    ((∃ selected, selectCaseFundings buyerSettlements buyerFundings buyerEndBalances kind
        fundedBuyers = .ok selected) ↔
      ∃ shares, Satisfies buyerSettlements buyerFundings buyerEndBalances kind fundedBuyers
        shares) ∧
    ∀ selected, selectCaseFundings buyerSettlements buyerFundings buyerEndBalances kind
        fundedBuyers = .ok selected →
      (∃ shares, Satisfies buyerSettlements buyerFundings buyerEndBalances kind fundedBuyers
          shares ∧ selected.Perm shares.flatten ∧
        ∀ share ∈ shares, ∃ entry ∈ share, 0 < entry.amount) ∧
      (∀ entry ∈ selected, 0 < entry.amount) ∧
      ∀ shares, Satisfies buyerSettlements buyerFundings buyerEndBalances kind fundedBuyers
        shares → selected.length ≤ shares.flatten.length := by
  let groups := fundedBuyers.map
    (fundingGroup buyerSettlements buyerFundings buyerEndBalances kind)
  have hrest : (spareFundings groups).Perm (groups.flatMap CoverGroup.spare) := sortBy_perm _
  have hsorted := pairwise_spareFundings groups
  have hselect (selected : List CaseFunding) :=
    @selectCaseFundings_eq_ok _ _ buyerEndBalances kind fundedBuyers selected groups rfl hpos
  have hcover (shares : List (List CaseFunding)) :=
    @satisfies_iff buyerSettlements buyerFundings buyerEndBalances kind fundedBuyers shares
  simp only [hselect, hcover]
  have hfeasible {shares : List (List CaseFunding)}
      (h : GroupCover (aggregateTarget buyerSettlements fundedBuyers) groups shares) :
      ∀ group ∈ groups, group.required ≤ (group.chosen.map fun entry => entry.amount).sum := by
    intro group hgroup
    obtain ⟨share, _, hshare⟩ := forall₂_exists_right h.share hgroup
    exact hshare.chosen_enough
  refine ⟨⟨?_, ?_⟩, ?_⟩
  · rintro ⟨_, hcovered, henough, _⟩
    obtain ⟨shares, hshares, _⟩ := groupCover_topUp hrest hcovered henough
    exact ⟨shares, hshares⟩
  · rintro ⟨shares, hshares⟩
    exact ⟨_, hfeasible hshares, hshares.topUp_enough hrest hsorted, rfl⟩
  · rintro _ ⟨hcovered, henough, rfl⟩
    obtain ⟨shares, hshares, hperm⟩ := groupCover_topUp hrest hcovered henough
    refine ⟨⟨shares, hshares, hperm, ?_⟩, ?_, ?_⟩
    · intro share hshare
      obtain ⟨buyer, hbuyer, hledger⟩ := 
        forall₂_exists_left ((hcover shares).mpr hshares).ledger hshare
      have hsettled := hpos buyer hbuyer
      by_contra hnone
      have hzero : (share.map fun entry => entry.amount).sum = 0 := by
        apply List.sum_eq_zero
        intro n hn
        obtain ⟨entry, hentry, rfl⟩ := List.mem_map.mp hn
        exact Nat.eq_zero_of_not_pos fun h => hnone ⟨entry, hentry, h⟩
      omega
    · intro entry hentry
      rcases List.mem_append.mp hentry with hchosen | htopUp
      · obtain ⟨group, hgroup, hmem⟩ := List.mem_flatMap.mp hchosen
        apply pos_of_mem_takeEnough group.sorted _ hmem
        rw [Nat.zero_add]
        exact hcovered group hgroup
      · exact pos_of_mem_takeEnough hsorted henough htopUp
    · intro other hother
      rw [List.length_append]
      exact hother.length_topUp_le hrest hsorted

end Selection

/-- Both buyers settle the same amount. -/
def twoBuyersSettlements : Address → List Entry := fun _ => [⟨1, 100, 44500000⟩]

/-- Both buyers are funded by two transfers, the second buyer by smaller ones. -/
def twoBuyersFundings : Address → List Entry := fun buyer =>
  if buyer = 10 then [⟨2, 100, 44400000⟩, ⟨3, 100, 44400001⟩]
  else [⟨4, 50, 44400002⟩, ⟨5, 50, 44400003⟩]

/-- The first buyer's largest funding covers its ledger, the second needs both of its fundings,
and together they reach the share of the volume. -/
theorem twoBuyers_exact :
    (selectCaseFundings twoBuyersSettlements twoBuyersFundings (fun _ => 0) "usdc"
      [10, 20]).toOption.map (List.map fun entry => entry.tx) = some [2, 4, 5] ∧
    ∃ shares, Satisfies twoBuyersSettlements twoBuyersFundings (fun _ => 0) "usdc" [10, 20]
      shares := by
  have hpos : ∀ buyer ∈ [10, 20], 0 < totalAmount (twoBuyersSettlements buyer) :=
    fun _ _ => Nat.succ_pos 99
  have hselected : (selectCaseFundings twoBuyersSettlements twoBuyersFundings (fun _ => 0) "usdc"
      [10, 20]).toOption.map (List.map fun entry => entry.tx) = some [2, 4, 5] := by
    decide +kernel
  refine ⟨hselected, (selectCaseFundings_exact hpos).1.mp ?_⟩
  cases hresult : selectCaseFundings twoBuyersSettlements twoBuyersFundings (fun _ => 0) "usdc"
      [10, 20] with
  | ok selected => exact ⟨selected, rfl⟩
  | error error => rw [hresult] at hselected; cases hselected

end LoopProof.Case
