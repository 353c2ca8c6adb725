import Mathlib.Data.List.Chain
import Mathlib.Algebra.BigOperators.Group.List.Basic
import Mathlib.Algebra.Order.BigOperators.Group.List
import Mathlib.Algebra.Order.Group.Nat
import Mathlib.Algebra.Ring.Nat

/-!
# Conserved value loops

What the predicates are for, independently of how evidence is encoded: capital goes
from a funder to buyers, buyers settle with a seller, and value returns from the seller
to the funder. Accounts and log positions are arbitrary types; amounts and times are
natural numbers. Every condition is stated without an evaluation order.
-/

namespace LoopProof.Loop

/-- The parameters of a loop rule; ratios are in basis points. -/
structure Rule where
  fundBps : ℕ
  returnBps : ℕ
  hopBps : ℕ
  toleranceBps : ℕ
  window : ℕ
  maxHops : ℕ
  maxPaths : ℕ
  /-- Totals must stay below this bound. -/
  amountBound : ℕ

/-- One token transfer at its position. -/
structure Transfer (α κ : Type*) where
  position : κ
  sender : α
  recipient : α
  amount : ℕ
  time : ℕ
  deriving DecidableEq, Repr

/-- One settlement of a buyer with a seller. -/
structure Settlement (α κ : Type*) where
  position : κ
  buyer : α
  seller : α
  amount : ℕ
  time : ℕ
  deriving DecidableEq, Repr

/-- Capital credited to one buyer, with the positions of the logs that witness it. -/
structure Funding (α κ : Type*) where
  buyer : α
  amount : ℕ
  time : ℕ
  positions : List κ
  deriving DecidableEq, Repr

/-- Everything a claim refers to. -/
structure Evidence (α κ : Type*) where
  fundings : List (Funding α κ)
  settlements : List (Settlement α κ)
  returns : List (List (Transfer α κ))

section Totals

variable {α κ : Type*}

/-- The credited sum of a list of fundings. -/
def fundedTotal (fundings : List (Funding α κ)) : ℕ := (fundings.map (·.amount)).sum

/-- The sum credited to one buyer. -/
def fundedTo [DecidableEq α] (fundings : List (Funding α κ)) (buyer : α) : ℕ :=
  fundedTotal (fundings.filter (·.buyer = buyer))

/-- The settled sum. -/
def settledTotal (settlements : List (Settlement α κ)) : ℕ := (settlements.map (·.amount)).sum

/-- The sum one buyer settled. -/
def settledBy [DecidableEq α] (settlements : List (Settlement α κ)) (buyer : α) : ℕ :=
  settledTotal (settlements.filter (·.buyer = buyer))

/-- The time of the earliest funding of one buyer. -/
def earliestFunding [DecidableEq α] (fundings : List (Funding α κ)) (buyer : α) : Option ℕ :=
  ((fundings.filter (·.buyer = buyer)).map (·.time)).min?

/-- The time of the earliest settlement. -/
def earliestSettlement (settlements : List (Settlement α κ)) : Option ℕ :=
  (settlements.map (·.time)).min?

/-- The value a path is credited with: its smallest hop. -/
def credit (path : List (Transfer α κ)) : ℕ := ((path.map (·.amount)).min?).getD 0

/-- The credited sum of all paths. -/
def returnedTotal (paths : List (List (Transfer α κ))) : ℕ := (paths.map credit).sum

/-- The positions of all funding logs. -/
def fundingPositions (fundings : List (Funding α κ)) : List κ := fundings.flatMap (·.positions)

/-- The positions of all hops. -/
def hopPositions (paths : List (List (Transfer α κ))) : List κ :=
  paths.flatMap (·.map (·.position))

/-- The position of every role of the evidence, in role order. -/
def Evidence.positions (e : Evidence α κ) : List κ :=
  fundingPositions e.fundings ++ e.settlements.map (·.position) ++ hopPositions e.returns

/-- Fundings in a row add up. -/
theorem fundedTotal_append (fs gs : List (Funding α κ)) :
    fundedTotal (fs ++ gs) = fundedTotal fs + fundedTotal gs := by
  simp only [fundedTotal, List.map_append, List.sum_append]

/-- One funding amounts to itself. -/
@[simp] theorem fundedTotal_singleton (f : Funding α κ) : fundedTotal [f] = f.amount := by
  simp only [fundedTotal, List.map_cons, List.map_nil, List.sum_cons, List.sum_nil, add_zero]

/-- A further funding counts for its buyer alone. -/
theorem fundedTo_concat [DecidableEq α] (fs : List (Funding α κ)) (f : Funding α κ) (b : α) :
    fundedTo (fs ++ [f]) b = fundedTo fs b + if f.buyer = b then f.amount else 0 := by
  unfold fundedTo
  split <;> simp_all [List.filter_append, fundedTotal]

/-- No buyer was credited more than the whole cohort. -/
theorem fundedTo_le [DecidableEq α] (fs : List (Funding α κ)) (b : α) :
    fundedTo fs b ≤ fundedTotal fs :=
  (List.filter_sublist.map _).sum_le_sum fun _ _ => Nat.zero_le _

/-- Settlements in a row add up. -/
theorem settledTotal_append (ss ts : List (Settlement α κ)) :
    settledTotal (ss ++ ts) = settledTotal ss + settledTotal ts := by
  simp only [settledTotal, List.map_append, List.sum_append]

/-- One settlement amounts to itself. -/
@[simp] theorem settledTotal_singleton (s : Settlement α κ) : settledTotal [s] = s.amount := by
  simp only [settledTotal, List.map_cons, List.map_nil, List.sum_cons, List.sum_nil, add_zero]

/-- A further settlement counts for its buyer alone. -/
theorem settledBy_concat [DecidableEq α] (ss : List (Settlement α κ)) (s : Settlement α κ) (b : α) :
    settledBy (ss ++ [s]) b = settledBy ss b + if s.buyer = b then s.amount else 0 := by
  unfold settledBy
  split <;> simp_all [List.filter_append, settledTotal]

/-- No buyer settled more than the whole cohort. -/
theorem settledBy_le [DecidableEq α] (ss : List (Settlement α κ)) (b : α) :
    settledBy ss b ≤ settledTotal ss :=
  (List.filter_sublist.map _).sum_le_sum fun _ _ => Nat.zero_le _

/-- The least of a list and one more number. -/
theorem min?_concat (xs : List ℕ) (x : ℕ) :
    (xs ++ [x]).min? = some ((xs.min?.map (min · x)).getD x) := by
  cases xs with
  | nil => rfl
  | cons y ys =>
    simp only [List.cons_append, List.min?_cons', List.foldl_append, List.foldl_cons,
      List.foldl_nil, Option.map_some, Option.getD_some]

/-- A further funding may be the first one of its buyer. -/
theorem earliestFunding_concat [DecidableEq α] (fs : List (Funding α κ)) (f : Funding α κ)
    (b : α) : earliestFunding (fs ++ [f]) b =
      if f.buyer = b then some (((earliestFunding fs b).map (min · f.time)).getD f.time)
      else earliestFunding fs b := by
  unfold earliestFunding
  split <;> simp_all [List.filter_append, min?_concat]

/-- A further settlement may be the first one. -/
theorem earliestSettlement_concat (ss : List (Settlement α κ)) (s : Settlement α κ) :
    earliestSettlement (ss ++ [s]) =
      some (((earliestSettlement ss).map (min · s.time)).getD s.time) := by
  simp only [earliestSettlement, List.map_append, List.map_cons, List.map_nil, min?_concat]

/-- A buyer has a first funding if it has any. -/
theorem earliestFunding_isSome [DecidableEq α] {fs : List (Funding α κ)} {b : α} :
    (earliestFunding fs b).isSome ↔ ∃ f ∈ fs, f.buyer = b := by
  rw [earliestFunding, Option.isSome_iff_ne_none, ne_eq, List.min?_eq_none_iff]
  simp [List.filter_eq_nil_iff]

/-- Returns in a row add up. -/
theorem returnedTotal_append (ps qs : List (List (Transfer α κ))) :
    returnedTotal (ps ++ qs) = returnedTotal ps + returnedTotal qs := by
  simp only [returnedTotal, List.map_append, List.sum_append]

/-- One return carries its credit. -/
@[simp] theorem returnedTotal_singleton (p : List (Transfer α κ)) :
    returnedTotal [p] = credit p := by
  simp only [returnedTotal, List.map_cons, List.map_nil, List.sum_cons, List.sum_nil, add_zero]

/-- The positions of fundings in a row. -/
theorem fundingPositions_append (fs gs : List (Funding α κ)) :
    fundingPositions (fs ++ gs) = fundingPositions fs ++ fundingPositions gs :=
  List.flatMap_append

/-- The positions of one funding. -/
@[simp] theorem fundingPositions_singleton (f : Funding α κ) :
    fundingPositions [f] = f.positions := by
  simp only [fundingPositions, List.flatMap_cons, List.flatMap_nil, List.append_nil]

/-- The positions of returns in a row. -/
theorem hopPositions_append (ps qs : List (List (Transfer α κ))) :
    hopPositions (ps ++ qs) = hopPositions ps ++ hopPositions qs :=
  List.flatMap_append

/-- The positions of one return. -/
@[simp] theorem hopPositions_singleton (p : List (Transfer α κ)) :
    hopPositions [p] = p.map (·.position) := by
  simp only [hopPositions, List.flatMap_cons, List.flatMap_nil, List.append_nil]

end Totals

section Conditions

variable {α κ : Type*} [LT κ]

/-- Two consecutive hops: endpoints meet, positions increase, enough value is forwarded. -/
def Follows (rule : Rule) (a b : Transfer α κ) : Prop :=
  a.recipient = b.sender ∧ a.position < b.position ∧
    a.amount * rule.hopBps ≤ b.amount * 10000

/-- A return path up to its end: it starts at the seller after some settlement, every
hop moves value between different accounts, and it stays within the time window. -/
structure PathPrefix (rule : Rule) (seller : α) (settlements : List (Settlement α κ))
    (path : List (Transfer α κ)) : Prop where
  starts : ∀ first ∈ path.head?, first.sender = seller
  opens : ∀ first ∈ path.head?, ∃ t ∈ earliestSettlement settlements, t < first.time
  moves : ∀ hop ∈ path, hop.sender ≠ hop.recipient ∧ 0 < hop.amount
  chained : path.IsChain (Follows rule)
  inWindow : ∀ first ∈ path.head?, ∀ hop ∈ path, hop.time - first.time ≤ rule.window

/-- What a hop must satisfy to extend a path prefix. -/
structure Extends (rule : Rule) (seller : α) (settlements : List (Settlement α κ))
    (path : List (Transfer α κ)) (hop : Transfer α κ) : Prop where
  continues : hop.sender = (path.getLast?.map (·.recipient)).getD seller
  moves : hop.sender ≠ hop.recipient ∧ 0 < hop.amount
  later : ∀ last ∈ path.getLast?, last.position < hop.position
  forwards : ∀ last ∈ path.getLast?, last.amount * rule.hopBps ≤ hop.amount * 10000
  opens : path = [] → ∃ t ∈ earliestSettlement settlements, t < hop.time
  inWindow : ∀ first ∈ path.head?, hop.time - first.time ≤ rule.window

/-- A path prefix grows exactly by the hops that extend it. -/
theorem pathPrefix_concat {rule : Rule} {seller : α} {settlements : List (Settlement α κ)}
    {path : List (Transfer α κ)} {hop : Transfer α κ} :
    PathPrefix rule seller settlements (path ++ [hop]) ↔
      PathPrefix rule seller settlements path ∧ Extends rule seller settlements path hop := by
  have hchain : (path ++ [hop]).IsChain (Follows rule) ↔
      path.IsChain (Follows rule) ∧ ∀ last ∈ path.getLast?, Follows rule last hop := by
    simp [List.isChain_append]
  cases path with
  | nil =>
    constructor
    · rintro ⟨hs, ho, hm, _, _⟩
      refine ⟨⟨by simp, by simp, by simp, .nil, by simp⟩, ?_⟩
      exact ⟨hs hop rfl, hm hop (by simp), by simp, by simp, fun _ => ho hop rfl, by simp⟩
    · rintro ⟨_, hc, hm, _, _, ho, _⟩
      refine ⟨?_, ?_, ?_, .singleton hop, ?_⟩ <;> simp_all
  | cons first rest =>
    have hhead : (first :: rest ++ [hop]).head? = (first :: rest).head? := rfl
    obtain ⟨last, hlast⟩ : ∃ last, (first :: rest).getLast? = some last :=
      Option.isSome_iff_exists.mp (by simp)
    constructor
    · rintro ⟨hs, ho, hm, hc, hw⟩
      rw [hchain] at hc
      obtain ⟨hjoin, hlater, hforward⟩ := hc.2 last hlast
      refine ⟨⟨hs, ho, fun h hmem => hm h (List.mem_append_left _ hmem), hc.1,
        fun f hf h hmem => hw f hf h (List.mem_append_left _ hmem)⟩, ?_⟩
      refine ⟨?_, hm hop (by simp), ?_, ?_, by simp, fun f hf => hw f hf hop (by simp)⟩
      · rw [hlast, Option.map_some, Option.getD_some, hjoin]
      · rw [hlast]
        rintro _ ⟨⟩
        exact hlater
      · rw [hlast]
        rintro _ ⟨⟩
        exact hforward
    · rintro ⟨⟨hs, ho, hm, hc, hw⟩, hcont, hmove, hlater, hforward, _, hwin⟩
      refine ⟨hs, ho, ?_, hchain.mpr ⟨hc, fun l hl => ⟨?_, hlater l hl, hforward l hl⟩⟩, ?_⟩
      · intro h hmem
        rcases List.mem_append.mp hmem with hmem | hmem
        · exact hm h hmem
        · exact List.mem_singleton.mp hmem ▸ hmove
      · rw [hcont, hl, Option.map_some, Option.getD_some]
      · intro f hf h hmem
        rcases List.mem_append.mp hmem with hmem | hmem
        · exact hw f hf h hmem
        · exact List.mem_singleton.mp hmem ▸ hwin f hf

/-- A complete return path from the seller to the funder. -/
structure PathOk (rule : Rule) (seller funder : α) (settlements : List (Settlement α κ))
    (path : List (Transfer α κ)) : Prop extends PathPrefix rule seller settlements path where
  nonempty : path ≠ []
  short : path.length ≤ rule.maxHops
  ends : ∀ last ∈ path.getLast?, last.recipient = funder

/-- The return leg; it holds by identity when the seller is the funder. -/
def ReturnLeg [DecidableEq α] (rule : Rule) (seller funder : α)
    (settlements : List (Settlement α κ)) (paths : List (List (Transfer α κ))) : Prop :=
  if seller = funder then paths = []
  else paths.length ≤ rule.maxPaths ∧
    (∀ path ∈ paths, PathOk rule seller funder settlements path) ∧
    returnedTotal paths < rule.amountBound ∧
    settledTotal settlements * rule.returnBps ≤ returnedTotal paths * 10000

/-- A funded, settled and returned circuit; the ledger reconciliation is separate. -/
structure Circuit [DecidableEq α] (rule : Rule) (period : κ → Prop) (seller funder : α)
    (cohort : List α) (e : Evidence α κ) : Prop where
  /-- No log plays two roles. -/
  distinct : e.positions.Nodup
  inPeriod : ∀ p ∈ e.positions, period p
  fundsCohort : ∀ f ∈ e.fundings, f.buyer ∈ cohort
  everyBuyerFunded : ∀ b ∈ cohort, ∃ f ∈ e.fundings, f.buyer = b
  settles : e.settlements ≠ []
  settlesWithSeller : ∀ s ∈ e.settlements, s.seller = seller ∧ s.buyer ∈ cohort ∧ 0 < s.amount
  /-- Each settlement is later than the earliest funding of its buyer. -/
  settlesAfterFunding : ∀ s ∈ e.settlements, ∃ t ∈ earliestFunding e.fundings s.buyer, t < s.time
  fundedFits : fundedTotal e.fundings < rule.amountBound
  settledFits : settledTotal e.settlements < rule.amountBound
  coverage : settledTotal e.settlements * rule.fundBps ≤ fundedTotal e.fundings * 10000
  returns : ReturnLeg rule seller funder e.settlements e.returns

/-- The ledger reconciliation of one buyer over unbounded integers: the capital it kept and
the capital it settled were provided by the funder, within the tolerance. -/
def Reconciled [DecidableEq α] (rule : Rule) (e : Evidence α κ) (buyer : α) (balance : ℕ) :
    Prop :=
  (balance + settledBy e.settlements buyer) * 10000 ≤
    fundedTo e.fundings buyer * (10000 + rule.toleranceBps)

instance [DecidableEq α] (rule : Rule) (e : Evidence α κ) (buyer : α) (balance : ℕ) :
    Decidable (Reconciled rule e buyer balance) :=
  inferInstanceAs (Decidable (_ ≤ _))

end Conditions

end LoopProof.Loop
