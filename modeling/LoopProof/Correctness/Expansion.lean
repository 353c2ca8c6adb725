import LoopProof.Correctness.Growth
import LoopProof.Host.Expand

/-!
# What an expansion changes

The fetched blocks are appended to the carried ones and their receipts to the receipts of a
block, so every reference of the claim reads what it read. The new returns are the transfers that
were selected, and the verdict on the seller is the one of before.
-/

namespace LoopProof.Host

variable {lib : Lib} {expansion expansion' : Expansion}

/-! ## The blocks -/

/-- Every known position holds the block of its number. -/
def Expansion.Tracks (expansion : Expansion) : Prop :=
  ∀ (number : U64) (position : Usize), expansion.positions number = some position →
    ∃ b, expansion.blocks[position.val]? = some b ∧ b.header.number = number

private theorem val_ofNat_usize {n : ℕ} (h : n < 2 ^ 64) : (Fin.ofNat (2 ^ 64) n).val = n :=
  Nat.mod_eq_of_lt h

/-- The positions of the first blocks are known. -/
theorem tracks_of {blocks : List EvidenceBlock} (h : blocks.length < 2 ^ 64) :
    (Expansion.of blocks).Tracks := by
  intro number position hposition
  have hmem := mem_of_storeAll hposition
  rw [positioned] at hmem
  obtain ⟨⟨n, i⟩, hi, heq⟩ := List.mem_map.mp hmem
  obtain ⟨rfl, rfl⟩ := Prod.mk.inj heq
  have hnumber := List.mk_mem_zipIdx_iff_getElem?.mp hi
  rw [List.getElem?_map, Option.map_eq_some_iff] at hnumber
  obtain ⟨b, hb, rfl⟩ := hnumber
  obtain ⟨hlt, _⟩ := List.getElem?_eq_some_iff.mp hb
  exact ⟨b, by rw [val_ofNat_usize (hlt.trans h)]; exact hb, rfl⟩

/-- Receipts are only ever appended. -/
theorem prefix_addReceipts (receipts more : List ReceiptProof) :
    receipts <+: more.foldl addReceipt receipts := by
  induction more generalizing receipts with
  | nil => exact List.prefix_refl _
  | cons receipt more ih =>
    refine List.IsPrefix.trans ?_ (ih (addReceipt receipts receipt))
    unfold addReceipt
    split
    · exact List.prefix_refl _
    · exact List.prefix_append _ _

/-- A block grows by further receipts. -/
theorem grown_addReceipts (block : EvidenceBlock) (receipts : List ReceiptProof) :
    Grown block (addReceipts block receipts) :=
  ⟨rfl, prefix_addReceipts block.receipts receipts, rfl⟩

/-- What adding a block does: it grows the block of its number, or is appended. -/
theorem add_cases {core : CoreLib} {block : EvidenceBlock}
    (hadd : expansion.add core block = .ok expansion') :
    (∃ (position : Usize) (existing : EvidenceBlock),
      expansion.positions block.header.number = some position ∧
      expansion.blocks[position.val]? = some existing ∧
      core.hashSlow existing.header = core.hashSlow block.header ∧
      expansion' = ⟨expansion.blocks.set position.val (addReceipts existing block.receipts),
        expansion.positions⟩) ∨
    expansion.positions block.header.number = none ∧
      expansion' = ⟨expansion.blocks ++ [block], storeEntry expansion.positions
        (block.header.number, Fin.ofNat _ expansion.blocks.length)⟩ := by
  unfold Expansion.add at hadd
  cases hposition : expansion.positions block.header.number with
  | some position =>
    rw [hposition] at hadd
    simp only [indexAt, bind_eq_ok, okOr_eq_ok, ensure_eq_ok, pure_eq_ok] at hadd
    obtain ⟨existing, hexisting, _, hhash, rfl⟩ := hadd
    exact .inl ⟨position, existing, rfl, hexisting, hhash, rfl⟩
  | none =>
    rw [hposition] at hadd
    exact .inr ⟨rfl, (Except.ok.inj hadd).symm⟩

/-- Adding a block lets the blocks grow. -/
theorem add_grows {core : CoreLib} {block : EvidenceBlock}
    (hadd : expansion.add core block = .ok expansion') :
    BlocksGrow expansion.blocks expansion'.blocks ∧
      expansion.blocks.length ≤ expansion'.blocks.length := by
  rcases add_cases hadd with ⟨position, existing, _, hexisting, _, rfl⟩ | ⟨_, rfl⟩
  · exact ⟨.set hexisting (grown_addReceipts existing block.receipts), by simp⟩
  · exact ⟨.append _ _, by simp⟩

/-- Adding a block keeps the positions known. -/
theorem add_tracks {core : CoreLib} {block : EvidenceBlock}
    (hlength : expansion'.blocks.length < 2 ^ 64) (h : expansion.Tracks)
    (hadd : expansion.add core block = .ok expansion') : expansion'.Tracks := by
  have hgrows := (add_grows hadd).1
  -- a block that is there already keeps its place and its number
  have hkept : ∀ number position, expansion.positions number = some position →
      ∃ b, expansion'.blocks[position.val]? = some b ∧ b.header.number = number := by
    intro number position hposition
    obtain ⟨b, hb, hnumber⟩ := h number position hposition
    obtain ⟨b', hb', hgrown⟩ := hgrows _ b hb
    exact ⟨b', hb', by rw [hgrown.header, hnumber]⟩
  intro number position hposition
  rcases add_cases hadd with ⟨_, existing, _, _, _, rfl⟩ | ⟨_, rfl⟩
  · exact hkept number position hposition
  · by_cases hnumber : number = block.header.number
    · subst hnumber
      simp only [storeEntry, Function.update_self] at hposition
      obtain rfl := Option.some.inj hposition
      rw [List.length_append, List.length_singleton] at hlength
      refine ⟨block, ?_, rfl⟩
      rw [val_ofNat_usize (by omega), List.getElem?_concat_length]
    · simp only [storeEntry, Function.update_of_ne hnumber] at hposition
      exact hkept number position hposition

/-- The added blocks grow the carried ones. -/
theorem foldlM_add_grows {core : CoreLib} {fetched : List EvidenceBlock}
    (hrun : fetched.foldlM (Expansion.add core) expansion = .ok expansion') :
    BlocksGrow expansion.blocks expansion'.blocks ∧
      expansion.blocks.length ≤ expansion'.blocks.length := by
  induction fetched generalizing expansion with
  | nil =>
    obtain rfl := Except.ok.inj hrun
    exact ⟨.refl _, le_refl _⟩
  | cons block fetched ih =>
    rw [List.foldlM_cons, bind_eq_ok] at hrun
    obtain ⟨next, hadd, hrest⟩ := hrun
    obtain ⟨hgrows, hle⟩ := add_grows hadd
    obtain ⟨hgrows', hle'⟩ := ih hrest
    exact ⟨hgrows.trans hgrows', hle.trans hle'⟩

/-- Adding several blocks keeps the positions known. -/
theorem foldlM_add_tracks {core : CoreLib} {fetched : List EvidenceBlock}
    (hlength : expansion'.blocks.length < 2 ^ 64) (h : expansion.Tracks)
    (hrun : fetched.foldlM (Expansion.add core) expansion = .ok expansion') :
    expansion'.Tracks := by
  induction fetched generalizing expansion with
  | nil =>
    obtain rfl := Except.ok.inj hrun
    exact h
  | cons block fetched ih =>
    rw [List.foldlM_cons, bind_eq_ok] at hrun
    obtain ⟨next, hadd, hrest⟩ := hrun
    have hle := (foldlM_add_grows hrest).2
    exact ih (add_tracks (hle.trans_lt hlength) h hadd) hrest

/-! ## The returns -/

/-- The transfer is the one that a hop was selected for. -/
structure SelectedHop.Describes (hop : SelectedHop) (t : Loop.Transfer Address LogKey) : Prop where
  position : t.position = ⟨hop.blockNumber, hop.transactionIndex, hop.receiptLogIndex⟩
  sender : t.sender = hop.sender
  recipient : t.recipient = hop.recipient
  amount : ∃ amount, parseU128 hop.amountRaw = some amount ∧ t.amount = amount.val
  time : t.time = hop.timestamp.val

/-- Related items with a common third item each. -/
theorem forall₂_factor {α β γ : Type*} {r : α → β → Prop} {p : α → γ → Prop} {q : β → γ → Prop}
    {xs : List α} {ys : List β} (h : List.Forall₂ r xs ys)
    (hfactor : ∀ x y, r x y → ∃ z, p x z ∧ q y z) :
    ∃ zs, List.Forall₂ p xs zs ∧ List.Forall₂ q ys zs := by
  induction h with
  | nil => exact ⟨[], .nil, .nil⟩
  | cons hone _ ih =>
    obtain ⟨z, hp, hq⟩ := hfactor _ _ hone
    obtain ⟨zs, hps, hqs⟩ := ih
    exact ⟨z :: zs, .cons hp hps, .cons hq hqs⟩

/-- The transfers are those of the selected paths, hop by hop. -/
def DescribedBy (paths : List SelectedPath)
    (transfers : List (List (Loop.Transfer Address LogKey))) : Prop :=
  List.Forall₂ (fun path hops => List.Forall₂ SelectedHop.Describes path.hops hops) paths transfers

/-- Receipts of different indexes fit the words that count them. -/
private theorem receipts_length_le {block : EvidenceBlock}
    (h : (block.receipts.map ReceiptProof.txIndex).Nodup) : block.receipts.length ≤ 2 ^ 64 := by
  have hle := h.length_le_card
  rw [List.length_map, Fintype.card_fin] at hle
  exact hle

/-- The reference of a hop is the selected transfer. -/
theorem hopRef_sound (htracks : expansion.Tracks)
    (hreceipts : ∀ b ∈ expansion.blocks, (b.receipts.map ReceiptProof.txIndex).Nodup)
    {hop : SelectedHop} {ref : LogRef} (hrun : expansion.hopRef lib hop = .ok ref) :
    ∃ t, hop.Describes t ∧ TransferAt lib ⟨expansion.blocks⟩ ref t := by
  simp only [Expansion.hopRef, indexAt, bind_eq_ok, okOr_eq_ok, ensure_eq_ok, pure_eq_ok,
    Prod.exists] at hrun
  obtain ⟨position, hposition, block, hblock, receipt, hreceipt, sender, recipient, amount, n,
    hevent, _, ⟨rfl, rfl⟩, expected, hexpected, _, rfl, time, htime, _, rfl, rfl⟩ := hrun
  obtain ⟨b, hb, hnumber⟩ := htracks _ _ hposition
  obtain rfl := Option.some.inj (hblock.symm.trans hb)
  obtain ⟨hlt, hindex, _⟩ := List.findIdx?_eq_some_iff_getElem.mp hreceipt
  have hle := receipts_length_le (hreceipts block (List.mem_of_getElem? hblock))
  have hval : (Fin.ofNat (2 ^ 64) receipt).val = receipt := val_ofNat_usize (by omega)
  have hkey : ∃ key, ChainResolver.logKey lib ⟨expansion.blocks⟩
      ⟨position, Fin.ofNat _ receipt, hop.receiptLogIndex⟩ = .ok key ∧
        key = ⟨hop.blockNumber, hop.transactionIndex, hop.receiptLogIndex⟩ := by
    have hevent' := hevent
    simp only [ChainResolver.usdcTransfer, bind_eq_ok, Prod.exists] at hevent'
    obtain ⟨log, found, hfound, _⟩ := hevent'
    obtain ⟨proof, hlog⟩ := ChainResolver.event_log hfound
    obtain ⟨hfoundBlock, hproof, _⟩ := ChainResolver.log_eq_ok.mp hlog
    obtain rfl := Option.some.inj (hblock.symm.trans hfoundBlock)
    simp only [hval] at hproof
    rw [List.getElem?_eq_getElem hlt] at hproof
    obtain rfl := Option.some.inj hproof
    refine ⟨_, ChainResolver.logKey_eq_ok.mpr ⟨log, _, block, hlog, rfl⟩, ?_⟩
    rw [hnumber, of_decide_eq_true hindex]
  obtain ⟨key, hkey, rfl⟩ := hkey
  have hn := ChainResolver.usdcTransfer_block hevent hkey
  subst hn
  exact ⟨⟨_, hop.sender, hop.recipient, amount.val, hop.timestamp.val⟩,
    ⟨rfl, rfl, rfl, ⟨amount, hexpected, rfl⟩, rfl⟩, hkey, ⟨amount, rfl, hevent⟩, hop.timestamp, rfl,
    htime⟩

/-- The returns of an expansion resolve to the selected transfers. -/
theorem returnPaths_sound (htracks : expansion.Tracks)
    (hreceipts : ∀ b ∈ expansion.blocks, (b.receipts.map ReceiptProof.txIndex).Nodup)
    {paths : List SelectedPath} {returns : List ReturnPath}
    (hrun : paths.mapM (expansion.returnPath lib) = .ok returns) :
    ∃ transfers, DescribedBy paths transfers ∧
      List.Forall₂ (PathAt lib ⟨expansion.blocks⟩) returns transfers := by
  have hpath : ∀ path refs, expansion.returnPath lib path = .ok refs →
      ∃ hops, List.Forall₂ SelectedHop.Describes path.hops hops ∧
        PathAt lib ⟨expansion.blocks⟩ refs hops := by
    intro path refs h
    simp only [Expansion.returnPath, bind_eq_ok, pure_eq_ok] at h
    obtain ⟨transfers, htransfers, rfl⟩ := h
    exact forall₂_factor (mapM_eq_ok.mp htransfers) fun _ _ => hopRef_sound htracks hreceipts
  exact forall₂_factor (mapM_eq_ok.mp hrun) hpath

/-! ## The credit -/

section Credit

variable {resolver : ChainResolver}

/-- The smallest of a start value and the hops of a path. -/
private theorem foldlM_smallest {refs : List LogRef} {hops : List (Loop.Transfer Address LogKey)}
    (h : List.Forall₂ (TransferAt lib resolver) refs hops) (start : U128) :
    ∃ smallest : U128, smallest.val = (hops.map (·.amount)).foldl min start.val ∧
      refs.foldlM (fun minimum reference => do
        let (_, _, amount, _) ← resolver.usdcTransfer lib reference
        return min minimum amount) start = .ok smallest := by
  induction h generalizing start with
  | nil => exact ⟨start, rfl, rfl⟩
  | cons hone _ ih =>
    obtain ⟨amount, hamount, hevent⟩ := hone.event
    obtain ⟨smallest, hsmallest, hrun⟩ := ih (min start amount)
    refine ⟨smallest, ?_, ?_⟩
    · rw [hsmallest, List.map_cons, List.foldl_cons, ← hamount]
      exact congrArg (fun n => List.foldl min n _) (Fin.coe_min start amount)
    · rw [List.foldlM_cons, hevent]
      exact hrun

/-- The smallest hop of a nonempty path is its credit. -/
theorem smallestHop_eq {path : ReturnPath} {hops : List (Loop.Transfer Address LogKey)}
    (h : PathAt lib resolver path hops) (hne : hops ≠ []) :
    ∃ smallest : U128, smallest.val = Loop.credit hops ∧
      smallestHop lib resolver path = .ok smallest := by
  obtain ⟨smallest, hsmallest, hrun⟩ := foldlM_smallest h (maxWord 128)
  refine ⟨smallest, ?_, hrun⟩
  cases hops with
  | nil => exact absurd rfl hne
  | cons first rest =>
    obtain ⟨_, _, hfirst, _, _⟩ := List.forall₂_cons_right_iff.mp h
    have hle : first.amount ≤ (maxWord 128).val := Nat.le_sub_one_of_lt hfirst.amount_lt
    rw [hsmallest, Loop.credit, List.map_cons, List.foldl_cons, Nat.min_eq_right hle,
      List.min?_cons', Option.getD_some]

private theorem foldlM_credit {returns : List ReturnPath}
    {paths : List (List (Loop.Transfer Address LogKey))}
    (h : List.Forall₂ (PathAt lib resolver) returns paths) (hne : ∀ path ∈ paths, path ≠ [])
    (start : U128) (hfits : start.val + Loop.returnedTotal paths < 2 ^ 128) :
    ∃ credit : U128, credit.val = start.val + Loop.returnedTotal paths ∧
      returns.foldlM (fun credit path => do
        let minimum ← smallestHop lib resolver path
        okOr (checkedAdd credit minimum) (.err "credit overflow" : Failure)) start =
          .ok credit := by
  induction h generalizing start with
  | nil => exact ⟨start, rfl, rfl⟩
  | @cons path hops returns paths hone _ ih =>
    rw [List.forall_mem_cons] at hne
    have htotal : Loop.returnedTotal (hops :: paths) =
        Loop.credit hops + Loop.returnedTotal paths := by
      simp [Loop.returnedTotal]
    rw [htotal] at hfits ⊢
    obtain ⟨smallest, hsmallest, hrun⟩ := smallestHop_eq hone hne.1
    obtain ⟨next, hnext⟩ : ∃ next : U128, next.val = start.val + smallest.val :=
      ⟨⟨start.val + smallest.val, by omega⟩, rfl⟩
    obtain ⟨credit, hcredit, hrest⟩ := ih hne.2 next (by omega)
    refine ⟨credit, by omega, ?_⟩
    rw [List.foldlM_cons, hrun, bind_eq_ok]
    exact ⟨next, okOr_eq_ok.mpr (checkedAdd_eq_some.mpr hnext), hrest⟩

/-- The credit of complete paths is what they return. -/
theorem returnedCredit_eq {returns : List ReturnPath}
    {paths : List (List (Loop.Transfer Address LogKey))}
    (h : List.Forall₂ (PathAt lib resolver) returns paths) (hne : ∀ path ∈ paths, path ≠ [])
    (hfits : Loop.returnedTotal paths < 2 ^ 128) :
    ∃ credit : U128, credit.val = Loop.returnedTotal paths ∧
      returnedCredit lib resolver returns = .ok credit := by
  obtain ⟨credit, hcredit, hrun⟩ := foldlM_credit h hne 0
    (by rw [Fin.val_zero, Nat.zero_add]; exact hfits)
  exact ⟨credit, by rw [hcredit, Fin.val_zero, Nat.zero_add], hrun⟩

/-- The paths of a return leg are nonempty and their total fits. -/
theorem returnLeg_measured {seller funder : Address}
    {ss : List (Loop.Settlement Address LogKey)}
    {paths : List (List (Loop.Transfer Address LogKey))}
    (h : Loop.ReturnLeg codedRule seller funder ss paths) :
    (∀ path ∈ paths, path ≠ []) ∧ Loop.returnedTotal paths < 2 ^ 128 := by
  unfold Loop.ReturnLeg at h
  split at h
  · subst h
    exact ⟨by simp, by simp [Loop.returnedTotal]⟩
  · obtain ⟨_, hpaths, hfits, _⟩ := h
    exact ⟨fun path hpath => (hpaths path hpath).nonempty, hfits⟩

/-- A checked product that exists is the product of the numbers. -/
theorem checkedMul_eq_some {w : ℕ} {a b c : Fin (2 ^ w)} :
    checkedMul a b = some c ↔ c.val = a.val * b.val := by
  unfold checkedMul
  split
  · rename_i h
    rw [Option.some.injEq]
    exact ⟨fun heq => heq ▸ rfl, fun heq => Fin.ext heq.symm⟩
  · rename_i h
    constructor
    · intro hnone
      cases hnone
    · intro hval
      exact absurd (hval ▸ c.isLt) h

end Credit

/-! ## The run -/

section Run

variable {fetch : List (U64 × List U64 × List U64) →
    Outcome (List (EvidenceBlock × LogPositionMap))}
  {input : SellerProofInput} {selection : Selection} {claim expanded : ClosedLoopInput}

/-- An expansion grows the blocks and replaces the returns. -/
theorem expandEvidence_grows {paths : List SelectedPath}
    (hrun : expandEvidence lib fetch claim paths = .ok expanded) :
    expanded = claim.expand expanded.blocks expanded.returns ∧
      BlocksGrow claim.blocks expanded.blocks := by
  simp only [expandEvidence, bind_eq_ok, pure_eq_ok] at hrun
  obtain ⟨_, _, expansion, hadd, returns, _, rfl⟩ := hrun
  exact ⟨rfl, (foldlM_add_grows hadd).1⟩

/-- Over authentic blocks the returns of an expansion are the selected transfers. -/
theorem expandEvidence_described {paths : List SelectedPath} {periodStart periodEnd : U64}
    (hrun : expandEvidence lib fetch claim paths = .ok expanded)
    (hblocks : BlocksAuthentic lib.toCoreLib expanded.blocks periodStart periodEnd) :
    ∃ transfers, DescribedBy paths transfers ∧
      List.Forall₂ (PathAt lib ⟨expanded.blocks⟩) expanded.returns transfers := by
  simp only [expandEvidence, bind_eq_ok, pure_eq_ok] at hrun
  obtain ⟨_, _, expansion, hadd, returns, hreturns, rfl⟩ := hrun
  have hcount : expansion.blocks.length ≤ 65536 := hblocks.count
  have hlength : expansion.blocks.length < 2 ^ 64 := by omega
  have hle : claim.blocks.length ≤ expansion.blocks.length := (foldlM_add_grows hadd).2
  have htracks := foldlM_add_tracks hlength (tracks_of (hle.trans_lt hlength)) hadd
  exact returnPaths_sound htracks (fun b hb => (hblocks.authentic b hb).receiptIndexes) hreturns

/-- The floor that the selection asks for, on the unbounded integers. -/
structure MeetsFloor (selection : Selection) (volume : U128)
    (paths : List (List (Loop.Transfer Address LogKey))) : Prop where
  creditFits : Loop.returnedTotal paths * 10000 < 2 ^ 128
  requiredFits : volume.val * selection.targetReturnBps.val < 2 ^ 128
  covered : volume.val * selection.targetReturnBps.val ≤ Loop.returnedTotal paths * 10000

private theorem floor_iff {volume credit : U128}
    {paths : List (List (Loop.Transfer Address LogKey))}
    (hcredit : credit.val = Loop.returnedTotal paths) :
    (∃ covered, checkedMul credit 10000 = some covered ∧ ∃ required,
      checkedMul volume (widen bits64_le_128 selection.targetReturnBps) = some required ∧
        required ≤ covered) ↔ MeetsFloor selection volume paths := by
  simp only [checkedMul_eq_some, widen_val]
  have hten : ((10000 : U128) : ℕ) = 10000 := rfl
  constructor
  · rintro ⟨covered, hcovered, required, hrequired, hle⟩
    rw [hten, hcredit] at hcovered
    have hlt := covered.isLt
    have hlt' := required.isLt
    rw [Fin.le_def] at hle
    exact ⟨hcovered ▸ hlt, hrequired ▸ hlt', by omega⟩
  · rintro ⟨hcovered, hrequired, hle⟩
    refine ⟨⟨_, hcovered⟩, by rw [hten, hcredit], ⟨_, hrequired⟩, rfl, ?_⟩
    rw [Fin.le_def]
    exact hle

/-- The checks of an expansion accept exactly what the predicate asks of the new blocks and
returns, together with the floor. -/
private theorem checkExpanded_iff {baseline : VerifiedSeller}
    {e : Loop.Evidence Address LogKey}
    (hbase : verifySeller lib (input.carrying claim) = .ok baseline)
    (hres : ClosedLoopResolves lib claim e)
    (hexpanded : expanded = claim.expand expanded.blocks expanded.returns)
    (hgrows : BlocksGrow claim.blocks expanded.blocks) {result : ExpandedInput} :
    checkExpanded lib input selection baseline claim expanded = .ok result ↔
      ∃ paths, Expandable lib input claim e expanded.blocks expanded.returns paths ∧
        MeetsFloor selection baseline.journal.provenWashVolume paths ∧
        result.evidence = expanded ∧ result.returnedCredit.val = Loop.returnedTotal paths ∧
        verifySeller lib (input.carrying expanded) = .ok result.verified := by
  have hsame : sameClaim claim expanded := by
    rw [hexpanded]
    exact ⟨rfl, rfl, rfl, rfl⟩
  have hcredited : ∀ paths, Expandable lib input claim e expanded.blocks expanded.returns paths →
      ∃ credit : U128, credit.val = Loop.returnedTotal paths ∧
        returnedCredit lib ⟨expanded.blocks⟩ expanded.returns = .ok credit := by
    intro paths hpaths
    obtain ⟨hne, hfits⟩ := returnLeg_measured hpaths.leg
    exact returnedCredit_eq hpaths.resolved hne hfits
  have hverdict : ∀ verified, verifySeller lib (input.carrying expanded) = .ok verified →
      (∃ paths, Expandable lib input claim e expanded.blocks expanded.returns paths) ∧
        SameVerdict baseline.journal verified.journal := by
    intro verified hverified
    rw [hexpanded] at hverified
    exact ⟨(verifySeller_expand_iff hbase hres hgrows).mp ⟨verified, hverified⟩,
      verifySeller_expand_verdict hbase hgrows hverified⟩
  constructor
  · intro hrun
    simp only [checkExpanded, bind_eq_ok, ensure_eq_ok, okOr_eq_ok, pure_eq_ok] at hrun
    obtain ⟨_, _, verified, hverified, _, ⟨hvolume, _⟩, credit, hcredit, covered, hcovered,
      required, hrequired, _, hle, rfl⟩ := hrun
    obtain ⟨⟨paths, hpaths⟩, _⟩ := hverdict verified hverified
    obtain ⟨credit', hcredit', hrun'⟩ := hcredited paths hpaths
    obtain rfl := Except.ok.inj (hcredit.symm.trans hrun')
    rw [hvolume] at hrequired
    exact ⟨paths, hpaths, (floor_iff hcredit').mp ⟨covered, hcovered, required, hrequired, hle⟩,
      rfl, hcredit', hverified⟩
  · rintro ⟨paths, hpaths, hfloor, hevidence, hcredit, hverified⟩
    obtain ⟨_, hsameVerdict⟩ := hverdict _ hverified
    obtain ⟨credit, hcredit', hrun⟩ := hcredited paths hpaths
    obtain ⟨covered, hcovered, required, hrequired, hle⟩ := (floor_iff hcredit').mpr hfloor
    have hvolume : result.verified.journal.provenWashVolume =
        baseline.journal.provenWashVolume := by rw [hsameVerdict]
    have htotal : result.verified.journal.totalSellerVolume =
        baseline.journal.totalSellerVolume := by rw [hsameVerdict]
    have hresult : (⟨expanded, result.verified, credit⟩ : ExpandedInput) = result := by
      rw [← hevidence, Fin.ext (hcredit'.trans hcredit.symm)]
    simp only [checkExpanded, bind_eq_ok, ensure_eq_ok, okOr_eq_ok, pure_eq_ok]
    rw [← hvolume] at hrequired
    exact ⟨(), hsame, result.verified, hverified, (), ⟨hvolume, htotal⟩, credit, hrun, covered,
      hcovered, required, hrequired, (), hle, hresult⟩

/-- A run expands the evidence of a verified input and checks it. -/
private theorem expandReturns_eq_ok {result : ExpandedInput} :
    expandReturns lib fetch input selection = .ok result ↔
      (selection.targetReturnBps ≠ 0 ∧ selection.targetReturnBps ≤ 10000) ∧
      ∃ baseline claim expanded, input.evidence = .closedLoop claim ∧
        verifySeller lib input = .ok baseline ∧
        parseU128 selection.fixedVolumeRaw = some baseline.journal.provenWashVolume ∧
        expandEvidence lib fetch claim selection.paths = .ok expanded ∧
        checkExpanded lib input selection baseline claim expanded = .ok result := by
  simp only [expandReturns, bind_eq_ok, ensure_eq_ok, okOr_eq_ok]
  constructor
  · rintro ⟨_, htarget, baseline, hbaseline, fixed, hfixed, _, rfl, hrun⟩
    cases hevidence : input.evidence with
    | reciprocal evidence =>
      rw [hevidence] at hrun
      cases hrun
    | closedLoop claim =>
      rw [hevidence] at hrun
      simp only [bind_eq_ok] at hrun
      obtain ⟨expanded, hexpanded, hcheck⟩ := hrun
      exact ⟨htarget, baseline, claim, expanded, rfl, hbaseline, hfixed, hexpanded, hcheck⟩
  · rintro ⟨htarget, baseline, claim, expanded, hevidence, hbaseline, hfixed, hexpanded, hcheck⟩
    refine ⟨(), htarget, baseline, hbaseline, _, hfixed, (), rfl, ?_⟩
    simp only [hevidence, bind_eq_ok]
    exact ⟨expanded, hexpanded, hcheck⟩

/-- The input of a closed loop carries its own claim. -/
private theorem carrying_self (hevidence : input.evidence = .closedLoop claim) :
    input.carrying claim = input := by
  rw [SellerProofInput.carrying, ← hevidence]

/-- A run succeeds exactly if the input was verified with the stated volume, and the new blocks
and returns are what the predicate asks for and meet the floor. -/
theorem expandReturns_accepts_iff :
    (∃ result, expandReturns lib fetch input selection = .ok result) ↔
      (selection.targetReturnBps ≠ 0 ∧ selection.targetReturnBps ≤ 10000) ∧
      ∃ baseline claim expanded e paths, input.evidence = .closedLoop claim ∧
        verifySeller lib input = .ok baseline ∧
        parseU128 selection.fixedVolumeRaw = some baseline.journal.provenWashVolume ∧
        expandEvidence lib fetch claim selection.paths = .ok expanded ∧
        ClosedLoopResolves lib claim e ∧
        Expandable lib input claim e expanded.blocks expanded.returns paths ∧
        MeetsFloor selection baseline.journal.provenWashVolume paths := by
  constructor
  · rintro ⟨result, hrun⟩
    obtain ⟨htarget, baseline, claim, expanded, hevidence, hbaseline, hfixed, hexpanded, hcheck⟩ :=
      expandReturns_eq_ok.mp hrun
    obtain ⟨hself, hgrows⟩ := expandEvidence_grows hexpanded
    obtain ⟨_, journal, _, _, haccepted, _⟩ := verifySeller_isOk.mp ⟨baseline, hbaseline⟩
    rw [hevidence] at haccepted
    obtain ⟨_, e, hres, _⟩ := verifyClosedLoop_eq_ok.mp haccepted
    rw [← carrying_self hevidence] at hbaseline
    obtain ⟨paths, hpaths, hfloor, _⟩ := (checkExpanded_iff hbaseline hres hself hgrows).mp hcheck
    rw [carrying_self hevidence] at hbaseline
    exact ⟨htarget, baseline, claim, expanded, e, paths, hevidence, hbaseline, hfixed, hexpanded,
      hres, hpaths, hfloor⟩
  · rintro ⟨htarget, baseline, claim, expanded, e, paths, hevidence, hbaseline, hfixed, hexpanded,
      hres, hpaths, hfloor⟩
    obtain ⟨hself, hgrows⟩ := expandEvidence_grows hexpanded
    have hcarried := hbaseline
    rw [← carrying_self hevidence] at hcarried
    obtain ⟨verified, hverified⟩ :=
      (verifySeller_expand_iff hcarried hres hgrows).mpr ⟨paths, hpaths⟩
    rw [← hself] at hverified
    obtain ⟨hne, hfits⟩ := returnLeg_measured hpaths.leg
    obtain ⟨credit, hcredit, _⟩ := returnedCredit_eq hpaths.resolved hne hfits
    refine ⟨⟨expanded, verified, credit⟩, expandReturns_eq_ok.mpr ⟨htarget, baseline, claim,
      expanded, hevidence, hbaseline, hfixed, hexpanded, ?_⟩⟩
    exact (checkExpanded_iff hcarried hres hself hgrows).mpr
      ⟨paths, hpaths, hfloor, rfl, hcredit, hverified⟩

/-- What a run returns: the claim over blocks that only grew, with the selected transfers as its
returns; every funding and settlement is the one of before, and so is the verdict. -/
theorem expandReturns_preserves {result : ExpandedInput}
    (hrun : expandReturns lib fetch input selection = .ok result) :
    ∃ claim baseline e transfers, input.evidence = .closedLoop claim ∧
      verifySeller lib input = .ok baseline ∧
      result.evidence = claim.expand result.evidence.blocks result.evidence.returns ∧
      BlocksGrow claim.blocks result.evidence.blocks ∧
      ClosedLoopResolves lib claim e ∧
      ClosedLoopResolves lib result.evidence { e with returns := transfers } ∧
      DescribedBy selection.paths transfers ∧
      CodedCircuit claim { e with returns := transfers } ∧
      verifySeller lib (input.carrying result.evidence) = .ok result.verified ∧
      SameVerdict baseline.journal result.verified.journal ∧
      result.returnedCredit.val = Loop.returnedTotal transfers ∧
      baseline.journal.provenWashVolume.val * selection.targetReturnBps.val ≤
        Loop.returnedTotal transfers * 10000 := by
  obtain ⟨_, baseline, claim, expanded, hevidence, hbaseline, _, hexpanded, hcheck⟩ :=
    expandReturns_eq_ok.mp hrun
  obtain ⟨hself, hgrows⟩ := expandEvidence_grows hexpanded
  obtain ⟨_, journal, _, _, haccepted, _⟩ := verifySeller_isOk.mp ⟨baseline, hbaseline⟩
  rw [hevidence] at haccepted
  obtain ⟨_, e, hres, hcircuit, _⟩ := verifyClosedLoop_eq_ok.mp haccepted
  have hcarried := hbaseline
  rw [← carrying_self hevidence] at hcarried
  obtain ⟨paths, hpaths, hfloor, rfl, hcredit, hverified⟩ :=
    (checkExpanded_iff hcarried hres hself hgrows).mp hcheck
  obtain ⟨transfers, hdescribed, htransfers⟩ :=
    expandEvidence_described hexpanded hpaths.authentic
  obtain rfl : paths = transfers :=
    List.right_unique_forall₂' (fun _ _ _ hr hr' => hr.unique hr') hpaths.resolved htransfers
  have hresolved := hres.grows hgrows htransfers
  rw [← hself] at hresolved
  have hverdict := hverified
  rw [hself] at hverdict
  exact ⟨claim, baseline, e, paths, hevidence, hbaseline, hself, hgrows, hres, hresolved,
    hdescribed,
    (Loop.Circuit.replace_returns hcircuit).mpr ⟨hpaths.distinct, hpaths.inPeriod, hpaths.leg⟩,
    hverified, verifySeller_expand_verdict hcarried hgrows hverdict, hcredit, hfloor.covered⟩

end Run

/-! ## A run -/

/-- The chain of the circuit, continued by a payment of the seller to address 14 and one of that
address to the funder. -/
def detourChain : List EvidenceBlock := [
  exemplarBlock 100 1000 [(12, [transferLog 12 13 100])],
  exemplarBlock 101 2000 [(13, [settledLog 13 11 100])],
  exemplarBlock 102 3000 [(11, [transferLog 11 12 30])],
  exemplarBlock 103 3500 [(15, []), (11, [transferLog 11 14 60])],
  exemplarBlock 104 4000 [(14, [transferLog 14 12 60])]]

/-- The chain of the detour. -/
def detourExemplar : Exemplar := { circuitExemplar none with chain := detourChain }

/-- The circuit over its own three blocks and the header at the end of the period. -/
def detourInput : ClosedLoopInput :=
  { circuitInput none with
    periodEndBlock := 104
    blocks := detourChain.take 3 ++ [exemplarBlock 104 4000 []]
    ledgers := [⟨⟨3, detourExemplar.storageProof depositsAddress
      (slotOffset (exemplarHash (abiWords [13, 9])) 0)⟩⟩] }

/-- The seller's input before the long way back is added. -/
def detourSeller : SellerProofInput where
  seller := 11
  periodStartBlock := 100
  periodEndBlock := 104
  totalVolume := detourExemplar.totalVolume (exemplarBlock 104 4000 []).header 11 7
  evidence := .closedLoop detourInput

/-- The two payments in place of the direct return of 30. -/
def detourSelection : Selection where
  targetReturnBps := 5000
  fixedVolumeRaw := "100"
  paths := [⟨[⟨11, 14, "60", 3500, 103, 1, 0⟩, ⟨14, 12, "60", 4000, 104, 0, 0⟩]⟩]

/-- The blocks of the chain with the requested receipts; each has one log. -/
def detourFetch (targets : List (U64 × List U64 × List U64)) :
    Outcome (List (EvidenceBlock × LogPositionMap)) :=
  .ok (targets.filterMap fun (number, receipts, _) =>
    (detourChain.find? (·.header.number = number)).map fun block =>
      ({ block with
          receipts := block.receipts.filter (·.txIndex ∈ receipts)
          transactions := [] },
        insertAll ∅ [(0, 0)]))

/-- The circuit keeps its verdict when its return is replaced by a path over a block that is
fetched and a receipt that is added to a carried one. -/
theorem detour_expansion_preserves : ∃ result,
    expandReturns detourExemplar.lib detourFetch detourSeller detourSelection = .ok result ∧
      result.evidence.blocks.length = 5 ∧ result.returnedCredit = 60 ∧
      ∃ claim baseline e transfers, detourSeller.evidence = .closedLoop claim ∧
        verifySeller detourExemplar.lib detourSeller = .ok baseline ∧
        result.evidence = claim.expand result.evidence.blocks result.evidence.returns ∧
        BlocksGrow claim.blocks result.evidence.blocks ∧
        ClosedLoopResolves detourExemplar.lib claim e ∧
        ClosedLoopResolves detourExemplar.lib result.evidence { e with returns := transfers } ∧
        DescribedBy detourSelection.paths transfers ∧
        CodedCircuit claim { e with returns := transfers } ∧
        verifySeller detourExemplar.lib (detourSeller.carrying result.evidence) =
          .ok result.verified ∧
        SameVerdict baseline.journal result.verified.journal ∧
        result.returnedCredit.val = Loop.returnedTotal transfers ∧
        baseline.journal.provenWashVolume.val * detourSelection.targetReturnBps.val ≤
          Loop.returnedTotal transfers * 10000 := by
  have hran : (expandReturns detourExemplar.lib detourFetch detourSeller
      detourSelection).toOption.map (fun result =>
        (result.evidence.blocks.length, result.returnedCredit)) = some (5, 60) := by
    decide +kernel
  obtain ⟨result, hrun, hresult⟩ := toOption_map_eq_some.mp hran
  obtain ⟨hblocks, hcredit⟩ := Prod.mk.inj hresult
  exact ⟨result, hrun, hblocks, hcredit, expandReturns_preserves hrun⟩

end LoopProof.Host
