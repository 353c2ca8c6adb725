import LoopProof.Correctness.ClosedLoop
import LoopProof.Loop.Cut
import Mathlib.Algebra.BigOperators.Group.Finset.Basic

/-!
# The return flow of accepted claims

Whatever set of accounts separates the seller from the funder, distinct transfers that
leave it carry three tenths of the measured volume.
-/

namespace LoopProof

variable {lib : Lib} {input : ClosedLoopInput}

/-- The distinct transfer logs of the return hops with the given property, as a set. -/
structure IsReturnHops (lib : Lib) (input : ClosedLoopInput)
    (selected : Loop.Transfer Address LogKey → Prop)
    (hops : Finset (Loop.Transfer Address LogKey)) : Prop where
  mem : ∀ hop, hop ∈ hops ↔ (∃ path ∈ input.returns, ∃ ref ∈ path.transfers,
    TransferAt lib ⟨input.blocks⟩ ref hop) ∧ selected hop
  positions : Set.InjOn (·.position) (hops : Set (Loop.Transfer Address LogKey))

/-- A return hop of the claim is a hop of the resolved paths. -/
theorem ClosedLoopResolves.hop_iff {e : Loop.Evidence Address LogKey}
    (h : ClosedLoopResolves lib input e) {hop : Loop.Transfer Address LogKey} :
    (∃ path ∈ input.returns, ∃ ref ∈ path.transfers, TransferAt lib ⟨input.blocks⟩ ref hop) ↔
      ∃ path ∈ e.returns, hop ∈ path := by
  constructor
  · rintro ⟨path, hpath, ref, href, hat⟩
    obtain ⟨hops, hhops, hall⟩ := forall₂_exists_right h.returns hpath
    obtain ⟨hop', hhop', hat'⟩ := forall₂_exists_right hall href
    exact ⟨hops, hhops, hat.unique hat' ▸ hhop'⟩
  · rintro ⟨hops, hhops, hhop⟩
    obtain ⟨path, hpath, hall⟩ := forall₂_exists_left h.returns hhops
    obtain ⟨ref, href, hat⟩ := forall₂_exists_left hall hhop
    exact ⟨path, hpath, ref, href, hat⟩

/-- The hops of a circuit lie at distinct positions. -/
theorem hops_nodup {e : Loop.Evidence Address LogKey} (h : CodedCircuit input e) :
    (e.returns.flatten.map (·.position)).Nodup := by
  have hhops := (List.nodup_append.mp h.distinct).2.1
  rwa [Loop.hopPositions, List.flatMap_def, ← List.map_flatten] at hhops

/-- Every cut between seller and funder is crossed by distinct transfers that carry three
tenths of the wash volume. In particular the seller itself sent that much to others, and the
funder itself received that much from others. -/
theorem return_flow_cut {journal : WashJournal} (h : verifyClosedLoop lib input = .ok journal)
    (hparties : input.seller ≠ input.funder) :
    ∀ subject ∈ journal.subjects,
      (∀ cut : Set Address, input.seller ∈ cut → input.funder ∉ cut →
        ∃ hops, IsReturnHops lib input (fun hop => hop.sender ∈ cut ∧ hop.recipient ∉ cut) hops ∧
          3000 * subject.washVolume.val ≤ (∑ hop ∈ hops, hop.amount) * 10000) ∧
      (∃ sent, IsReturnHops lib input
          (fun hop => hop.sender = input.seller ∧ hop.recipient ≠ input.seller) sent ∧
        3000 * subject.washVolume.val ≤ (∑ hop ∈ sent, hop.amount) * 10000) ∧
      ∃ received, IsReturnHops lib input
          (fun hop => hop.sender ≠ input.funder ∧ hop.recipient = input.funder) received ∧
        3000 * subject.washVolume.val ≤ (∑ hop ∈ received, hop.amount) * 10000 := by
  obtain ⟨_, e, hres, hcircuit, _, bytes, _, rfl⟩ := verifyClosedLoop_eq_ok.mp h
  intro subject hsubject
  obtain rfl := List.mem_singleton.mp hsubject
  have hvolume : (Fin.ofNat (2 ^ 128) (Loop.settledTotal e.settlements)).val =
      Loop.settledTotal e.settlements := Nat.mod_eq_of_lt hcircuit.settledFits
  have hreturns := hcircuit.returns
  rw [Loop.ReturnLeg, if_neg hparties] at hreturns
  obtain ⟨_, hpaths, _, hratio⟩ := hreturns
  have hcut : ∀ cut : Set Address, input.seller ∈ cut → input.funder ∉ cut →
      ∃ hops, IsReturnHops lib input (fun hop => hop.sender ∈ cut ∧ hop.recipient ∉ cut) hops ∧
        3000 * (Fin.ofNat (2 ^ 128) (Loop.settledTotal e.settlements)).val ≤
          (∑ hop ∈ hops, hop.amount) * 10000 := by
    intro cut hseller hfunder
    have hnodup := hops_nodup hcircuit
    have hcrossing : (Loop.crossing cut e.returns).Nodup :=
      (List.Nodup.of_map _ hnodup).sublist List.filter_sublist
    refine ⟨⟨Loop.crossing cut e.returns, Multiset.coe_nodup.mpr hcrossing⟩,
      ⟨fun hop => ?_, ?_⟩, ?_⟩
    · rw [hres.hop_iff, Finset.mem_mk, Multiset.mem_coe, Loop.mem_crossing, Loop.Crosses]
    · intro hop hhop hop' hhop' heq
      exact List.inj_on_of_nodup_map hnodup (List.mem_of_mem_filter hhop)
        (List.mem_of_mem_filter hhop') heq
    · have hflow := Loop.returnedTotal_le_crossing hpaths hseller hfunder
      have hratio : Loop.settledTotal e.settlements * 3000 ≤
          Loop.returnedTotal e.returns * 10000 := hratio
      have hsum : ∑ hop ∈ (⟨Loop.crossing cut e.returns, Multiset.coe_nodup.mpr hcrossing⟩ :
          Finset (Loop.Transfer Address LogKey)), hop.amount =
          ((Loop.crossing cut e.returns).map (·.amount)).sum := rfl
      rw [hvolume, hsum]
      omega
  refine ⟨hcut, hcut {input.seller} rfl (Ne.symm hparties), ?_⟩
  have hreceived := hcut {input.funder}ᶜ hparties (fun hmem => hmem rfl)
  simpa only [Set.mem_compl_iff, Set.mem_singleton_iff, not_not] using hreceived

/-- In the exemplary circuit the seller sent the funder three tenths of its volume. -/
theorem circuit_return_flow : ∃ journal sent,
    verifyClosedLoop (circuitExemplar none).lib (circuitInput none) = .ok journal ∧
      IsReturnHops (circuitExemplar none).lib (circuitInput none)
        (fun hop => hop.sender = 11 ∧ hop.recipient ≠ 11) sent ∧
      ∀ subject ∈ journal.subjects,
        3000 * subject.washVolume.val ≤ (∑ hop ∈ sent, hop.amount) * 10000 := by
  obtain ⟨journal, h⟩ := isOk_iff.mp (show (verifyClosedLoop (circuitExemplar none).lib
    (circuitInput none)).isOk = true by decide +kernel)
  obtain ⟨_, e, _, _, _, bytes, _, rfl⟩ := verifyClosedLoop_eq_ok.mp h
  obtain ⟨_, ⟨sent, hsent, hflow⟩, _⟩ := return_flow_cut h (by decide) _ (List.mem_singleton_self _)
  exact ⟨_, sent, h, hsent, fun subject hsubject => List.mem_singleton.mp hsubject ▸ hflow⟩

end LoopProof
