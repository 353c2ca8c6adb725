import LoopProof.Correctness.Uniqueness
import LoopProof.Correctness.StateProofs

/-!
# The proven share

The verifier does not compare its two volumes. The proven one is a sum over the seller's
settlement logs, the total one is the counter the boundary state holds for the agent the
seller is registered as, and the share is bounded exactly by that counter.
-/

namespace LoopProof

variable {lib : Lib} {content : TrieContent} {state : WorldState}

/-! ## The boundary counter -/

/-- The slot of the agent a seller is registered as. -/
def agentIdSlot (lib : CoreLib) (seller : Address) : B256 :=
  mappingSlotAddress lib seller stakingSellerAgentIdSlot

/-- The slot of an agent's total volume. -/
def totalVolumeSlot (lib : CoreLib) (agentId : U256) : B256 :=
  slotOffset (mappingSlotU256 lib agentId channelsAgentStatsSlot) agentStatsTotalVolumeOffset

/-- The agent a state registers the seller as. -/
def WorldState.agentId (lib : CoreLib) (state : WorldState) (seller : Address) : U256 :=
  state.value stakingAddress (agentIdSlot lib seller)

/-- The settled volume a state counts for the seller's agent. -/
def WorldState.sellerVolume (lib : CoreLib) (state : WorldState) (seller : Address) : U256 :=
  state.value channelsAddress (totalVolumeSlot lib (state.agentId lib seller))

/-- The byte strings hashed by the two boundary reads. -/
def WorldState.boundaryHashed (lib : CoreLib) (state : WorldState) (seller : Address) :
    Set Bytes :=
  state.hashed stakingAddress (agentIdSlot lib seller) ∪
    state.hashed channelsAddress (totalVolumeSlot lib (state.agentId lib seller))

/-- An accepted boundary reading is the agent and the counter of the committed state. -/
theorem verifyTotalVolumeBoundary_sound {core : CoreLib} (hrlp : core.rlpHeader = canonicalHeader)
    (hsound : ProofsSound core content) {boundary : TotalVolumeBoundary}
    (hstate : CommitsTo core content boundary.header.stateRoot state) {seller : Address}
    (hash : Set.InjOn core.keccak256 (state.boundaryHashed core seller)) {block : U64}
    {agentId : U256} {counter : U128}
    (h : verifyTotalVolumeBoundary core boundary block seller = .ok ⟨agentId, counter⟩) :
    agentId = state.agentId core seller ∧ counter.val = (state.sellerVolume core seller).val := by
  simp only [verifyTotalVolumeBoundary, bind_eq_ok, okOr_eq_ok, pure_eq_ok, tryNarrow_eq_some] at h
  obtain ⟨_, _, agent, hagent, word, hword, narrowed, hnarrow, heq⟩ := h
  cases heq
  have hagentId := (verifyStorageValue_sound hrlp hsound hstate
    (hash.mono Set.subset_union_left) hagent).1
  change agentId = state.agentId core seller at hagentId
  rw [hagentId] at hword
  have hcounter := (verifyStorageValue_sound hrlp hsound hstate
    (hash.mono Set.subset_union_right) hword).1
  exact ⟨hagentId, by rw [hnarrow, hcounter]; rfl⟩

/-! ## The share -/

/-- An accepted proof has a positive volume, the sum over the seller's referenced settlement
logs, and its total is the counter of the committed boundary state; the share is at most one
exactly when that counter covers those logs. -/
theorem share_bounded_iff (hrlp : lib.rlpHeader = canonicalHeader)
    (hsound : ProofsSound lib.toCoreLib content) {input : SellerProofInput}
    (hstate : CommitsTo lib.toCoreLib content input.totalVolume.header.stateRoot state)
    (hash : Set.InjOn lib.keccak256 (state.boundaryHashed lib.toCoreLib input.seller))
    {verified : VerifiedSeller} (h : verifySeller lib input = .ok verified) :
    0 < verified.journal.provenWashVolume ∧
      verified.journal.totalSellerVolume.val =
        (state.sellerVolume lib.toCoreLib input.seller).val ∧
      ∃ sales, IsSales lib input.evidence input.seller sales ∧
        verified.journal.provenWashVolume.val = ∑ s ∈ sales, s.amount ∧
        (verified.journal.provenWashVolume ≤ verified.journal.totalSellerVolume ↔
          ∑ s ∈ sales, s.amount ≤ (state.sellerVolume lib.toCoreLib input.seller).val) := by
  obtain ⟨_, journal, subject, counter, settlements, refs, root, haccepts, rfl⟩ :=
    verifySeller_eq_ok.mp h
  obtain ⟨ss, haccepted⟩ := verifyEvidence_accepted haccepts.evidence
  obtain ⟨hmember, rfl, _⟩ := haccepted.claimFor_iff.mp haccepts.claim
  obtain ⟨sales, hsales, hsum⟩ := haccepted.exists_sales input.seller
  have hproven := (haccepted.washVolume_eq hmember).trans hsum
  obtain ⟨agentId, _, hreading⟩ := haccepts.boundary.reading
  have htotal := (verifyTotalVolumeBoundary_sound hrlp hsound hstate hash hreading).2
  refine ⟨?_, htotal, sales, hsales, hproven, ?_⟩
  · exact Fin.pos_iff_ne_zero.mpr haccepts.claim.nonzero
  · rw [Fin.le_def, ← hproven, ← htotal]
    rfl

/-! ## The circuit under a given counter -/

/-- The chain state of the circuit: seller 11 is agent 7, with the given counted volume. -/
def countedContent (counter : U256) : TrieContent := fun root key =>
  let lib := (circuitExemplar none).lib.toCoreLib
  if root = 102001 ∧ key = accountKey lib stakingAddress then
    some (encodeAccount ⟨1, 0, 601, 0⟩)
  else if root = 102001 ∧ key = accountKey lib channelsAddress then
    some (encodeAccount ⟨1, 0, 602, 0⟩)
  else if root = 601 ∧ key = slotKey lib (agentIdSlot lib 11) then some (encodeWord 7)
  else if root = 602 ∧ key = slotKey lib (totalVolumeSlot lib 7) then some (encodeWord counter)
  else if root = 102001 ∨ root = 601 ∨ root = 602 then none
  else (circuitExemplar none).content root key

/-- A platform on which the counter of the seller has a value. -/
def countedLib (counter : U256) : Lib :=
  { (circuitExemplar none).lib with verifyProof := contentProof (countedContent counter) }

/-- Seller 11 proves the circuit, and the counter is read from the counted state. -/
def countedSeller (counter : U256) : SellerProofInput :=
  { circuitSeller none with
    totalVolume := {
      header := (exemplarBlock 102 3000 [(11, [transferLog 11 12 30])]).header
      agentId := ⟨[Exemplar.leafNode 0 (encodeAccount ⟨1, 0, 601, 0⟩)],
        [Exemplar.leafNode 0 (encodeWord 7)]⟩
      totalVolume := ⟨[Exemplar.leafNode 0 (encodeAccount ⟨1, 0, 602, 0⟩)],
        [Exemplar.leafNode 0 (encodeWord counter)]⟩ } }

/-- A counter below the proven settlements is accepted, and the share exceeds one. -/
theorem share_above_one : ∃ verified,
    verifySeller (countedLib 50) (countedSeller 50) = .ok verified ∧
      ¬ verified.journal.provenWashVolume ≤ verified.journal.totalSellerVolume := by
  have hrun : (verifySeller (countedLib 50) (countedSeller 50)).toOption.map
      (fun verified => (verified.journal.provenWashVolume, verified.journal.totalSellerVolume)) =
        some (100, 50) := by
    decide +kernel
  obtain ⟨verified, hverified, hvolumes⟩ := toOption_map_eq_some.mp hrun
  refine ⟨verified, hverified, ?_⟩
  rw [(Prod.mk.inj hvolumes).1, (Prod.mk.inj hvolumes).2]
  decide

theorem seven_ne_zero : (7 : U256) ≠ 0 := by decide

theorem thousand_ne_zero : (1000 : U256) ≠ 0 := by decide

/-- The accounts and slots of the counted state. -/
def countedState : WorldState where
  account address :=
    if address = stakingAddress then some ⟨1, 0, 601, 0⟩
    else if address = channelsAddress then some ⟨1, 0, 602, 0⟩ else none
  storage address slot :=
    if address = stakingAddress ∧ slot = agentIdSlot (circuitExemplar none).lib.toCoreLib 11 then
      some ⟨7, seven_ne_zero⟩
    else if address = channelsAddress ∧
        slot = totalVolumeSlot (circuitExemplar none).lib.toCoreLib 7 then
      some ⟨1000, thousand_ne_zero⟩
    else none

private theorem staking_ne_channels : ¬channelsAddress = stakingAddress := by decide

theorem counted_account {address : Address} {account : Account} :
    countedState.account address = some account ↔
      (address = stakingAddress ∧ account = ⟨1, 0, 601, 0⟩) ∨
        (address = channelsAddress ∧ account = ⟨1, 0, 602, 0⟩) := by
  have hne := staking_ne_channels
  by_cases hstaking : address = stakingAddress
  · simp only [countedState, hstaking, if_true, Option.some.injEq, true_and, Ne.symm hne,
      false_and, or_false]
    exact eq_comm
  · simp only [countedState, hstaking, if_false, Option.ite_none_right_eq_some,
      Option.some.injEq, false_and, false_or]
    exact and_congr_right fun _ => eq_comm

theorem counted_staking_slot {slot : B256} {word : {word : U256 // word ≠ 0}} :
    countedState.storage stakingAddress slot = some word ↔
      slot = agentIdSlot (circuitExemplar none).lib.toCoreLib 11 ∧ word.val = 7 := by
  have hne : ¬stakingAddress = channelsAddress := Ne.symm staking_ne_channels
  simp only [countedState, true_and, hne, false_and, if_false, Option.ite_none_right_eq_some,
    Option.some.injEq, Subtype.ext_iff]
  exact and_congr_right fun _ => eq_comm

theorem counted_channels_slot {slot : B256} {word : {word : U256 // word ≠ 0}} :
    countedState.storage channelsAddress slot = some word ↔
      slot = totalVolumeSlot (circuitExemplar none).lib.toCoreLib 7 ∧ word.val = 1000 := by
  simp only [countedState, true_and, staking_ne_channels, false_and, if_false,
    Option.ite_none_right_eq_some, Option.some.injEq, Subtype.ext_iff]
  exact and_congr_right fun _ => eq_comm

/-- The tries of the counted state commit to it. -/
theorem counted_commits :
    CommitsTo (countedLib 1000).toCoreLib (countedContent 1000) 102001 countedState where
  accounts key value := by
    have h601 : ¬(102001 : B256) = 601 := by decide
    have h602 : ¬(102001 : B256) = 602 := by decide
    have hkeys : ¬accountKey (circuitExemplar none).lib.toCoreLib channelsAddress =
        accountKey (circuitExemplar none).lib.toCoreLib stakingAddress := by decide +kernel
    simp only [countedContent, true_and, h601, h602, false_and, if_false, true_or, if_true,
      counted_account]
    constructor
    · intro h
      by_cases hstaking : key = accountKey (circuitExemplar none).lib.toCoreLib stakingAddress
      · rw [if_pos hstaking] at h
        exact ⟨_, _, Or.inl ⟨rfl, rfl⟩, hstaking, (Option.some.inj h).symm⟩
      · rw [if_neg hstaking, Option.ite_none_right_eq_some] at h
        exact ⟨_, _, Or.inr ⟨rfl, rfl⟩, h.1, (Option.some.inj h.2).symm⟩
    · intro h
      obtain ⟨address, account, hone, hkey, hvalue⟩ := h
      change key = accountKey (circuitExemplar none).lib.toCoreLib address at hkey
      rcases hone with ⟨haddress, haccount⟩ | ⟨haddress, haccount⟩
      · rw [if_pos (hkey.trans (by rw [haddress])), hvalue, haccount]
      · rw [haddress] at hkey
        rw [if_neg (hkey ▸ hkeys), if_pos hkey, hvalue, haccount]
  slots address account h key value := by
    have hroots : ¬(601 : B256) = 102001 ∧ ¬(602 : B256) = 102001 ∧ ¬(601 : B256) = 602 ∧
        ¬(602 : B256) = 601 := by decide
    obtain ⟨h601, h602, hne, hne'⟩ := hroots
    rcases counted_account.mp h with ⟨haddress, haccount⟩ | ⟨haddress, haccount⟩
    · rw [haddress, haccount]
      simp only [countedContent, h601, hne, true_and, false_and, if_false, true_or, or_true,
        if_true, counted_staking_slot, Option.ite_none_right_eq_some, Option.some.injEq]
      constructor
      · intro hvalue
        exact ⟨_, ⟨7, seven_ne_zero⟩, ⟨rfl, rfl⟩, hvalue.1, hvalue.2.symm⟩
      · intro hslot
        obtain ⟨slot, word, ⟨hslot, hword⟩, hkey, hvalue⟩ := hslot
        rw [hslot] at hkey
        rw [hword] at hvalue
        exact ⟨hkey, hvalue.symm⟩
    · rw [haddress, haccount]
      simp only [countedContent, h602, hne', true_and, false_and, if_false, or_true, if_true,
        counted_channels_slot, Option.ite_none_right_eq_some, Option.some.injEq]
      constructor
      · intro hvalue
        exact ⟨_, ⟨1000, thousand_ne_zero⟩, ⟨rfl, rfl⟩, hvalue.1, hvalue.2.symm⟩
      · intro hslot
        obtain ⟨slot, word, ⟨hslot, hword⟩, hkey, hvalue⟩ := hslot
        rw [hslot] at hkey
        rw [hword] at hvalue
        exact ⟨hkey, hvalue.symm⟩
  emptyRoot key := by
    have hroots : ¬emptyTrieRoot = 102001 ∧ ¬emptyTrieRoot = 601 ∧ ¬emptyTrieRoot = 602 := by
      decide
    obtain ⟨hstate, h601, h602⟩ := hroots
    simp only [countedContent, hstate, h601, h602, false_and, if_false, or_self]
    -- a Boolean scan: the entries are of a finite type, which must not be searched instead
    have hstorage : (circuitExemplar none).storage.all
        (fun entry => decide (Exemplar.storageRoot entry.1 ≠ emptyTrieRoot)) = true := by
      decide +kernel
    exact (circuitExemplar none).content_eq_none (by decide +kernel) fun entry hentry =>
      of_decide_eq_true (List.all_eq_true.mp hstorage entry hentry)

/-- The byte strings the reads of the counted state hash. -/
def countedPreimages : List Bytes := [beBytes 20 stakingAddress.val, beBytes 20 channelsAddress.val,
  beBytes 32 (agentIdSlot (circuitExemplar none).lib.toCoreLib 11).val,
  beBytes 32 (totalVolumeSlot (circuitExemplar none).lib.toCoreLib 7).val]

theorem mem_countedPreimages {bytes : Bytes}
    (h : bytes ∈ countedState.boundaryHashed (countedLib 1000).toCoreLib 11) :
    bytes ∈ countedPreimages := by
  have hagentSlot : agentIdSlot (countedLib 1000).toCoreLib 11 =
      agentIdSlot (circuitExemplar none).lib.toCoreLib 11 := by decide +kernel
  have hvolumeSlot : totalVolumeSlot (countedLib 1000).toCoreLib
      (countedState.agentId (countedLib 1000).toCoreLib 11) =
        totalVolumeSlot (circuitExemplar none).lib.toCoreLib 7 := by decide +kernel
  have haccounts : ∀ a,
      (countedState.account a).isSome → a = stakingAddress ∨ a = channelsAddress := by
    intro a ha
    obtain ⟨account, haccount⟩ := Option.isSome_iff_exists.mp ha
    exact (counted_account.mp haccount).imp And.left And.left
  have haddress : ∀ a : Address, a = stakingAddress ∨ a = channelsAddress →
      beBytes 20 a.val ∈ countedPreimages := by
    intro a ha
    rcases ha with rfl | rfl
    · exact List.mem_cons_self ..
    · exact List.mem_cons_of_mem _ (List.mem_cons_self ..)
  rcases h with (⟨a, ha, hbytes⟩ | ⟨s, hs, hbytes⟩) | (⟨a, ha, hbytes⟩ | ⟨s, hs, hbytes⟩)
  · rw [hbytes]
    exact haddress a (ha.elim Or.inl (haccounts a))
  · have hslot : s = agentIdSlot (circuitExemplar none).lib.toCoreLib 11 := by
      rcases hs with hs | hs
      · exact hs.trans hagentSlot
      · obtain ⟨word, hword⟩ := Option.isSome_iff_exists.mp hs
        exact (counted_staking_slot.mp hword).1
    rw [hbytes, hslot]
    exact List.mem_cons_of_mem _ (List.mem_cons_of_mem _ (List.mem_cons_self ..))
  · rw [hbytes]
    exact haddress a (ha.elim Or.inr (haccounts a))
  · have hslot : s = totalVolumeSlot (circuitExemplar none).lib.toCoreLib 7 := by
      rcases hs with hs | hs
      · exact hs.trans hvolumeSlot
      · obtain ⟨word, hword⟩ := Option.isSome_iff_exists.mp hs
        exact (counted_channels_slot.mp hword).1
    rw [hbytes, hslot]
    exact List.mem_of_mem_getLast? rfl

/-- With a counter of 1000 the circuit's share is at most one. -/
theorem counted_share_bounded : ∃ verified,
    verifySeller (countedLib 1000) (countedSeller 1000) = .ok verified ∧
      verified.journal.provenWashVolume ≤ verified.journal.totalSellerVolume := by
  have hrun : (verifySeller (countedLib 1000) (countedSeller 1000)).toOption.map
      (fun verified => verified.journal.provenWashVolume) = some 100 := by
    decide +kernel
  obtain ⟨verified, hverified, hvolume⟩ := toOption_map_eq_some.mp hrun
  have hsound : ProofsSound (countedLib 1000).toCoreLib (countedContent 1000) := by
    intro root key value nodes h
    change contentProof (countedContent 1000) root key value nodes = .ok () at h
    exact contentProof_eq_ok.mp h
  have hnodup : (countedPreimages.map exemplarHash).Nodup := by decide +kernel
  have hroot : (countedSeller 1000).totalVolume.header.stateRoot = 102001 := by decide +kernel
  have hseller : (countedSeller 1000).seller = 11 := by decide +kernel
  have hstate : CommitsTo (countedLib 1000).toCoreLib (countedContent 1000)
      (countedSeller 1000).totalVolume.header.stateRoot countedState := by
    rw [hroot]
    exact counted_commits
  have hash : Set.InjOn (countedLib 1000).keccak256
      (countedState.boundaryHashed (countedLib 1000).toCoreLib (countedSeller 1000).seller) := by
    rw [hseller]
    intro x hx y hy hxy
    have hxy' : exemplarHash x = exemplarHash y := hxy
    exact List.inj_on_of_nodup_map hnodup (mem_countedPreimages hx) (mem_countedPreimages hy) hxy'
  have hcounter : (countedState.sellerVolume (countedLib 1000).toCoreLib
      (countedSeller 1000).seller).val = 1000 := by
    decide +kernel
  have hrlp : (countedLib 1000).rlpHeader = canonicalHeader := rfl
  obtain ⟨_, _, sales, _, hsum, hiff⟩ := share_bounded_iff hrlp hsound hstate hash hverified
  refine ⟨verified, hverified, hiff.mpr ?_⟩
  rw [← hsum, hvolume, hcounter]
  decide

end LoopProof
