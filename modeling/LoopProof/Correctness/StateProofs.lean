import LoopProof.Core.Trie
import LoopProof.Correctness.Receipts

/-!
# Storage reads are sound

Whatever nodes a witness carries, an accepted storage read returns the word the state
holds for exactly the requested slot of the requested account.
-/

namespace LoopProof

variable {lib : CoreLib} {content : TrieContent}

/-! ## Lookups -/

/-- The proof checker accepts only what the trie under the root says about the key. -/
def ProofsSound (lib : CoreLib) (content : TrieContent) : Prop :=
  ∀ root key value nodes, lib.verifyProof root key value nodes = .ok () → content root key = value

/-- An accepted lookup returns the content of the trie, for any proof nodes. -/
theorem mptGet_sound (hsound : ProofsSound lib content) {root : B256} {key : Nibbles}
    {proof : List Bytes} {value : Option Bytes} (h : mptGet lib root key proof = .ok value) :
    content root key = value := by
  unfold mptGet at h
  split at h
  · rename_i hnone
    cases h
    exact hsound root key none proof hnone
  · simp only [bind_eq_ok, mapError_eq_ok, pure_eq_ok] at h
    obtain ⟨v, _, _, hsome, rfl⟩ := h
    exact hsound root key (some v) proof hsome

/-! ## Keys -/

private theorem halves_injective {a b : UInt8} (hhigh : a >>> 4 = b >>> 4)
    (hlow : a &&& 0x0f = b &&& 0x0f) : a = b := by
  have hh := congrArg UInt8.toNat hhigh
  have hl := congrArg UInt8.toNat hlow
  rw [UInt8.toNat_shiftRight, UInt8.toNat_shiftRight, Nat.shiftRight_eq_div_pow,
    Nat.shiftRight_eq_div_pow] at hh
  rw [UInt8.toNat_and, UInt8.toNat_and] at hl
  change a.toNat &&& (2 ^ 4 - 1) = b.toNat &&& (2 ^ 4 - 1) at hl
  rw [Nat.and_two_pow_sub_one_eq_mod, Nat.and_two_pow_sub_one_eq_mod] at hl
  change a.toNat / 2 ^ 4 = b.toNat / 2 ^ 4 at hh
  apply UInt8.toNat_inj.mp
  omega

/-- The half-bytes determine the bytes. -/
theorem unpack_injective {a b : Bytes} (h : Nibbles.unpack a = Nibbles.unpack b) : a = b := by
  induction a generalizing b with
  | nil =>
    cases b with
    | nil => rfl
    | cons y b => cases h
  | cons x a ih =>
    cases b with
    | nil => cases h
    | cons y b =>
      simp only [Nibbles.unpack, List.flatMap_cons, List.cons_append, List.nil_append,
        List.cons.injEq] at h
      obtain ⟨hhigh, hlow, hrest⟩ := h
      rw [halves_injective hhigh hlow, ih hrest]

private theorem word_lt_bytes (word : B256) : word.val < 256 ^ 32 := by
  have := word.isLt
  norm_num at this ⊢
  exact this

/-- Keys of hashes that differ differ. -/
theorem hashKey_injective {x y : B256}
    (h : Nibbles.unpack (beBytes 32 x.val) = Nibbles.unpack (beBytes 32 y.val)) : x = y :=
  Fin.ext (beBytes_injective (word_lt_bytes x) (word_lt_bytes y) (unpack_injective h))

/-- The byte strings whose hashes are the keys a read depends on: the account and the slot
that are read, and those the state holds. -/
def WorldState.hashed (state : WorldState) (address : Address) (slot : B256) : Set Bytes :=
  {bytes | ∃ a, (a = address ∨ (state.account a).isSome) ∧ bytes = beBytes 20 a.val} ∪
    {bytes | ∃ s, (s = slot ∨ (state.storage address s).isSome) ∧ bytes = beBytes 32 s.val}

section Keys

variable {state : WorldState} {address : Address} {slot : B256}

/-- The accounts of the state have different keys. -/
theorem accountKey_injective (hash : Set.InjOn lib.keccak256 (state.hashed address slot))
    {a : Address} (ha : (state.account a).isSome) (h : accountKey lib address = accountKey lib a) :
    address = a := by
  have hbytes := hash (Or.inl ⟨address, Or.inl rfl, rfl⟩) (Or.inl ⟨a, Or.inr ha, rfl⟩)
    (hashKey_injective h)
  refine Fin.ext (beBytes_injective (k := 20) ?_ ?_ hbytes)
  · have := address.isLt
    norm_num at this ⊢
    exact this
  · have := a.isLt
    norm_num at this ⊢
    exact this

/-- The slots of an account have different keys. -/
theorem slotKey_injective (hash : Set.InjOn lib.keccak256 (state.hashed address slot))
    {s : B256} (hs : (state.storage address s).isSome) (h : slotKey lib slot = slotKey lib s) :
    slot = s := by
  have hbytes := hash (Or.inr ⟨slot, Or.inl rfl, rfl⟩) (Or.inr ⟨s, Or.inr hs, rfl⟩)
    (hashKey_injective h)
  exact Fin.ext (beBytes_injective (word_lt_bytes slot) (word_lt_bytes s) hbytes)

end Keys

/-! ## Encodings -/

/-- An encoded account yields its storage root. -/
theorem decodeAccountStorageRoot_encode (hrlp : lib.rlpHeader = canonicalHeader)
    (account : Account) :
    decodeAccountStorageRoot lib (encodeAccount account) = .ok account.storageRoot := by
  have hnonce := nextItem_rlpBytes hrlp (significant 8 account.nonce.val)
    (rlpBytes (significant 32 account.balance.val) ++
      (rlpBytes (beBytes 32 account.storageRoot.val) ++
        rlpBytes (beBytes 32 account.codeHash.val)))
    (by have := length_significant_le 8 account.nonce.val; omega)
  have hbalance := nextItem_rlpBytes hrlp (significant 32 account.balance.val)
    (rlpBytes (beBytes 32 account.storageRoot.val) ++ rlpBytes (beBytes 32 account.codeHash.val))
    (by have := length_significant_le 32 account.balance.val; omega)
  have hroot := nextItem_rlpBytes hrlp (beBytes 32 account.storageRoot.val)
    (rlpBytes (beBytes 32 account.codeHash.val)) (by rw [length_beBytes]; norm_num)
  have hbody := nextItem_rlpList hrlp
    [rlpBytes (significant 8 account.nonce.val), rlpBytes (significant 32 account.balance.val),
      rlpBytes (beBytes 32 account.storageRoot.val), rlpBytes (beBytes 32 account.codeHash.val)] []
    (by
      have hn := length_rlpBytes_le (significant 8 account.nonce.val)
      have hb := length_rlpBytes_le (significant 32 account.balance.val)
      have hs := length_rlpBytes_le (beBytes 32 account.storageRoot.val)
      have hc := length_rlpBytes_le (beBytes 32 account.codeHash.val)
      have hn' := length_significant_le 8 account.nonce.val
      have hb' := length_significant_le 32 account.balance.val
      rw [length_beBytes] at hs hc
      simp only [List.flatten_cons, List.flatten_nil, List.length_append, List.length_nil]
      omega)
  rw [List.append_nil, ← encodeAccount] at hbody
  simp only [List.flatten_cons, List.flatten_nil, List.append_nil] at hbody
  simp only [decodeAccountStorageRoot, hbody, ok_bind, ensure, if_true, hnonce, hbalance, hroot,
    length_beBytes, b256FromSlice_beBytes]

/-- An encoded word decodes to the word. -/
theorem nextItem_encodeWord (hrlp : lib.rlpHeader = canonicalHeader) (word : U256) :
    nextItem lib (encodeWord word) = .ok ⟨false, significant 32 word.val, []⟩ := by
  have hle := length_significant_le 32 word.val
  have h := nextItem_rlpBytes hrlp (significant 32 word.val) [] (by omega)
  rwa [List.append_nil] at h

/-- A word is read back from its significant bytes. -/
theorem u256FromBeSlice_significant (word : U256) :
    u256FromBeSlice (significant 32 word.val) = .ok word := by
  rw [u256FromBeSlice, if_pos (length_significant_le 32 _), beNat_significant (word_lt_bytes word)]
  exact congrArg Except.ok (Fin.ext (Nat.mod_eq_of_lt word.isLt))

/-! ## Soundness -/

/-- The tries under a state root hold exactly the accounts and the nonzero words of a state,
under hashed keys; the empty root commits to the empty trie. -/
structure CommitsTo (lib : CoreLib) (content : TrieContent) (root : B256) (state : WorldState) :
    Prop where
  accounts : ∀ key value, content root key = some value ↔ ∃ address account,
    state.account address = some account ∧ key = accountKey lib address ∧
      value = encodeAccount account
  slots : ∀ address account, state.account address = some account → ∀ key value,
    content account.storageRoot key = some value ↔ ∃ slot word,
      state.storage address slot = some word ∧ key = slotKey lib slot ∧ value = encodeWord word.val
  emptyRoot : ∀ key, content emptyTrieRoot key = none

section Soundness

variable {state : WorldState} {root : B256} {address : Address} {slot : B256}

/-- The state trie says of an account key what the state says of the account. -/
theorem CommitsTo.account_eq (h : CommitsTo lib content root state)
    (hash : Set.InjOn lib.keccak256 (state.hashed address slot)) :
    content root (accountKey lib address) = (state.account address).map encodeAccount := by
  cases hcontent : content root (accountKey lib address) with
  | some value =>
    obtain ⟨a, account, ha, hkey, rfl⟩ := (h.accounts _ _).mp hcontent
    rw [accountKey_injective hash (by rw [ha]; rfl) hkey, ha]
    rfl
  | none =>
    cases ha : state.account address with
    | none => rfl
    | some account =>
      have := (h.accounts _ _).mpr ⟨address, account, ha, rfl, rfl⟩
      rw [hcontent] at this
      cases this

/-- The storage trie of an account says of a slot key what the state says of the slot. -/
theorem CommitsTo.slot_eq (h : CommitsTo lib content root state)
    (hash : Set.InjOn lib.keccak256 (state.hashed address slot)) {account : Account}
    (ha : state.account address = some account) :
    content account.storageRoot (slotKey lib slot) =
      (state.slot address slot).map fun word => encodeWord word.val := by
  have hslot : state.slot address slot = state.storage address slot := by
    rw [WorldState.slot, ha]
    rfl
  rw [hslot]
  cases hcontent : content account.storageRoot (slotKey lib slot) with
  | some value =>
    obtain ⟨s, word, hs, hkey, hvalue⟩ := (h.slots address account ha _ value).mp hcontent
    have hsome : (state.storage address s).isSome := by rw [hs, Option.isSome_some]
    rw [slotKey_injective hash hsome hkey, hs, hvalue, Option.map_some]
  | none =>
    cases hs : state.storage address slot with
    | none => rfl
    | some word =>
      have := (h.slots address account ha _ _).mpr ⟨slot, word, hs, rfl, rfl⟩
      rw [hcontent] at this
      cases this

/-- A slot without a word is zero. -/
theorem WorldState.value_of_none (h : state.slot address slot = none) :
    state.value address slot = 0 := by
  rw [WorldState.value, h]
  rfl

/-- A slot with a word has its value. -/
theorem WorldState.value_of_some {word : {word : U256 // word ≠ 0}}
    (h : state.slot address slot = some word) : state.value address slot = word.val := by
  rw [WorldState.value, h]
  rfl

/-- A slot reads zero exactly when it, or its account, is absent. -/
theorem WorldState.value_eq_zero :
    state.value address slot = 0 ↔ state.slot address slot = none := by
  cases h : state.slot address slot with
  | none => exact ⟨fun _ => rfl, fun _ => WorldState.value_of_none h⟩
  | some word =>
    rw [WorldState.value_of_some h]
    exact ⟨fun hzero => absurd hzero word.property, fun hnone => by cases hnone⟩

/-- Every accepted storage read is the word of the requested slot of the requested account:
zero exactly when the account or the slot is absent, whatever bytes the witness carries. -/
theorem verifyStorageValue_sound (hrlp : lib.rlpHeader = canonicalHeader)
    (hsound : ProofsSound lib content) (hstate : CommitsTo lib content root state)
    (hash : Set.InjOn lib.keccak256 (state.hashed address slot)) {proof : StorageProof} {v : U256}
    (h : verifyStorageValue lib root address slot proof = .ok v) :
    v = state.value address slot ∧ (v = 0 ↔ state.slot address slot = none) := by
  suffices hv : v = state.value address slot by
    exact ⟨hv, hv ▸ WorldState.value_eq_zero⟩
  simp only [verifyStorageValue, bind_eq_ok, mapError_eq_ok] at h
  obtain ⟨accountRlp, haccount, h⟩ := h
  have hread := (mptGet_sound hsound haccount).symm.trans (hstate.account_eq hash)
  cases ha : state.account address with
  | none =>
    -- No account: the lookup is an exclusion and every slot is zero.
    rw [ha] at hread
    rw [hread] at h
    simp only [Option.map_none, bind_eq_ok, pure_eq_ok] at h
    obtain ⟨_, _, rfl⟩ := h
    rw [WorldState.value_of_none]
    rw [WorldState.slot, ha]
    rfl
  | some account =>
    rw [ha] at hread
    rw [hread] at h
    simp only [Option.map_some, bind_eq_ok, mapError_eq_ok,
      decodeAccountStorageRoot_encode hrlp, Except.ok.injEq, exists_eq_left'] at h
    have hslot := hstate.slot_eq hash ha
    by_cases hempty : account.storageRoot = emptyTrieRoot
    · rw [if_pos hempty] at h
      simp only [bind_eq_ok, pure_eq_ok] at h
      obtain ⟨_, _, rfl⟩ := h
      rw [hempty, hstate.emptyRoot] at hslot
      exact (WorldState.value_of_none (Option.map_eq_none_iff.mp hslot.symm)).symm
    · rw [if_neg hempty] at h
      simp only [bind_eq_ok, mapError_eq_ok] at h
      obtain ⟨valueRlp, hvalue, h⟩ := h
      have hword := (mptGet_sound hsound hvalue).symm.trans hslot
      cases hs : state.slot address slot with
      | none =>
        rw [hs] at hword
        rw [hword] at h
        cases h
        exact (WorldState.value_of_none hs).symm
      | some word =>
        rw [hs] at hword
        rw [hword] at h
        simp only [Option.map_some, nextItem_encodeWord hrlp, ok_bind, bind_eq_ok,
          u256FromBeSlice_significant, Except.ok.injEq] at h
        obtain ⟨_, _, rfl⟩ := h
        exact (WorldState.value_of_some hs).symm

end Soundness

/-! ## One account with one slot -/

/-- Account 30 holds the word 77 in slot 3. -/
def vaultState : WorldState where
  account address := if address = 30 then some ⟨1, 0, 501, 0⟩ else none
  storage address slot := if address = 30 ∧ slot = 3 then some ⟨77, by decide⟩ else none

/-- The tries of the vault: state root 500, storage root 501. -/
def vaultContent : TrieContent := fun root key =>
  if root = 500 ∧ key = accountKey (circuitExemplar none).lib.toCoreLib 30 then
    some (encodeAccount ⟨1, 0, 501, 0⟩)
  else if root = 501 ∧ key = slotKey (circuitExemplar none).lib.toCoreLib 3 then
    some (encodeWord 77)
  else none

/-- The primitives over the vault. -/
def vaultLib : CoreLib :=
  { (circuitExemplar none).lib.toCoreLib with verifyProof := contentProof vaultContent }

/-- The state has one account. -/
theorem vault_account {address : Address} {account : Account} :
    vaultState.account address = some account ↔ address = 30 ∧ account = ⟨1, 0, 501, 0⟩ := by
  simp only [vaultState, Option.ite_none_right_eq_some, Option.some.injEq]
  exact and_congr_right fun _ => eq_comm

/-- The account has one slot. -/
theorem vault_slot {slot : B256} {word : {word : U256 // word ≠ 0}} :
    vaultState.storage 30 slot = some word ↔ slot = 3 ∧ word.val = 77 := by
  simp only [vaultState, true_and, Option.ite_none_right_eq_some, Option.some.injEq,
    Subtype.ext_iff]
  exact and_congr_right fun _ => eq_comm

/-- The content commits to the state. -/
theorem vault_commits : CommitsTo vaultLib vaultContent 500 vaultState where
  accounts key value := by
    have hroot : ¬(500 : B256) = 501 := by decide
    simp only [vaultContent, hroot, true_and, false_and, if_false, vault_account,
      Option.ite_none_right_eq_some, Option.some.injEq]
    constructor
    · intro h
      exact ⟨30, ⟨1, 0, 501, 0⟩, ⟨rfl, rfl⟩, h.1, h.2.symm⟩
    · intro h
      obtain ⟨address, account, ⟨haddress, haccount⟩, hkey, hvalue⟩ := h
      rw [haddress] at hkey
      rw [haccount] at hvalue
      exact ⟨hkey, hvalue.symm⟩
  slots address account h key value := by
    obtain ⟨haddress, haccount⟩ := vault_account.mp h
    have hroot : ¬(501 : B256) = 500 := by decide
    rw [haddress, haccount]
    simp only [vaultContent, hroot, true_and, false_and, if_false, vault_slot,
      Option.ite_none_right_eq_some, Option.some.injEq]
    constructor
    · intro h
      exact ⟨3, ⟨77, by decide⟩, ⟨rfl, rfl⟩, h.1, h.2.symm⟩
    · intro h
      obtain ⟨slot, word, ⟨hslot, hword⟩, hkey, hvalue⟩ := h
      rw [hslot] at hkey
      rw [hword] at hvalue
      exact ⟨hkey, hvalue.symm⟩
  emptyRoot key := by
    have hstate : ¬emptyTrieRoot = 500 := by decide
    have hstorage : ¬emptyTrieRoot = 501 := by decide
    simp only [vaultContent, hstate, hstorage, false_and, if_false]

/-- The two nodes of an honest read of the vault. -/
def vaultProof : StorageProof where
  accountProof := [Exemplar.leafNode (exemplarHash (beBytes 20 30)) (encodeAccount ⟨1, 0, 501, 0⟩)]
  storageProof := [Exemplar.leafNode (exemplarHash (beBytes 32 3)) (encodeWord 77)]

/-- The vault's slot reads as the word it holds. -/
theorem vault_read : ∃ v, verifyStorageValue vaultLib 500 30 3 vaultProof = .ok v ∧ v = 77 := by
  obtain ⟨v, hv⟩ := isOk_iff.mp (show (verifyStorageValue vaultLib 500 30 3 vaultProof).isOk = true
    by decide +kernel)
  have hash : Set.InjOn vaultLib.keccak256 (vaultState.hashed 30 3) := by
    have hmem : ∀ bytes ∈ vaultState.hashed 30 3, bytes = beBytes 20 30 ∨ bytes = beBytes 32 3 := by
      intro bytes hbytes
      rcases hbytes with ⟨a, ha, hbytes⟩ | ⟨s, hs, hbytes⟩
      · have h30 : a = 30 := by
          rcases ha with ha | ha
          · exact ha
          · obtain ⟨account, haccount⟩ := Option.isSome_iff_exists.mp ha
            exact (vault_account.mp haccount).1
        rw [hbytes, h30]
        exact Or.inl rfl
      · have h3 : s = 3 := by
          rcases hs with hs | hs
          · exact hs
          · obtain ⟨word, hword⟩ := Option.isSome_iff_exists.mp hs
            exact (vault_slot.mp hword).1
        rw [hbytes, h3]
        exact Or.inr rfl
    have hne : vaultLib.keccak256 (beBytes 20 30) ≠ vaultLib.keccak256 (beBytes 32 3) := by
      decide +kernel
    intro x hx y hy hxy
    rcases hmem x hx with rfl | rfl
    · rcases hmem y hy with rfl | rfl
      · rfl
      · exact absurd hxy hne
    · rcases hmem y hy with rfl | rfl
      · exact absurd hxy.symm hne
      · rfl
  have hsound : ProofsSound vaultLib vaultContent := by
    intro root key value nodes h
    change contentProof vaultContent root key value nodes = .ok () at h
    exact contentProof_eq_ok.mp h
  exact ⟨v, hv, (verifyStorageValue_sound rfl hsound vault_commits hash hv).1.trans rfl⟩

end LoopProof
