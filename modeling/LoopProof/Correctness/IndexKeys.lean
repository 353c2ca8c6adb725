import LoopProof.Core.CanonicalRlp

/-!
# Index keys are a prefix-free code

The key of an index in the receipt and transaction tries is written out by the guest, and the host
builds these tries with its general encoder. Both give the same bytes, and the decoder that reads
an encoding back from whatever follows it leaves no room for one key to begin another.
-/

namespace LoopProof

/-- One more byte of width puts a zero in front. -/
theorem beBytes_succ {k n : ℕ} (h : n < 256 ^ k) : beBytes (k + 1) n = 0 :: beBytes k n := by
  induction k generalizing n with
  | zero =>
    obtain rfl : n = 0 := by omega
    rfl
  | succ k ih =>
    have hdiv : n / 256 < 256 ^ k := by
      rw [pow_succ] at h
      omega
    rw [beBytes, ih hdiv, beBytes, List.cons_append]

/-- The significant bytes do not depend on the width. -/
theorem significant_add {k n : ℕ} (h : n < 256 ^ k) (m : ℕ) :
    significant (k + m) n = significant k n := by
  induction m with
  | zero => rfl
  | succ m ih =>
    have hwide : n < 256 ^ (k + m) :=
      h.trans_le (Nat.pow_le_pow_right (by decide) (Nat.le_add_right k m))
    rw [significant, ← Nat.add_assoc, beBytes_succ hwide, ← ih]
    rfl

/-- The explicit key of an index is its general encoding. -/
theorem trieIndexKey_eq_rlpUint (i : U64) :
    trieIndexKey i = rlpUint (widen bits64_le_128 i) := by
  have hsame : significant 16 i.val = significant 8 i.val :=
    significant_add (i.isLt.trans_le (by norm_num)) 8
  rw [rlpUint, widen_val, hsame, trieIndexKey]
  by_cases hzero : i = 0
  · subst hzero
    rfl
  · rw [if_neg hzero, rlpBytes]
    by_cases hsingle : (significant 8 i.val).length = 1 ∧ (significant 8 i.val).all (· < 0x80)
    · rw [if_pos hsingle, if_pos hsingle]
    · have hshort := length_significant_le 8 i.val
      rw [if_neg hsingle, if_neg hsingle, rlpLenPrefix, if_pos (by omega)]
      rfl

/-- An encoding that begins another is that encoding. -/
theorem rlpBytes_begins {payload payload' : Bytes} (hfits : payload.length < 2 ^ 64)
    (hfits' : payload'.length < 2 ^ 64) (h : rlpBytes payload <+: rlpBytes payload') :
    payload = payload' := by
  obtain ⟨tail, htail⟩ := h
  have hread := @canonicalHeader_rlpBytes payload tail hfits
  have hread' := @canonicalHeader_rlpBytes payload' [] hfits'
  rw [List.append_nil, ← htail, hread] at hread'
  obtain ⟨hlength, hrest⟩ : payload.length = payload'.length ∧ payload ++ tail = payload' := by
    simpa using hread'
  have hnone : tail = [] := by
    have hlengths := congrArg List.length hrest
    rw [List.length_append] at hlengths
    exact List.length_eq_zero_iff.mp (by omega)
  rw [hnone, List.append_nil] at hrest
  exact hrest

theorem rlpUint_begins {v w : U128} (h : rlpUint v <+: rlpUint w) : v = w := by
  have hfits : ∀ u : U128, (significant 16 u.val).length < 2 ^ 64 := fun u =>
    (length_significant_le 16 u.val).trans_lt (by norm_num)
  have hsame := congrArg beNat (rlpBytes_begins (hfits v) (hfits w) h)
  rw [beNat_significant (v.isLt.trans_le (by norm_num)),
    beNat_significant (w.isLt.trans_le (by norm_num))] at hsame
  exact Fin.ext hsame

/-- A byte is its two halves. -/
theorem byte_eq_halves (b : UInt8) : b = (b >>> 4) <<< 4 ||| (b &&& 0x0f) := by
  have hall : ∀ v : BitVec 8, UInt8.ofBitVec v =
      (UInt8.ofBitVec v >>> 4) <<< 4 ||| (UInt8.ofBitVec v &&& 0x0f) := by
    decide +kernel
  exact hall b.toBitVec

/-- A path that begins another comes from bytes that do. -/
theorem unpack_begins {bytes bytes' : Bytes}
    (h : Nibbles.unpack bytes <+: Nibbles.unpack bytes') : bytes <+: bytes' := by
  induction bytes generalizing bytes' with
  | nil => exact List.nil_prefix
  | cons b rest ih =>
    cases bytes' with
    | nil =>
      obtain ⟨tail, htail⟩ := h
      cases htail
    | cons b' rest' =>
      simp only [Nibbles.unpack, List.flatMap_cons, List.cons_append, List.nil_append,
        List.cons_prefix_cons] at h
      obtain ⟨hhigh, hlow, hrest⟩ := h
      have hbyte : b = b' := by
        rw [byte_eq_halves b, byte_eq_halves b', hhigh, hlow]
      rw [List.cons_prefix_cons]
      exact ⟨hbyte, ih hrest⟩

/-- Index keys are the encodings of the host's tries, different indices have different keys, and
neither a key nor its path begins that of another index. -/
theorem trieIndexKey_canonical :
    (∀ i : U64, trieIndexKey i = rlpUint (widen bits64_le_128 i)) ∧
      Function.Injective trieIndexKey ∧
      ∀ i j : U64, i ≠ j → ¬ trieIndexKey i <+: trieIndexKey j ∧
        ¬ Nibbles.unpack (trieIndexKey i) <+: Nibbles.unpack (trieIndexKey j) := by
  have hbegins : ∀ i j : U64, trieIndexKey i <+: trieIndexKey j → i = j := by
    intro i j h
    rw [trieIndexKey_eq_rlpUint, trieIndexKey_eq_rlpUint] at h
    have hval := congrArg Fin.val (rlpUint_begins h)
    exact Fin.ext hval
  refine ⟨trieIndexKey_eq_rlpUint, ?_, ?_⟩
  · intro i j h
    exact hbegins i j (h ▸ List.prefix_refl _)
  · intro i j hne
    constructor
    · intro h
      exact hne (hbegins i j h)
    · intro h
      exact hne (hbegins i j (unpack_begins h))

end LoopProof
