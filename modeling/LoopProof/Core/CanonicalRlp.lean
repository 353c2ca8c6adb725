import LoopProof.Core.Receipt

/-!
# Canonical RLP

The encoder the host and the guest share, and the canonical item-header decoder it is
written for. `nextItem_rlpBytes` and `nextItem_rlpList` say that a parser over this
decoder reads back every encoded item, at every length form.
-/

namespace LoopProof

/-! ## Encoding -/

/-- Prefix of a payload: the short form up to 55 bytes, else the length of the length. -/
def rlpLenPrefix (base : ℕ) (len : ℕ) : Bytes :=
  if len ≤ 55 then [UInt8.ofNat (base + len)]
  else UInt8.ofNat (base + 55 + (significant 8 len).length) :: significant 8 len

/-- The encoding of a payload; a single small byte stands for itself. -/
def rlpBytes (payload : Bytes) : Bytes :=
  if payload.length = 1 ∧ payload.all (· < 0x80) then payload
  else rlpLenPrefix 0x80 payload.length ++ payload

/-- The encoding of a number by its significant bytes. -/
def rlpUint (v : U128) : Bytes := rlpBytes (significant 16 v.val)

/-- The encoding of a list of encoded items. -/
def rlpList (items : List Bytes) : Bytes :=
  rlpLenPrefix 0xc0 items.flatten.length ++ items.flatten

/-! ## Decoding -/

/-- The payload must still be in the buffer. -/
def checkedHeader (list : Bool) (payloadLength : ℕ) (rest : Bytes) :
    Except String (RlpHeader × Bytes) :=
  if rest.length < payloadLength then .error "input too short"
  else .ok (⟨list, payloadLength⟩, rest)

/-- The long form: a length of `k` bytes without leading zero, at least 56. -/
def longHeader (list : Bool) (k : ℕ) (rest : Bytes) : Except String (RlpHeader × Bytes) :=
  if rest.length < k then .error "input too short"
  else if (rest.take k).head? = some 0 then .error "leading zero"
  else if beNat (rest.take k) < 56 then .error "non-canonical size"
  else checkedHeader list (beNat (rest.take k)) (rest.drop k)

/-- Decode one item header and advance past it; a single byte is its own payload. -/
def canonicalHeader : Bytes → Except String (RlpHeader × Bytes)
  | [] => .error "input too short"
  | b :: rest =>
    if b.toNat < 0x80 then .ok (⟨false, 1⟩, b :: rest)
    else if b.toNat ≤ 0xb7 then
      if b.toNat = 0x81 ∧ rest.head?.any (· < 0x80) then .error "non-canonical single byte"
      else checkedHeader false (b.toNat - 0x80) rest
    else if b.toNat ≤ 0xbf then longHeader false (b.toNat - 0xb7) rest
    else if b.toNat ≤ 0xf7 then checkedHeader true (b.toNat - 0xc0) rest
    else longHeader true (b.toNat - 0xf7) rest

section RoundTrip

private theorem beNat_foldl_zero (bytes : Bytes) :
    beNat (bytes.dropWhile (· == 0)) = beNat bytes := by
  induction bytes with
  | nil => rfl
  | cons b rest ih =>
    by_cases hb : b = 0
    · subst hb
      simp only [List.dropWhile_cons, beq_self_eq_true, if_true, ih]
      rfl
    · rw [List.dropWhile_cons, if_neg (by simpa using hb)]

/-- The significant bytes denote the number. -/
theorem beNat_significant {k n : ℕ} (h : n < 256 ^ k) : beNat (significant k n) = n := by
  rw [significant, beNat_foldl_zero, beNat_beBytes, Nat.mod_eq_of_lt h]

theorem length_significant_le (k n : ℕ) : (significant k n).length ≤ k := by
  have h := (List.dropWhile_sublist (· == (0 : UInt8)) (l := beBytes k n)).length_le
  rwa [length_beBytes] at h

/-- No significant byte string starts with a zero. -/
theorem head?_significant (k n : ℕ) : (significant k n).head? ≠ some 0 := by
  intro h
  have := List.head?_dropWhile_not (· == (0 : UInt8)) (beBytes k n)
  rw [significant] at h
  rw [h] at this
  simp at this

private theorem take_prefix {n : ℕ} (sig rest : Bytes) (h : sig.length = n) :
    (sig ++ rest).take n = sig ∧ (sig ++ rest).drop n = rest := by
  subst h
  exact ⟨List.take_left, List.drop_left⟩

/-- A long-form length reads back with its payload. -/
private theorem longHeader_significant {list : Bool} {payload tail : Bytes}
    (hlong : 56 ≤ payload.length) (hfits : payload.length < 2 ^ 64) :
    longHeader list (significant 8 payload.length).length
      (significant 8 payload.length ++ (payload ++ tail)) =
        .ok (⟨list, payload.length⟩, payload ++ tail) := by
  have hval : beNat (significant 8 payload.length) = payload.length :=
    beNat_significant (by norm_num at hfits ⊢; exact hfits)
  obtain ⟨htake, hdrop⟩ := take_prefix (significant 8 payload.length) (payload ++ tail) rfl
  have hlen : ¬ (payload ++ tail).length < payload.length := by
    rw [List.length_append]
    omega
  rw [longHeader, htake, hdrop, hval, checkedHeader, if_neg (by rw [List.length_append]; omega),
    if_neg (head?_significant 8 payload.length), if_neg (by omega), if_neg hlen]

/-- The length of a long-form length fits one prefix byte. -/
private theorem significant_length_bounds {n : ℕ} (hlong : 56 ≤ n) (hfits : n < 2 ^ 64) :
    1 ≤ (significant 8 n).length ∧ (significant 8 n).length ≤ 8 := by
  refine ⟨?_, length_significant_le 8 n⟩
  by_contra hzero
  have hnil : significant 8 n = [] := List.length_eq_zero_iff.mp (by omega)
  have hval : beNat (significant 8 n) = n := beNat_significant (by norm_num at hfits ⊢; exact hfits)
  rw [hnil] at hval
  have : beNat [] = 0 := rfl
  omega

/-- An encoded byte string decodes to its own header. -/
theorem canonicalHeader_rlpBytes {payload tail : Bytes} (hfits : payload.length < 2 ^ 64) :
    canonicalHeader (rlpBytes payload ++ tail) =
      .ok (⟨false, payload.length⟩, payload ++ tail) := by
  unfold rlpBytes
  split
  · rename_i h
    obtain ⟨b, rfl⟩ := List.length_eq_one_iff.mp h.1
    have hb : b.toNat < 0x80 := by simpa [UInt8.lt_iff_toNat_lt] using h.2
    simp [canonicalHeader, hb]
  · rename_i hsingle
    unfold rlpLenPrefix
    split
    · rename_i hshort
      have hbyte : (UInt8.ofNat (0x80 + payload.length)).toNat = 0x80 + payload.length := by
        rw [UInt8.toNat_ofNat']
        omega
      have hone : ¬ (0x80 + payload.length = 0x81 ∧
          ((payload ++ tail).head?.any (· < 0x80)) = true) := by
        rintro ⟨hlen, hany⟩
        obtain ⟨b, rfl⟩ := List.length_eq_one_iff.mp (show payload.length = 1 by omega)
        exact hsingle ⟨rfl, by simpa using hany⟩
      simp only [List.cons_append, List.nil_append, canonicalHeader, hbyte]
      rw [if_neg (by omega), if_pos (by omega), if_neg hone, checkedHeader,
        if_neg (by rw [List.length_append]; omega), Nat.add_sub_cancel_left]
    · rename_i hlong
      have hlong : 56 ≤ payload.length := by omega
      obtain ⟨hlo, hhi⟩ := significant_length_bounds hlong hfits
      have hbyte : (UInt8.ofNat (0x80 + 55 + (significant 8 payload.length).length)).toNat =
          0xb7 + (significant 8 payload.length).length := by
        rw [UInt8.toNat_ofNat']
        omega
      simp only [List.cons_append, List.append_assoc, canonicalHeader, hbyte]
      rw [if_neg (by omega), if_neg (by omega), if_pos (by omega), Nat.add_sub_cancel_left]
      exact longHeader_significant hlong hfits

/-- An encoded list decodes to its own header. -/
theorem canonicalHeader_rlpList {items : List Bytes} {tail : Bytes}
    (hfits : items.flatten.length < 2 ^ 64) :
    canonicalHeader (rlpList items ++ tail) =
      .ok (⟨true, items.flatten.length⟩, items.flatten ++ tail) := by
  unfold rlpList rlpLenPrefix
  split
  · rename_i hshort
    have hbyte : (UInt8.ofNat (0xc0 + items.flatten.length)).toNat =
        0xc0 + items.flatten.length := by
      rw [UInt8.toNat_ofNat']
      omega
    simp only [List.cons_append, List.nil_append, canonicalHeader, hbyte]
    rw [if_neg (by omega), if_neg (by omega), if_neg (by omega), if_pos (by omega), checkedHeader,
      if_neg (by rw [List.length_append]; omega), Nat.add_sub_cancel_left]
  · rename_i hlong
    have hlong : 56 ≤ items.flatten.length := by omega
    obtain ⟨hlo, hhi⟩ := significant_length_bounds hlong hfits
    have hbyte : (UInt8.ofNat (0xc0 + 55 + (significant 8 items.flatten.length).length)).toNat =
        0xf7 + (significant 8 items.flatten.length).length := by
      rw [UInt8.toNat_ofNat']
      omega
    simp only [List.cons_append, List.append_assoc, canonicalHeader, hbyte]
    rw [if_neg (by omega), if_neg (by omega), if_neg (by omega), if_neg (by omega),
      Nat.add_sub_cancel_left]
    exact longHeader_significant hlong hfits

variable {lib : CoreLib}

/-- The next item after a decoded header is exactly the payload. -/
private theorem nextItem_of_header {buf payload tail : Bytes} {list : Bool}
    (h : lib.rlpHeader buf = .ok (⟨list, payload.length⟩, payload ++ tail)) :
    nextItem lib buf = .ok ⟨list, payload, tail⟩ := by
  have hlen : payload.length ≤ (payload ++ tail).length := by
    rw [List.length_append]
    omega
  have hpayload : sliceAt "next_item payload" (payload ++ tail) 0 payload.length = .ok payload := by
    rw [sliceAt, if_pos ⟨Nat.zero_le _, hlen⟩, List.drop_zero, Nat.sub_zero, List.take_left]
  have hrest : sliceAt "next_item rest" (payload ++ tail) payload.length (payload ++ tail).length =
      .ok tail := by
    rw [sliceAt, if_pos ⟨hlen, le_rfl⟩, List.drop_left, List.length_append,
      Nat.add_sub_cancel_left, List.take_length]
  simp only [nextItem, bind_eq_ok, mapError_eq_ok, ensure_eq_ok, pure_eq_ok, Prod.exists]
  exact ⟨_, _, h, (), hlen, _, hpayload, _, hrest, rfl⟩

/-- A parser over the canonical decoder reads back every encoded byte string. -/
theorem nextItem_rlpBytes (hlib : lib.rlpHeader = canonicalHeader) (payload tail : Bytes)
    (hfits : payload.length < 2 ^ 64) :
    nextItem lib (rlpBytes payload ++ tail) = .ok ⟨false, payload, tail⟩ :=
  nextItem_of_header (by rw [hlib, canonicalHeader_rlpBytes hfits])

/-- A parser over the canonical decoder reads back every encoded list. -/
theorem nextItem_rlpList (hlib : lib.rlpHeader = canonicalHeader) (items : List Bytes)
    (tail : Bytes) (hfits : items.flatten.length < 2 ^ 64) :
    nextItem lib (rlpList items ++ tail) = .ok ⟨true, items.flatten, tail⟩ :=
  nextItem_of_header (by rw [hlib, canonicalHeader_rlpList hfits])

end RoundTrip

/-! ## Receipts -/

/-- One log as a list item of a receipt. -/
def encodeLog (log : ParsedLog) : Bytes :=
  rlpList [rlpBytes (beBytes 20 log.address.val),
    rlpList (log.topics.map fun topic => rlpBytes (beBytes 32 topic.val)), rlpBytes log.data]

/-- The trie value of a receipt: the type byte unless it is zero, then the list of status,
cumulative gas, bloom, logs and the fields that only deposit receipts carry. -/
def encodeReceipt (type : UInt8) (status cumulativeGas : U64) (bloom : Bytes)
    (logs : List ParsedLog) (deposit : Option (U64 × U64)) : Bytes :=
  let extra := match deposit with
    | some (nonce, version) =>
      if type = 0x7e then
        [rlpUint (widen bits64_le_128 nonce), rlpUint (widen bits64_le_128 version)]
      else []
    | none => []
  let inner := rlpList ([rlpUint (widen bits64_le_128 status),
    rlpUint (widen bits64_le_128 cumulativeGas), rlpBytes bloom,
      rlpList (logs.map encodeLog)] ++ extra)
  if type = 0 then inner else type :: inner

end LoopProof
