import Mathlib.Tactic.IntervalCases
import LoopProof.Lib.Word

/-!
# Hexadecimal texts

Byte strings as texts of two digits a byte. Texts are written in lower case and read in either
case; a padded number is the text of its big-endian bytes.
-/

namespace LoopProof

/-- The two digits of a byte. -/
def hexPair (byte : UInt8) : List Char :=
  [(byte.toNat / 16).digitChar, (byte.toNat % 16).digitChar]

/-- The digits of bytes. -/
def hexText (bytes : Bytes) : List Char := bytes.flatMap hexPair

/-- The value of a digit of either case. -/
def hexValue (digit : Char) : Option ℕ :=
  if '0' ≤ digit ∧ digit ≤ '9' then some (digit.toNat - 48)
  else if 'a' ≤ digit ∧ digit ≤ 'f' then some (digit.toNat - 87)
  else if 'A' ≤ digit ∧ digit ≤ 'F' then some (digit.toNat - 55)
  else none

/-- The bytes that a text of digit pairs denotes. -/
def hexBytes : List Char → Option Bytes
  | [] => some []
  | [_] => none
  | high :: low :: rest => do
    let high ← hexValue high
    let low ← hexValue low
    let bytes ← hexBytes rest
    return UInt8.ofNat (16 * high + low) :: bytes

theorem hexText_append (left right : Bytes) :
    hexText (left ++ right) = hexText left ++ hexText right :=
  List.flatMap_append

@[simp] theorem length_hexText (bytes : Bytes) : (hexText bytes).length = 2 * bytes.length := by
  induction bytes with
  | nil => rfl
  | cons byte bytes ih =>
    rw [hexText, List.flatMap_cons, List.length_append, List.length_cons]
    change 2 + (hexText bytes).length = _
    rw [ih]
    omega

/-- A digit reads back as its value. -/
theorem hexValue_digitChar {n : ℕ} (h : n < 16) : hexValue n.digitChar = some n := by
  interval_cases n <;> rfl

/-- A text reads back as its bytes. -/
theorem hexBytes_hexText (bytes : Bytes) : hexBytes (hexText bytes) = some bytes := by
  induction bytes with
  | nil => rfl
  | cons byte bytes ih =>
    have hbyte : byte.toNat < 256 := byte.toNat_lt
    have hsplit : 16 * (byte.toNat / 16) + byte.toNat % 16 = byte.toNat := by omega
    change hexBytes ((byte.toNat / 16).digitChar :: (byte.toNat % 16).digitChar :: hexText bytes) =
      some (byte :: bytes)
    rw [hexBytes, hexValue_digitChar (by omega), hexValue_digitChar (by omega), ih]
    simp only [Option.bind_eq_bind, Option.bind_some, hsplit, UInt8.ofNat_toNat]
    rfl

/-- Zero bytes are written as zero digits. -/
theorem hexText_replicate_zero (n : ℕ) :
    hexText (List.replicate n 0) = List.replicate (2 * n) '0' := by
  induction n with
  | zero => rfl
  | succ n ih =>
    change '0' :: '0' :: hexText (List.replicate n 0) = _
    rw [ih]
    rfl

/-- A digit is the digit of its value, in lower case. -/
theorem toLower_of_hexValue {digit : Char} {n : ℕ} (h : hexValue digit = some n) :
    digit.toLower = n.digitChar := by
  have hchar : Char.ofNat digit.toNat = digit := Char.ofNat_toNat digit
  generalize hcode : digit.toNat = code at hchar
  unfold hexValue at h
  split at h
  case isTrue hrange =>
    have hlow : 48 ≤ code := hcode ▸ hrange.1
    have hhigh : code ≤ 57 := hcode ▸ hrange.2
    rw [← Option.some.inj h, hcode, ← hchar]
    interval_cases code <;> rfl
  split at h
  case isTrue hrange =>
    have hlow : 97 ≤ code := hcode ▸ hrange.1
    have hhigh : code ≤ 102 := hcode ▸ hrange.2
    rw [← Option.some.inj h, hcode, ← hchar]
    interval_cases code <;> rfl
  split at h
  case isTrue hrange =>
    have hlow : 65 ≤ code := hcode ▸ hrange.1
    have hhigh : code ≤ 70 := hcode ▸ hrange.2
    rw [← Option.some.inj h, hcode, ← hchar]
    interval_cases code <;> rfl
  cases h

theorem hexValue_lt {digit : Char} {n : ℕ} (h : hexValue digit = some n) : n < 16 := by
  have hnine {c : Char} (hrange : c ≤ '9') : c.toNat ≤ 57 := hrange
  have hlower {c : Char} (hrange : c ≤ 'f') : c.toNat ≤ 102 := hrange
  have hupper {c : Char} (hrange : c ≤ 'F') : c.toNat ≤ 70 := hrange
  unfold hexValue at h
  split at h
  case isTrue hrange =>
    have hcode := hnine hrange.2
    have hvalue := Option.some.inj h
    omega
  split at h
  case isTrue hrange =>
    have hcode := hlower hrange.2
    have hvalue := Option.some.inj h
    omega
  split at h
  case isTrue hrange =>
    have hcode := hupper hrange.2
    have hvalue := Option.some.inj h
    omega
  cases h

/-- A text read as bytes is their text, in lower case. -/
theorem map_toLower_of_hexBytes {text : List Char} {bytes : Bytes}
    (h : hexBytes text = some bytes) :
    text.map Char.toLower = hexText bytes := by
  induction text using hexBytes.induct generalizing bytes with
  | case1 =>
    rw [← Option.some.inj h]
    rfl
  | case2 digit => cases h
  | case3 high low rest ih =>
    rw [hexBytes] at h
    simp only [Option.bind_eq_bind, Option.bind_eq_some_iff] at h
    obtain ⟨a, ha, b, hb, bytes', hbytes, heq⟩ := h
    have hbyte : (UInt8.ofNat (16 * a + b)).toNat = 16 * a + b := by
      rw [UInt8.toNat_ofNat']
      have ha' := hexValue_lt ha
      have hb' := hexValue_lt hb
      omega
    have hb' := hexValue_lt hb
    have hhigh : (16 * a + b) / 16 = a := by omega
    have hlow : (16 * a + b) % 16 = b := by omega
    rw [← Option.some.inj heq, List.map_cons, List.map_cons, ih hbytes, toLower_of_hexValue ha,
      toLower_of_hexValue hb]
    change _ = hexPair _ ++ hexText bytes'
    rw [hexPair, hbyte, hhigh, hlow]
    rfl

theorem hexText_injective {left right : Bytes} (h : hexText left = hexText right) :
    left = right := by
  have hread := congrArg hexBytes h
  rw [hexBytes_hexText, hexBytes_hexText] at hread
  exact Option.some.inj hread

/-! ## Numbers -/

/-- The low digits of a number, most significant first. -/
def hexDigits : ℕ → ℕ → List Char
  | 0, _ => []
  | k + 1, n => hexDigits k (n / 16) ++ [(n % 16).digitChar]

theorem hexDigits_zero (k : ℕ) : hexDigits k 0 = List.replicate k '0' := by
  induction k with
  | zero => rfl
  | succ k ih =>
    rw [hexDigits, Nat.zero_div, ih, List.replicate_succ']
    rfl

/-- A padded number has its low digits. -/
theorem leftpad_toDigits {k n : ℕ} (hn : n < 16 ^ (k + 1)) :
    (Nat.toDigits 16 n).leftpad (k + 1) '0' = hexDigits (k + 1) n := by
  induction k generalizing n with
  | zero =>
    have hlt : n < 16 := by simpa using hn
    rw [Nat.toDigits_of_lt_base hlt, hexDigits, Nat.mod_eq_of_lt hlt]
    rfl
  | succ k ih =>
    rcases Nat.lt_or_ge n 16 with hlt | hge
    · rw [Nat.toDigits_of_lt_base hlt, hexDigits, Nat.div_eq_of_lt hlt, hexDigits_zero,
        Nat.mod_eq_of_lt hlt]
      rfl
    · have hquotient : n / 16 < 16 ^ (k + 1) := by
        rw [Nat.div_lt_iff_lt_mul (by decide)]
        rwa [pow_succ] at hn
      rw [Nat.toDigits_of_base_le (by decide) hge, hexDigits, ← ih hquotient]
      simp only [List.leftpad, List.length_append, List.length_singleton]
      rw [Nat.add_sub_add_right, List.append_assoc]

/-- The text of big-endian bytes. -/
theorem hexText_beBytes (k n : ℕ) : hexText (beBytes k n) = hexDigits (2 * k) n := by
  induction k generalizing n with
  | zero => rfl
  | succ k ih =>
    have hbyte : (UInt8.ofNat n).toNat = n % 256 := UInt8.toNat_ofNat'
    have hquotient : n / 16 / 16 = n / 256 := Nat.div_div_eq_div_mul n 16 16
    rw [beBytes, hexText_append, ih, Nat.mul_add, hexDigits, hexDigits, hquotient,
      List.append_assoc]
    change _ ++ [((UInt8.ofNat n).toNat / 16).digitChar, ((UInt8.ofNat n).toNat % 16).digitChar] = _
    rw [hbyte]
    have hhigh : n % 256 / 16 = n / 16 % 16 := by omega
    have hlow : n % 256 % 16 = n % 16 := by omega
    rw [hhigh, hlow]
    rfl

/-- A number padded to a word is the text of its argument word. -/
theorem leftpad_toDigits_word {n : ℕ} (hn : n < 2 ^ 256) :
    (Nat.toDigits 16 n).leftpad 64 '0' = hexText (abiWord n) := by
  rw [abiWord, hexText_beBytes]
  exact leftpad_toDigits (by norm_num at hn ⊢; exact hn)

end LoopProof
