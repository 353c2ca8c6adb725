import LoopProof.Lib.Hex

/-!
# Quoted strings

Strings of the script are sequences of 16-bit code units. A quoted string escapes quotation marks,
backslashes, control characters and surrogates without a partner; a pair of surrogates is one
character. Reading a quoted string gives the string back.
-/

namespace LoopProof

/-- A string of the script. -/
abbrev JsString := List UInt16

namespace JsString

/-- The first half of a pair of code units. -/
def isHigh (unit : UInt16) : Bool := 0xD800 ≤ unit.toNat ∧ unit.toNat ≤ 0xDBFF

/-- The second half of a pair of code units. -/
def isLow (unit : UInt16) : Bool := 0xDC00 ≤ unit.toNat ∧ unit.toNat ≤ 0xDFFF

/-- The character of a pair of surrogates. -/
def pairChar (high low : UInt16) : Char :=
  Char.ofNat (0x10000 + (high.toNat - 0xD800) * 0x400 + (low.toNat - 0xDC00))

/-- One code unit of a quoted string. -/
def escapeUnit (unit : UInt16) : List Char :=
  if unit = 0x22 then ['\\', '"']
  else if unit = 0x5C then ['\\', '\\']
  else if unit = 0x08 then ['\\', 'b']
  else if unit = 0x09 then ['\\', 't']
  else if unit = 0x0A then ['\\', 'n']
  else if unit = 0x0C then ['\\', 'f']
  else if unit = 0x0D then ['\\', 'r']
  else if unit.toNat < 0x20 ∨ isHigh unit ∨ isLow unit then '\\' :: 'u' :: hexDigits 4 unit.toNat
  else [Char.ofNat unit.toNat]

/-- The code units between the quotation marks; halves without their other half are escaped. -/
def quoteUnits : JsString → List Char
  | high :: low :: rest =>
    if isHigh high ∧ isLow low then pairChar high low :: quoteUnits rest
    else escapeUnit high ++ quoteUnits (low :: rest)
  | [unit] => escapeUnit unit
  | [] => []

/-- The string between quotation marks. -/
def quote (string : JsString) : List Char := '"' :: (quoteUnits string ++ ['"'])

/-! ## Reading -/

/-- The code units of a character. -/
def charUnits (char : Char) : JsString :=
  if char.toNat < 0x10000 then [UInt16.ofNat char.toNat]
  else [UInt16.ofNat (0xD800 + (char.toNat - 0x10000) / 0x400),
    UInt16.ofNat (0xDC00 + (char.toNat - 0x10000) % 0x400)]

/-- The escapes of one letter. -/
def simpleEscape : Char → Option UInt16
  | '"' => some 0x22
  | '\\' => some 0x5C
  | 'b' => some 0x08
  | 't' => some 0x09
  | 'n' => some 0x0A
  | 'f' => some 0x0C
  | 'r' => some 0x0D
  | _ => none

/-- The code unit of four digits. -/
def hexUnit (a b c d : Char) : Option UInt16 := do
  let a ← hexValue a
  let b ← hexValue b
  let c ← hexValue c
  let d ← hexValue d
  return UInt16.ofNat (((a * 16 + b) * 16 + c) * 16 + d)

/-- The string up to the closing quotation mark, with the text behind it. -/
def readUnits : List Char → Option (JsString × List Char)
  | '"' :: rest => some ([], rest)
  | '\\' :: 'u' :: a :: b :: c :: d :: rest => do
    let unit ← hexUnit a b c d
    let (units, rest) ← readUnits rest
    return (unit :: units, rest)
  | '\\' :: char :: rest => do
    let unit ← simpleEscape char
    let (units, rest) ← readUnits rest
    return (unit :: units, rest)
  | char :: rest => do
    let (units, rest) ← readUnits rest
    return (charUnits char ++ units, rest)
  | [] => none

/-- A character that stands for itself is read as its code units. -/
theorem readUnits_char {char : Char} (hquote : char ≠ '"') (hescape : char ≠ '\\')
    (rest : List Char) :
    readUnits (char :: rest) =
      (readUnits rest).map fun read => (charUnits char ++ read.1, read.2) := by
  rw [readUnits]
  · cases readUnits rest <;> rfl
  · exact hquote
  · intro _ _ _ _ _ hcontra
    exact absurd hcontra hescape
  · intro _ _ hcontra
    exact absurd hcontra hescape

theorem hexUnit_hexDigits {n : ℕ} (h : n < 0x10000) :
    hexUnit (n / 16 / 16 / 16 % 16).digitChar (n / 16 / 16 % 16).digitChar
      (n / 16 % 16).digitChar (n % 16).digitChar = some (UInt16.ofNat n) := by
  have hsplit : ((n / 16 / 16 / 16 % 16 * 16 + n / 16 / 16 % 16) * 16 + n / 16 % 16) * 16 +
      n % 16 = n := by omega
  rw [hexUnit, hexValue_digitChar (Nat.mod_lt _ (by decide)),
    hexValue_digitChar (Nat.mod_lt _ (by decide)), hexValue_digitChar (Nat.mod_lt _ (by decide)),
    hexValue_digitChar (Nat.mod_lt _ (by decide))]
  simp only [Option.bind_eq_bind, Option.bind_some, hsplit]
  rfl

theorem readUnits_simple {char : Char} {unit : UInt16} (hchar : char ≠ 'u')
    (h : simpleEscape char = some unit) (rest : List Char) :
    readUnits ('\\' :: char :: rest) =
      (readUnits rest).map fun read => (unit :: read.1, read.2) := by
  rw [readUnits, h]
  · cases readUnits rest <;> rfl
  · intro _ _ _ _ _ hcontra
    exact absurd hcontra hchar

theorem readUnits_hex {n : ℕ} (h : n < 0x10000) (rest : List Char) :
    readUnits ('\\' :: 'u' :: hexDigits 4 n ++ rest) =
      (readUnits rest).map fun read => (UInt16.ofNat n :: read.1, read.2) := by
  change readUnits ('\\' :: 'u' :: (n / 16 / 16 / 16 % 16).digitChar ::
    (n / 16 / 16 % 16).digitChar :: (n / 16 % 16).digitChar :: (n % 16).digitChar :: rest) = _
  rw [readUnits, hexUnit_hexDigits h]
  cases readUnits rest <;> rfl

/-- The code unit is no surrogate. -/
theorem valid_of_not_surrogate {unit : UInt16} (hhigh : ¬ isHigh unit) (hlow : ¬ isLow unit) :
    unit.toNat.isValidChar := by
  have hlt : unit.toNat < 65536 := unit.toNat_lt
  simp only [isHigh, isLow, Bool.decide_and, Bool.and_eq_true, decide_eq_true_eq] at hhigh hlow
  unfold Nat.isValidChar
  omega

theorem toNat_charOfNat {n : ℕ} (h : n.isValidChar) : (Char.ofNat n).toNat = n := by
  rw [Char.ofNat, dif_pos h]
  rfl

/-- A code unit of a quoted string is read back. -/
theorem readUnits_escapeUnit (unit : UInt16) (rest : List Char) :
    readUnits (escapeUnit unit ++ rest) =
      (readUnits rest).map fun read => (unit :: read.1, read.2) := by
  unfold escapeUnit
  split
  · subst unit; exact readUnits_simple (by decide) rfl rest
  split
  · subst unit; exact readUnits_simple (by decide) rfl rest
  split
  · subst unit; exact readUnits_simple (by decide) rfl rest
  split
  · subst unit; exact readUnits_simple (by decide) rfl rest
  split
  · subst unit; exact readUnits_simple (by decide) rfl rest
  split
  · subst unit; exact readUnits_simple (by decide) rfl rest
  split
  · subst unit; exact readUnits_simple (by decide) rfl rest
  split
  · rw [readUnits_hex unit.toNat_lt, UInt16.ofNat_toNat]
  · rename_i hquote hescape _ _ _ _ _ hplain
    simp only [not_or] at hplain
    have hcode := toNat_charOfNat (valid_of_not_surrogate hplain.2.1 hplain.2.2)
    have hunits : charUnits (Char.ofNat unit.toNat) = [unit] := by
      rw [charUnits, hcode, if_pos unit.toNat_lt, UInt16.ofNat_toNat]
    have hne {n : ℕ} (hn : n < 65536) (hchar : Char.ofNat unit.toNat = Char.ofNat n)
        (hvalid : n.isValidChar) : unit = UInt16.ofNat n := by
      have hsame := congrArg Char.toNat hchar
      rw [hcode, toNat_charOfNat hvalid] at hsame
      rw [← hsame, UInt16.ofNat_toNat]
    rw [List.singleton_append, readUnits_char _ _ rest, hunits]
    · rfl
    · exact fun hchar => hquote (hne (by decide) hchar (by decide))
    · exact fun hchar => hescape (hne (by decide) hchar (by decide))

/-- A pair of surrogates is read back. -/
theorem charUnits_pairChar {high low : UInt16} (hhigh : isHigh high) (hlow : isLow low) :
    charUnits (pairChar high low) = [high, low] ∧ 0x10000 ≤ (pairChar high low).toNat := by
  simp only [isHigh, Bool.decide_and, Bool.and_eq_true, decide_eq_true_eq] at hhigh
  simp only [isLow, Bool.decide_and, Bool.and_eq_true, decide_eq_true_eq] at hlow
  have hcode : (pairChar high low).toNat =
      0x10000 + (high.toNat - 0xD800) * 0x400 + (low.toNat - 0xDC00) :=
    toNat_charOfNat (by unfold Nat.isValidChar; omega)
  have hfirst : 0xD800 + ((pairChar high low).toNat - 0x10000) / 0x400 = high.toNat := by omega
  have hsecond : 0xDC00 + ((pairChar high low).toNat - 0x10000) % 0x400 = low.toNat := by omega
  have hlarge : 0x10000 ≤ (pairChar high low).toNat := by omega
  rw [charUnits, if_neg (Nat.not_lt.mpr hlarge), hfirst, hsecond, UInt16.ofNat_toNat,
    UInt16.ofNat_toNat]
  exact ⟨rfl, hlarge⟩

/-- A quoted string is read back, with what is behind it. -/
theorem readUnits_quoteUnits (string : JsString) (rest : List Char) :
    readUnits (quoteUnits string ++ '"' :: rest) = some (string, rest) := by
  induction string using quoteUnits.induct with
  | case1 high low units h ih =>
    obtain ⟨hunits, hlarge⟩ := charUnits_pairChar h.1 h.2
    have hne {char : Char} (hsmall : char.toNat < 0x10000) : pairChar high low ≠ char := by
      intro hsame
      rw [hsame] at hlarge
      omega
    rw [quoteUnits, if_pos h, List.cons_append, readUnits_char (hne (by decide)) (hne (by decide)),
      ih, hunits]
    rfl
  | case2 high low units h ih =>
    rw [quoteUnits, if_neg h, List.append_assoc, readUnits_escapeUnit, ih]
    rfl
  | case3 unit =>
    rw [quoteUnits, readUnits_escapeUnit, readUnits]
    rfl
  | case4 =>
    rw [quoteUnits, List.nil_append, readUnits]

/-- Quoted strings that begin one text are equal. -/
theorem quote_append_inj {left right : JsString} {rest rest' : List Char}
    (h : quote left ++ rest = quote right ++ rest') : left = right ∧ rest = rest' := by
  simp only [quote, List.cons_append, List.append_assoc, List.nil_append, List.cons.injEq,
    true_and] at h
  have hread := congrArg readUnits h
  rw [readUnits_quoteUnits, readUnits_quoteUnits] at hread
  exact Prod.mk.inj (Option.some.inj hread)

end JsString

end LoopProof
