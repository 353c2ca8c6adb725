import Mathlib.Data.Fin.Basic
import Mathlib.Data.ZMod.Defs
import Mathlib.Data.List.Induction
import Mathlib.Tactic.Ring
import Mathlib.Tactic.Linarith

/-!
# Fixed-width unsigned words

A `w`-bit word is an element of `Fin (2 ^ w)`: its ring operations wrap, as the
wide-integer library's operators do, while `checkedAdd` reports overflow. Words
are written big-endian; `beBytes_injective` is the exactness of that encoding.
-/

namespace LoopProof

/-- A raw byte string. -/
abbrev Bytes := List UInt8

/-- A 64-bit unsigned word. -/
abbrev U64 := Fin (2 ^ 64)

/-- A vector index of the host; no container holds more entries than it counts. -/
abbrev Usize := Fin (2 ^ 64)

/-- A 128-bit unsigned word. -/
abbrev U128 := Fin (2 ^ 128)

/-- A 256-bit unsigned word, with wrapping operators. -/
abbrev U256 := Fin (2 ^ 256)

/-- A 32-byte string, read as its big-endian word; byte order is numeric order. -/
abbrev B256 := Fin (2 ^ 256)

/-- A 20-byte account address, read as its big-endian word. -/
abbrev Address := Fin (2 ^ 160)

instance lawfulBEqB256 : LawfulBEq B256 := inferInstance

instance lawfulBEqAddress : LawfulBEq Address := inferInstance

instance lawfulBEqU64 : LawfulBEq U64 := inferInstance

instance transOrdU64 : Std.TransOrd U64 := inferInstance

/-- The greatest integer up to which a double counts exactly. -/
def maxSafeInteger : ℕ := 9007199254740991

instance neZero32 : NeZero (2 ^ 32) := ⟨by decide⟩

instance neZero64 : NeZero (2 ^ 64) := ⟨by decide⟩

instance neZero128 : NeZero (2 ^ 128) := ⟨by decide⟩

instance neZero160 : NeZero (2 ^ 160) := ⟨by decide⟩

instance neZero256 : NeZero (2 ^ 256) := ⟨by decide⟩

section Arithmetic

variable {v w : ℕ}

/-- Addition that reports overflow instead of wrapping. -/
def checkedAdd (a b : Fin (2 ^ w)) : Option (Fin (2 ^ w)) :=
  if h : a.val + b.val < 2 ^ w then some ⟨a.val + b.val, h⟩ else none

/-- A checked sum is the exact integer sum; the result's own bound is the overflow test. -/
theorem checkedAdd_eq_some {a b c : Fin (2 ^ w)} :
    checkedAdd a b = some c ↔ c.val = a.val + b.val := by
  unfold checkedAdd
  split
  · simp only [Option.some.injEq, Fin.ext_iff]
    exact eq_comm
  · have hc := c.isLt
    simp only [reduceCtorEq, false_iff]
    omega

/-- Subtraction that stops at zero. -/
def saturatingSub (a b : Fin (2 ^ w)) : Fin (2 ^ w) :=
  ⟨a.val - b.val, lt_of_le_of_lt (Nat.sub_le _ _) a.isLt⟩

/-- A saturating difference is that of natural numbers. -/
@[simp] theorem saturatingSub_val (a b : Fin (2 ^ w)) :
    (saturatingSub a b).val = a.val - b.val := rfl

/-- The greatest word of a width. -/
def maxWord (w : ℕ) : Fin (2 ^ w) := ⟨2 ^ w - 1, Nat.sub_lt (Nat.two_pow_pos w) Nat.one_pos⟩

/-- Narrow a word, refusing values outside the smaller range. -/
def tryNarrow (v : ℕ) (a : Fin (2 ^ w)) : Option (Fin (2 ^ v)) :=
  if h : a.val < 2 ^ v then some ⟨a.val, h⟩ else none

/-- A word that is narrowed keeps its value. -/
theorem tryNarrow_eq_some {a : Fin (2 ^ w)} {b : Fin (2 ^ v)} :
    tryNarrow v a = some b ↔ b.val = a.val := by
  unfold tryNarrow
  split
  · simp only [Option.some.injEq, Fin.ext_iff]
    exact eq_comm
  · have hb := b.isLt
    simp only [reduceCtorEq, false_iff]
    omega

/-- Widen a word to at least its own width. -/
def widen (h : v ≤ w) (a : Fin (2 ^ v)) : Fin (2 ^ w) :=
  ⟨a.val, a.isLt.trans_le (Nat.pow_le_pow_right (by decide) h)⟩

/-- Words of 64 bits widen to 128. -/
theorem bits64_le_128 : 64 ≤ 128 := by decide

/-- Words of 64 bits widen to 256. -/
theorem bits64_le_256 : 64 ≤ 256 := by decide

/-- Words of 128 bits widen to 256. -/
theorem bits128_le_256 : 128 ≤ 256 := by decide

/-- Words of 160 bits widen to 256. -/
theorem bits160_le_256 : 160 ≤ 256 := by decide

/-- A word that is widened keeps its value. -/
@[simp] theorem widen_val (h : v ≤ w) (a : Fin (2 ^ v)) : (widen h a).val = a.val := rfl

end Arithmetic

section BigEndian

/-- The number a big-endian byte string denotes. -/
def beNat (bytes : Bytes) : ℕ := bytes.foldl (fun n b => 256 * n + b.toNat) 0

/-- The `k` low-order bytes of a number, most significant first. -/
def beBytes : ℕ → ℕ → Bytes
  | 0, _ => []
  | k + 1, n => beBytes k (n / 256) ++ [UInt8.ofNat n]

/-- The number of bytes is the given one. -/
@[simp] theorem length_beBytes (k n : ℕ) : (beBytes k n).length = k := by
  induction k generalizing n with
  | zero => rfl
  | succ k ih => simp only [beBytes, List.length_append, ih, List.length_singleton]

/-- Reading back a big-endian encoding reduces modulo its width. -/
theorem beNat_beBytes (k n : ℕ) : beNat (beBytes k n) = n % 256 ^ k := by
  induction k generalizing n with
  | zero => simp [beBytes, beNat, Nat.mod_one]
  | succ k ih =>
    have ih' := ih (n / 256)
    unfold beNat at ih'
    rw [beBytes, beNat, List.foldl_append, ih']
    simp only [List.foldl_cons, List.foldl_nil, UInt8.toNat_ofNat']
    have hsplit : n % 256 ^ (k + 1) = n % 256 + 256 * (n / 256 % 256 ^ k) := by
      rw [pow_succ', Nat.mod_mul]
    omega

/-- Two numbers within the width have different encodings. -/
theorem beBytes_injective {k m n : ℕ} (hm : m < 256 ^ k) (hn : n < 256 ^ k)
    (h : beBytes k m = beBytes k n) : m = n := by
  have he := congrArg beNat h
  rwa [beNat_beBytes, beNat_beBytes, Nat.mod_eq_of_lt hm, Nat.mod_eq_of_lt hn] at he

/-- A byte string denotes a number below the bound its length sets. -/
theorem beNat_lt (bytes : Bytes) : beNat bytes < 256 ^ bytes.length := by
  induction bytes using List.reverseRecOn with
  | nil => simp [beNat]
  | append_singleton bytes b ih =>
    have hb : b.toNat < 256 := b.toNat_lt
    rw [beNat, List.foldl_append]
    change 256 * beNat bytes + b.toNat < _
    rw [List.length_append, List.length_singleton, pow_succ]
    omega

end BigEndian

section Abi

/-- One 32-byte argument word of the contract ABI. -/
def abiWord (n : ℕ) : Bytes := beBytes 32 n

/-- A word has 32 bytes. -/
@[simp] theorem length_abiWord (n : ℕ) : (abiWord n).length = 32 := length_beBytes 32 n

/-- Different numbers have different words. -/
theorem abiWord_injective {m n : ℕ} (hm : m < 2 ^ 256) (hn : n < 2 ^ 256)
    (h : abiWord m = abiWord n) : m = n :=
  beBytes_injective (by norm_num at hm ⊢; exact hm) (by norm_num at hn ⊢; exact hn) h

/-- Words of at most 256 bits fit one argument word. -/
theorem val_lt_abi {w : ℕ} (h : w ≤ 256) (x : Fin (2 ^ w)) : x.val < 2 ^ 256 :=
  x.isLt.trans_le (Nat.pow_le_pow_right (by decide) h)

/-- A sequence of static argument words, laid out in order. -/
def abiWords (words : List ℕ) : Bytes := words.flatMap abiWord

/-- Every word has 32 bytes. -/
@[simp] theorem length_abiWords (words : List ℕ) :
    (abiWords words).length = 32 * words.length := by
  induction words with
  | nil => rfl
  | cons n words ih =>
    simp only [abiWords, List.flatMap_cons, List.length_append, length_abiWord,
      List.length_cons] at ih ⊢
    omega

/-- Two in-range word sequences with one encoding are equal; no length is assumed. -/
theorem abiWords_injective {xs ys : List ℕ} (hx : ∀ n ∈ xs, n < 2 ^ 256)
    (hy : ∀ n ∈ ys, n < 2 ^ 256) (h : abiWords xs = abiWords ys) : xs = ys := by
  have hlen := congrArg List.length h
  rw [length_abiWords, length_abiWords] at hlen
  induction xs generalizing ys with
  | nil =>
    have : ys.length = 0 := by simp only [List.length_nil] at hlen; omega
    exact (List.length_eq_zero_iff.mp this).symm
  | cons x xs ih =>
    cases ys with
    | nil => simp only [List.length_cons, List.length_nil] at hlen; omega
    | cons y ys =>
      simp only [abiWords, List.flatMap_cons] at h
      obtain ⟨hhead, htail⟩ := List.append_inj h (by simp only [length_abiWord])
      have hxy := abiWord_injective (hx x (List.mem_cons_self ..))
        (hy y (List.mem_cons_self ..)) hhead
      have hrest := ih (fun n hn => hx n (List.mem_cons_of_mem _ hn))
        (fun n hn => hy n (List.mem_cons_of_mem _ hn)) htail
        (by simp only [List.length_cons] at hlen; omega)
      rw [hxy, hrest]

end Abi

end LoopProof
