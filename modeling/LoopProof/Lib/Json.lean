import LoopProof.Lib.JsonString
import LoopProof.Lib.Selection

/-!
# Canonical texts of JSON values

The canonical text of a value has the keys of every object in order. Two values have one canonical
text exactly when they are equal up to the order of the keys of their objects, at every depth: a
text followed by a delimiter determines what it was made from.
-/

namespace LoopProof

/-- The characters that numbers are printed with. -/
def isNumeric (char : Char) : Bool :=
  char.isDigit ∨ char = '-' ∨ char = '+' ∨ char = '.' ∨ char = 'e'

/-- A finite number, by the text that the script prints for it. -/
structure JsNumber where
  text : List Char
  nonempty : text ≠ []
  numeric : ∀ char ∈ text, isNumeric char = true
  deriving DecidableEq

/-- A JSON value; an object has its entries in some order. -/
inductive Json where
  | null
  | bool (value : Bool)
  | number (value : JsNumber)
  | string (value : JsString)
  | array (elements : List Json)
  | object (entries : List (JsString × Json))

namespace Json

/-- Texts with commas between them. -/
def commaJoin : List (List Char) → List Char
  | [] => []
  | text :: texts => text ++ texts.flatMap (',' :: ·)

/-- The key of an entry with the text of its value. -/
def entryText (entry : JsString × List Char) : List Char := JsString.quote entry.1 ++ ':' :: entry.2

mutual

/-- The text of a value with the keys of its objects in order. -/
def canonicalJson : Json → List Char
  | null => "null".toList
  | bool value => if value then "true".toList else "false".toList
  | number value => value.text
  | string value => JsString.quote value
  | array elements => '[' :: (commaJoin (canonicalElements elements) ++ [']'])
  | object entries =>
    '{' :: (commaJoin ((sortBy (compareOn Prod.fst) (canonicalEntries entries)).map entryText) ++
      ['}'])

/-- The texts of elements. -/
def canonicalElements : List Json → List (List Char)
  | [] => []
  | element :: elements => canonicalJson element :: canonicalElements elements

/-- A key with the text of its value. -/
def canonicalEntry : JsString × Json → JsString × List Char
  | (key, value) => (key, canonicalJson value)

/-- The keys with the texts of their values. -/
def canonicalEntries : List (JsString × Json) → List (JsString × List Char)
  | [] => []
  | entry :: entries => canonicalEntry entry :: canonicalEntries entries

end

mutual

/-- The value with the keys of every object in order. -/
def sorted : Json → Json
  | null => null
  | bool value => bool value
  | number value => number value
  | string value => string value
  | array elements => array (sortedElements elements)
  | object entries => object (sortBy (compareOn Prod.fst) (sortedEntries entries))

/-- The elements with the keys of their objects in order. -/
def sortedElements : List Json → List Json
  | [] => []
  | element :: elements => sorted element :: sortedElements elements

/-- An entry whose value has its keys in order. -/
def sortedEntry : JsString × Json → JsString × Json
  | (key, value) => (key, sorted value)

/-- The entries whose values have their keys in order. -/
def sortedEntries : List (JsString × Json) → List (JsString × Json)
  | [] => []
  | entry :: entries => sortedEntry entry :: sortedEntries entries

end

/-- The key and the text of an entry. -/
theorem canonicalEntry_eq (entry : JsString × Json) :
    canonicalEntry entry = (entry.1, canonicalJson entry.2) := by
  rcases entry with ⟨key, value⟩
  rfl

/-- The key and the sorted value of an entry. -/
theorem sortedEntry_eq (entry : JsString × Json) :
    sortedEntry entry = (entry.1, sorted entry.2) := by
  rcases entry with ⟨key, value⟩
  rfl

/-- The texts of elements, one by one. -/
theorem canonicalElements_eq (elements : List Json) :
    canonicalElements elements = elements.map canonicalJson := by
  induction elements with
  | nil => rfl
  | cons element elements ih => rw [canonicalElements, ih, List.map_cons]

/-- The texts of entries, one by one. -/
theorem canonicalEntries_eq (entries : List (JsString × Json)) :
    canonicalEntries entries = entries.map canonicalEntry := by
  induction entries with
  | nil => rfl
  | cons entry entries ih => rw [canonicalEntries, ih, List.map_cons]

/-- The sorted elements, one by one. -/
theorem sortedElements_eq (elements : List Json) :
    sortedElements elements = elements.map sorted := by
  induction elements with
  | nil => rfl
  | cons element elements ih => rw [sortedElements, ih, List.map_cons]

/-- The sorted entries, one by one. -/
theorem sortedEntries_eq (entries : List (JsString × Json)) :
    sortedEntries entries = entries.map sortedEntry := by
  induction entries with
  | nil => rfl
  | cons entry entries ih => rw [sortedEntries, ih, List.map_cons]

/-- Values are made of atoms, of elements and of entries. -/
@[elab_as_elim]
theorem induction {P : Json → Prop} (null : P null) (bool : ∀ value, P (bool value))
    (number : ∀ value, P (number value)) (string : ∀ value, P (string value))
    (array : ∀ elements, (∀ element ∈ elements, P element) → P (array elements))
    (object : ∀ entries, (∀ entry ∈ entries, P entry.2) → P (object entries)) (value : Json) :
    P value :=
  match value with
  | .null => null
  | .bool value => bool value
  | .number value => number value
  | .string value => string value
  | .array elements => array elements fun element _ =>
      induction null bool number string array object element
  | .object entries => object entries fun entry _ =>
      induction null bool number string array object entry.2
termination_by sizeOf value
decreasing_by
  · rename_i hmem
    have := List.sizeOf_lt_of_mem hmem
    simp only [Json.array.sizeOf_spec]
    omega
  · rename_i hmem
    have := List.sizeOf_lt_of_mem hmem
    rcases entry with ⟨key, value⟩
    simp only [Json.object.sizeOf_spec, Prod.mk.sizeOf_spec] at this ⊢
    omega

/-! ## Sorted values -/

/-- Entries are sorted by their keys, whatever stands for their values. -/
theorem sortBy_map_key {β γ : Type} (f : JsString × β → JsString × γ)
    (hf : ∀ entry, (f entry).1 = entry.1) (entries : List (JsString × β)) :
    (sortBy (compareOn Prod.fst) entries).map f = sortBy (compareOn Prod.fst) (entries.map f) := by
  apply List.map_insertionSort
  intro left _ right _
  simp only [compareOn, hf]

/-- Entries can be sorted before or after their texts are taken. -/
theorem sortBy_canonicalEntries (entries : List (JsString × Json)) :
    sortBy (compareOn Prod.fst) (canonicalEntries entries) =
      (sortBy (compareOn Prod.fst) entries).map canonicalEntry := by
  rw [canonicalEntries_eq]
  apply Eq.symm
  exact sortBy_map_key canonicalEntry (fun entry => by rw [canonicalEntry_eq]) entries

/-- An array is sorted in each of its elements. -/
theorem sorted_array (elements : List Json) :
    sorted (array elements) = array (elements.map sorted) := by
  rw [sorted, sortedElements_eq]

/-- An object is sorted by its keys and in each of its values. -/
theorem sorted_object (entries : List (JsString × Json)) :
    sorted (object entries) =
      object ((sortBy (compareOn Prod.fst) entries).map sortedEntry) := by
  rw [sorted, sortedEntries_eq]
  congr 1
  apply Eq.symm
  exact sortBy_map_key sortedEntry (fun entry => by rw [sortedEntry_eq]) entries

/-- The canonical text of an object. -/
theorem canonicalJson_object (entries : List (JsString × Json)) :
    canonicalJson (object entries) =
      '{' :: (commaJoin ((sortBy (compareOn Prod.fst) entries).map fun entry =>
        entryText (canonicalEntry entry)) ++ ['}']) := by
  rw [canonicalJson, sortBy_canonicalEntries, List.map_map]
  rfl

/-- Sorting its keys leaves the canonical text of a value as it is. -/
theorem canonicalJson_sorted (value : Json) :
    canonicalJson (sorted value) = canonicalJson value := by
  induction value using Json.induction with
  | null => rfl
  | bool value => rfl
  | number value => rfl
  | string value => rfl
  | array elements ih =>
    rw [sorted_array, canonicalJson, canonicalJson, canonicalElements_eq, canonicalElements_eq,
      List.map_map]
    congr 3
    exact List.map_congr_left ih
  | object entries ih =>
    have hentry : ∀ entry ∈ sortBy (compareOn Prod.fst) entries,
        (entryText (canonicalEntry (sortedEntry entry))) = entryText (canonicalEntry entry) := by
      intro entry hentry
      have hvalue := ih entry (mem_sortBy.mp hentry)
      rw [sortedEntry_eq, canonicalEntry_eq, canonicalEntry_eq, hvalue]
    have hagain : sortBy (compareOn Prod.fst)
        ((sortBy (compareOn Prod.fst) entries).map sortedEntry) =
          (sortBy (compareOn Prod.fst) entries).map sortedEntry := by
      rw [← sortBy_map_key sortedEntry (fun entry => by rw [sortedEntry_eq]), sortBy_sortBy]
    rw [sorted_object, canonicalJson_object, canonicalJson_object, hagain, List.map_map]
    congr 3
    exact List.map_congr_left hentry

/-! ## A text determines its value -/

/-- The text is at its end or goes on with a delimiter. -/
def Ends (text : List Char) : Prop := ∀ char ∈ text.head?, char = ',' ∨ char = ']' ∨ char = '}'

/-- The empty text is a delimiter. -/
theorem ends_nil : Ends [] := by
  intro char hchar
  cases hchar

/-- A comma and a closing bracket or brace are delimiters. -/
theorem ends_cons {char : Char} {text : List Char} (h : char = ',' ∨ char = ']' ∨ char = '}') :
    Ends (char :: text) := by
  intro other hother
  rwa [← Option.some.inj hother]

/-- What a value is, by the first character of its text. -/
def kindOf (char : Char) : ℕ :=
  if char = 'n' then 0
  else if char = 't' ∨ char = 'f' then 1
  else if isNumeric char then 2
  else if char = '"' then 3
  else if char = '[' then 4
  else if char = '{' then 5
  else 6

/-- Values of different kinds have different numbers. -/
def kind : Json → ℕ
  | null => 0
  | bool _ => 1
  | number _ => 2
  | string _ => 3
  | array _ => 4
  | object _ => 5

/-- Characters of numbers tell a number. -/
theorem kindOf_numeric {char : Char} (h : isNumeric char = true) : kindOf char = 2 := by
  have hne {other : Char} (hother : isNumeric other = false) : char ≠ other := by
    intro hsame
    rw [hsame, hother] at h
    cases h
  rw [kindOf, if_neg (hne (by decide)), if_neg (not_or.mpr ⟨hne (by decide), hne (by decide)⟩),
    if_pos h]

/-- The first character of a text says what its value is. -/
theorem kindOf_head (value : Json) (rest : List Char) :
    ∃ char text, canonicalJson value ++ rest = char :: text ∧ kindOf char = value.kind := by
  cases value with
  | null => exact ⟨_, _, rfl, by decide⟩
  | bool value => cases value <;> exact ⟨_, _, rfl, by decide⟩
  | number value =>
    obtain ⟨char, text, htext⟩ := List.exists_cons_of_ne_nil value.nonempty
    refine ⟨char, text ++ rest, by rw [canonicalJson, htext, List.cons_append], ?_⟩
    exact kindOf_numeric (value.numeric char (htext ▸ List.mem_cons_self ..))
  | string value => exact ⟨_, _, rfl, rfl⟩
  | array elements => exact ⟨_, _, by rw [canonicalJson]; rfl, rfl⟩
  | object entries => exact ⟨_, _, by rw [canonicalJson]; rfl, rfl⟩

/-- Values whose texts begin one text are of one kind. -/
theorem kind_eq {left right : Json} {rest rest' : List Char}
    (h : canonicalJson left ++ rest = canonicalJson right ++ rest') : left.kind = right.kind := by
  obtain ⟨char, text, htext, hkind⟩ := kindOf_head left rest
  obtain ⟨char', text', htext', hkind'⟩ := kindOf_head right rest'
  rw [htext, htext'] at h
  rw [← hkind, ← hkind', (List.cons.inj h).1]

/-- Numbers whose texts begin one text are equal. -/
theorem number_append_inj {left right : JsNumber} {rest rest' : List Char} (hrest : Ends rest)
    (hrest' : Ends rest') (h : left.text ++ rest = right.text ++ rest') :
    left = right ∧ rest = rest' := by
  have hstop {text : List Char} (hends : Ends text) : text.takeWhile isNumeric = [] := by
    cases text with
    | nil => rfl
    | cons char text =>
      have hchar : isNumeric char = false := by
        rcases hends char rfl with rfl | rfl | rfl <;> decide
      rw [List.takeWhile_cons, hchar]
      rfl
  have htake := congrArg (List.takeWhile isNumeric) h
  rw [List.takeWhile_append_of_pos left.numeric, List.takeWhile_append_of_pos right.numeric,
    hstop hrest, hstop hrest', List.append_nil, List.append_nil] at htake
  rw [htake] at h
  exact ⟨by cases left; cases right; simp_all, List.append_cancel_left h⟩

section Lists

variable {α : Type} {text : α → List Char} {same : α → α → Prop} {close : Char}

/-- A part's text determines it in front of every delimiter. -/
def Readable (text : α → List Char) (same : α → α → Prop) (left : α) : Prop :=
  ∀ right rest rest', Ends rest → Ends rest' → text left ++ rest = text right ++ rest' →
    same left right ∧ rest = rest'

variable (hclose : close = ']' ∨ close = '}')

include hclose

private theorem ends_tail (parts : List α) (rest : List Char) :
    Ends ((parts.map text).flatMap (',' :: ·) ++ close :: rest) := by
  cases parts with
  | nil => exact ends_cons (.inr hclose)
  | cons part parts => exact ends_cons (.inl rfl)

private theorem tail_append_inj {left right : List α} {rest rest' : List Char}
    (hread : ∀ part ∈ left, Readable text same part)
    (h : (left.map text).flatMap (',' :: ·) ++ close :: rest =
      (right.map text).flatMap (',' :: ·) ++ close :: rest') :
    List.Forall₂ same left right ∧ rest = rest' := by
  have hcomma : ',' ≠ close := by
    rcases hclose with rfl | rfl <;> decide
  induction left generalizing right with
  | nil =>
    cases right with
    | nil => exact ⟨.nil, (List.cons.inj h).2⟩
    | cons part parts => exact absurd (List.cons.inj h).1.symm hcomma
  | cons part parts ih =>
    cases right with
    | nil => exact absurd (List.cons.inj h).1 hcomma
    | cons part' parts' =>
      obtain ⟨hpart, hparts⟩ := List.forall_mem_cons.mp hread
      simp only [List.map_cons, List.flatMap_cons, List.cons_append, List.append_assoc,
        List.cons.injEq, true_and] at h
      obtain ⟨hsame, htail⟩ :=
        hpart part' _ _ (ends_tail hclose parts rest) (ends_tail hclose parts' rest') h
      obtain ⟨hrest, heq⟩ := ih hparts htail
      exact ⟨.cons hsame hrest, heq⟩

/-- Joined texts in front of a closing bracket determine their parts. -/
theorem commaJoin_append_inj {left right : List α} {rest rest' : List Char}
    (hread : ∀ part ∈ left, Readable text same part)
    (hopen : ∀ part rest, (text part ++ rest).head? ≠ some close)
    (h : commaJoin (left.map text) ++ close :: rest =
      commaJoin (right.map text) ++ close :: rest') :
    List.Forall₂ same left right ∧ rest = rest' := by
  cases left with
  | nil =>
    cases right with
    | nil => exact ⟨.nil, (List.cons.inj h).2⟩
    | cons part parts =>
      rw [List.map_cons, commaJoin, List.append_assoc] at h
      exact absurd (congrArg List.head? h).symm (hopen part _)
  | cons part parts =>
    cases right with
    | nil =>
      rw [List.map_cons, commaJoin, List.append_assoc] at h
      exact absurd (congrArg List.head? h) (hopen part _)
    | cons part' parts' =>
      obtain ⟨hpart, hparts⟩ := List.forall_mem_cons.mp hread
      rw [List.map_cons, List.map_cons, commaJoin, commaJoin, List.append_assoc,
        List.append_assoc] at h
      obtain ⟨hsame, htail⟩ :=
        hpart part' _ _ (ends_tail hclose parts rest) (ends_tail hclose parts' rest') h
      obtain ⟨hrest, heq⟩ := tail_append_inj hclose hparts htail
      exact ⟨.cons hsame hrest, heq⟩

end Lists

/-- No text begins with a closing bracket. -/
theorem head_ne_close {close : Char} (hclose : close = ']' ∨ close = '}') (value : Json)
    (rest : List Char) : (canonicalJson value ++ rest).head? ≠ some close := by
  obtain ⟨char, text, htext, hkind⟩ := kindOf_head value rest
  rw [htext]
  intro hhead
  have hother : value.kind = 6 := by
    rw [← hkind, Option.some.inj hhead]
    rcases hclose with rfl | rfl <;> rfl
  cases value <;> cases hother

private theorem forall₂_map_eq {α β : Type} {f : α → β} {left right : List α}
    (h : List.Forall₂ (fun a b => f a = f b) left right) : left.map f = right.map f := by
  induction h with
  | nil => rfl
  | cons hfirst _ ih => rw [List.map_cons, List.map_cons, hfirst, ih]

/-- In front of every delimiter the canonical text of a value determines the sorted value. -/
theorem readable_canonicalJson (value : Json) :
    Readable canonicalJson (fun left right => sorted left = sorted right) value := by
  induction value using Json.induction with
  | null =>
    intro right rest rest' _ _ h
    cases right <;> cases kind_eq h
    exact ⟨rfl, List.append_cancel_left h⟩
  | bool value =>
    intro right rest rest' _ _ h
    cases right <;> cases kind_eq h
    rename_i value'
    cases value <;> cases value'
    · exact ⟨rfl, List.append_cancel_left h⟩
    · exact absurd (List.cons.inj h).1 (by decide)
    · exact absurd (List.cons.inj h).1 (by decide)
    · exact ⟨rfl, List.append_cancel_left h⟩
  | number value =>
    intro right rest rest' hrest hrest' h
    cases right <;> cases kind_eq h
    obtain ⟨rfl, heq⟩ := number_append_inj hrest hrest' h
    exact ⟨rfl, heq⟩
  | string value =>
    intro right rest rest' _ _ h
    cases right <;> cases kind_eq h
    obtain ⟨rfl, heq⟩ := JsString.quote_append_inj h
    exact ⟨rfl, heq⟩
  | array elements ih =>
    intro right rest rest' _ _ h
    cases right <;> cases kind_eq h
    rename_i elements'
    rw [canonicalJson, canonicalJson, canonicalElements_eq, canonicalElements_eq,
      List.cons_append, List.cons_append, List.append_assoc, List.append_assoc] at h
    obtain ⟨hsame, heq⟩ := commaJoin_append_inj (.inl rfl) ih (head_ne_close (.inl rfl))
      (List.cons.inj h).2
    refine ⟨?_, heq⟩
    change sorted (array elements) = sorted (array elements')
    rw [sorted_array, sorted_array, forall₂_map_eq hsame]
  | object entries ih =>
    intro right rest rest' _ _ h
    cases right <;> cases kind_eq h
    rename_i entries'
    rw [canonicalJson_object, canonicalJson_object, List.cons_append, List.cons_append,
      List.append_assoc, List.append_assoc] at h
    have hread : ∀ entry ∈ sortBy (compareOn Prod.fst) entries,
        Readable (fun entry => entryText (canonicalEntry entry))
          (fun left right => sortedEntry left = sortedEntry right) entry := by
      intro entry hentry right rest rest' hrest hrest' h
      simp only [canonicalEntry_eq, entryText, List.append_assoc, List.cons_append] at h
      obtain ⟨hkey, htail⟩ := JsString.quote_append_inj h
      obtain ⟨hvalue, heq⟩ := ih entry (mem_sortBy.mp hentry) right.2 rest rest' hrest hrest'
        (List.cons.inj htail).2
      refine ⟨?_, heq⟩
      change sortedEntry entry = sortedEntry right
      rw [sortedEntry_eq, sortedEntry_eq, hkey, hvalue]
    have hopen (entry : JsString × Json) (rest : List Char) :
        (entryText (canonicalEntry entry) ++ rest).head? ≠ some '}' := by
      rw [entryText, JsString.quote]
      exact fun hhead => absurd (Option.some.inj hhead) (by decide)
    obtain ⟨hsame, heq⟩ := commaJoin_append_inj (.inr rfl) hread hopen (List.cons.inj h).2
    refine ⟨?_, heq⟩
    change sorted (object entries) = sorted (object entries')
    rw [sorted_object, sorted_object, forall₂_map_eq hsame]

/-- Two values have one canonical text exactly when they are equal with their keys in order. -/
theorem canonicalJson_inj {left right : Json} :
    canonicalJson left = canonicalJson right ↔ sorted left = sorted right := by
  constructor
  · intro h
    exact (readable_canonicalJson left right [] [] ends_nil ends_nil (by rw [h])).1
  · intro h
    rw [← canonicalJson_sorted left, h, canonicalJson_sorted]

/-! ## Reordered objects -/

/-- Every object of a value has each key once. -/
inductive Lawful : Json → Prop
  | null : Lawful null
  | bool (value : Bool) : Lawful (bool value)
  | number (value : JsNumber) : Lawful (number value)
  | string (value : JsString) : Lawful (string value)
  | array {elements : List Json} (h : ∀ element ∈ elements, Lawful element) :
    Lawful (array elements)
  | object {entries : List (JsString × Json)} (hkeys : (entries.map Prod.fst).Nodup)
    (h : ∀ entry ∈ entries, Lawful entry.2) : Lawful (object entries)

/-- Equal up to the order of the keys of objects, at every depth. -/
inductive Reordered : Json → Json → Prop
  | refl (value : Json) : Reordered value value
  | symm {left right : Json} : Reordered left right → Reordered right left
  | trans {left middle right : Json} :
    Reordered left middle → Reordered middle right → Reordered left right
  | element (front : List Json) {left right : Json} (back : List Json) :
    Reordered left right →
      Reordered (array (front ++ left :: back)) (array (front ++ right :: back))
  | value (front : List (JsString × Json)) (key : JsString) {left right : Json}
    (back : List (JsString × Json)) :
    Reordered left right →
      Reordered (object (front ++ (key, left) :: back)) (object (front ++ (key, right) :: back))
  | keys {left right : List (JsString × Json)} (hkeys : (left.map Prod.fst).Nodup)
    (hperm : left.Perm right) : Reordered (object left) (object right)

/-- Entries with different keys are sorted in one way. -/
theorem sortBy_key_perm {left right : List (JsString × Json)} (hkeys : (left.map Prod.fst).Nodup)
    (hperm : left.Perm right) :
    sortBy (compareOn Prod.fst) left = sortBy (compareOn Prod.fst) right := by
  apply sortBy_eq_of_perm hperm
  intro a ha b hb hcompare
  exact List.inj_on_of_nodup_map hkeys ha hb (Std.LawfulEqCmp.eq_of_compare hcompare)

/-- Reordered values are equal with their keys in order. -/
theorem Reordered.sorted_eq {left right : Json} (h : Reordered left right) :
    sorted left = sorted right := by
  induction h with
  | refl value => rfl
  | symm _ ih => exact ih.symm
  | trans _ _ ih ih' => exact ih.trans ih'
  | element front back _ ih =>
    rw [sorted_array, sorted_array, List.map_append, List.map_append, List.map_cons,
      List.map_cons, ih]
  | value front key back _ ih =>
    rw [sorted, sorted, sortedEntries_eq, sortedEntries_eq, List.map_append, List.map_append,
      List.map_cons, List.map_cons, sortedEntry_eq, sortedEntry_eq, ih]
  | keys hkeys hperm => rw [sorted_object, sorted_object, sortBy_key_perm hkeys hperm]

private theorem reordered_elements (front : List Json) {left right : List Json}
    (h : List.Forall₂ Reordered left right) :
    Reordered (array (front ++ left)) (array (front ++ right)) := by
  induction h generalizing front with
  | nil => exact .refl _
  | @cons first first' rest rest' hfirst _ ih =>
    have hrest := ih (front ++ [first'])
    rw [List.append_assoc, List.append_assoc] at hrest
    exact (Reordered.element front rest hfirst).trans hrest

private theorem reordered_values (front : List (JsString × Json)) {entries : List (JsString × Json)}
    {f : Json → Json} (h : ∀ entry ∈ entries, Reordered entry.2 (f entry.2)) :
    Reordered (object (front ++ entries))
      (object (front ++ entries.map fun entry => (entry.1, f entry.2))) := by
  induction entries generalizing front with
  | nil => exact .refl _
  | cons first rest ih =>
    obtain ⟨hfirst, hrest⟩ := List.forall_mem_cons.mp h
    have htail := ih (front ++ [(first.1, f first.2)]) hrest
    rw [List.append_assoc, List.append_assoc] at htail
    exact (Reordered.value front first.1 rest hfirst).trans htail

/-- A value is reordered to the value with its keys in order. -/
theorem Lawful.reordered_sorted {value : Json} (h : Lawful value) :
    Reordered value value.sorted := by
  induction h with
  | null => exact .refl _
  | bool value => exact .refl _
  | number value => exact .refl _
  | string value => exact .refl _
  | @array elements _ ih =>
    rw [sorted_array]
    apply reordered_elements []
    rw [List.forall₂_map_right_iff, List.forall₂_same]
    exact ih
  | @object entries hkeys _ ih =>
    have hvalues := reordered_values [] (f := sorted) ih
    have hentries : sortedEntry = fun entry => (entry.1, sorted entry.2) := funext sortedEntry_eq
    rw [sorted, sortedEntries_eq, hentries]
    apply hvalues.trans
    apply Reordered.keys _ (sortBy_perm _).symm
    rw [List.nil_append, List.map_map]
    exact hkeys

/-- Two values have one canonical text exactly when one is the other with its keys reordered. -/
theorem canonicalJson_eq_iff {left right : Json} (hleft : Lawful left) (hright : Lawful right) :
    canonicalJson left = canonicalJson right ↔ Reordered left right := by
  rw [canonicalJson_inj]
  constructor
  · intro h
    have hsame := hleft.reordered_sorted
    rw [h] at hsame
    exact hsame.trans hright.reordered_sorted.symm
  · exact Reordered.sorted_eq

end Json

end LoopProof
