import LoopProof.Lib.Fallible
import LoopProof.Lib.Json

/-!
# Objects in a stream of text

The text of a value with the entries of its objects as they stand. A scan takes the objects of an
array out of their text character by character: it counts braces outside of strings and follows
the escapes inside of them. The text of an array starts where its key first stands in front of an
opening bracket.
-/

namespace LoopProof

namespace JsString

/-! ## Texts between quotation marks -/

/-- Every quotation mark of the text is escaped, and so is every backslash. -/
inductive Quoted : List Char → Prop
  | nil : Quoted []
  | plain {char : Char} {text : List Char} (hquote : char ≠ '"') (hescape : char ≠ '\\') :
    Quoted text → Quoted (char :: text)
  | escape (char : Char) {text : List Char} : Quoted text → Quoted ('\\' :: char :: text)

/-- Texts of strings can be joined. -/
theorem Quoted.append {left right : List Char} (hleft : Quoted left) (hright : Quoted right) :
    Quoted (left ++ right) := by
  induction hleft with
  | nil => exact hright
  | plain hquote hescape _ ih => exact .plain hquote hescape ih
  | escape char _ ih => exact .escape char ih

/-- Neither a quotation mark nor a backslash. -/
def Plain (char : Char) : Prop := char ≠ '"' ∧ char ≠ '\\'

/-- Plain characters are a text of a string. -/
theorem quoted_of_plain {text : List Char} (h : ∀ char ∈ text, Plain char) : Quoted text := by
  induction text with
  | nil => exact .nil
  | cons char text ih =>
    obtain ⟨hchar, htext⟩ := List.forall_mem_cons.mp h
    exact .plain hchar.1 hchar.2 (ih htext)

/-- Digits are plain. -/
theorem hexDigits_plain (n : ℕ) : ∀ char ∈ hexDigits 4 n, Plain char := by
  have hdigits : ∀ d < 16, d.digitChar ≠ '"' ∧ d.digitChar ≠ '\\' := by decide
  change ∀ char ∈ [(n / 16 / 16 / 16 % 16).digitChar, (n / 16 / 16 % 16).digitChar,
    (n / 16 % 16).digitChar, (n % 16).digitChar], Plain char
  intro char hchar
  simp only [List.mem_cons, List.not_mem_nil, or_false] at hchar
  rcases hchar with rfl | rfl | rfl | rfl <;> exact hdigits _ (Nat.mod_lt _ (by decide))

private theorem charOfNat_ne {n m : ℕ} (hn : n.isValidChar) (hm : m.isValidChar) (h : n ≠ m) :
    Char.ofNat n ≠ Char.ofNat m := by
  intro hsame
  have hcode := congrArg Char.toNat hsame
  rw [toNat_charOfNat hn, toNat_charOfNat hm] at hcode
  exact h hcode

/-- A code unit that stands for itself is neither of the characters that are escaped. -/
theorem charOfNat_plain {unit : UInt16} (hquote : unit ≠ 0x22) (hescape : unit ≠ 0x5C)
    (hhigh : ¬ isHigh unit) (hlow : ¬ isLow unit) : Plain (Char.ofNat unit.toNat) := by
  have hvalid := valid_of_not_surrogate hhigh hlow
  have hne {m : ℕ} (hm : unit ≠ UInt16.ofNat m) : unit.toNat ≠ m := by
    rintro rfl
    exact hm (UInt16.ofNat_toNat).symm
  constructor
  · exact charOfNat_ne (m := 0x22) hvalid (by decide) (hne hquote)
  · exact charOfNat_ne (m := 0x5C) hvalid (by decide) (hne hescape)

/-- An escaped code unit is a text of a string. -/
theorem quoted_escapeUnit (unit : UInt16) : Quoted (escapeUnit unit) := by
  unfold escapeUnit
  split_ifs with hquote hescape _ _ _ _ _ hplain
  all_goals try exact .escape _ .nil
  · exact .escape 'u' (quoted_of_plain (hexDigits_plain unit.toNat))
  · simp only [not_or] at hplain
    have hchar := charOfNat_plain hquote hescape hplain.2.1 hplain.2.2
    exact .plain hchar.1 hchar.2 .nil

/-- Only a quotation mark puts one into the text. -/
theorem quote_not_mem_escapeUnit {unit : UInt16} (h : unit ≠ 0x22) : '"' ∉ escapeUnit unit := by
  unfold escapeUnit
  rw [if_neg h]
  split_ifs with hescape _ _ _ _ _ hplain
  all_goals try decide
  · intro hmem
    simp only [List.mem_cons] at hmem
    rcases hmem with hmem | hmem | hmem
    · cases hmem
    · cases hmem
    · exact (hexDigits_plain _ _ hmem).1 rfl
  · simp only [not_or] at hplain
    have hchar := charOfNat_plain h hescape hplain.2.1 hplain.2.2
    simpa using hchar.1.symm

/-- The character of a pair of code units is no small one. -/
theorem pairChar_ne {high low : UInt16} (h : isHigh high ∧ isLow low) {char : Char}
    (hsmall : char.toNat < 0x10000) : pairChar high low ≠ char := by
  intro hsame
  have hlarge := (charUnits_pairChar h.1 h.2).2
  rw [hsame] at hlarge
  omega

/-- What is written between quotation marks is a text of a string. -/
theorem quoted_quoteUnits (string : JsString) : Quoted (quoteUnits string) := by
  induction string using quoteUnits.induct with
  | case1 high low units h ih =>
    rw [quoteUnits, if_pos h]
    exact .plain (pairChar_ne h (by decide)) (pairChar_ne h (by decide)) ih
  | case2 high low units h ih =>
    rw [quoteUnits, if_neg h]
    exact (quoted_escapeUnit high).append ih
  | case3 unit =>
    rw [quoteUnits]
    exact quoted_escapeUnit unit
  | case4 =>
    rw [quoteUnits]
    exact .nil

end JsString

namespace Json

mutual

/-- The text of a value, with the entries of every object as they stand. -/
def stringify : Json → List Char
  | null => "null".toList
  | bool value => if value then "true".toList else "false".toList
  | number value => value.text
  | string value => JsString.quote value
  | array elements => '[' :: (commaJoin (stringifyElements elements) ++ [']'])
  | object entries => '{' :: (commaJoin (stringifyEntries entries) ++ ['}'])

/-- The texts of elements. -/
def stringifyElements : List Json → List (List Char)
  | [] => []
  | element :: elements => stringify element :: stringifyElements elements

/-- A key and the text of its value. -/
def stringifyEntry : JsString × Json → List Char
  | (key, value) => entryText (key, stringify value)

/-- The texts of entries. -/
def stringifyEntries : List (JsString × Json) → List (List Char)
  | [] => []
  | entry :: entries => stringifyEntry entry :: stringifyEntries entries

end

/-- The texts of elements, one by one. -/
theorem stringifyElements_eq (elements : List Json) :
    stringifyElements elements = elements.map stringify := by
  induction elements with
  | nil => rfl
  | cons element elements ih => rw [stringifyElements, ih, List.map_cons]

/-- The text of an entry is its key with the text of its value. -/
theorem stringifyEntry_eq (entry : JsString × Json) :
    stringifyEntry entry = entryText (entry.1, stringify entry.2) := by
  rcases entry with ⟨key, value⟩
  rfl

/-- The texts of entries, one by one. -/
theorem stringifyEntries_eq (entries : List (JsString × Json)) :
    stringifyEntries entries = entries.map stringifyEntry := by
  induction entries with
  | nil => rfl
  | cons entry entries ih => rw [stringifyEntries, ih, List.map_cons]

/-- The text of an array has the texts of its elements between brackets. -/
theorem stringify_array (elements : List Json) :
    stringify (array elements) = '[' :: (commaJoin (elements.map stringify) ++ [']']) := by
  rw [stringify, stringifyElements_eq]

/-- The text of an object has the texts of its entries between braces. -/
theorem stringify_object (entries : List (JsString × Json)) :
    stringify (object entries) = '{' :: (commaJoin (entries.map stringifyEntry) ++ ['}']) := by
  rw [stringify, stringifyEntries_eq]

/-- More texts are joined behind a comma. -/
theorem commaJoin_append {front back : List (List Char)} (h : front ≠ []) :
    commaJoin (front ++ back) = commaJoin front ++ back.flatMap (',' :: ·) := by
  obtain ⟨text, texts, rfl⟩ := List.exists_cons_of_ne_nil h
  rw [List.cons_append, commaJoin, commaJoin, List.flatMap_append, List.append_assoc]

end Json

/-! ## The objects of an array -/

variable {σ ε : Type}

/-- The objects of an array, as far as their text is read. -/
structure ObjectScan (σ : Type) where
  /-- What is read of an object that is still open. -/
  object : List Char
  depth : ℕ
  inString : Bool
  escaped : Bool
  /-- The closing bracket of the array is read. -/
  ended : Bool
  state : σ

namespace ObjectScan

/-- Nothing was read yet. -/
def start (state : σ) : ObjectScan σ := ⟨[], 0, false, false, false, state⟩

/-- Behind the closing bracket. -/
def complete (state : σ) : ObjectScan σ := ⟨[], 0, false, false, true, state⟩

variable (found : σ → List Char → Except ε σ)

/-- Read one more character; an object is found with its closing brace. -/
def read (scan : ObjectScan σ) (char : Char) : Except ε (ObjectScan σ) :=
  if scan.ended then .ok scan
  else if scan.depth = 0 then
    if char = '{' then .ok ⟨[char], 1, false, false, false, scan.state⟩
    else if char = ']' then .ok { scan with ended := true }
    else .ok scan
  else if scan.inString then
    if scan.escaped then .ok { scan with object := scan.object ++ [char], escaped := false }
    else if char = '\\' then .ok { scan with object := scan.object ++ [char], escaped := true }
    else if char = '"' then .ok { scan with object := scan.object ++ [char], inString := false }
    else .ok { scan with object := scan.object ++ [char] }
  else if char = '"' then .ok { scan with object := scan.object ++ [char], inString := true }
  else if char = '{' then
    .ok { scan with object := scan.object ++ [char], depth := scan.depth + 1 }
  else if char = '}' then
    if scan.depth = 1 then
      (found scan.state (scan.object ++ [char])).map fun state =>
        ⟨[], 0, false, scan.escaped, false, state⟩
    else .ok { scan with object := scan.object ++ [char], depth := scan.depth - 1 }
  else .ok { scan with object := scan.object ++ [char] }

/-- A text is read character by character. -/
def readAll (scan : ObjectScan σ) (text : List Char) : Except ε (ObjectScan σ) :=
  text.foldlM (read found) scan

variable {found} {scan : ObjectScan σ}

/-- Two texts are read one after the other. -/
theorem readAll_append (left right : List Char) :
    readAll found scan (left ++ right) =
      readAll found scan left >>= fun scan => readAll found scan right := by
  rw [readAll, List.foldlM_append]
  rfl

/-- A character is read before the rest. -/
theorem readAll_cons (char : Char) (text : List Char) :
    readAll found scan (char :: text) =
      read found scan char >>= fun scan => readAll found scan text := by
  rw [readAll, List.foldlM_cons]
  rfl

/-- Nothing behind the array is read. -/
theorem readAll_ended (h : scan.ended = true) (text : List Char) :
    readAll found scan text = .ok scan := by
  induction text with
  | nil => rfl
  | cons char text ih => rw [readAll_cons, read, if_pos h, ok_bind, ih]

/-- The state changes with a found object only. -/
theorem read_state {char : Char} {next : ObjectScan σ} (h : read found scan char = .ok next) :
    next.state = scan.state ∨
      found scan.state (scan.object ++ [char]) = .ok next.state := by
  unfold read at h
  cases hobject : found scan.state (scan.object ++ [char]) with
  | error error =>
    rw [hobject] at h
    split_ifs at h
    all_goals first
      | exact .inl (congrArg ObjectScan.state (Except.ok.inj h)).symm
      | cases h
  | ok state =>
    rw [hobject] at h
    split_ifs at h
    all_goals first
      | exact .inl (congrArg ObjectScan.state (Except.ok.inj h)).symm
      | exact .inr (congrArg Except.ok (congrArg ObjectScan.state (Except.ok.inj h)))

/-- What every found object keeps, the whole text keeps. -/
theorem readAll_invariant {P : σ → Prop}
    (hfound : ∀ state object state', P state → found state object = .ok state' → P state')
    {text : List Char} {scan' : ObjectScan σ} (hstate : P scan.state)
    (h : readAll found scan text = .ok scan') : P scan'.state := by
  induction text generalizing scan with
  | nil =>
    rw [← Except.ok.inj h]
    exact hstate
  | cons char text ih =>
    rw [readAll_cons, bind_eq_ok] at h
    obtain ⟨next, hnext, h⟩ := h
    apply ih _ h
    rcases read_state hnext with hsame | hobject
    · rw [hsame]
      exact hstate
    · exact hfound _ _ _ hstate hobject

/-- The scan with more text of its open object. -/
def keep (scan : ObjectScan σ) (text : List Char) : ObjectScan σ :=
  { scan with object := scan.object ++ text }

/-- In an open object and outside of its strings. -/
structure Open (scan : ObjectScan σ) : Prop where
  ended : scan.ended = false
  depth : scan.depth ≠ 0
  inString : scan.inString = false
  escaped : scan.escaped = false

/-- A scan that keeps a text stays open. -/
theorem Open.keep (h : scan.Open) (text : List Char) : (scan.keep text).Open := ⟨h.1, h.2, h.3, h.4⟩

/-- Two texts that are kept are kept as one. -/
theorem keep_keep (left right : List Char) :
    (scan.keep left).keep right = scan.keep (left ++ right) := by
  simp only [ObjectScan.keep, List.append_assoc]

/-- The scan reads the text within an object and is where it was. -/
def Inside (found : σ → List Char → Except ε σ) (text : List Char) : Prop :=
  ∀ scan : ObjectScan σ, scan.Open → readAll found scan text = .ok (scan.keep text)

/-- The empty text leaves a scan as it is. -/
theorem inside_nil : Inside found [] := by
  intro scan _
  simp only [readAll, List.foldlM_nil, ObjectScan.keep, List.append_nil]
  rfl

/-- Texts that stay inside an object can be joined. -/
theorem Inside.append {left right : List Char} (hleft : Inside found left)
    (hright : Inside found right) : Inside found (left ++ right) := by
  intro scan hopen
  rw [readAll_append, hleft scan hopen, ok_bind, hright _ (hopen.keep left), keep_keep]

/-- Characters without marks stay inside an object. -/
theorem inside_plain {text : List Char} (h : ∀ char ∈ text, char ≠ '"' ∧ char ≠ '{' ∧ char ≠ '}') :
    Inside found text := by
  induction text with
  | nil => exact inside_nil
  | cons char text ih =>
    obtain ⟨⟨hquote, hbrace, hclose⟩, htext⟩ := List.forall_mem_cons.mp h
    intro scan hopen
    have hread : read found scan char = .ok (scan.keep [char]) := by
      simp only [read, hopen.ended, hopen.depth, hopen.inString, hquote, hbrace, hclose, if_false,
        Bool.false_eq_true, ObjectScan.keep]
    rw [readAll_cons, hread, ok_bind, ih htext _ (hopen.keep [char]), keep_keep]
    rfl

/-- A quoted text is read to its end within the string. -/
theorem readAll_quoted {text : List Char} (h : JsString.Quoted text) (scan : ObjectScan σ)
    (hended : scan.ended = false) (hdepth : scan.depth ≠ 0) (hin : scan.inString = true)
    (hescaped : scan.escaped = false) : readAll found scan text = .ok (scan.keep text) := by
  induction h generalizing scan with
  | nil =>
    simp only [readAll, List.foldlM_nil, ObjectScan.keep, List.append_nil]
    rfl
  | @plain char text hquote hescape _ ih =>
    have hread : read found scan char = .ok (scan.keep [char]) := by
      simp only [read, hended, hdepth, hin, hescaped, hquote, hescape, if_false, if_true,
        Bool.false_eq_true, ObjectScan.keep]
    rw [readAll_cons, hread, ok_bind, ih (scan.keep [char]) hended hdepth hin hescaped, keep_keep]
    rfl
  | @escape char text _ ih =>
    have hescape : read found scan '\\' = .ok { scan.keep ['\\'] with escaped := true } := by
      simp only [read, hended, hdepth, hin, hescaped, if_false, if_true, Bool.false_eq_true,
        ObjectScan.keep]
    have hread : read found { scan.keep ['\\'] with escaped := true } char =
        .ok (scan.keep ['\\', char]) := by
      simp only [read, hended, hdepth, hin, if_false, if_true, Bool.false_eq_true,
        ObjectScan.keep, List.append_assoc, List.singleton_append]
      rw [hescaped]
    rw [readAll_cons, hescape, ok_bind, readAll_cons, hread, ok_bind,
      ih (scan.keep ['\\', char]) hended hdepth hin hescaped, keep_keep]
    rfl

/-- A written string stays inside an object. -/
theorem inside_quote (string : JsString) : Inside found (JsString.quote string) := by
  intro scan hopen
  have hquote : read found scan '"' = .ok { scan.keep ['"'] with inString := true } := by
    simp only [read, hopen.ended, hopen.depth, hopen.inString, if_false, if_true,
      Bool.false_eq_true, ObjectScan.keep]
  have hunits : readAll found { scan.keep ['"'] with inString := true }
      (JsString.quoteUnits string) = .ok _ :=
    readAll_quoted (JsString.quoted_quoteUnits string) _ hopen.ended hopen.depth rfl hopen.escaped
  rw [JsString.quote, readAll_cons, hquote, ok_bind, readAll_append, hunits, ok_bind,
    readAll_cons]
  have hclose : read found
      (ObjectScan.keep { scan.keep ['"'] with inString := true } (JsString.quoteUnits string)) '"' =
        .ok (scan.keep ('"' :: (JsString.quoteUnits string ++ ['"']))) := by
    simp only [read, hopen.ended, hopen.depth, hopen.escaped, if_false, if_true,
      Bool.false_eq_true, ObjectScan.keep, List.append_assoc, List.cons_append, List.nil_append]
    rw [if_neg (by decide), hopen.inString]
  rw [hclose]
  rfl

/-- An inner object is read between its braces. -/
theorem Inside.braces {text : List Char} (h : Inside found text) :
    Inside found ('{' :: (text ++ ['}'])) := by
  intro scan hopen
  have hbrace : read found scan '{' =
      .ok { scan.keep ['{'] with depth := scan.depth + 1 } := by
    simp only [read, hopen.ended, hopen.depth, hopen.inString, if_false, if_true,
      Bool.false_eq_true, ObjectScan.keep]
    rw [if_neg (by decide)]
  have hinner := h { scan.keep ['{'] with depth := scan.depth + 1 }
    ⟨hopen.ended, Nat.succ_ne_zero _, hopen.inString, hopen.escaped⟩
  have hclose : read found
      (ObjectScan.keep { scan.keep ['{'] with depth := scan.depth + 1 } text) '}' =
        .ok (scan.keep ('{' :: (text ++ ['}']))) := by
    have hdepth : ¬ scan.depth + 1 = 1 := by
      have := hopen.depth
      omega
    simp only [read, hopen.ended, hopen.inString, hdepth, Nat.succ_ne_zero, if_false, if_true,
      Bool.false_eq_true, ObjectScan.keep, List.append_assoc, List.cons_append, List.nil_append,
      Nat.add_sub_cancel]
    rw [if_neg (by decide), if_neg (by decide)]
  rw [readAll_cons, hbrace, ok_bind, readAll_append, hinner, ok_bind, readAll_cons, hclose]
  rfl

private theorem inside_tail {texts : List (List Char)} (h : ∀ text ∈ texts, Inside found text) :
    Inside found (texts.flatMap (',' :: ·)) := by
  induction texts with
  | nil => exact inside_nil
  | cons text texts ih =>
    obtain ⟨htext, htexts⟩ := List.forall_mem_cons.mp h
    have hcomma : Inside found [','] := inside_plain (by simp)
    rw [List.flatMap_cons]
    exact (hcomma.append htext).append (ih htexts)

/-- Texts with commas stay inside an object if each of them does. -/
theorem inside_commaJoin {texts : List (List Char)} (h : ∀ text ∈ texts, Inside found text) :
    Inside found (Json.commaJoin texts) := by
  cases texts with
  | nil => exact inside_nil
  | cons text texts =>
    obtain ⟨htext, htexts⟩ := List.forall_mem_cons.mp h
    exact htext.append (inside_tail htexts)

/-- A number stays inside an object. -/
theorem inside_number (value : JsNumber) : Inside found value.text := by
  apply inside_plain
  intro char hchar
  have hnumeric := value.numeric char hchar
  refine ⟨?_, ?_, ?_⟩ <;>
  · rintro rfl
    cases hnumeric

/-- An entry stays inside an object if its value does. -/
theorem inside_entry {entry : JsString × Json} (h : Inside found entry.2.stringify) :
    Inside found (Json.stringifyEntry entry) := by
  have hcolon : Inside found [':'] := inside_plain (by simp)
  rw [Json.stringifyEntry_eq, Json.entryText]
  exact (inside_quote entry.1).append (hcolon.append h)

/-- The scan reads over the text of any value within an object. -/
theorem inside_stringify (value : Json) : Inside found value.stringify := by
  have hplain {text : List Char} (h : text.all (fun char => char ≠ '"' ∧ char ≠ '{' ∧ char ≠ '}')) :
      Inside found text := by
    apply inside_plain
    simpa using h
  induction value using Json.induction with
  | null => exact hplain (by decide)
  | bool value => cases value <;> exact hplain (by decide)
  | number value => exact inside_number value
  | string value => exact inside_quote value
  | array elements ih =>
    have hjoin : Inside found (Json.commaJoin (elements.map Json.stringify)) := by
      apply inside_commaJoin
      intro text htext
      obtain ⟨element, helement, rfl⟩ := List.mem_map.mp htext
      exact ih element helement
    rw [Json.stringify_array]
    have hstart : Inside found ['['] := hplain (by decide)
    exact hstart.append (hjoin.append (hplain (by decide)))
  | object entries ih =>
    rw [Json.stringify_object]
    apply Inside.braces
    apply inside_commaJoin
    intro text htext
    obtain ⟨entry, hentry, rfl⟩ := List.mem_map.mp htext
    exact inside_entry (ih entry hentry)

/-- The text of an object is found as a whole. -/
theorem readAll_object (state : σ) (entries : List (JsString × Json)) :
    readAll found (start state) (Json.object entries).stringify =
      (found state (Json.object entries).stringify).map start := by
  have hinside : Inside found (Json.commaJoin (entries.map Json.stringifyEntry)) := by
    apply inside_commaJoin
    intro text htext
    obtain ⟨entry, _, rfl⟩ := List.mem_map.mp htext
    exact inside_entry (inside_stringify entry.2)
  rw [Json.stringify_object, readAll_cons]
  have hbrace : read found (start state) '{' = .ok ⟨['{'], 1, false, false, false, state⟩ := by
    simp [read, start]
  rw [hbrace, ok_bind, readAll_append, hinside _ ⟨rfl, Nat.one_ne_zero, rfl, rfl⟩, ok_bind,
    readAll_cons]
  have hclose : read found
      (ObjectScan.keep ⟨['{'], 1, false, false, false, state⟩
        (Json.commaJoin (entries.map Json.stringifyEntry))) '}' =
      (found state ('{' :: (Json.commaJoin (entries.map Json.stringifyEntry) ++ ['}']))).map
        start := by
    simp [read, ObjectScan.keep]
    rfl
  rw [hclose]
  cases found state ('{' :: (Json.commaJoin (entries.map Json.stringifyEntry) ++ ['}'])) <;> rfl

/-- The objects of an array are found one after the other. -/
theorem readAll_objects (values : List Json)
    (h : ∀ value ∈ values, ∃ entries, value = .object entries) (state : σ) :
    readAll found (start state) (Json.commaJoin (values.map Json.stringify)) =
      (values.foldlM (fun state value => found state value.stringify) state).map start := by
  have htail : ∀ (values : List Json), (∀ value ∈ values, ∃ entries, value = .object entries) →
      ∀ state : σ, readAll found (start state) ((values.map Json.stringify).flatMap (',' :: ·)) =
        (values.foldlM (fun state value => found state value.stringify) state).map start := by
    intro values hvalues
    induction values with
    | nil =>
      intro state
      rfl
    | cons value values ih =>
      intro state
      obtain ⟨⟨entries, rfl⟩, hrest⟩ := List.forall_mem_cons.mp hvalues
      have hcomma : read found (start state) ',' = .ok (start state) := by
        simp [read, start]
      rw [List.map_cons, List.flatMap_cons, List.cons_append, readAll_cons, hcomma, ok_bind,
        readAll_append, readAll_object, List.foldlM_cons]
      cases found state (Json.object entries).stringify with
      | error error => rfl
      | ok state' => exact ih hrest state'
  cases values with
  | nil => rfl
  | cons value values =>
    obtain ⟨⟨entries, rfl⟩, hrest⟩ := List.forall_mem_cons.mp h
    rw [List.map_cons, Json.commaJoin, readAll_append, readAll_object, List.foldlM_cons]
    cases found state (Json.object entries).stringify with
    | error error => rfl
    | ok state' => exact htail values hrest state'

/-- A whole array is read, whatever stands behind it. -/
theorem readAll_array (values : List Json)
    (h : ∀ value ∈ values, ∃ entries, value = .object entries) (state : σ) (rest : List Char) :
    readAll found (start state) (Json.commaJoin (values.map Json.stringify) ++ ']' :: rest) =
      (values.foldlM (fun state value => found state value.stringify) state).map complete := by
  rw [readAll_append, readAll_objects values h]
  cases values.foldlM (fun state value => found state value.stringify) state with
  | error error => rfl
  | ok state' =>
    have hclose : read found (start state') ']' = .ok (complete state') := by
      simp [read, start, complete]
    change readAll found (start state') (']' :: rest) = _
    rw [readAll_cons, hclose, ok_bind, readAll_ended rfl]
    rfl

/-- An array whose closing bracket is missing has no end. -/
theorem not_ended_of_prefix (values : List Json)
    (h : ∀ value ∈ values, ∃ entries, value = .object entries) {state : σ} {front : List Char}
    (hfront : front <+: Json.commaJoin (values.map Json.stringify)) {scan : ObjectScan σ}
    (hread : readAll found (start state) front = .ok scan) : scan.ended = false := by
  by_contra hended
  rw [Bool.not_eq_false] at hended
  obtain ⟨back, hback⟩ := hfront
  have hwhole : readAll found (start state) _ = _ := readAll_objects values h state
  rw [← hback, readAll_append, hread, ok_bind, readAll_ended hended] at hwhole
  cases hfold : values.foldlM (fun state value => found state value.stringify) state with
  | error error =>
    rw [hfold] at hwhole
    cases hwhole
  | ok state' =>
    rw [hfold] at hwhole
    rw [Except.ok.inj hwhole] at hended
    cases hended

end ObjectScan

/-! ## Where an array starts -/

/-- The first place where a text stands in another. -/
def indexOf (marker : List Char) : List Char → Option ℕ
  | [] => if marker = [] then some 0 else none
  | char :: text =>
    if marker <+: char :: text then some 0 else (indexOf marker text).map (· + 1)

/-- The marker starts nowhere in the text in front of the rest. -/
def NoStart (marker : List Char) : List Char → List Char → Prop
  | [], _ => True
  | char :: text, rest => ¬ marker <+: char :: (text ++ rest) ∧ NoStart marker text rest

/-- No marker starts in a joined text if none starts in either part. -/
theorem noStart_append {marker left right rest : List Char} :
    NoStart marker (left ++ right) rest ↔
      NoStart marker left (right ++ rest) ∧ NoStart marker right rest := by
  induction left with
  | nil => simp only [List.nil_append, NoStart, true_and]
  | cons char left ih => simp only [List.cons_append, NoStart, ih, List.append_assoc, and_assoc]

/-- A character that is not the first of a marker starts none. -/
theorem NoStart.cons {first char : Char} {marker text rest : List Char} (hne : first ≠ char)
    (h : NoStart (first :: marker) text rest) : NoStart (first :: marker) (char :: text) rest :=
  ⟨fun hstarts => hne (List.cons_prefix_cons.mp hstarts).1, h⟩

/-- Where the first character of the marker is missing, the marker does not start. -/
theorem noStart_of_not_mem {first : Char} {marker text rest : List Char} (h : first ∉ text) :
    NoStart (first :: marker) text rest := by
  induction text with
  | nil => trivial
  | cons char text ih =>
    rw [List.mem_cons, not_or] at h
    exact .cons h.1 (ih h.2)

/-- A marker is found behind a text that starts none. -/
theorem indexOf_of_noStart {marker front rest : List Char}
    (h : NoStart marker front (marker ++ rest)) :
    indexOf marker (front ++ (marker ++ rest)) = some front.length := by
  induction front with
  | nil =>
    cases hwhole : marker ++ rest with
    | nil =>
      have hnil := (List.append_eq_nil_iff.mp hwhole).1
      rw [List.nil_append, indexOf, if_pos hnil, List.length_nil]
    | cons char text =>
      have hstarts : marker <+: char :: text := ⟨rest, hwhole⟩
      rw [List.nil_append, indexOf, if_pos hstarts, List.length_nil]
  | cons char front ih => rw [List.cons_append, indexOf, if_neg h.1, ih h.2, Option.map_some,
      List.length_cons]

/-- Where the marker is found, it stands. -/
theorem indexOf_eq_some {marker text : List Char} {i : ℕ} (h : indexOf marker text = some i) :
    ∃ rest, text = text.take i ++ (marker ++ rest) ∧ i ≤ text.length := by
  induction text generalizing i with
  | nil =>
    rw [indexOf] at h
    split at h
    · rename_i hnil
      refine ⟨[], ?_, ?_⟩
      · simp [hnil]
      · rw [← Option.some.inj h]
        exact Nat.zero_le _
    · cases h
  | cons char text ih =>
    rw [indexOf] at h
    split at h
    · rename_i hstarts
      obtain ⟨rest, hrest⟩ := hstarts
      rw [← Option.some.inj h]
      exact ⟨rest, by rw [List.take_zero, List.nil_append, hrest], Nat.zero_le _⟩
    · obtain ⟨j, hj, rfl⟩ := Option.map_eq_some_iff.mp h
      obtain ⟨rest, hrest, hle⟩ := ih hj
      refine ⟨rest, ?_, Nat.succ_le_succ hle⟩
      rw [List.take_succ_cons, List.cons_append, ← hrest]

/-- More text moves no marker that is found. -/
theorem indexOf_append {marker text : List Char} {i : ℕ} (h : indexOf marker text = some i)
    (more : List Char) : indexOf marker (text ++ more) = some i := by
  induction text generalizing i with
  | nil =>
    rw [indexOf] at h
    split at h
    · rename_i hnil
      rw [← Option.some.inj h, List.nil_append, hnil]
      cases more with
      | nil => rfl
      | cons char more => rw [indexOf, if_pos (List.nil_prefix)]
    · cases h
  | cons char text ih =>
    rw [indexOf] at h
    rw [List.cons_append, indexOf]
    split at h
    · rename_i hstarts
      have hlonger : marker <+: char :: (text ++ more) :=
        hstarts.trans (List.prefix_append (char :: text) more)
      rw [if_pos hlonger, h]
    · rename_i hstarts
      obtain ⟨j, hj, rfl⟩ := Option.map_eq_some_iff.mp h
      have hmore : ¬ marker <+: char :: (text ++ more) := by
        intro hlonger
        obtain ⟨rest, hrest, hle⟩ := indexOf_eq_some hj
        apply hstarts
        apply List.prefix_of_prefix_length_le hlonger (List.prefix_append (char :: text) more)
        have hlength := congrArg List.length hrest
        simp only [List.length_append, List.length_take] at hlength
        rw [List.length_cons]
        omega
      rw [if_neg hmore, ih hj, Option.map_some]

/-! ## Keys of arrays -/

namespace Json

open JsString

/-- The text in front of the elements of the array at a key. -/
def arrayMarker (key : JsString) : List Char := quote key ++ [':', '[']

/-- Neither is the other key the given one, nor does it end with a quotation mark and it. -/
def Apart (key other : JsString) : Prop := ¬ (0x22 :: key <:+ 0x22 :: other)

/-- All keys of a value are apart from the given one, at every depth. -/
inductive KeysApart (key : JsString) : Json → Prop
  | null : KeysApart key null
  | bool (value : Bool) : KeysApart key (bool value)
  | number (value : JsNumber) : KeysApart key (number value)
  | string (value : JsString) : KeysApart key (string value)
  | array {elements : List Json} (h : ∀ element ∈ elements, KeysApart key element) :
    KeysApart key (array elements)
  | object {entries : List (JsString × Json)} (hkeys : ∀ entry ∈ entries, Apart key entry.1)
    (h : ∀ entry ∈ entries, KeysApart key entry.2) : KeysApart key (object entries)

/-- A marker at the start of a quoted string is its key and what follows. -/
theorem marker_prefix_quote {key other : JsString} {rest : List Char}
    (h : arrayMarker key <+: quote other ++ rest) : other = key ∧ rest.head? = some ':' := by
  obtain ⟨more, hmore⟩ := h
  rw [arrayMarker, List.append_assoc] at hmore
  obtain ⟨hsame, hrest⟩ := quote_append_inj hmore
  refine ⟨hsame.symm, ?_⟩
  rw [← hrest]
  rfl

section Markers

variable {key : JsString}

/-- A marker starts in a quoted string, or at the quotation mark behind it, only where its key ends
the string in front of a colon. -/
theorem noStart_units {units : JsString} {rest : List Char}
    (h : ¬ (0x22 :: key <:+ units) ∨ rest.head? ≠ some ':') :
    NoStart (arrayMarker key) (quoteUnits units) ('"' :: rest) := by
  have hother {text rest : List Char} (htext : '"' ∉ text) : NoStart (arrayMarker key) text rest :=
    noStart_of_not_mem htext
  have hunit : ∀ (unit : UInt16) (units : JsString),
      (¬ (0x22 :: key <:+ unit :: units) ∨ rest.head? ≠ some ':') →
        NoStart (arrayMarker key) (escapeUnit unit) (quoteUnits units ++ '"' :: rest) := by
    intro unit units hapart
    by_cases hquote : unit = 0x22
    · subst unit
      refine ⟨?_, ?_, trivial⟩
      · intro hstarts
        exact absurd (List.cons_prefix_cons.mp hstarts).1 (by decide)
      · intro hstarts
        have hstart : arrayMarker key <+: quote units ++ rest := by
          simpa only [quote, List.cons_append, List.append_assoc, List.nil_append] using hstarts
        obtain ⟨rfl, hcolon⟩ := marker_prefix_quote hstart
        exact hapart.elim (fun hsuffix => hsuffix (List.suffix_refl _)) fun hhead => hhead hcolon
    · exact hother (quote_not_mem_escapeUnit hquote)
  have hshorter {unit : UInt16} {units : JsString}
      (h : ¬ (0x22 :: key <:+ unit :: units) ∨ rest.head? ≠ some ':') :
      ¬ (0x22 :: key <:+ units) ∨ rest.head? ≠ some ':' :=
    h.imp_left fun hsuffix hcontra => hsuffix (hcontra.trans (List.suffix_cons unit units))
  induction units using quoteUnits.induct with
  | case1 high low units hpair ih =>
    rw [quoteUnits, if_pos hpair]
    have hchar : '"' ≠ pairChar high low := (pairChar_ne hpair (by decide)).symm
    exact .cons hchar (ih (hshorter (hshorter h)))
  | case2 high low units hpair ih =>
    rw [quoteUnits, if_neg hpair]
    exact noStart_append.mpr ⟨hunit high (low :: units) h, ih (hshorter h)⟩
  | case3 unit =>
    rw [quoteUnits]
    exact hunit unit [] h
  | case4 =>
    rw [quoteUnits]
    trivial

private theorem noStart_tail {texts : List (List Char)}
    (h : ∀ text ∈ texts, ∀ rest, Ends rest → NoStart (arrayMarker key) text rest)
    {rest : List Char} (hrest : Ends rest) :
    NoStart (arrayMarker key) (texts.flatMap (',' :: ·)) rest := by
  induction texts with
  | nil => trivial
  | cons text texts ih =>
    obtain ⟨htext, htexts⟩ := List.forall_mem_cons.mp h
    have hends : Ends (texts.flatMap (',' :: ·) ++ rest) := by
      cases texts with
      | nil => exact hrest
      | cons text texts => exact ends_cons (.inl rfl)
    rw [List.flatMap_cons]
    refine noStart_append.mpr ⟨?_, ih htexts⟩
    exact .cons (by decide) (htext _ hends)

/-- No marker starts in texts with commas if none starts in any of them. -/
theorem noStart_commaJoin {texts : List (List Char)}
    (h : ∀ text ∈ texts, ∀ rest, Ends rest → NoStart (arrayMarker key) text rest)
    {rest : List Char} (hrest : Ends rest) :
    NoStart (arrayMarker key) (commaJoin texts) rest := by
  cases texts with
  | nil => trivial
  | cons text texts =>
    obtain ⟨htext, htexts⟩ := List.forall_mem_cons.mp h
    have hends : Ends (texts.flatMap (',' :: ·) ++ rest) := by
      cases texts with
      | nil => exact hrest
      | cons text texts => exact ends_cons (.inl rfl)
    exact noStart_append.mpr ⟨htext _ hends, noStart_tail htexts hrest⟩

/-- The key is not empty and starts like no text behind a string. -/
def Leads (key : JsString) : Prop :=
  ∀ char ∈ [':', ',', ']', '}'], (quoteUnits key ++ ['"']).head? ≠ some char

variable (hleads : Leads key)

include hleads

/-- No marker starts in a string apart from its key, or in a string that is no key. -/
theorem noStart_quote {other : JsString} {rest : List Char}
    (hrest : ∀ char ∈ rest.head?, char ∈ [':', ',', ']', '}'])
    (h : Apart key other ∨ rest.head? ≠ some ':') :
    NoStart (arrayMarker key) (quote other) rest := by
  refine ⟨?_, noStart_append.mpr ⟨?_, ?_, trivial⟩⟩
  · intro hstarts
    have hstart : arrayMarker key <+: quote other ++ rest := hstarts
    obtain ⟨rfl, hcolon⟩ := marker_prefix_quote hstart
    exact h.elim (fun hapart => hapart (List.suffix_refl _)) fun hhead => hhead hcolon
  · rw [List.singleton_append]
    apply noStart_units
    exact h.imp_left fun hapart hsuffix => hapart (hsuffix.trans (List.suffix_cons _ _))
  · rw [List.nil_append]
    rintro ⟨more, hmore⟩
    have htail : (quoteUnits key ++ ['"']) ++ (':' :: '[' :: more) = rest := by
      simpa [arrayMarker, quote] using hmore
    cases hunits : quoteUnits key ++ ['"'] with
    | nil => simp at hunits
    | cons char text =>
      rw [hunits, List.cons_append] at htail
      have hhead : rest.head? = some char := by
        rw [← htail]
        rfl
      exact hleads char (hrest char hhead) (by rw [hunits]; rfl)

/-- No marker starts in entries whose keys are apart from its key and whose values have none. -/
theorem noStart_entries {entries : List (JsString × Json)}
    (hkeys : ∀ entry ∈ entries, Apart key entry.1)
    (h : ∀ entry ∈ entries, ∀ rest, Ends rest →
      NoStart (arrayMarker key) entry.2.stringify rest)
    {rest : List Char} (hrest : Ends rest) :
    NoStart (arrayMarker key) (commaJoin (entries.map stringifyEntry)) rest := by
  apply noStart_commaJoin _ hrest
  intro text htext
  obtain ⟨entry, hentry, rfl⟩ := List.mem_map.mp htext
  intro rest hrest
  rw [stringifyEntry_eq, entryText]
  refine noStart_append.mpr ⟨?_, .cons (by decide) (h entry hentry rest hrest)⟩
  apply noStart_quote hleads _ (.inl (hkeys entry hentry))
  intro char hchar
  rw [← Option.some.inj hchar]
  decide

/-- No marker starts in the text of a value whose keys are apart from its key. -/
theorem noStart_stringify {value : Json} (h : KeysApart key value) :
    ∀ rest, Ends rest → NoStart (arrayMarker key) value.stringify rest := by
  have hother {text rest : List Char} (htext : '"' ∉ text) : NoStart (arrayMarker key) text rest :=
    noStart_of_not_mem htext
  induction h with
  | null =>
    intro rest _
    exact hother (by decide)
  | bool value =>
    intro rest _
    cases value <;> exact hother (by decide)
  | number value =>
    intro rest _
    apply hother
    intro hmem
    cases value.numeric _ hmem
  | string value =>
    intro rest hrest
    apply noStart_quote hleads
    · intro char hchar
      rcases hrest char hchar with rfl | rfl | rfl <;> decide
    · right
      intro hcolon
      rcases hrest ':' hcolon with hchar | hchar | hchar <;> cases hchar
  | @array elements _ ih =>
    intro rest _
    have hjoin : NoStart (arrayMarker key) (commaJoin (elements.map stringify)) (']' :: rest) := by
      apply noStart_commaJoin _ (ends_cons (.inr (.inl rfl)))
      intro text htext
      obtain ⟨element, helement, rfl⟩ := List.mem_map.mp htext
      exact ih element helement
    rw [stringify_array]
    exact .cons (by decide) (noStart_append.mpr ⟨hjoin, hother (by decide)⟩)
  | @object entries hkeys _ ih =>
    intro rest _
    have hjoin : NoStart (arrayMarker key) (commaJoin (entries.map stringifyEntry))
        ('}' :: rest) := noStart_entries hleads hkeys ih (ends_cons (.inr (.inr rfl)))
    rw [stringify_object]
    exact .cons (by decide) (noStart_append.mpr ⟨hjoin, hother (by decide)⟩)

/-- The marker is found behind entries whose keys are apart from its key. -/
theorem indexOf_arrayMarker {entries : List (JsString × Json)} (h : KeysApart key (object entries))
    (rest : List Char) :
    indexOf (arrayMarker key)
      ('{' :: (commaJoin (entries.map stringifyEntry) ++ [',']) ++ (arrayMarker key ++ rest)) =
        some ('{' :: (commaJoin (entries.map stringifyEntry) ++ [','])).length := by
  have hother {text rest : List Char} (htext : '"' ∉ text) : NoStart (arrayMarker key) text rest :=
    noStart_of_not_mem htext
  cases h with
  | object hkeys hvalues =>
    apply indexOf_of_noStart
    refine .cons (by decide) (noStart_append.mpr ⟨?_, hother (by decide)⟩)
    exact noStart_entries hleads hkeys
      (fun entry hentry => noStart_stringify hleads (hvalues entry hentry)) (ends_cons (.inl rfl))

end Markers

end Json

end LoopProof
