import LoopProof.Proving.PlanStream

/-!
# Plan files are read as wholes

What a reader of chunks has found is what a scan of the text so far finds, wherever the chunks end.
-/

namespace LoopProof.Proving

/-! ## A chunk and its text -/

variable {μ σ : Type}

/-- What the reader has found, with the text of the open claim in one piece. -/
def Cursor.scan (cursor : Cursor σ) (pending : List Char) (index : ℕ) : ObjectScan σ where
  object := cursor.claimChunks.flatten ++
    cursor.claimStart.elim [] fun claimStart => slice pending claimStart index
  depth := cursor.claimDepth
  inString := cursor.inString
  escaped := cursor.escaped
  ended := cursor.claimsEnded
  state := cursor.accounts

/-- The reader stands behind the given number of characters, and keeps the text of an open claim
only. -/
structure Cursor.Placed (cursor : Cursor σ) (index : ℕ) : Prop where
  start_eq_none : cursor.claimDepth = 0 ↔ cursor.claimStart = none
  start_le : ∀ claimStart ∈ cursor.claimStart, claimStart ≤ index
  closed : cursor.claimDepth = 0 → cursor.claimChunks = []
  ended : cursor.claimsEnded = true → cursor.claimDepth = 0
  consumed : cursor.consumed = index

/-- A slice that ends one character later. -/
theorem slice_succ {text : List Char} {start index : ℕ} {character : Char} (hle : start ≤ index)
    (hchar : text[index]? = some character) :
    slice text start (index + 1) = slice text start index ++ [character] := by
  obtain ⟨hlt, hget⟩ := List.getElem?_eq_some_iff.mp hchar
  have htake : text.take (index + 1) = text.take index ++ [character] := by
    rw [List.take_add_one, hchar, Option.toList_some]
  rw [slice, htake, List.drop_append_of_le_length]
  · rfl
  · rw [List.length_take]
    omega

section Characters

variable (accept : σ → List Char → Except String σ) {pending : List Char} {cursor : Cursor σ}
  {index : ℕ} {character : Char}

/-- The text of an open claim grows by the character that is read. -/
theorem Cursor.Placed.open_succ (h : cursor.Placed index) (hdepth : cursor.claimDepth ≠ 0)
    (hchar : pending[index]? = some character) :
    (cursor.claimStart.elim [] fun claimStart => slice pending claimStart (index + 1)) =
      (cursor.claimStart.elim [] fun claimStart => slice pending claimStart index) ++
        [character] := by
  cases hstart : cursor.claimStart with
  | none => exact absurd (h.start_eq_none.mpr hstart) hdepth
  | some claimStart => exact slice_succ (h.start_le claimStart hstart) hchar

/-- The text of a claim that is closed is what was read of it. -/
theorem Cursor.Placed.closed_text (h : cursor.Placed index) (hdepth : cursor.claimDepth ≠ 0)
    (hchar : pending[index]? = some character) :
    (cursor.claimChunks ++ [slice pending (cursor.claimStart.getD 0) (index + 1)]).flatten =
      (cursor.scan pending index).object ++ [character] := by
  have hsucc := h.open_succ hdepth hchar
  cases hstart : cursor.claimStart with
  | none => exact absurd (h.start_eq_none.mpr hstart) hdepth
  | some claimStart =>
    rw [hstart, Option.elim_some, Option.elim_some] at hsucc
    simp only [Cursor.scan, hstart, Option.getD_some, Option.elim_some, List.flatten_append,
      List.flatten_singleton, hsucc, List.append_assoc]

/-- The character closes a claim. -/
def Cursor.Closes (cursor : Cursor σ) (character : Char) : Prop :=
  cursor.claimsEnded = false ∧ cursor.claimDepth = 1 ∧ cursor.inString = false ∧ character = '}'

/-- A claim is accepted with its closing brace. -/
theorem readCharacter_closes (h : cursor.Placed index) (hchar : pending[index]? = some character)
    (hcloses : cursor.Closes character) :
    readCharacter accept pending cursor (character, index) =
      (accept cursor.accounts ((cursor.scan pending index).object ++ [character])).map
        fun accounts => ⟨⟨[], 0, false, cursor.escaped, false, accounts⟩, none, index + 1⟩ := by
  obtain ⟨hopen, hdepth, hin, rfl⟩ := hcloses
  have hne : cursor.claimDepth ≠ 0 := by
    rw [hdepth]
    exact Nat.one_ne_zero
  simp only [readCharacter, hopen, hdepth, hin, h.closed_text hne hchar]
  rfl

/-- The reader does with a character what the scan of the text does. -/
theorem readCharacter_scan (h : cursor.Placed index) (hchar : pending[index]? = some character) :
    (readCharacter accept pending cursor (character, index)).map (·.scan pending (index + 1)) =
      ObjectScan.read accept (cursor.scan pending index) character := by
  by_cases hcloses : cursor.Closes character
  · rw [readCharacter_closes accept h hchar hcloses]
    obtain ⟨hopen, hdepth, hin, rfl⟩ := hcloses
    have hscan : ObjectScan.read accept (cursor.scan pending index) '}' =
        (accept cursor.accounts ((cursor.scan pending index).object ++ ['}'])).map fun state =>
          ⟨[], 0, false, cursor.escaped, false, state⟩ := by
      simp only [ObjectScan.read, Cursor.scan, hopen, hdepth, hin]
      rfl
    rw [hscan]
    cases accept cursor.accounts ((cursor.scan pending index).object ++ ['}']) <;> rfl
  · have hended := h.ended
    have houter : cursor.claimDepth = 0 → cursor.claimChunks = [] ∧ cursor.claimStart = none :=
      fun hdepth => ⟨h.closed hdepth, h.start_eq_none.mp hdepth⟩
    have hinner : cursor.claimDepth ≠ 0 → _ := fun hdepth => h.open_succ hdepth hchar
    have hfirst : slice pending index (index + 1) = [character] := by
      rw [slice_succ (Nat.le_refl index) hchar, slice, List.drop_take_self, List.nil_append]
    rw [Cursor.Closes] at hcloses
    unfold readCharacter ObjectScan.read
    simp only [Cursor.scan]
    split_ifs
    all_goals simp_all [Except.map]

/-- Every character leaves the reader behind it. -/
theorem readCharacter_placed (h : cursor.Placed index) (hchar : pending[index]? = some character)
    {next : Cursor σ} (hread : readCharacter accept pending cursor (character, index) = .ok next) :
    next.Placed (index + 1) := by
  by_cases hcloses : cursor.Closes character
  · rw [readCharacter_closes accept h hchar hcloses] at hread
    cases haccept : accept cursor.accounts ((cursor.scan pending index).object ++ [character]) with
    | error error =>
      rw [haccept] at hread
      cases hread
    | ok accounts =>
      rw [haccept] at hread
      rw [← Except.ok.inj hread]
      constructor <;> simp
  · obtain ⟨hstart, hle, hclosed, hended, _⟩ := h
    have hle' : ∀ claimStart ∈ cursor.claimStart, claimStart ≤ index + 1 :=
      fun claimStart hmem => Nat.le_succ_of_le (hle claimStart hmem)
    rw [Cursor.Closes] at hcloses
    unfold readCharacter at hread
    simp only at hread
    split_ifs at hread
    all_goals first
      | rw [← Except.ok.inj hread]
        constructor <;> simp_all <;> omega
      | exfalso
        simp_all

/-- The reader does with the rest of a chunk what the scan of the text does. -/
theorem readCharacters_scan {front rest : List Char} (hpending : pending = front ++ rest)
    (h : cursor.Placed front.length) :
    ((rest.zipIdx front.length).foldlM (readCharacter accept pending) cursor).map
        (·.scan pending pending.length) =
      ObjectScan.readAll accept (cursor.scan pending front.length) rest ∧
    ∀ next, (rest.zipIdx front.length).foldlM (readCharacter accept pending) cursor = .ok next →
      next.Placed pending.length := by
  induction rest generalizing front cursor with
  | nil =>
    rw [List.append_nil] at hpending
    subst hpending
    refine ⟨rfl, ?_⟩
    intro next hnext
    rw [← Except.ok.inj hnext]
    exact h
  | cons character rest ih =>
    have hchar : pending[front.length]? = some character := by
      rw [hpending, List.getElem?_append_right (Nat.le_refl _), Nat.sub_self,
        List.getElem?_cons_zero]
    have hscan := readCharacter_scan accept h hchar
    rw [List.zipIdx_cons, List.foldlM_cons, ObjectScan.readAll_cons, ← hscan]
    cases hread : readCharacter accept pending cursor (character, front.length) with
    | error error => exact ⟨rfl, fun next hnext => by cases hnext⟩
    | ok next =>
      have hnext := readCharacter_placed accept h hchar hread
      have hlength : (front ++ [character]).length = front.length + 1 := by
        rw [List.length_append, List.length_singleton]
      have hsplit : pending = (front ++ [character]) ++ rest := by
        rw [hpending, List.append_assoc, List.singleton_append]
      rw [← hlength] at hnext
      have hrest := ih hsplit hnext
      rw [hlength] at hrest
      exact hrest

end Characters

/-! ## Every cut of a text -/

/-- What the reader has found between two chunks. -/
def ClaimScan.scan (s : ClaimScan σ) : ObjectScan σ :=
  ⟨s.claimChunks.flatten, s.claimDepth, s.inString, s.escaped, s.claimsEnded, s.accounts⟩

/-- Only the text of an open claim is kept, and no claim is open behind the last one. -/
structure ClaimScan.Tidy (s : ClaimScan σ) : Prop where
  closed : s.claimDepth = 0 → s.claimChunks = []
  ended : s.claimsEnded = true → s.claimDepth = 0

/-- A tidy scan is placed at the start of the text. -/
theorem ClaimScan.Tidy.enter {s : ClaimScan σ} (h : s.Tidy) : s.enter.Placed 0 := by
  by_cases hdepth : s.claimDepth = 0
  · constructor <;> simp [ClaimScan.enter, hdepth, h.closed hdepth]
  · have hended : ¬ s.claimsEnded = true := fun hended => hdepth (h.ended hended)
    constructor <;> simp [ClaimScan.enter, hdepth, Nat.pos_iff_ne_zero, hended]

/-- Entering a text keeps what was read. -/
theorem enter_scan (s : ClaimScan σ) (pending : List Char) : s.enter.scan pending 0 = s.scan := by
  by_cases hdepth : 0 < s.claimDepth <;>
    simp [ClaimScan.enter, Cursor.scan, ClaimScan.scan, slice, hdepth]

/-- Leaving a text keeps what was read. -/
theorem leave_scan {cursor : Cursor σ} {pending : List Char} (h : cursor.Placed pending.length) :
    (cursor.leave pending).scan = cursor.scan pending pending.length := by
  by_cases hdepth : cursor.claimDepth = 0
  · simp [Cursor.leave, ClaimScan.scan, Cursor.scan, hdepth, h.start_eq_none.mp hdepth]
  · cases hstart : cursor.claimStart with
    | none => exact absurd (h.start_eq_none.mpr hstart) hdepth
    | some claimStart =>
      have hopen : (some claimStart).filter (fun _ => 0 < cursor.claimDepth) = some claimStart := by
        rw [Option.filter_some, if_pos (by simpa [Nat.pos_iff_ne_zero] using hdepth)]
      simp [Cursor.leave, ClaimScan.scan, Cursor.scan, hstart, hopen, slice]

/-- A scan is tidy when it leaves a text. -/
theorem leave_tidy {cursor : Cursor σ} {pending : List Char} (h : cursor.Placed pending.length) :
    (cursor.leave pending).Tidy where
  closed := by
    intro hdepth
    have hclosed : cursor.claimDepth = 0 := hdepth
    simp [Cursor.leave, h.start_eq_none.mp hclosed, h.closed hclosed]
  ended := h.ended

/-! ## What is in a text -/

section Texts

variable (start : List Char → Except String μ) (accept : μ → σ → List Char → Except String σ)

/-- The fields and the claims of the text of a plan, if its claims start. -/
def readText (accounts : σ) (text : List Char) : Except String (Option (μ × ObjectScan σ)) :=
  match indexOf claimsMarker text with
  | none => .ok none
  | some markerIndex => do
    let metadata ← start (text.take markerIndex ++ "\"claims\":[]\x7d".toList)
    let scan ← ObjectScan.readAll (accept metadata) (.start accounts)
      (text.drop (markerIndex + claimsMarker.length))
    return some (metadata, scan)

/-- What a reader has found. -/
def PlanStream.found (s : PlanStream μ σ) : Option (μ × ObjectScan σ) :=
  s.metadata.map fun metadata => (metadata, s.toClaimScan.scan)

variable {start accept} {accounts : σ}

/-- The reader has read the given text. -/
inductive Read (start : List Char → Except String μ) (accept : μ → σ → List Char → Except String σ)
    (accounts : σ) (text : List Char) : PlanStream μ σ → Prop
  | waiting (h : indexOf claimsMarker text = none) :
    Read start accept accounts text { PlanStream.initial accounts with pending := text }
  | reading {scan : ClaimScan σ} {metadata : μ} (htidy : scan.Tidy)
    (h : readText start accept accounts text = .ok (some (metadata, scan.scan))) :
    Read start accept accounts text ⟨scan, [], some metadata⟩

/-- What a stream has found is what its whole text gives. -/
theorem Read.found {text : List Char} {s : PlanStream μ σ} (h : Read start accept accounts text s) :
    readText start accept accounts text = .ok s.found := by
  cases h with
  | waiting h => rw [readText, h]; rfl
  | reading _ h => exact h

/-- With more text the claims start where they did. -/
private theorem split_append {text : List Char} {markerIndex : ℕ}
    (h : indexOf claimsMarker text = some markerIndex) (more : List Char) :
    indexOf claimsMarker (text ++ more) = some markerIndex ∧
      (text ++ more).take markerIndex = text.take markerIndex ∧
      (text ++ more).drop (markerIndex + claimsMarker.length) =
        text.drop (markerIndex + claimsMarker.length) ++ more := by
  obtain ⟨rest, hrest, hle⟩ := indexOf_eq_some h
  have hlength : markerIndex + claimsMarker.length ≤ text.length := by
    have hlength := congrArg List.length hrest
    simp only [List.length_append, List.length_take] at hlength
    omega
  exact ⟨indexOf_append h more, List.take_append_of_le_length hle,
    List.drop_append_of_le_length hlength⟩

/-- More text is read on from where the claims were read to. -/
theorem readText_append {text : List Char} {metadata : μ} {scan : ObjectScan σ}
    (h : readText start accept accounts text = .ok (some (metadata, scan))) (more : List Char) :
    readText start accept accounts (text ++ more) =
      (ObjectScan.readAll (accept metadata) scan more).map fun scan => some (metadata, scan) := by
  rw [readText] at h
  cases hindex : indexOf claimsMarker text with
  | none =>
    rw [hindex] at h
    cases h
  | some markerIndex =>
    rw [hindex] at h
    obtain ⟨metadata', hstart, h⟩ := bind_eq_ok.mp h
    obtain ⟨scan', hscan, h⟩ := bind_eq_ok.mp h
    obtain ⟨rfl, rfl⟩ := Prod.mk.inj (Option.some.inj (Except.ok.inj h))
    obtain ⟨hfound, htake, hdrop⟩ := split_append hindex more
    rw [readText, hfound]
    simp only [htake, hstart, ok_bind, hdrop, ObjectScan.readAll_append, hscan]
    cases ObjectScan.readAll (accept metadata') scan' more <;> rfl

/-- More text mends no error. -/
theorem readText_append_error {text : List Char} {error : String}
    (h : readText start accept accounts text = .error error) (more : List Char) :
    readText start accept accounts (text ++ more) = .error error := by
  rw [readText] at h
  cases hindex : indexOf claimsMarker text with
  | none =>
    rw [hindex] at h
    cases h
  | some markerIndex =>
    rw [hindex] at h
    obtain ⟨hfound, htake, hdrop⟩ := split_append hindex more
    rw [readText, hfound]
    simp only [htake, hdrop, ObjectScan.readAll_append]
    rcases bind_eq_error.mp h with hstart | ⟨metadata, hstart, hrest⟩
    · rw [hstart]
      rfl
    · rcases bind_eq_error.mp hrest with hscan | ⟨scan, _, hpure⟩
      · rw [hstart, ok_bind, hscan]
        rfl
      · cases hpure

/-- What is pending is read as a whole, and the text of a claim that stays open is kept. -/
theorem readPending_read {scan : ClaimScan σ} (htidy : scan.Tidy) {metadata : μ}
    {text pending : List Char}
    (h : readText start accept accounts text =
      (ObjectScan.readAll (accept metadata) scan.scan pending).map fun scan =>
        some (metadata, scan)) :
    (∀ next, readPending (accept metadata) metadata scan pending = .ok next →
      Read start accept accounts text next) ∧
    ∀ error, readPending (accept metadata) metadata scan pending = .error error →
      readText start accept accounts text = .error error := by
  obtain ⟨hscan, hnext⟩ := readCharacters_scan (accept metadata) (List.nil_append pending).symm
    htidy.enter
  rw [List.length_nil, enter_scan] at hscan
  rw [List.length_nil] at hnext
  rw [← hscan] at h
  rw [readPending]
  cases hfold : pending.zipIdx.foldlM (readCharacter (accept metadata) pending) scan.enter with
  | error error =>
    rw [hfold] at h
    refine ⟨?_, ?_⟩
    · intro next hread
      cases hread
    · intro error' herror
      rw [h, ← Except.error.inj herror]
      rfl
  | ok cursor =>
    have hplaced := hnext cursor hfold
    rw [hfold] at h
    refine ⟨?_, ?_⟩
    · intro next hread
      have hdrop : pending.drop cursor.consumed = [] := by
        rw [hplaced.consumed, List.drop_length]
      rw [← Except.ok.inj hread, hdrop]
      refine .reading (leave_tidy hplaced) ?_
      rw [h, leave_scan hplaced]
      rfl
    · intro error herror
      cases herror

/-- One more chunk is one more piece of the text. -/
theorem readChunk_step {text : List Char} {s : PlanStream μ σ}
    (h : Read start accept accounts text s) (chunk : List Char) :
    (∀ next, readChunk start accept s chunk = .ok next →
      Read start accept accounts (text ++ chunk) next) ∧
    ∀ error, readChunk start accept s chunk = .error error →
      readText start accept accounts (text ++ chunk) = .error error := by
  cases h with
  | waiting h =>
    cases hindex : indexOf claimsMarker (text ++ chunk) with
    | none =>
      simp only [readChunk, PlanStream.initial, hindex]
      refine ⟨?_, ?_⟩
      · intro next hnext
        rw [← Except.ok.inj hnext]
        exact .waiting hindex
      · intro error herror
        cases herror
    | some markerIndex =>
      simp only [readChunk, PlanStream.initial, hindex]
      cases hstart : start ((text ++ chunk).take markerIndex ++ "\"claims\":[]\x7d".toList) with
      | error error =>
        refine ⟨?_, ?_⟩
        · intro next hnext
          cases hnext
        · intro error' herror
          rw [readText, hindex]
          simp only [hstart]
          rw [← Except.error.inj herror]
          rfl
      | ok metadata =>
        apply readPending_read ⟨fun _ => rfl, fun _ => rfl⟩
        rw [readText, hindex]
        simp only [hstart, ok_bind]
        rfl
  | @reading scan metadata htidy h => exact readPending_read htidy (readText_append h chunk)

/-- A reader of all chunks has found what is in the text, wherever the chunks end. -/
theorem readChunks_found {text : List Char} {s : PlanStream μ σ}
    (h : Read start accept accounts text s) (chunks : List (List Char)) :
    (readChunks start accept s chunks).map PlanStream.found =
      readText start accept accounts (text ++ chunks.flatten) := by
  induction chunks generalizing text s with
  | nil =>
    rw [List.flatten_nil, List.append_nil, h.found]
    rfl
  | cons chunk chunks ih =>
    obtain ⟨hnext, herror⟩ := readChunk_step h chunk
    rw [List.flatten_cons, ← List.append_assoc, readChunks, List.foldlM_cons]
    cases hread : readChunk start accept s chunk with
    | error error =>
      rw [readText_append_error (herror error hread)]
      rfl
    | ok next => exact ih (hnext next hread)

/-- A reader that stops behind the claims has found what is in the text. -/
theorem readUntilEnd_found {text : List Char} {s : PlanStream μ σ}
    (h : Read start accept accounts text s) (chunks : List (List Char)) :
    (readUntilEnd start accept s chunks).map PlanStream.found =
      readText start accept accounts (text ++ chunks.flatten) := by
  induction chunks generalizing text s with
  | nil =>
    rw [List.flatten_nil, List.append_nil, h.found]
    rfl
  | cons chunk chunks ih =>
    obtain ⟨hnext, herror⟩ := readChunk_step h chunk
    rw [List.flatten_cons, ← List.append_assoc, readUntilEnd]
    cases hread : readChunk start accept s chunk with
    | error error =>
      rw [readText_append_error (herror error hread)]
      rfl
    | ok next =>
      have hread' := hnext next hread
      rw [ok_bind]
      by_cases hended : next.claimsEnded = true
      · cases hread' with
        | waiting => cases hended
        | @reading scan metadata htidy hfound =>
          have hscan : scan.scan.ended = true := hended
          rw [if_pos hended, readText_append hfound, ObjectScan.readAll_ended hscan]
          rfl
      · rw [if_neg hended]
        exact ih hread'

variable (start accept accounts) in

/-- Nothing is read at the start. -/
theorem read_initial : Read start accept accounts [] (.initial accounts) := .waiting (by decide)

end Texts

end LoopProof.Proving
