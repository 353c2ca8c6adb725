import LoopProof.Case.Returns
import LoopProof.Correctness.Scan
import LoopProof.Lib.DeadEnds
import LoopProof.Predicate.Exemplar

/-!
# The memory of the return tracer

The tracer remembers an address, a bucket of blocks and the hops that were left, but not the amount
that came in or the exact block. Over a node that answers, its search is a search that remembers
dead ends, and it differs from the same search without memory exactly where it skips a call that
leads to the target.
-/

namespace LoopProof.Case

/-! ## Answers -/

section Answers

variable {rpc : BuilderRpc} {target : Address}

/-- A log that names a receiver and an amount. -/
def IsOutflow (out : MinedLog) : Prop := out.log.data ≠ [] ∧ out.log.topics[2]? ≠ none

/-- Every query for the transfers of a sender is answered, with transfers. -/
def AnswersOutflows (rpc : BuilderRpc) : Prop :=
  ∀ sender first last, ∃ logs, rpc.getLogs (outflowFilter sender) first last = .ok logs ∧
    ∀ out ∈ logs, IsOutflow out

/-- A scan for the transfers of a sender then returns transfers. -/
theorem getLogs_answered (hanswers : AnswersOutflows rpc) (sender : Address) (first last : ℕ) :
    ∃ logs, getLogs rpc (outflowFilter sender) first last = .ok logs ∧
      ∀ out ∈ logs, IsOutflow out := by
  have hspec := @scanRange_spec (fun _ => rpc.getLogs) (outflowFilter sender) minChunk maxChunk last
    (by decide) (by decide) first
  rw [getLogs]
  generalize scanRange (fun _ => rpc.getLogs) (outflowFilter sender) minChunk maxChunk last first =
    scanned at hspec
  have hanswer : ∀ call ∈ scanned.calls, ∃ logs, call.answer = .ok logs ∧
      ∀ out ∈ logs, IsOutflow out := by
    intro call hcall
    obtain ⟨k, hk⟩ := List.mem_iff_getElem?.mp hcall
    obtain ⟨logs, hlogs, hshaped⟩ := hanswers sender call.first call.last
    exact ⟨logs, (hspec.answers k call hk).trans hlogs, hshaped⟩
  rw [scanResult]
  cases houtcome : scanned.outcome with
  | none => exact absurd houtcome hspec.ends
  | some result =>
    cases result with
    | error error =>
      obtain ⟨call, hcall, other, herror, _⟩ := hspec.raises.mp ⟨error, houtcome⟩
      obtain ⟨logs, hlogs, _⟩ := hanswer call hcall
      rw [hlogs] at herror
      cases herror
    | ok logs =>
      refine ⟨logs, rfl, ?_⟩
      intro out hout
      rw [(hspec.tiles logs houtcome).2] at hout
      obtain ⟨read, hread, hout⟩ := List.mem_flatMap.mp hout
      obtain ⟨call, part, hcall, hpart, rfl⟩ := mem_readWindows.mp hread
      obtain ⟨part', hpart', hshaped⟩ := hanswer call hcall
      obtain rfl := Except.ok.inj (hpart.symm.trans hpart')
      exact hshaped out hout

/-- A transfer names its receiver. -/
def NamesReceiver (candidate : ℕ × MinedLog) : Prop := candidate.2.log.topics[2]? ≠ none

/-- The call that follows a transfer. -/
def nextCall (candidate : ℕ × MinedLog) : Call :=
  ⟨topicAddress (candidate.2.log.topics[2]?.getD 0), candidate.1, candidate.2.blockNumber.val⟩

/-- A candidate with a receiver is called next. -/
theorem callOf_eq {candidate : ℕ × MinedLog} (h : NamesReceiver candidate) :
    callOf candidate = .ok (nextCall candidate) := by
  obtain ⟨word, hword⟩ := Option.ne_none_iff_exists'.mp h
  simp only [callOf, bind_eq_ok, pure_eq_ok, topicAt, okOr_eq_ok]
  refine ⟨word, hword, ?_⟩
  rw [nextCall, hword, Option.getD_some]

/-- The first word of data that is not empty. -/
theorem dataWord_zero {data : Bytes} (h : data ≠ []) :
    dataWord data 0 = .ok (beNat ((data.drop (32 * 0)).take 32)) := by
  have hword : (data.drop (32 * 0)).take 32 ≠ [] := by
    rw [Nat.mul_zero, List.drop_zero]
    intro hnone
    rcases List.take_eq_nil_iff.mp hnone with hzero | hempty
    · cases hzero
    · exact h hempty
  simp only [dataWord, bind_eq_ok, pure_eq_ok, ensure_eq_ok, exists_const, and_true]
  exact hword

/-- A node that answers has candidates, and each names its receiver. -/
theorem candidates_eq (hanswers : AnswersOutflows rpc) (call : Call) :
    ∃ found, candidates rpc call = .ok found ∧ ∀ candidate ∈ found, NamesReceiver candidate := by
  obtain ⟨logs, hlogs, hshaped⟩ :=
    getLogs_answered hanswers call.current call.afterBlock
      (min (call.afterBlock + 500000) periodEnd)
  have hread : ∀ out ∈ logs, ∃ amount : ℕ × MinedLog,
      (do let amount ← dataWord out.log.data 0; return (amount, out) : Except Stop _) = .ok amount ∧
        amount.2 = out := by
    intro out hout
    refine ⟨(beNat ((out.log.data.drop (32 * 0)).take 32), out), ?_, rfl⟩
    simp only [bind_eq_ok, pure_eq_ok]
    exact ⟨_, dataWord_zero (hshaped out hout).1, rfl⟩
  obtain ⟨amounts, hamounts⟩ : ∃ amounts, logs.mapM (fun out => do
      let amount ← dataWord out.log.data 0
      return (amount, out) : MinedLog → Except Stop (ℕ × MinedLog)) = .ok amounts := by
    apply exists_mapM_eq_ok.mpr
    intro out hout
    obtain ⟨amount, hamount, _⟩ := hread out hout
    exact ⟨amount, hamount⟩
  refine ⟨amounts.filter fun candidate => retained call.prevAmount candidate.1, ?_, ?_⟩
  · simp only [candidates, bind_eq_ok, pure_eq_ok]
    exact ⟨logs, hlogs, amounts, hamounts, rfl⟩
  · intro candidate hcandidate
    obtain ⟨out, hout, hsame⟩ :=
      forall₂_exists_left (mapM_eq_ok.mp hamounts) (List.mem_filter.mp hcandidate).1
    obtain ⟨amount, hamount, hlog⟩ := hread out hout
    obtain rfl := Except.ok.inj (hsame.symm.trans hamount)
    rw [NamesReceiver, hlog]
    exact (hshaped out hout).2

/-- Candidates with receivers have a direct hop or none. -/
theorem directHop_eq {found : List (ℕ × MinedLog)}
    (h : ∀ candidate ∈ found, NamesReceiver candidate) :
    ∃ hop, directHop target found = .ok hop := by
  induction found with
  | nil => exact ⟨none, rfl⟩
  | cons candidate rest ih =>
    obtain ⟨hcandidate, hrest⟩ := List.forall_mem_cons.mp h
    obtain ⟨word, hword⟩ := Option.ne_none_iff_exists'.mp hcandidate
    obtain ⟨hop, hhop⟩ := ih hrest
    by_cases htarget : topicAddress word = target
    · refine ⟨some candidate.2.transactionHash, ?_⟩
      simp only [directHop, topicAt, hword, okOr, bind_eq_ok]
      refine ⟨word, rfl, ?_⟩
      rw [if_pos htarget]
      rfl
    · refine ⟨hop, ?_⟩
      simp only [directHop, topicAt, hword, okOr, bind_eq_ok]
      refine ⟨word, rfl, ?_⟩
      rw [if_neg htarget]
      exact hhop

end Answers

/-! ## The search -/

section Search

variable {rpc : BuilderRpc} {target : Address}

/-- What the candidates of a call lead to, once the direct hop was looked for. -/
def onwardOf (found : List (ℕ × MinedLog)) :
    Except Stop (Option B256) → DeadEnds.Onward Call B256
  | .ok (some tx) => .goal tx
  | _ => .next ((largest found).map fun candidate =>
      (candidate.2.transactionHash, nextCall candidate))

/-- What a call leads to, once its candidates were read. -/
def onwardFrom (target : Address) :
    Except Stop (List (ℕ × MinedLog)) → DeadEnds.Onward Call B256
  | .error _ => .next []
  | .ok found => onwardOf found (directHop target found)

/-- What a call leads to: the target, or the calls of the largest transfers. -/
def onward (rpc : BuilderRpc) (target : Address) (call : Call) : DeadEnds.Onward Call B256 :=
  onwardFrom target (candidates rpc call)

/-- Where a call goes on to. -/
theorem onward_eq {call : Call} {found : List (ℕ × MinedLog)} {hop : Option B256}
    (hfound : candidates rpc call = .ok found) (hhop : directHop target found = .ok hop) :
    onward rpc target call = onwardOf found (.ok hop) := by
  rw [onward, hfound, onwardFrom, hhop]

/-- Following candidates is trying children, from every memory that the tracing keeps. -/
theorem firstChain_eq {P : List DeadEnd → Prop}
    {trace : Call → List DeadEnd → Except Stop (Option (List B256) × List DeadEnd)}
    {go : Call → List DeadEnd → Option (List B256) × List DeadEnd}
    (htrace : ∀ call known, P known → trace call known = .ok (go call known) ∧ P (go call known).2)
    {found : List (ℕ × MinedLog)} (hfound : ∀ candidate ∈ found, NamesReceiver candidate)
    {known : List DeadEnd} (hknown : P known) :
    firstChain trace found known = .ok (DeadEnds.firstFound go
      (found.map fun candidate => (candidate.2.transactionHash, nextCall candidate)) known) := by
  induction found generalizing known with
  | nil => rfl
  | cons candidate rest ih =>
    obtain ⟨hcandidate, hrest⟩ := List.forall_mem_cons.mp hfound
    obtain ⟨hgo, hnext⟩ := htrace (nextCall candidate) known hknown
    rw [firstChain, List.map_cons, DeadEnds.firstFound, callOf_eq hcandidate]
    rcases hresult : go (nextCall candidate) known with ⟨result, known'⟩
    rw [hresult] at hgo hnext
    simp only [bind_eq_ok, Except.ok.injEq, exists_eq_left', hgo, Prod.exists]
    refine ⟨result, known', rfl, ?_⟩
    cases result with
    | some chain => rfl
    | none => exact ih hrest hnext

/-- The largest candidates are among the candidates. -/
theorem mem_largest {found : List (ℕ × MinedLog)} {candidate : ℕ × MinedLog}
    (h : candidate ∈ largest found) : candidate ∈ found :=
  mem_sortBy.mp (List.mem_of_mem_take h)

/-- With no hops left nothing is found among the children. -/
private theorem firstFound_none {go : Call → List DeadEnd → Option (List B256) × List DeadEnd}
    (hgo : ∀ call known, go call known = (none, known)) (children : List (B256 × Call))
    (known : List DeadEnd) : DeadEnds.firstFound go children known = (none, known) := by
  induction children with
  | nil => rfl
  | cons child rest ih =>
    rw [DeadEnds.firstFound, hgo]
    exact ih

/-- The tracer is a search that remembers dead ends. -/
theorem traceChain_eq_search (hanswers : AnswersOutflows rpc) (n : ℕ) (call : Call)
    (known : List DeadEnd) :
    traceChain rpc true target n call known =
      .ok (DeadEnds.search (onward rpc target) Call.key n call known) := by
  induction n generalizing call known with
  | zero => rfl
  | succ n ih =>
    rw [traceChain, DeadEnds.search]
    by_cases hknown : call.key (n + 1) ∈ known
    · rw [if_pos hknown, if_pos hknown]
    · rw [if_neg hknown, if_neg hknown]
      obtain ⟨found, hfound, hnames⟩ := candidates_eq hanswers call
      obtain ⟨hop, hhop⟩ := directHop_eq hnames
      rw [onward_eq hfound hhop, hfound]
      simp only [bind_eq_ok, Except.ok.injEq, exists_eq_left', hhop]
      cases hop with
      | some tx => rfl
      | none =>
        have hlargest : ∀ candidate ∈ largest found, NamesReceiver candidate :=
          fun candidate hcandidate => hnames candidate (mem_largest hcandidate)
        have htrace : followLargest (traceChain rpc true target n) (n + 1) found known =
            .ok (DeadEnds.firstFound (DeadEnds.search (onward rpc target) Call.key n)
              ((largest found).map fun candidate =>
                (candidate.2.transactionHash, nextCall candidate)) known) := by
          cases n with
          | zero =>
            rw [followLargest, if_neg (lt_irrefl 1), firstFound_none]
            intro call known
            rw [DeadEnds.search]
          | succ n =>
            rw [followLargest, if_pos (Nat.succ_lt_succ (Nat.succ_pos n))]
            exact @firstChain_eq (fun _ => True) _ _ (fun call known _ => ⟨ih call known, trivial⟩)
              _ hlargest known trivial
        rcases hfirst : DeadEnds.firstFound (DeadEnds.search (onward rpc target) Call.key n)
          ((largest found).map fun candidate =>
            (candidate.2.transactionHash, nextCall candidate)) known with ⟨result, known'⟩
        rw [hfirst] at htrace
        simp only [bind_eq_ok, htrace, Except.ok.injEq, exists_eq_left', onwardOf, hfirst]
        cases result with
        | some chain => rfl
        | none => rfl

/-- Without memory the tracer is the search without memory. -/
theorem traceChain_eq_plain (hanswers : AnswersOutflows rpc) (n : ℕ) (call : Call) :
    traceChain rpc false target n call [] =
      .ok (DeadEnds.plain (onward rpc target) n call, []) := by
  induction n generalizing call with
  | zero => rfl
  | succ n ih =>
    rw [traceChain, DeadEnds.plain, if_neg List.not_mem_nil]
    obtain ⟨found, hfound, hnames⟩ := candidates_eq hanswers call
    obtain ⟨hop, hhop⟩ := directHop_eq hnames
    rw [onward_eq hfound hhop, hfound]
    simp only [bind_eq_ok, Except.ok.injEq, exists_eq_left', hhop]
    cases hop with
    | some tx => rfl
    | none =>
      have hlargest : ∀ candidate ∈ largest found, NamesReceiver candidate :=
        fun candidate hcandidate => hnames candidate (mem_largest hcandidate)
      have hplain : ∀ children : List (B256 × Call), ∀ p : Call → Option (List B256),
          DeadEnds.firstFound (fun call known => (p call, known)) children ([] : List DeadEnd) =
            (children.findSome? fun entry => (p entry.2).map (entry.1 :: ·), []) := by
        intro children p
        induction children with
        | nil => rfl
        | cons child rest ihChildren =>
          rw [DeadEnds.firstFound, List.findSome?_cons]
          cases p child.2 with
          | some chain => rfl
          | none => exact ihChildren
      have htrace : followLargest (traceChain rpc false target n) (n + 1) found [] =
          .ok (((largest found).map fun candidate =>
              (candidate.2.transactionHash, nextCall candidate)).findSome? fun entry =>
            (DeadEnds.plain (onward rpc target) n entry.2).map (entry.1 :: ·), []) := by
        rw [← hplain]
        cases n with
        | zero =>
          rw [followLargest, if_neg (lt_irrefl 1), firstFound_none]
          intro call known
          rw [DeadEnds.plain]
        | succ n =>
          rw [followLargest, if_pos (Nat.succ_lt_succ (Nat.succ_pos n))]
          refine @firstChain_eq (· = []) _ _ ?_ _ hlargest [] rfl
          intro call known hknown
          subst hknown
          exact ⟨ih call, rfl⟩
      simp only [bind_eq_ok, htrace, Except.ok.injEq, exists_eq_left', onwardOf]
      generalize (((largest found).map fun candidate =>
          (candidate.2.transactionHash, nextCall candidate)).findSome? fun entry =>
        (DeadEnds.plain (onward rpc target) n entry.2).map (entry.1 :: ·)) = chain
      cases chain with
      | some chain => rfl
      | none => rfl

end Search

/-! ## First hops -/

section FirstHops

variable {rpc : BuilderRpc} {seller funder : Address} {maxHops maxPaths : ℕ}

/-- The tracer finds a chain for a call. -/
def Finds (rpc : BuilderRpc) (remembers : Bool) (target : Address) (n : ℕ) (call : Call)
    (known : List DeadEnd) : Prop :=
  ∃ chain known', traceChain rpc remembers target n call known = .ok (some chain, known')

/-- The calls that are skipped while a call is traced, each with the hops that were left. -/
def skippedCalls (rpc : BuilderRpc) (target : Address) (n : ℕ) (call : Call)
    (known : List DeadEnd) : List (ℕ × Call) :=
  DeadEnds.skipped (onward rpc target) Call.key n call known

/-- The tracer with memory finds what the search with dead ends finds. -/
theorem finds_memory (hanswers : AnswersOutflows rpc) {n : ℕ} {call : Call}
    {known : List DeadEnd} : Finds rpc true funder n call known ↔
      (DeadEnds.search (onward rpc funder) Call.key n call known).1 ≠ none := by
  rw [Finds, traceChain_eq_search hanswers, Option.ne_none_iff_exists']
  constructor
  · intro h
    obtain ⟨chain, known', h⟩ := h
    exact ⟨chain, congrArg Prod.fst (Except.ok.inj h)⟩
  · intro h
    obtain ⟨chain, h⟩ := h
    exact ⟨chain, _, congrArg Except.ok (Prod.ext h rfl)⟩

/-- The tracer without memory finds what the plain search finds. -/
theorem finds_plain (hanswers : AnswersOutflows rpc) {n : ℕ} {call : Call} :
    Finds rpc false funder n call [] ↔ DeadEnds.plain (onward rpc funder) n call ≠ none := by
  rw [Finds, traceChain_eq_plain hanswers, Option.ne_none_iff_exists']
  constructor
  · intro h
    obtain ⟨chain, known', h⟩ := h
    exact ⟨chain, congrArg Prod.fst (Except.ok.inj h)⟩
  · intro h
    obtain ⟨chain, h⟩ := h
    exact ⟨chain, _, congrArg Except.ok (Prod.ext h rfl)⟩

/-- Whatever is remembered, a chain that is found is one that can be found without memory, and
where none is found one was missed exactly if a skipped call leads to the target. -/
theorem traceChain_explains (hanswers : AnswersOutflows rpc) (n : ℕ) (call : Call)
    (known : List DeadEnd) :
    (Finds rpc true funder n call known ↔ Finds rpc false funder n call []) ↔
      (¬ Finds rpc true funder n call known →
        ∀ skip ∈ skippedCalls rpc funder n call known,
          ¬ Finds rpc false funder skip.1 skip.2 []) := by
  simp only [finds_memory hanswers, finds_plain hanswers]
  have hexplains :=
    @DeadEnds.search_explains _ _ _ (onward rpc funder) _ Call.key n call known
  constructor
  · intro hsame hnone skip hskip hfound
    exact hnone (hsame.mpr ((hexplains.missed (not_not.mp hnone)).mpr ⟨skip, hskip, hfound⟩))
  · intro hskips
    refine ⟨hexplains.sound, ?_⟩
    intro hplain hnone
    obtain ⟨skip, hskip, hfound⟩ := (hexplains.missed hnone).mp hplain
    exact hskips (not_not.mpr hnone) skip hskip hfound

/-- The builder traces a transfer of the seller, with what it remembers by then. -/
def TracedHop (rpc : BuilderRpc) (seller funder : Address) (maxHops maxPaths : ℕ) (call : Call)
    (exhausted : List DeadEnd) : Prop :=
  ∃ before out after search word,
    getLogs rpc (outflowFilter seller) periodStart periodEnd = .ok (before ++ out :: after) ∧
    traceOutflows rpc true funder maxHops maxPaths before ⟨[], [], []⟩ = .ok search ∧
    search.paths.length < maxPaths ∧ topicAt out.log 2 = .ok word ∧
    dataWord out.log.data 0 = .ok call.prevAmount ∧ minFirstHop ≤ call.prevAmount ∧
    topicAddress word ≠ funder ∧ out.transactionHash ∉ search.seenFirstHops ∧
    call.current = topicAddress word ∧ call.afterBlock = out.blockNumber.val ∧
    exhausted = search.exhausted

/-! ## The whole search -/

/-- The search goes on behind the transfers it went through. -/
theorem traceOutflows_append (remembers : Bool) (xs ys : List MinedLog) (search : ReturnSearch) :
    traceOutflows rpc remembers funder maxHops maxPaths (xs ++ ys) search =
      traceOutflows rpc remembers funder maxHops maxPaths xs search >>=
        traceOutflows rpc remembers funder maxHops maxPaths ys := by
  induction xs generalizing search with
  | nil => rfl
  | cons out rest ih =>
    rw [List.cons_append, traceOutflows, traceOutflows]
    by_cases henough : maxPaths ≤ search.paths.length
    · rw [if_pos henough, if_pos henough]
      cases ys with
      | nil => rfl
      | cons out ys =>
        change _ = traceOutflows rpc remembers funder maxHops maxPaths (out :: ys) search
        rw [traceOutflows, if_pos henough]
    · rw [if_neg henough, if_neg henough]
      cases htrace : traceOutflow rpc remembers funder maxHops search out with
      | error stop => rfl
      | ok next => exact ih next

/-- A search with memory and one without have gone the same way. -/
def SameSearch (search plain : ReturnSearch) : Prop :=
  search.paths = plain.paths ∧ search.seenFirstHops = plain.seenFirstHops ∧ plain.exhausted = []

/-- One transfer of the seller, where nothing that is skipped leads to the funder. -/
theorem traceOutflow_same (hanswers : AnswersOutflows rpc) {before after : List MinedLog}
    {out : MinedLog} {search plain : ReturnSearch}
    (hlogs : getLogs rpc (outflowFilter seller) periodStart periodEnd =
      .ok (before ++ out :: after))
    (hsearch : traceOutflows rpc true funder maxHops maxPaths before ⟨[], [], []⟩ = .ok search)
    (hmore : search.paths.length < maxPaths) (hout : IsOutflow out)
    (h : ∀ call exhausted, TracedHop rpc seller funder maxHops maxPaths call exhausted →
      ∀ skip ∈ skippedCalls rpc funder (maxHops - 1) call exhausted,
        ¬ Finds rpc false funder skip.1 skip.2 [])
    (hsame : SameSearch search plain) :
    ∃ next nextPlain, traceOutflow rpc true funder maxHops search out = .ok next ∧
      traceOutflow rpc false funder maxHops plain out = .ok nextPlain ∧
      SameSearch next nextPlain := by
  obtain ⟨hpaths, hseen, hnothing⟩ := hsame
  obtain ⟨word, hword⟩ := Option.ne_none_iff_exists'.mp hout.2
  have htopic : topicAt out.log 2 = .ok word := by
    rw [topicAt, hword]
    rfl
  obtain ⟨amount, hamount⟩ : ∃ amount, dataWord out.log.data 0 = .ok amount :=
    ⟨_, dataWord_zero hout.1⟩
  simp only [traceOutflow, bind_eq_ok, htopic, hamount, Except.ok.injEq, exists_eq_left']
  by_cases hsmall : amount < minFirstHop
  · exact ⟨search, plain, by rw [if_pos hsmall]; rfl, by rw [if_pos hsmall]; rfl, hpaths, hseen,
      hnothing⟩
  by_cases hdirect : topicAddress word = funder
  · refine ⟨{ search with paths := search.paths ++ [[out.transactionHash]] },
      { plain with paths := plain.paths ++ [[out.transactionHash]] }, ?_, ?_, ?_⟩
    · rw [if_neg hsmall, if_pos hdirect]
      rfl
    · rw [if_neg hsmall, if_pos hdirect]
      rfl
    · exact ⟨congrArg (· ++ [[out.transactionHash]]) hpaths, hseen, hnothing⟩
  by_cases hold : out.transactionHash ∈ search.seenFirstHops
  · refine ⟨search, plain, ?_, ?_, hpaths, hseen, hnothing⟩
    · rw [if_neg hsmall, if_neg hdirect, if_pos hold]
      rfl
    · rw [if_neg hsmall, if_neg hdirect, if_pos (hseen ▸ hold)]
      rfl
  have htraced : TracedHop rpc seller funder maxHops maxPaths
      ⟨topicAddress word, amount, out.blockNumber.val⟩ search.exhausted :=
    ⟨before, out, after, search, word, hlogs, hsearch, hmore, htopic, hamount, not_lt.mp hsmall,
      hdirect, hold, rfl, rfl, rfl⟩
  have hskips := h _ _ htraced
  simp only [finds_plain hanswers] at hskips
  have hchain := (@DeadEnds.search_explains _ _ _ (onward rpc funder) _ Call.key (maxHops - 1)
    ⟨topicAddress word, amount, out.blockNumber.val⟩ search.exhausted).same hskips
  rw [if_neg hsmall, if_neg hdirect, if_neg hold, if_neg hsmall, if_neg hdirect,
    if_neg (hseen ▸ hold), hnothing, traceChain_eq_search hanswers, traceChain_eq_plain hanswers,
    ← hchain]
  refine ⟨_, _, rfl, rfl, ?_, congrArg (out.transactionHash :: ·) hseen, rfl⟩
  dsimp only
  rw [hpaths]

/-- Where no call that is skipped leads to the funder, the same paths are found without memory. -/
theorem findReturns_same (hanswers : AnswersOutflows rpc)
    (h : ∀ call exhausted, TracedHop rpc seller funder maxHops maxPaths call exhausted →
      ∀ skip ∈ skippedCalls rpc funder (maxHops - 1) call exhausted,
        ¬ Finds rpc false funder skip.1 skip.2 []) :
    findReturns rpc true funder maxHops maxPaths seller =
      findReturns rpc false funder maxHops maxPaths seller := by
  obtain ⟨outflows, hlogs, hshaped⟩ := getLogs_answered hanswers seller periodStart periodEnd
  have hrest : ∀ rest before, outflows = before ++ rest → ∀ search plain : ReturnSearch,
      traceOutflows rpc true funder maxHops maxPaths before ⟨[], [], []⟩ = .ok search →
      SameSearch search plain → ∃ final finalPlain : ReturnSearch,
        traceOutflows rpc true funder maxHops maxPaths rest search = .ok final ∧
        traceOutflows rpc false funder maxHops maxPaths rest plain = .ok finalPlain ∧
        final.paths = finalPlain.paths := by
    intro rest
    induction rest with
    | nil =>
      intro before _ search plain _ hsame
      exact ⟨search, plain, rfl, rfl, hsame.1⟩
    | cons out rest ih =>
      intro before hsplit search plain hsearch hsame
      rw [traceOutflows, traceOutflows, ← hsame.1]
      by_cases henough : maxPaths ≤ search.paths.length
      · exact ⟨search, plain, if_pos henough, if_pos henough, hsame.1⟩
      · have hout : IsOutflow out := hshaped out (by
          rw [hsplit]
          exact List.mem_append_right _ List.mem_cons_self)
        obtain ⟨next, nextPlain, hnext, hnextPlain, hsameNext⟩ := traceOutflow_same hanswers
          (hsplit ▸ hlogs) hsearch (not_le.mp henough) hout h hsame
        have hbefore : traceOutflows rpc true funder maxHops maxPaths (before ++ [out])
            ⟨[], [], []⟩ = .ok next := by
          rw [traceOutflows_append, hsearch]
          change traceOutflows rpc true funder maxHops maxPaths [out] search = _
          rw [traceOutflows, if_neg henough, hnext]
          rfl
        rw [if_neg henough, if_neg henough, hnext, hnextPlain]
        apply ih (before ++ [out]) _ next nextPlain hbefore hsameNext
        rw [hsplit, List.append_assoc]
        rfl
  obtain ⟨final, finalPlain, hfinal, hfinalPlain, hpaths⟩ :=
    hrest outflows [] rfl ⟨[], [], []⟩ ⟨[], [], []⟩ rfl ⟨rfl, rfl, rfl⟩
  rw [findReturns, findReturns, hlogs]
  change (do
    let search ← traceOutflows rpc true funder maxHops maxPaths outflows ⟨[], [], []⟩
    return search.paths) = do
    let search ← traceOutflows rpc false funder maxHops maxPaths outflows ⟨[], [], []⟩
    return search.paths
  rw [hfinal, hfinalPlain]
  exact congrArg Except.ok hpaths

/-- For every first hop the memory changes nothing exactly if no search that ends without a chain
skipped a call that leads to the funder; and where no skipped call leads there, all paths are the
same. -/
theorem findReturns_memory (hanswers : AnswersOutflows rpc) :
    ((∀ call exhausted, TracedHop rpc seller funder maxHops maxPaths call exhausted →
      (Finds rpc true funder (maxHops - 1) call exhausted ↔
        Finds rpc false funder (maxHops - 1) call [])) ↔
      ∀ call exhausted, TracedHop rpc seller funder maxHops maxPaths call exhausted →
        ¬ Finds rpc true funder (maxHops - 1) call exhausted →
          ∀ skip ∈ skippedCalls rpc funder (maxHops - 1) call exhausted,
            ¬ Finds rpc false funder skip.1 skip.2 []) ∧
    ((∀ call exhausted, TracedHop rpc seller funder maxHops maxPaths call exhausted →
        ∀ skip ∈ skippedCalls rpc funder (maxHops - 1) call exhausted,
          ¬ Finds rpc false funder skip.1 skip.2 []) →
      findReturns rpc true funder maxHops maxPaths seller =
        findReturns rpc false funder maxHops maxPaths seller) := by
  refine ⟨?_, findReturns_same hanswers⟩
  constructor
  · intro h call exhausted htraced
    exact (traceChain_explains hanswers _ _ _).mp (h call exhausted htraced)
  · intro h call exhausted htraced
    exact (traceChain_explains hanswers _ _ _).mpr (h call exhausted htraced)

end FirstHops

/-! ## Two amounts for one intermediary -/

/-- Seller 1 pays intermediary 2 ten units and then one and a half; the intermediary passes one and
a half on to funder 3. -/
def intermediaryTransfers : List MinedLog := [
  ⟨transferLog 1 2 10000000, 44471600, 1, 0, 0⟩,
  ⟨transferLog 1 2 1500000, 44471601, 2, 0, 0⟩,
  ⟨transferLog 2 3 1500000, 44471602, 3, 0, 0⟩]

/-- A node that serves the transfers through an intermediary. -/
def intermediaryRpc : BuilderRpc where
  getLogs filter first last :=
    .ok (itemsBetween (fun found => found.blockNumber.val)
      (intermediaryTransfers.filter fun found => filter.selects found.log) first last)
  callBuyers _ := .ok []

/-- The node answers all outflows. -/
theorem intermediaryRpc_answers : AnswersOutflows intermediaryRpc := by
  have hshaped : ∀ out ∈ intermediaryTransfers, out.log.data ≠ [] ∧ out.log.topics[2]? ≠ none := by
    decide +kernel
  intro sender first last
  refine ⟨_, rfl, ?_⟩
  intro out hout
  exact hshaped out (List.mem_filter.mp (mem_itemsBetween.mp hout).1).1

/-- The first payment is followed in vain, and the second one is not followed any more. -/
theorem intermediary_hidden :
    findReturns intermediaryRpc true 3 4 50 1 = .ok [] ∧
    findReturns intermediaryRpc false 3 4 50 1 = .ok [[2, 3]] ∧
    ∃ call exhausted skip, TracedHop intermediaryRpc 1 3 4 50 call exhausted ∧
      skip ∈ skippedCalls intermediaryRpc 3 3 call exhausted ∧
      Finds intermediaryRpc false 3 skip.1 skip.2 [] := by
  have hmemory : findReturns intermediaryRpc true 3 4 50 1 = .ok [] := by
    decide +kernel
  have hplain : findReturns intermediaryRpc false 3 4 50 1 = .ok [[2, 3]] := by
    decide +kernel
  refine ⟨hmemory, hplain, ?_⟩
  by_contra hnone
  have hsame : findReturns intermediaryRpc true 3 4 50 1 =
      findReturns intermediaryRpc false 3 4 50 1 := by
    apply (findReturns_memory intermediaryRpc_answers).2
    intro call exhausted htraced skip hskip hfound
    exact hnone ⟨call, exhausted, skip, htraced, hskip, hfound⟩
  rw [hmemory, hplain] at hsame
  cases hsame

end LoopProof.Case
