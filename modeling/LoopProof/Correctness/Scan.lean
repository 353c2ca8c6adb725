import LoopProof.Case.Scan
import LoopProof.Lib.RangeScan

/-!
# A scan reads its range once

Whatever the node answers, a scan ends. When it returns, the windows it read follow one another
from the first block to the last; it raises on an error that no narrower window is tried for.
-/

namespace LoopProof.Case

variable {node : ℕ → LogFilter → ℕ → ℕ → Except RpcError (List MinedLog)} {filter : LogFilter}
  {chunk maxChunk toBlock : ℕ}

theorem mem_readWindows {calls : List ScanCall} {read : (ℕ × ℕ) × List MinedLog} :
    read ∈ readWindows calls ↔
      ∃ call logs, call ∈ calls ∧ call.answer = .ok logs ∧
        ((call.first, call.last), logs) = read := by
  rw [readWindows, List.mem_filterMap]
  constructor
  · intro h
    obtain ⟨call, hmem, hread⟩ := h
    cases hanswer : call.answer with
    | error error =>
      rw [hanswer] at hread
      cases hread
    | ok logs =>
      rw [hanswer] at hread
      exact ⟨call, logs, hmem, hanswer, Option.some.inj hread⟩
  · intro h
    obtain ⟨call, logs, hmem, hanswer, hread⟩ := h
    exact ⟨call, hmem, by rw [hanswer, ← hread]⟩

/-- An error that ends the scan it is met in. -/
def ScanCall.Fatal (chunk : ℕ) (call : ScanCall) : Prop :=
  ∃ error, call.answer = .error error ∧ (isResponseTooLarge error = false ∨ call.span = chunk)

/-- What the rest of a scan does from a block on, in a span between the bounds. -/
structure ScanSpec (node : ℕ → LogFilter → ℕ → ℕ → Except RpcError (List MinedLog))
    (filter : LogFilter) (chunk toBlock n b : ℕ) (scanned : Scanned) : Prop where
  ends : scanned.outcome ≠ none
  answers : ∀ (k : ℕ) call, scanned.calls[k]? = some call →
    call.answer = node (n + k) filter call.first call.last
  tiles : ∀ logs, scanned.outcome = some (.ok logs) →
    Tiles toBlock b ((readWindows scanned.calls).map Prod.fst) ∧
      logs = (readWindows scanned.calls).flatMap Prod.snd
  raises : (∃ error, scanned.outcome = some (.error error)) ↔
    ∃ call ∈ scanned.calls, call.Fatal chunk

/-- A narrower window is tried for the same block. -/
private theorem ScanSpec.narrower {n b : ℕ} {call : ScanCall} {error : RpcError} {rest : Scanned}
    (hcall : call.answer = node n filter call.first call.last)
    (herror : call.answer = .error error) (hnot : ¬ call.Fatal chunk)
    (h : ScanSpec node filter chunk toBlock (n + 1) b rest) :
    ScanSpec node filter chunk toBlock n b ⟨call :: rest.calls, rest.outcome⟩ := by
  have hread : readWindows (call :: rest.calls) = readWindows rest.calls := by
    rw [readWindows, readWindows, List.filterMap_cons_none]
    rw [herror]
  constructor
  · exact h.ends
  · intro k other hk
    cases k with
    | zero =>
      obtain rfl : call = other := by simpa using hk
      exact hcall
    | succ k =>
      rw [show n + (k + 1) = n + 1 + k by omega]
      exact h.answers k other (by simpa using hk)
  · rw [hread]
    exact h.tiles
  · rw [List.exists_mem_cons_iff, or_iff_right hnot]
    exact h.raises

/-- A window is read and the scan goes on behind it. -/
private theorem ScanSpec.wider {n b : ℕ} {call : ScanCall} {logs : List MinedLog} {rest : Scanned}
    (hcall : call.answer = node n filter call.first call.last)
    (hlogs : call.answer = .ok logs) (hfirst : call.first = b) (hle : b ≤ call.last)
    (hlast : call.last ≤ toBlock)
    (h : ScanSpec node filter chunk toBlock (n + 1) (call.last + 1) rest) :
    ScanSpec node filter chunk toBlock n b
      ⟨call :: rest.calls, rest.outcome.map fun result => result.map (logs ++ ·)⟩ := by
  have hread : readWindows (call :: rest.calls) =
      ((call.first, call.last), logs) :: readWindows rest.calls := by
    rw [readWindows, readWindows, List.filterMap_cons_some]
    rw [hlogs]
  have hnot : ¬ call.Fatal chunk := by
    intro hfatal
    obtain ⟨error, herror, _⟩ := hfatal
    rw [hlogs] at herror
    cases herror
  constructor
  · intro hnone
    exact h.ends (Option.map_eq_none_iff.mp hnone)
  · intro k other hk
    cases k with
    | zero =>
      obtain rfl : call = other := by simpa using hk
      exact hcall
    | succ k =>
      rw [show n + (k + 1) = n + 1 + k by omega]
      exact h.answers k other (by simpa using hk)
  · intro all hall
    obtain ⟨result, hresult, hmap⟩ := Option.map_eq_some_iff.mp hall
    cases result with
    | error error => cases hmap
    | ok others =>
      obtain ⟨htiles, hothers⟩ := h.tiles others hresult
      have hsame : logs ++ others = all := Except.ok.inj hmap
      rw [hread, List.map_cons, List.flatMap_cons, ← hothers]
      exact ⟨⟨hfirst, hle, hlast, htiles⟩, hsame.symm⟩
  · rw [List.exists_mem_cons_iff, or_iff_right hnot, ← h.raises]
    constructor
    · intro hraised
      obtain ⟨error, herror⟩ := hraised
      obtain ⟨result, hresult, hmap⟩ := Option.map_eq_some_iff.mp herror
      cases result with
      | error other => exact ⟨other, hresult⟩
      | ok others => cases hmap
    · intro hraised
      obtain ⟨error, herror⟩ := hraised
      exact ⟨error, by rw [herror]; rfl⟩

/-- The loop from any block on, in any span between the bounds, with the fuel its measure asks
for. -/
theorem scanLogs_spec (hpos : 0 < chunk) (hle : chunk ≤ maxChunk) :
    ∀ fuel n b span, chunk ≤ span → span ≤ maxChunk → scanMeasure maxChunk toBlock b span < fuel →
      ScanSpec node filter chunk toBlock n b
        (scanLogs node filter chunk maxChunk toBlock fuel n b span) := by
  intro fuel
  induction fuel with
  | zero =>
    intro n b span _ _ hfuel
    exact absurd hfuel (Nat.not_lt_zero _)
  | succ fuel ih =>
    intro n b span hchunk hspan hfuel
    rw [scanLogs]
    by_cases hdone : toBlock < b
    · rw [if_pos hdone]
      constructor
      · intro hnone
        cases hnone
      · intro k call hk
        cases hk
      · intro logs hlogs
        obtain rfl : [] = logs := Except.ok.inj (Option.some.inj hlogs)
        exact ⟨hdone, rfl⟩
      · constructor
        · intro hraised
          obtain ⟨error, herror⟩ := hraised
          cases Option.some.inj herror
        · intro hfatal
          obtain ⟨call, hmem, _⟩ := hfatal
          cases hmem
    · rw [if_neg hdone]
      dsimp only
      -- the range that is left shrinks with every read, the span with every failure
      have hmeasure : ∀ b' span', b < b' → span' ≤ maxChunk →
          scanMeasure maxChunk toBlock b' span' < fuel := by
        intro b' span' hb hspan'
        have hrange : toBlock + 1 - b' + 1 ≤ toBlock + 1 - b := by omega
        have hmul := Nat.mul_le_mul_right (maxChunk + 1) hrange
        rw [Nat.add_mul, Nat.one_mul] at hmul
        rw [scanMeasure] at hfuel ⊢
        omega
      cases hanswer : node n filter b (min (b + span - 1) toBlock) with
      | error error =>
        dsimp only
        by_cases hretry : chunk < span ∧ isResponseTooLarge error = true
        · rw [if_pos hretry]
          apply ScanSpec.narrower hanswer.symm rfl
          · intro hfatal
            obtain ⟨other, hother, hcause⟩ := hfatal
            obtain rfl : error = other := Except.error.inj hother
            rcases hcause with hcause | hcause
            · rw [hretry.2] at hcause
              cases hcause
            · exact hretry.1.ne' hcause
          · apply ih
            · exact le_max_left _ _
            · exact max_le hle ((Nat.div_le_self span 4).trans hspan)
            · rw [scanMeasure] at hfuel ⊢
              have hless : max chunk (span / 4) < span :=
                max_lt hretry.1 (Nat.div_lt_self (hpos.trans hretry.1) (by decide))
              omega
        · rw [if_neg hretry]
          have hfatal : ScanCall.Fatal chunk
              ⟨b, min (b + span - 1) toBlock, span, .error error⟩ := by
            refine ⟨error, rfl, ?_⟩
            by_cases htoo : isResponseTooLarge error = true
            · right
              have hnot : ¬ chunk < span := fun hless => hretry ⟨hless, htoo⟩
              exact Nat.le_antisymm (Nat.le_of_not_lt hnot) hchunk
            · left
              exact Bool.eq_false_iff.mpr htoo
          constructor
          · intro hnone
            cases hnone
          · intro k call hk
            cases k with
            | zero =>
              obtain rfl := Option.some.inj hk
              exact hanswer.symm
            | succ k => cases hk
          · intro logs hlogs
            cases Option.some.inj hlogs
          · constructor
            · intro _
              exact ⟨_, List.mem_singleton_self _, hfatal⟩
            · intro _
              exact ⟨error, rfl⟩
      | ok logs =>
        dsimp only
        have hahead : b < min (b + span - 1) toBlock + 1 := by omega
        let call : ScanCall := ⟨b, min (b + span - 1) toBlock, span, .ok logs⟩
        have hcall : call.answer = node n filter call.first call.last := hanswer.symm
        apply ScanSpec.wider hcall rfl rfl (Nat.le_of_lt_succ hahead) (min_le_right _ _)
        apply ih
        · by_cases hwiden : span < maxChunk
          · rw [if_pos hwiden]
            exact le_min hle (hchunk.trans (Nat.le_mul_of_pos_right span (by decide)))
          · rw [if_neg hwiden]
            exact hchunk
        · by_cases hwiden : span < maxChunk
          · rw [if_pos hwiden]
            exact min_le_left _ _
          · rw [if_neg hwiden]
            exact hspan
        · apply hmeasure _ _ hahead
          by_cases hwiden : span < maxChunk
          · rw [if_pos hwiden]
            exact min_le_left _ _
          · rw [if_neg hwiden]
            exact hspan

theorem scanRange_spec (hpos : 0 < chunk) (hle : chunk ≤ maxChunk) (fromBlock : ℕ) :
    ScanSpec node filter chunk toBlock 0 fromBlock
      (scanRange node filter chunk maxChunk toBlock fromBlock) :=
  scanLogs_spec hpos hle _ _ _ _ hle le_rfl (Nat.lt_succ_self _)

/-- Where every answer is the part of an ordered list that its window holds, so is the result. -/
theorem ScanSpec.result {b : ℕ} {scanned : Scanned} {n : ℕ}
    (h : ScanSpec node filter chunk toBlock n b scanned) {items logs : List MinedLog}
    (hsorted : items.Pairwise fun a b => a.blockNumber.val ≤ b.blockNumber.val)
    (hpart : ∀ read ∈ readWindows scanned.calls,
      read.2 = itemsBetween (fun log => log.blockNumber.val) items read.1.1 read.1.2)
    (hresult : scanned.outcome = some (.ok logs)) :
    logs = itemsBetween (fun log => log.blockNumber.val) items b toBlock := by
  obtain ⟨htiles, rfl⟩ := h.tiles logs hresult
  rw [← htiles.flatMap_itemsBetween hsorted, List.flatMap_map]
  exact List.flatMap_congr hpart

/-- A scan with positive bounds ends on every sequence of answers. If it returns, the windows of
the calls that succeeded follow one another and make up the range, and the result is what they
hold, in order; it raises exactly if a call fails with another error or at the narrowest span. -/
theorem scanRange_exact (hpos : 0 < chunk) (hle : chunk ≤ maxChunk)
    (node : ℕ → LogFilter → ℕ → ℕ → Except RpcError (List MinedLog)) (filter : LogFilter)
    (fromBlock toBlock : ℕ) :
    let scanned := scanRange node filter chunk maxChunk toBlock fromBlock
    let windows := (readWindows scanned.calls).map Prod.fst
    scanned.outcome ≠ none ∧
      (∀ (n : ℕ) call, scanned.calls[n]? = some call →
        call.answer = node n filter call.first call.last) ∧
      (∀ logs, scanned.outcome = some (.ok logs) →
        Tiles toBlock fromBlock windows ∧
        (windows.Pairwise fun window later => window.2 < later.1) ∧
        (∀ block, (∃ window ∈ windows, window.1 ≤ block ∧ block ≤ window.2) ↔
          fromBlock ≤ block ∧ block ≤ toBlock) ∧
        logs = (readWindows scanned.calls).flatMap Prod.snd ∧
        ∀ items : List MinedLog,
          (items.Pairwise fun a b => a.blockNumber.val ≤ b.blockNumber.val) →
          (∀ read ∈ readWindows scanned.calls,
            read.2 = itemsBetween (fun log => log.blockNumber.val) items read.1.1 read.1.2) →
          logs = itemsBetween (fun log => log.blockNumber.val) items fromBlock toBlock) ∧
      ((∃ error, scanned.outcome = some (.error error)) ↔
        ∃ call ∈ scanned.calls, ∃ error, call.answer = .error error ∧
          (isResponseTooLarge error = false ∨ call.span = chunk)) := by
  intro scanned windows
  have hspec : ScanSpec node filter chunk toBlock 0 fromBlock scanned :=
    scanRange_spec hpos hle fromBlock
  refine ⟨hspec.ends, ?_, ?_, hspec.raises⟩
  · intro n call hcall
    rw [hspec.answers n call hcall, Nat.zero_add]
  · intro logs hlogs
    obtain ⟨htiles, hflat⟩ := hspec.tiles logs hlogs
    exact ⟨htiles, htiles.disjoint, htiles.mem_iff, hflat,
      fun items hsorted hpart => hspec.result hsorted hpart hlogs⟩

/-- A node that keeps up with every window but the first. -/
def slowStart : ℕ → LogFilter → ℕ → ℕ → Except RpcError (List MinedLog)
  | 0, _, _, _ => .error ⟨"response size exceeded"⟩
  | _ + 1, _, _, _ => .ok []

/-- A scan whose first call is refused still reads all blocks. -/
theorem scanRange_slowStart :
    let scanned := scanRange slowStart ⟨0, []⟩ 1 4 25 10
    scanned.outcome = some (.ok []) ∧
      Tiles 25 10 ((readWindows scanned.calls).map Prod.fst) := by
  have hexact := @scanRange_exact 1 4 (by decide) (by decide) slowStart
    ⟨0, []⟩ 10 25
  have hresult : (scanRange slowStart ⟨0, []⟩ 1 4 25 10).outcome = some (.ok []) := by
    decide +kernel
  exact ⟨hresult, (hexact.2.2.1 [] hresult).1⟩

end LoopProof.Case
