import Munch.Proofs.Run

/-!
# Asking again and again

A run reads what is left at once. Here a scanner is asked for the next token again and again
instead, and `answer?` tells what it answers each time. Nothing comes behind an end or a failure, so
the answers are the results of the run, one after the other, and no more.
-/

namespace Munch

/-- What a run yields, in order: its tokens, and then its failure, if there is one. -/
def Run.results (r : Run) : List (Except Diagnostic Token) :=
  r.tokens.map .ok ++ r.failure?.toList.map .error

/-- The tokens are the first results of a run, in their order. -/
theorem Run.getElem?_results_eq_ok_iff {r : Run} {n : Nat} {tok : Token} :
    r.results[n]? = some (.ok tok) ↔ r.tokens[n]? = some tok := by
  rcases Nat.lt_or_ge n r.tokens.length with hlt | hge
  · rw [results, List.getElem?_append_left (by simpa using hlt), List.getElem?_map]
    simp
  -- behind the tokens there is a failure at most
  · rw [results, List.getElem?_append_right (by simpa using hge), List.getElem?_map,
      List.getElem?_eq_none hge]
    simp

namespace Scanner

variable {s s' : Scanner} {t : Table} {source done : List Char} {tok : Token} {d : Diagnostic}

/-- The answer of a scanner that is asked for the next token for the `n`-th time, counted from
zero. -/
def answer? (s : Scanner) : Nat → Option (Except Diagnostic Token)
  | 0 => s.next.1
  | n + 1 => s.next.2.answer? n

/-- The first answers of a scanner are these tokens. -/
def Yields (s : Scanner) (toks : List Token) : Prop :=
  ∀ n tok, toks[n]? = some tok → s.answer? n = some (.ok tok)

/-! ## Nothing behind the end -/

/-- There is no gap at the end and none where a token can begin. -/
theorem skipGap_of_atToken (h : s.rest = [] ∨ AtToken s.rest) : s.skipGap = s := by
  have hgap : s.rest.takeWhile isGap = [] := takeWhile_gap_append gap_nil h
  unfold skipGap
  split
  · rfl
  · simp [hgap, advance, Cursor.crossAll]

/-- Behind a gap there is no other gap. -/
theorem skipGap_skipGap (s : Scanner) : s.skipGap.skipGap = s.skipGap := by
  cases hhalt : s.halt? with
  | some d => rw [skipGap_of_halted hhalt, skipGap_of_halted hhalt]
  | none =>
      obtain ⟨gap, rest, -, hrest, hat, hskip⟩ := skipGap_cases hhalt
      refine skipGap_of_atToken ?_
      rwa [hskip, rest_advance hrest]

/-- Whoever is told that there is no token left is told so again. -/
theorem next_of_next_eq_none (h : s.next = (none, s')) : s'.next = (none, s') := by
  obtain ⟨hready, rfl⟩ := next_eq_none_iff.mp h
  exact next_eq_none_iff.mpr ⟨by rw [skipGap_skipGap, hready], skipGap_skipGap s⟩

/-- A scanner that gave out a token is not halted. -/
theorem halt?_of_token_eq_ok (h : s.token = (.ok tok, s')) : s'.halt? = none := by
  cases hhalt : s.halt? with
  | some d => simp [token_of_halted hhalt] at h
  | none =>
      obtain ⟨value, state, -, -, hok⟩ | ⟨stuck, -, -, herror⟩ := token_cases hhalt
      · obtain rfl : s.advance value.length = s' := congrArg Prod.snd (hok.symm.trans h)
        exact hhalt
      · simp [herror] at h

/-- A scan that fails is halted by its failure. -/
theorem halt?_of_token_eq_error (h : s.token = (.error d, s')) : s'.halt? = some d := by
  cases hhalt : s.halt? with
  | some d' =>
      rw [token_of_halted hhalt, Prod.mk.injEq, Except.error.injEq] at h
      rw [← h.2, hhalt, h.1]
  | none =>
      obtain ⟨value, state, -, -, hok⟩ | ⟨stuck, -, -, herror⟩ := token_cases hhalt
      · simp [hok] at h
      · rw [herror, Prod.mk.injEq, Except.error.injEq] at h
        rw [← h.2, ← h.1]
        rfl

/-- A scan that has failed has no token left. -/
theorem next_of_next_eq_error (h : s.next = (some (.error d), s')) : s'.next = (none, s') := by
  have hhalt := halt?_of_token_eq_error (next_eq_some_iff.mp h).2
  refine next_eq_none_iff.mpr ⟨?_, skipGap_of_halted hhalt⟩
  simp [skipGap_of_halted hhalt, isReady, isHalted, hhalt]

/-- At the end the iteration has no more answers, however often it is asked. -/
theorem answer?_of_next_eq_none (h : s.next = (none, s)) (n : Nat) : s.answer? n = none := by
  induction n with
  | zero => rw [answer?, h]
  | succ n ih => rwa [answer?, h]

/-! ## The answers -/

/-- The answers of a scanner are the results of its run. -/
theorem answer?_eq_getElem?_results (s : Scanner) (n : Nat) : s.answer? n = s.run.results[n]? := by
  revert n
  refine run_induction (P := fun s run => ∀ n, s.answer? n = run.results[n]?)
    ?ended ?failed ?read s
  case ended =>
    intro s s' hnext n
    cases n with
    | zero => simp [answer?, hnext, Run.results]
    | succ n => simp [answer?, hnext, answer?_of_next_eq_none (next_of_next_eq_none hnext),
        Run.results]
  case failed =>
    intro s d s' hnext n
    cases n with
    | zero => simp [answer?, hnext, Run.results]
    | succ n => simp [answer?, hnext, answer?_of_next_eq_none (next_of_next_eq_error hnext),
        Run.results]
  case read =>
    intro s tok s' hnext ih n
    cases n with
    | zero => simp [answer?, hnext, Run.results]
    | succ n => simp [answer?, hnext, ih, Run.results]

/-- The first answers are the first tokens of the run. -/
theorem yields_iff {toks : List Token} : s.Yields toks ↔ toks <+: s.run.tokens := by
  simp only [Yields, answer?_eq_getElem?_results, Run.getElem?_results_eq_ok_iff,
    List.prefix_iff_getElem?]
  constructor
  · intro h n hn
    exact h n _ (List.getElem?_eq_getElem hn)
  · intro h n tok htok
    obtain ⟨hn, rfl⟩ := List.getElem?_eq_some_iff.mp htok
    exact h n hn

/-! ## The scanner behind a run -/

/-- A scan ends at the end of its text. -/
theorem end_of_next_eq_none (hlive : s.halt? = none) (h : s.next = (none, s')) :
    s'.halt? = none ∧ s'.rest = [] := by
  obtain ⟨hready, rfl⟩ := next_eq_none_iff.mp h
  obtain ⟨gap, rest, -, -, -, hskip⟩ := skipGap_cases hlive
  have hlive' : s.skipGap.halt? = none := by
    rw [hskip]
    exact hlive
  exact ⟨hlive', by simpa [isReady, isHalted, atEnd, hlive'] using hready⟩

/-- A run halts the scan by its failure, or not at all; then it has read the whole text. -/
theorem final_cases (hlive : s.halt? = none) :
    s.run.final.halt? = s.run.failure? ∧ (s.run.failure? = none → s.run.final.rest = []) := by
  revert hlive
  refine run_induction (P := fun s run => s.halt? = none →
    run.final.halt? = run.failure? ∧ (run.failure? = none → run.final.rest = []))
    ?ended ?failed ?read s
  case ended =>
    intro s s' hnext hlive
    obtain ⟨hhalt, hrest⟩ := end_of_next_eq_none hlive hnext
    exact ⟨hhalt, fun _ => hrest⟩
  case failed =>
    intro s d s' hnext _
    exact ⟨halt?_of_token_eq_error (next_eq_some_iff.mp hnext).2, by simp⟩
  case read =>
    intro s tok s' hnext ih _
    exact ih (halt?_of_token_eq_ok (next_eq_some_iff.mp hnext).2)

/-- A run ends behind where it begins. -/
theorem Behind.final (h : s.Behind t source done) :
    ∃ more, s.run.final.Behind t source (done ++ more) := by
  revert h
  refine run_induction (P := fun s run => ∀ {done}, s.Behind t source done →
    ∃ more, run.final.Behind t source (done ++ more)) ?ended ?failed ?read s
  case ended =>
    intro s s' hnext done h
    simpa [hnext] using h.next
  case failed =>
    intro s d s' hnext done h
    simpa [hnext] using h.next
  case read =>
    intro s tok s' hnext ih done h
    obtain ⟨value, hvalue⟩ := h.next
    rw [hnext] at hvalue
    obtain ⟨more, hmore⟩ := ih hvalue
    exact ⟨value ++ more, by rwa [← List.append_assoc]⟩

/-- Behind a source that is read to its end all of its newlines are counted. -/
theorem line_final_of_none {source : String} (h : (start t source).run.failure? = none) :
    (start t source).run.final.line = 1 + source.toList.count '\n' := by
  obtain ⟨done, hdone⟩ := (behind_start t source).final
  obtain ⟨-, hrest⟩ := final_cases (s := start t source) rfl
  have hwhole : done = source.toList := by
    have happend := hdone.append_rest
    rwa [hrest h, List.nil_append, List.append_nil] at happend
  have hline : (start t source).run.final.line = (Location.behind done).line :=
    congrArg Location.line hdone.location_eq_behind
  rw [hline, hwhole]
  show 1 + (source.toList.take source.toList.length).count '\n' = _
  rw [List.take_length]

/-- A scanner that failed stands where its failure is located. -/
theorem line_final_of_some {source : String} (h : (start t source).run.failure? = some d) :
    (start t source).run.final.line = d.location.line := by
  obtain ⟨done, hdone⟩ := (behind_start t source).final
  obtain ⟨hhalt, -⟩ := final_cases (s := start t source) rfl
  rw [h] at hhalt
  rw [hdone.halt_eq d hhalt]
  rfl

end Scanner

end Munch
