import Munch.Proofs.Halting
import Munch.Proofs.Printing

/-!
# Every scan ends

A token takes characters from the front of what is left, and nothing puts characters back, although
walks run ahead of the token that they find. So a scanner has at most as many tokens left as there
are characters left, and behind them it is not ready any more, whatever is asked of it. The loops
over the tokens are given a number of rounds here, and one round more than there are characters left
is enough for them.
-/

namespace Munch

variable {s s' : Scanner} {tok : Token}

/-! ## What results tell of the end of a run -/

/-- Behind its tokens a run has its failure, if it has one. -/
theorem Run.getElem?_results_length (r : Run) :
    r.results[r.tokens.length]? = r.failure?.map .error := by
  rw [results, List.getElem?_append_right (by simp), List.length_map, Nat.sub_self]
  cases r.failure? <;> rfl

/-- A run fails once at most. -/
theorem Run.length_results_le (r : Run) : r.results.length ≤ r.tokens.length + 1 := by
  rw [results, List.length_append, List.length_map]
  cases r.failure? <;> simp

namespace Scanner

variable {t : Table} {source done : List Char}

/-! ## Forward only -/

/-- What is behind a scanner and what is left make up its source. -/
theorem Behind.index_add_length_rest (h : s.Behind t source done) :
    s.cursor.index + s.rest.length = source.length := by
  rw [h.index_eq, ← h.append_rest, List.length_append]

/-- A token moves the cursor on. -/
theorem Behind.index_lt_token (h : s.Behind t source done) (htok : s.token.1 = .ok tok) :
    s.cursor.index < s.token.2.cursor.index := by
  have hlt := length_rest_token_lt htok
  obtain ⟨more, hmore⟩ := h.token
  have hlength := h.index_add_length_rest
  have hlength' := hmore.index_add_length_rest
  omega

/-- No operation moves the cursor back. -/
theorem Behind.index_le_perform (h : s.Behind t source done) (o : Operation) :
    s.cursor.index ≤ (s.perform o).2.cursor.index := by
  obtain ⟨more, hmore⟩ := h.perform o
  rw [h.index_eq, hmore.index_eq, List.length_append]
  exact Nat.le_add_right _ _

/-! ## Nothing is left -/

/-- A scanner that is not halted has come to the end if it is not ready. -/
theorem rest_eq_nil_of_not_ready (h : s.isReady = false) (hhalt : s.halt? = none) :
    s.rest = [] := by
  simpa [isReady, isHalted, atEnd, hhalt] using h

/-- Nothing is left to skip where nothing is left, and a halted scanner skips nothing. -/
theorem skipGap_of_not_ready (h : s.isReady = false) : s.skipGap = s := by
  cases hhalt : s.halt? with
  | some d => exact skipGap_of_halted hhalt
  | none => exact skipGap_of_atToken (Or.inl (rest_eq_nil_of_not_ready h hhalt))

/-- A scanner that is not ready ends the iteration and stays as it is. -/
theorem next_of_not_ready (h : s.isReady = false) : s.next = (none, s) := by
  have hskip := skipGap_of_not_ready h
  exact next_eq_none_iff.mpr ⟨by rw [hskip, h], hskip⟩

/-- Asking for a token halts a scanner that has none left. -/
theorem isReady_token (h : s.isReady = false) : s.token.2.isReady = false := by
  cases hhalt : s.halt? with
  | some d => rwa [token_of_halted hhalt]
  | none =>
      have hrest := rest_eq_nil_of_not_ready h hhalt
      obtain ⟨value, state, hlongest, -, -⟩ | ⟨stuck, -, -, herror⟩ := token_cases hhalt
      · exact absurd (List.prefix_nil.mp (hrest ▸ hlongest.begins)) hlongest.ne_nil
      · rw [herror]
        exact isReady_of_halted rfl

/-- A scanner that is not ready does not become ready again. -/
theorem isReady_perform (h : s.isReady = false) (o : Operation) :
    (s.perform o).2.isReady = false := by
  cases o with
  | skip => exact (congrArg isReady (skipGap_of_not_ready h)).trans h
  | token => exact isReady_token h
  | next => exact (congrArg (·.2.isReady) (next_of_not_ready h)).trans h
  | peek => exact h

/-- Once a scanner is not ready, it never is again. -/
theorem isReady_after (h : s.isReady = false) (os : List Operation) :
    (s.after os).isReady = false := by
  induction os generalizing s with
  | nil => exact h
  | cons o os ih => exact ih (isReady_perform h o)

/-! ## How many answers there are -/

/-- A run has at most as many tokens as characters. -/
theorem length_tokens_run_le (s : Scanner) : s.run.tokens.length ≤ s.rest.length := by
  refine run_induction (P := fun s run => run.tokens.length ≤ s.rest.length) ?ended ?failed ?read s
  case ended => exact fun s s' _ => Nat.zero_le _
  case failed => exact fun s d s' _ => Nat.zero_le _
  case read =>
    intro s tok s' hnext ih
    exact Nat.lt_of_le_of_lt ih (length_rest_next_lt hnext)

/-- A scanner answers with tokens, then with one failure at most, and then with nothing. -/
theorem exists_answers (s : Scanner) :
    ∃ k ≤ s.rest.length, (∀ n < k, ∃ tok, s.answer? n = some (.ok tok)) ∧
      (s.answer? k = none ∨ ∃ d, s.answer? k = some (.error d)) ∧ ∀ n > k, s.answer? n = none := by
  refine ⟨s.run.tokens.length, length_tokens_run_le s, ?_, ?_, ?_⟩
  · intro n hn
    refine ⟨s.run.tokens[n], ?_⟩
    rw [answer?_eq_getElem?_results, Run.getElem?_results_eq_ok_iff]
    exact List.getElem?_eq_getElem hn
  · rw [answer?_eq_getElem?_results, Run.getElem?_results_length]
    cases s.run.failure? with
    | none => exact Or.inl rfl
    | some d => exact Or.inr ⟨d, rfl⟩
  · intro n hn
    rw [answer?_eq_getElem?_results]
    exact List.getElem?_eq_none (s.run.length_results_le.trans hn)

/-! ## Loops over the tokens -/

/-- Continues a run for a number of rounds, and gives up if they are not enough. -/
def runWithin (s : Scanner) : Nat → List Token → Option Run
  | 0, _ => none
  | n + 1, done =>
    match s.next with
    | (none, s') => some ⟨done.reverse, none, s'⟩
    | (some (.error d), s') => some ⟨done.reverse, some d, s'⟩
    | (some (.ok tok), s') => s'.runWithin n (tok :: done)

/-- One round for each character that is left, and one more, are enough. -/
theorem runWithin_eq {n : Nat} (h : s.rest.length < n) (done : List Token) :
    s.runWithin n done = some (s.runFrom done) := by
  induction n generalizing s done with
  | zero => exact absurd h (Nat.not_lt_zero _)
  | succ n ih =>
      rcases hnext : s.next with ⟨_ | d | tok, s'⟩
      · simp only [runWithin, hnext, runFrom_of_none hnext]
      · simp only [runWithin, hnext, runFrom_of_error hnext]
      · have hlt := length_rest_next_lt hnext
        simp only [runWithin, hnext, runFrom_of_ok hnext]
        exact ih (by omega) _

end Scanner

namespace Command

/-- Prints tokens for a number of rounds, and gives up if they are not enough. -/
def printWithin : Nat → Scanner → String → List Record → Option Printout
  | 0, _, _, _ => none
  | n + 1, s, text, logged =>
    if s.skipGap.isReady then
      match s.skipGap.token with
      | (.error d, s') =>
        some ⟨text ++ d.message ++ "\n", ⟨.debug, d.message⟩ :: logged, some d, s'⟩
      | (.ok tok, s') =>
        printWithin n s' (text ++ tok.display ++ "\n") (Run.tokenRecord tok :: logged)
    else some ⟨text, logged, none, s.skipGap⟩

/-- With more rounds than characters left, the bounded loop prints what the loop prints. -/
theorem printWithin_eq {n : Nat} (h : s.rest.length < n) (text : String) (logged : List Record) :
    printWithin n s text logged = some (printTokens s text logged) := by
  induction n generalizing s text logged with
  | zero => exact absurd h (Nat.not_lt_zero _)
  | succ n ih =>
      rcases hnext : s.next with ⟨_ | d | tok, s'⟩
      · obtain ⟨hready, rfl⟩ := Scanner.next_eq_none_iff.mp hnext
        rw [printTokens_of_none hnext, printWithin, hready]
        rfl
      · obtain ⟨hready, htoken⟩ := Scanner.next_eq_some_iff.mp hnext
        rw [printTokens_of_error hnext, printWithin, if_pos hready, htoken]
      · obtain ⟨hready, htoken⟩ := Scanner.next_eq_some_iff.mp hnext
        have hlt := Scanner.length_rest_next_lt hnext
        rw [printTokens_of_ok hnext, printWithin, if_pos hready, htoken]
        exact ih (by omega) _ _

end Command

/-- Whatever was asked of a scanner, a token moves its cursor on and nothing moves it back. From
there on it answers with at most as many tokens as there are characters left, then with one failure
at most, and then with nothing; and once it has answered with nothing it does so for good, whatever
is asked of it in between. So the loop that collects tokens and the one that prints them end, after
at most one round more than there are characters left. -/
theorem scan_moves_on_and_ends (t : Table) (source : String) (os : List Operation) :
    let s := (Scanner.start t source).after os
    let left := source.toList.length - s.cursor.index
    s.cursor.index ≤ source.toList.length ∧
    (∀ tok, s.token.1 = .ok tok → s.cursor.index + 1 ≤ s.token.2.cursor.index) ∧
    (∀ o, s.cursor.index ≤ (s.perform o).2.cursor.index) ∧
    (∃ k ≤ left, (∀ n < k, ∃ tok, s.answer? n = some (.ok tok)) ∧
      (s.answer? k = none ∨ ∃ d, s.answer? k = some (.error d)) ∧ ∀ n > k, s.answer? n = none) ∧
    (s.next.1 = none → ∀ later, (s.next.2.after later).next.1 = none) ∧
    (∀ n > left, ∀ done, s.runWithin n done = some (s.runFrom done)) ∧
    ∀ n > left, ∀ text logged,
      Command.printWithin n s text logged = some (Command.printTokens s text logged) := by
  intro s left
  obtain ⟨done, hs⟩ := Scanner.behind_after t source os
  have hlength : s.cursor.index + s.rest.length = source.toList.length := hs.index_add_length_rest
  have hleft : left = s.rest.length := by
    rw [← Nat.add_sub_cancel_left s.cursor.index s.rest.length, hlength]
  rw [hleft]
  refine ⟨Nat.le.intro hlength, fun tok htok => hs.index_lt_token htok, hs.index_le_perform,
    s.exists_answers, ?_, fun n hn => Scanner.runWithin_eq hn,
    fun n hn => Command.printWithin_eq hn⟩
  -- a scanner without a next token is not ready, and it never will be again
  intro hnone later
  have hnext : s.next = (none, s.next.2) := Prod.ext hnone rfl
  obtain ⟨hready, hskip⟩ := Scanner.next_eq_none_iff.mp hnext
  rw [hskip] at hready
  rw [Scanner.next_of_not_ready (Scanner.isReady_after hready later)]

/-- Letters and gaps lead from the initial state back to it, and it is accepting. -/
def Table.restless : Table :=
  ofSteps [.accept [initialName], .connect initialName (.anyOf .letter) initialName,
    .connect initialName (.anyOf .space) initialName]

/-- The one token takes the gap behind the letters, and the number behind it halts the scanner. -/
theorem scan_moves_on_and_ends_restless :
    let s := Scanner.start .restless "ab \n7"
    let halted := s.after [.token, .next]
    s.cursor.index + 1 ≤ s.token.2.cursor.index ∧ s.runWithin 6 [] = some s.run ∧
      Command.printWithin 6 s "" [] = some (Command.printTokens s "" []) ∧
      (halted.next.2.after [.token, .skip, .next]).next.1 = none := by
  intro s halted
  obtain ⟨-, hmoves, -, -, -, hrun, hprint⟩ := scan_moves_on_and_ends .restless "ab \n7" []
  obtain ⟨-, -, -, -, hspent, -⟩ := scan_moves_on_and_ends .restless "ab \n7" [.token, .next]
  have htok : s.token.1 = .ok ⟨.accepted "init", "ab \n", ⟨⟨0, 1, 1⟩, ⟨4, 2, 1⟩⟩⟩ := by
    decide +kernel
  have hnone : halted.next.1 = none := by decide +kernel
  exact ⟨hmoves _ htok, hrun 6 (by decide) [], hprint 6 (by decide) "" [], hspent hnone _⟩

end Munch
