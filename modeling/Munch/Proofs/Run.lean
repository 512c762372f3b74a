import Mathlib.Data.List.TakeWhile
import Munch.Proofs.Operations
import Munch.Scanner.Run

/-!
# Runs, token by token

A run collects its tokens in an accumulator. `run_induction` takes that away once and for all: what
holds at the end, at a failure and from one token to those behind it holds of every run. The lemmas
on `next` say what a run meets at each of these three places.
-/

namespace Munch

namespace Scanner

variable {s s' : Scanner} {t : Table} {source done : List Char} {tok : Token} {d : Diagnostic}

/-! ## Runs without their accumulator -/

/-- At the end a run has the tokens that were read. -/
theorem runFrom_of_none (h : s.next = (none, s')) (toks : List Token) :
    s.runFrom toks = ⟨toks.reverse, none, s'⟩ := by
  rw [runFrom]
  split <;> simp_all

/-- A failure ends a run behind the tokens that were read. -/
theorem runFrom_of_error (h : s.next = (some (.error d), s')) (toks : List Token) :
    s.runFrom toks = ⟨toks.reverse, some d, s'⟩ := by
  rw [runFrom]
  split <;> simp_all

/-- A token is read, and the run goes on. -/
theorem runFrom_of_ok (h : s.next = (some (.ok tok), s')) (toks : List Token) :
    s.runFrom toks = s'.runFrom (tok :: toks) := by
  rw [runFrom]
  split <;> simp_all

/-- The tokens known before a run stand before those that it reads. -/
theorem runFrom_eq (s : Scanner) (toks : List Token) :
    s.runFrom toks = { s.run with tokens := toks.reverse ++ s.run.tokens } := by
  induction h : s.rest.length using Nat.strong_induction_on generalizing s toks with
  | _ n ih =>
    subst h
    rcases hnext : s.next with ⟨_ | d | tok, s'⟩
    · simp [run, runFrom_of_none hnext]
    · simp [run, runFrom_of_error hnext]
    · have hlt := length_rest_next_lt hnext
      rw [run, runFrom_of_ok hnext, runFrom_of_ok hnext, ih _ hlt s' _ rfl, ih _ hlt s' _ rfl]
      simp

/-- A run without a next token is empty. -/
theorem run_of_none (h : s.next = (none, s')) : s.run = ⟨[], none, s'⟩ := runFrom_of_none h []

/-- A run whose next token fails has no tokens. -/
theorem run_of_error (h : s.next = (some (.error d), s')) : s.run = ⟨[], some d, s'⟩ :=
  runFrom_of_error h []

/-- A run reads a token and goes on behind it. -/
theorem run_of_ok (h : s.next = (some (.ok tok), s')) :
    s.run = { s'.run with tokens := tok :: s'.run.tokens } := by
  rw [run, runFrom_of_ok h, runFrom_eq]
  rfl

/-- Induction over runs. -/
theorem run_induction {P : Scanner → Run → Prop}
    (ended : ∀ s s', s.next = (none, s') → P s ⟨[], none, s'⟩)
    (failed : ∀ s d s', s.next = (some (.error d), s') → P s ⟨[], some d, s'⟩)
    (read : ∀ s tok s', s.next = (some (.ok tok), s') → P s' s'.run →
      P s { s'.run with tokens := tok :: s'.run.tokens })
    (s : Scanner) : P s s.run := by
  induction h : s.rest.length using Nat.strong_induction_on generalizing s with
  | _ n ih =>
    subst h
    rcases hnext : s.next with ⟨_ | d | tok, s'⟩
    · rw [run_of_none hnext]
      exact ended s s' hnext
    · rw [run_of_error hnext]
      exact failed s d s' hnext
    · rw [run_of_ok hnext]
      exact read s tok s' hnext (ih _ (length_rest_next_lt hnext) s' rfl)

/-! ## The relation of a text to what a run reads of it -/

/-- A run over `text`, which stands behind `before`, reads the tokens, and then it fails or ends. -/
inductive Scans (t : Table) : List Char → List Char → List Token → Option Diagnostic → Prop
  | ended {before gap : List Char} (hgap : Gap gap) : Scans t before gap [] none
  | failed {before gap stuck rest : List Char} (hgap : Gap gap) (hat : AtToken (stuck ++ rest))
      (hrejects : t.Rejects (stuck ++ rest)) (hstuck : t.Stuck (stuck ++ rest) stuck) :
      Scans t before (gap ++ (stuck ++ rest)) []
        (some (failureBetween (before ++ gap ++ stuck) rest))
  | read {before gap value rest : List Char} {state : StateId} {toks : List Token}
      {d? : Option Diagnostic} (hgap : Gap gap) (hat : AtToken (value ++ rest))
      (hlongest : t.Longest (value ++ rest) value)
      (hdrive : t.drive Table.initial value = some state)
      (hscans : Scans t (before ++ gap ++ value) rest toks d?) :
      Scans t before (gap ++ (value ++ rest)) (tokenBehind t (before ++ gap) value state :: toks) d?

/-- A scan ends behind a gap only. -/
theorem gap_of_next_eq_none (h : s.halt? = none) (hnext : s.next = (none, s')) : Gap s.rest := by
  obtain ⟨gap, rest, hgap, hrest, hat, hskip⟩ := skipGap_cases h
  obtain ⟨hready, -⟩ := next_eq_none_iff.mp hnext
  have hnil : rest = [] := by
    rw [hskip] at hready
    simpa [isReady, isHalted, atEnd, advance, h, ← hrest] using hready
  rwa [← hrest, hnil, List.append_nil]

/-- Otherwise it asks for a token where one can begin. -/
theorem exists_atToken_of_next (h : s.Behind t source done) (hlive : s.halt? = none)
    {r : Except Diagnostic Token} (hnext : s.next = (some r, s')) :
    ∃ gap, Gap gap ∧ gap ++ s.skipGap.rest = s.rest ∧ AtToken s.skipGap.rest ∧
      s.skipGap.Behind t source (done ++ gap) ∧ s.skipGap.halt? = none ∧
      s.skipGap.token = (r, s') := by
  obtain ⟨gap, rest, hgap, hrest, hat, hskip⟩ := skipGap_cases hlive
  obtain ⟨hready, htoken⟩ := next_eq_some_iff.mp hnext
  have hrest' : s.skipGap.rest = rest := by rw [hskip, rest_advance hrest]
  have hne : rest ≠ [] := by
    intro hnil
    simp [isReady, atEnd, hrest', hnil] at hready
  refine ⟨gap, hgap, by rw [hrest', hrest], ?_, ?_, ?_, htoken⟩
  · rw [hrest']
    exact hat.resolve_left hne
  · rw [hskip]
    exact h.advance hlive hrest
  · simp [hskip, advance, hlive]

/-- Everything that a run reads is as the relation says. -/
theorem scans_run (h : s.Behind t source done) (hlive : s.halt? = none) :
    Scans t done s.rest s.run.tokens s.run.failure? := by
  revert h hlive
  refine run_induction (P := fun s run => ∀ {done}, s.Behind t source done → s.halt? = none →
    Scans t done s.rest run.tokens run.failure?) ?ended ?failed ?read s
  case ended =>
    intro s s' hnext done h hlive
    exact .ended (gap_of_next_eq_none hlive hnext)
  case failed =>
    intro s d s' hnext done h hlive
    obtain ⟨gap, hgap, hrest, hat, hgapped, hlive', htoken⟩ := exists_atToken_of_next h hlive hnext
    obtain ⟨value, state, -, -, hok⟩ | ⟨stuck, hrejects, hstuck, herror⟩ := token_cases hlive'
    · simp [hok] at htoken
    · obtain ⟨rest, hsplit⟩ := hstuck.begins
      -- everything about the rest of the scanner becomes a fact on the two parts of a text
      rw [hgapped.table_eq, ← hsplit] at hrejects hstuck
      rw [← hsplit] at hat
      rw [herror, hgapped.failure_advance hlive' hsplit, Prod.mk.injEq, Except.error.injEq]
        at htoken
      rw [← hrest, ← hsplit, ← htoken.1]
      exact .failed hgap hat hrejects hstuck
  case read =>
    intro s tok s' hnext ih done h hlive
    obtain ⟨gap, hgap, hrest, hat, hgapped, hlive', htoken⟩ := exists_atToken_of_next h hlive hnext
    obtain ⟨value, state, hlongest, hdrive, hok⟩ | ⟨stuck, -, -, herror⟩ := token_cases hlive'
    · obtain ⟨rest, hsplit⟩ := hlongest.begins
      rw [hok, hgapped.cut_eq hlive' hsplit, Prod.mk.injEq, Except.ok.injEq] at htoken
      obtain ⟨rfl, rfl⟩ := htoken
      have hscans := ih (hgapped.advance hlive' hsplit) hlive'
      rw [rest_advance hsplit] at hscans
      rw [hgapped.table_eq, ← hsplit] at hlongest
      rw [hgapped.table_eq] at hdrive
      rw [← hsplit] at hat
      rw [← hrest, ← hsplit]
      exact .read hgap hat hlongest hdrive hscans
    · simp [herror] at htoken

/-- The tokens of a whole source and its failure are related to it. -/
theorem scans_start (t : Table) (source : String) :
    Scans t [] source.toList (start t source).run.tokens (start t source).run.failure? :=
  scans_run (behind_start t source) rfl

/-! ## The relation leaves no choice -/

/-- A gap ends where the next token can begin. -/
theorem takeWhile_gap_append {gap rest : List Char} (hgap : Gap gap)
    (hrest : rest = [] ∨ AtToken rest) : (gap ++ rest).takeWhile isGap = gap := by
  rw [List.takeWhile_append_of_pos hgap]
  obtain rfl | ⟨c, hhead, hc⟩ := hrest
  · simp
  · obtain ⟨tail, rfl⟩ := List.head?_eq_some_iff.mp hhead
    simp [hc]

/-- The gap before a token is found in one way only: no token begins with a character of gaps. -/
theorem gap_append_inj {gap gap' rest rest' : List Char} (hgap : Gap gap) (hgap' : Gap gap')
    (hrest : rest = [] ∨ AtToken rest) (hrest' : rest' = [] ∨ AtToken rest')
    (h : gap ++ rest = gap' ++ rest') : gap = gap' ∧ rest = rest' := by
  have heq : gap = gap' := by
    rw [← takeWhile_gap_append hgap hrest, h, takeWhile_gap_append hgap' hrest']
  subst heq
  exact ⟨rfl, List.append_cancel_left h⟩

/-- The first step of a run over a text of which the gap is known. -/
theorem Scans.cases_of_gap {before gap rest : List Char} {toks : List Token}
    {d? : Option Diagnostic} (h : Scans t before (gap ++ rest) toks d?) (hgap : Gap gap)
    (hrest : rest = [] ∨ AtToken rest) :
    (rest = [] ∧ toks = [] ∧ d? = none) ∨
    (AtToken rest ∧ ∃ stuck after, stuck ++ after = rest ∧ t.Rejects rest ∧ t.Stuck rest stuck ∧
      toks = [] ∧ d? = some (failureBetween (before ++ gap ++ stuck) after)) ∨
    (AtToken rest ∧ ∃ value after state toks', value ++ after = rest ∧ t.Longest rest value ∧
      t.drive Table.initial value = some state ∧
      toks = tokenBehind t (before ++ gap) value state :: toks' ∧
      Scans t (before ++ gap ++ value) after toks' d?) := by
  generalize htext : gap ++ rest = text at h
  cases h with
  | ended hgap' =>
      rw [← List.append_nil text] at htext
      obtain ⟨rfl, rfl⟩ := gap_append_inj hgap hgap' hrest (Or.inl rfl) htext
      exact Or.inl ⟨rfl, rfl, rfl⟩
  | @failed _ gap' stuck after hgap' hat hrejects hstuck =>
      obtain ⟨rfl, rfl⟩ := gap_append_inj hgap hgap' hrest (Or.inr hat) htext
      exact Or.inr (Or.inl ⟨hat, stuck, after, rfl, hrejects, hstuck, rfl, rfl⟩)
  | @read _ gap' value after state toks' _ hgap' hat hlongest hdrive hscans =>
      obtain ⟨rfl, rfl⟩ := gap_append_inj hgap hgap' hrest (Or.inr hat) htext
      exact Or.inr (Or.inr ⟨hat, value, after, state, toks', rfl, hlongest, hdrive, rfl, hscans⟩)

/-- A text that stands at some place is related to one list of tokens and one end only. -/
theorem Scans.unique {before text : List Char} {toks toks' : List Token}
    {d? d?' : Option Diagnostic} (h : Scans t before text toks d?)
    (h' : Scans t before text toks' d?') : toks = toks' ∧ d? = d?' := by
  induction h generalizing toks' d?' with
  | @ended before gap hgap =>
      rw [← List.append_nil gap] at h'
      obtain ⟨-, rfl, rfl⟩ | ⟨hat, -⟩ | ⟨hat, -⟩ := h'.cases_of_gap hgap (Or.inl rfl)
      · exact ⟨rfl, rfl⟩
      · exact absurd rfl hat.ne_nil
      · exact absurd rfl hat.ne_nil
  | @failed before gap stuck after hgap hat hrejects hstuck =>
      obtain ⟨hnil, -⟩ | ⟨-, stuck', after', hsplit, -, hstuck', rfl, rfl⟩ |
        ⟨-, value, after', -, -, -, hlongest, -⟩ := h'.cases_of_gap hgap (Or.inr hat)
      · exact absurd hnil hat.ne_nil
      · obtain rfl := hstuck'.unique hstuck
        obtain rfl := List.append_cancel_left hsplit
        exact ⟨rfl, rfl⟩
      · exact absurd hrejects hlongest.not_rejects
  | @read before gap value after state toks d? hgap hat hlongest hdrive _ ih =>
      obtain ⟨hnil, -⟩ | ⟨-, stuck, after', -, hrejects, -⟩ |
        ⟨-, value', after', state', toks'', hsplit, hlongest', hdrive', rfl, hscans⟩ :=
        h'.cases_of_gap hgap (Or.inr hat)
      · exact absurd hnil hat.ne_nil
      · exact absurd hrejects hlongest.not_rejects
      · obtain rfl := hlongest'.unique hlongest
        obtain rfl := List.append_cancel_left hsplit
        obtain rfl := Option.some.inj (hdrive'.symm.trans hdrive)
        obtain ⟨rfl, rfl⟩ := ih hscans
        exact ⟨rfl, rfl⟩

end Scanner

namespace Table

open Scanner

variable {t : Table} {source : String}

/-- A source is cut into these tokens exactly if the relation says so. -/
theorem tokens_eq_ok_iff {toks : List Token} :
    t.tokens source = .ok toks ↔ Scans t [] source.toList toks none := by
  have hrun := scans_start t source
  cases hfailure : (start t source).run.failure? with
  | none =>
      rw [hfailure] at hrun
      simp only [tokens, hfailure, Except.ok.injEq]
      exact ⟨fun h => h ▸ hrun, fun h => (hrun.unique h).1⟩
  | some d =>
      rw [hfailure] at hrun
      simp only [tokens, hfailure, reduceCtorEq, false_iff]
      exact fun h => by simpa using (hrun.unique h).2

/-- It fails behind the tokens of its run exactly if the relation says so. -/
theorem tokens_eq_error_iff {d : Diagnostic} :
    t.tokens source = .error d ↔
      Scans t [] source.toList (start t source).run.tokens (some d) := by
  have hrun := scans_start t source
  cases hfailure : (start t source).run.failure? with
  | none =>
      rw [hfailure] at hrun
      simp only [tokens, hfailure, reduceCtorEq, false_iff]
      exact fun h => by simpa using (hrun.unique h).2
  | some d' =>
      rw [hfailure] at hrun
      simp only [tokens, hfailure, Except.error.injEq]
      exact ⟨fun h => h ▸ hrun, fun h => Option.some.inj (hrun.unique h).2⟩

/-- The tokens behind which it fails need not be known. -/
theorem tokens_eq_error_iff_exists {d : Diagnostic} :
    t.tokens source = .error d ↔ ∃ toks, Scans t [] source.toList toks (some d) := by
  constructor
  · intro h
    exact ⟨_, tokens_eq_error_iff.mp h⟩
  · rintro ⟨toks, h⟩
    obtain ⟨rfl, -⟩ := h.unique (scans_start t source)
    exact tokens_eq_error_iff.mpr h

/-- A source that is cut into tokens has a run without failure, and these are its tokens. -/
theorem run_of_tokens_eq_ok {toks : List Token} (h : t.tokens source = .ok toks) :
    (start t source).run.failure? = none ∧ (start t source).run.tokens = toks := by
  obtain ⟨htoks, hnone⟩ := (tokens_eq_ok_iff.mp h).unique (scans_start t source)
  exact ⟨hnone.symm, htoks.symm⟩

/-- A source that fails has a run that fails in the same way. -/
theorem failure?_of_tokens_eq_error {d : Diagnostic} (h : t.tokens source = .error d) :
    (start t source).run.failure? = some d :=
  ((tokens_eq_error_iff.mp h).unique (scans_start t source)).2.symm

end Table

end Munch
