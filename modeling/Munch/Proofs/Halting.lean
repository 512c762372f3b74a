import Munch.Proofs.Iteration

/-!
# Halted for good

The first failure that a scanner answers with halts it, and nothing else does: `halt?_perform` tells
this of one operation, `halt?_after` of any list of them. A halted scanner is not moved by any
operation, so whatever is read off from it afterwards is what the failure tells.
-/

namespace Munch

/-- The failure that an answer tells, if it tells one. -/
def Answer.failure? : Answer → Option Diagnostic
  | .token (.error d) => some d
  | .next (some (.error d)) => some d
  | _ => none

namespace Scanner

variable {s : Scanner} {d : Diagnostic}

/-- The answers to a list of operations, one after the other. -/
def answers (s : Scanner) : List Operation → List Answer
  | [] => []
  | o :: os => (s.perform o).1 :: (s.perform o).2.answers os

/-- The first operation decides which scanner the others are asked of. -/
theorem after_cons (s : Scanner) (o : Operation) (os : List Operation) :
    s.after (o :: os) = (s.perform o).2.after os := rfl

/-- Operations can be asked for in two parts. -/
theorem after_append (s : Scanner) (os os' : List Operation) :
    s.after (os ++ os') = (s.after os).after os' := List.foldl_append

/-! ## A scanner that is halted -/

/-- A halted scanner is not ready for a token. -/
theorem isReady_of_halted (h : s.halt? = some d) : s.isReady = false := by
  simp [isReady, isHalted, h]

/-- A halted scanner ends the iteration. -/
theorem next_of_halted (h : s.halt? = some d) : s.next = (none, s) := by
  have hskip := skipGap_of_halted h
  exact next_eq_none_iff.mpr ⟨by rw [hskip, isReady_of_halted h], hskip⟩

/-- No operation moves a halted scanner. -/
theorem perform_of_halted (h : s.halt? = some d) (o : Operation) : (s.perform o).2 = s := by
  cases o with
  | skip => exact skipGap_of_halted h
  | token => exact congrArg Prod.snd (token_of_halted h)
  | next => exact congrArg Prod.snd (next_of_halted h)
  | peek => rfl

/-- Whatever is asked of it, a halted scanner stays as it is. -/
theorem after_of_halted (h : s.halt? = some d) (os : List Operation) : s.after os = s := by
  induction os with
  | nil => rfl
  | cons o os ih => rw [after_cons, perform_of_halted h o, ih]

/-! ## What halts a scanner -/

/-- Asking for a token halts a scanner exactly by the failure that it answers with. -/
theorem halt?_token (s : Scanner) : s.token.2.halt? = (Answer.token s.token.1).failure? := by
  rcases htoken : s.token with ⟨d | tok, s'⟩
  · exact halt?_of_token_eq_error htoken
  · exact halt?_of_token_eq_ok htoken

/-- A gap does not halt a scanner. -/
theorem halt?_skipGap (h : s.halt? = none) : s.skipGap.halt? = none := by
  obtain ⟨gap, rest, -, -, -, hskip⟩ := skipGap_cases h
  rw [hskip]
  exact h

/-- One operation halts a scanner exactly by the failure that it answers with. -/
theorem halt?_perform (h : s.halt? = none) (o : Operation) :
    (s.perform o).2.halt? = (s.perform o).1.failure? := by
  cases o with
  | skip => exact halt?_skipGap h
  | token => exact halt?_token s
  | next =>
      simp only [perform]
      obtain ⟨-, hnext⟩ | ⟨-, hnext⟩ := next_cases s
      · rw [hnext]
        exact halt?_skipGap h
      · rw [hnext, halt?_token]
        cases s.skipGap.token.1 <;> rfl
  | peek => exact h

/-- A list of operations halts a scanner exactly by the first failure among its answers. -/
theorem halt?_after (h : s.halt? = none) (os : List Operation) :
    (s.after os).halt? = (s.answers os).findSome? Answer.failure? := by
  induction os generalizing s with
  | nil => exact h
  | cons o os ih =>
      rw [after_cons, answers, List.findSome?_cons, ← halt?_perform h o]
      cases hhalt : (s.perform o).2.halt? with
      | none => exact ih hhalt
      | some d => rw [after_of_halted hhalt, hhalt]

/-- A scanner is halted exactly if a failure was among its answers. -/
theorem isHalted_after (h : s.halt? = none) (os : List Operation) :
    (s.after os).isHalted = (s.answers os).any (·.failure?.isSome) := by
  rw [isHalted, halt?_after h, List.isSome_findSome?]

/-- A scanner is halted exactly if it has answered with a failure. From the first failure on it
answers with that failure or has nothing to answer, and it stands where the failure is located,
before the character that the failure tells. -/
theorem first_failure_halts_for_good (t : Table) (source : String) :
    let first := start t source
    (∀ os, (first.after os).isHalted = (first.answers os).any (·.failure?.isSome)) ∧
    ∀ before o d, (∀ a ∈ first.answers before, a.failure? = none) →
      ((first.after before).perform o).1.failure? = some d →
      ∃ found, d.cause = .unexpectedCharacter found ∧ ∀ later,
        let s := first.after (before ++ o :: later)
        s.isHalted = true ∧
        s.token.1 = .error d ∧
        s.skipGap.isReady = false ∧
        s.next.1 = none ∧
        s.location = d.location ∧
        s.line = d.location.line ∧
        s.peek? = found ∧
        (s.atEnd = true ↔ found = none) := by
  intro first
  have hfresh : first.halt? = none := rfl
  refine ⟨isHalted_after hfresh, ?_⟩
  intro before o d hbefore hd
  have hlive : (first.after before).halt? = none := by
    rw [halt?_after hfresh, List.findSome?_eq_none_iff]
    exact hbefore
  have hhalt : (first.after (before ++ [o])).halt? = some d := by
    rw [after_append]
    exact (halt?_perform hlive o).trans hd
  -- behind the failure the scanner does not change any more, so it is looked at right there
  obtain ⟨done, hdone⟩ := behind_after t source (before ++ [o])
  have hfailure : d = (first.after (before ++ [o])).failure := hdone.halt_eq d hhalt
  refine ⟨(first.after (before ++ [o])).peek?, congrArg Diagnostic.cause hfailure, ?_⟩
  intro later
  have hsame : first.after (before ++ o :: later) = first.after (before ++ [o]) := by
    rw [List.append_cons, after_append, after_of_halted hhalt]
  rw [hsame]
  refine ⟨by rw [isHalted, hhalt]; rfl, by rw [token_of_halted hhalt], ?_,
    by rw [next_of_halted hhalt], (congrArg Diagnostic.location hfailure).symm, ?_, rfl, ?_⟩
  · rw [skipGap_of_halted hhalt, isReady_of_halted hhalt]
  · rw [hfailure]
    rfl
  · rw [atEnd, peek?, List.isEmpty_iff, List.head?_eq_none_iff]

/-- The second bracket is never closed, and what is asked behind its failure changes nothing. -/
theorem first_failure_halts_for_good_brackets :
    let s := (start .brackets "<a> <b\n").after [.next, .skip, .peek, .token, .next, .skip]
    s.token.1 = .error ⟨.unexpectedCharacter none, ⟨7, 2, 1⟩⟩ ∧ s.next.1 = none ∧
      s.location = ⟨7, 2, 1⟩ ∧ s.peek? = none := by
  have hfails := (first_failure_halts_for_good .brackets "<a> <b\n").2 [.next, .skip, .peek] .token
    ⟨.unexpectedCharacter none, ⟨7, 2, 1⟩⟩ (by decide +kernel) (by decide +kernel)
  obtain ⟨found, hfound, hlater⟩ := hfails
  obtain rfl := Cause.unexpectedCharacter.inj hfound
  obtain ⟨-, htoken, -, hnext, hlocation, -, hpeek, -⟩ := hlater [.next, .skip]
  exact ⟨htoken, hnext, hlocation, hpeek⟩

end Scanner

end Munch
