import Munch.Scanner

/-! # Runs

A run asks a scanner for tokens until there are no more. Each token takes at least one character,
so every run ends.
-/

namespace Munch

/-- What a run yields: the tokens, the failure that ended it, if one did, and the scanner after
it. -/
structure Run where
  tokens : List Token
  failure? : Option Diagnostic
  final : Scanner

namespace Scanner

/-- What is read is not left any more. -/
theorem length_rest_advance (s : Scanner) (n : Nat) :
    (s.advance n).rest.length = s.rest.length - n := by
  simp [advance]

/-- No gap makes the rest longer. -/
theorem length_rest_skipGap_le (s : Scanner) : s.skipGap.rest.length ≤ s.rest.length := by
  unfold skipGap
  split
  · exact Nat.le_refl _
  · rw [length_rest_advance]
    exact Nat.sub_le _ _

/-- A token takes at least one character. -/
theorem length_rest_token_lt {s : Scanner} {t : Token} (h : s.token.1 = .ok t) :
    s.token.2.rest.length < s.rest.length := by
  unfold token at h ⊢
  split at h
  · simp at h
  · simp only at h ⊢
    split at h
    · rename_i length state hwalk
      simp only
      have hpos : 0 < length := Table.walk_accepted_pos hwalk
      have hrest : s.rest ≠ [] := by
        intro hnil
        simp [hnil] at hwalk
      have := List.length_pos_iff.mpr hrest
      rw [length_rest_advance]
      omega
    · simp at h

/-- So does a token behind a gap. -/
theorem length_rest_token_skipGap_lt {s s' : Scanner} {t : Token}
    (h : s.skipGap.token = (.ok t, s')) : s'.rest.length < s.rest.length := by
  have htoken : s.skipGap.token.2.rest.length < s.skipGap.rest.length :=
    length_rest_token_lt (congrArg Prod.fst h)
  rw [h] at htoken
  exact Nat.lt_of_lt_of_le htoken s.length_rest_skipGap_le

/-- Behind each token less is left, so a run ends. -/
theorem length_rest_next_lt {s s' : Scanner} {t : Token} (h : s.next = (some (.ok t), s')) :
    s'.rest.length < s.rest.length := by
  simp only [next] at h
  split at h
  · simp only [Prod.mk.injEq, Option.some.injEq] at h
    exact length_rest_token_skipGap_lt (Prod.ext h.1 h.2)
  · simp at h

/-- Continues a run of which the tokens so far are known, the last one first. -/
def runFrom (s : Scanner) (done : List Token) : Run :=
  match h : s.next with
  | (none, s') => ⟨done.reverse, none, s'⟩
  | (some (.error d), s') => ⟨done.reverse, some d, s'⟩
  | (some (.ok t), s') =>
    have : s'.rest.length < s.rest.length := length_rest_next_lt h
    s'.runFrom (t :: done)
termination_by s.rest.length

/-- Reads all tokens that are left. -/
def run (s : Scanner) : Run := s.runFrom []

end Scanner

namespace Run

/-- What is logged of a token. -/
def tokenRecord (t : Token) : Record :=
  ⟨.trace, t.display ++ " at " ++ toString t.extent.start.line ++ ":" ++
    toString t.extent.start.column⟩

/-- What is logged during a run: each token, and the failure. -/
def records (r : Run) : List Record :=
  r.tokens.map tokenRecord ++ r.failure?.toList.map fun d => ⟨.debug, d.message⟩

end Run

/-- The tokens of a whole source, or the first failure. -/
def Table.tokens (t : Table) (source : String) : Except Diagnostic (List Token) :=
  let run := (Scanner.start t source).run
  match run.failure? with
  | none => .ok run.tokens
  | some d => .error d

end Munch
