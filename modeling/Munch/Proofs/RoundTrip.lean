import Munch.Proofs.Separator
import Munch.Proofs.Truncation

/-!
# Printing tokens and reading them again

Whatever stood between the tokens of a source, their values can be written one after the other with
a separator between them, and they are read again as the same tokens. Alone, a value is one token of
its kind: no longer beginning of it is accepted, and none of its characters is taken for a gap. The
separator keeps it alone.
-/

namespace Munch

/-- What a token is, without its place. -/
def Token.label (tok : Token) : TokenKind × String := (tok.kind, tok.value)

namespace Scanner

variable {t : Table} {before text : List Char} {toks : List Token} {w : Char}

/-- The value of a token is that token when it stands alone. -/
theorem Scans.alone {value rest : List Char} {state : StateId} (hat : AtToken (value ++ rest))
    (hlongest : t.Longest (value ++ rest) value)
    (hdrive : t.drive Table.initial value = some state) (before : List Char) :
    Scans t before value [tokenBehind t before value state] none := by
  have hread :
      Scans t before ([] ++ (value ++ [])) [tokenBehind t (before ++ []) value state] none :=
    .read_of_shorter gap_nil hat hlongest hdrive List.nil_prefix (.ended gap_nil)
  rwa [List.nil_append, List.append_nil, List.append_nil] at hread

/-- The values of the tokens of a text, with separators between them, are read as the same tokens,
wherever they stand. -/
theorem Scans.join (hw : isGap w) (havoids : t.Avoids w) (h : Scans t before text toks none)
    (front : List Char) :
    ∃ toks', Scans t front ([w].intercalate (toks.map (·.value.toList))) toks' none ∧
      toks'.map Token.label = toks.map Token.label := by
  generalize hnone : (none : Option Diagnostic) = ended at h
  induction h generalizing front with
  | ended => exact ⟨[], .ended gap_nil, rfl⟩
  | failed => simp at hnone
  | @read before gap value rest state toks d? hgap hat hlongest hdrive _ ih =>
      obtain rfl := hnone
      have hvalue : (tokenBehind t (before ++ gap) value state).value.toList = value := by
        simp [tokenBehind]
      have halone := Scans.alone hat hlongest hdrive front
      rw [List.map_cons, hvalue]
      cases toks with
      | nil =>
          refine ⟨[tokenBehind t front value state], ?_, rfl⟩
          rwa [List.map_nil, List.intercalate_singleton]
      | cons tok toks =>
          obtain ⟨toks', hscans, hlabel⟩ := ih (front ++ value ++ [w]) rfl
          refine ⟨tokenBehind t front value state :: toks', ?_, ?_⟩
          · rw [List.map_cons, List.intercalate_cons_cons, List.append_assoc]
            exact halone.append_separator hw havoids hscans
          · rw [List.map_cons, hlabel]
            rfl

end Scanner

/-- The values of the tokens of a source, with a character of a gap between them on which no edge is
taken, are cut into as many tokens of the same kinds and values, in the same order. -/
theorem tokens_join_values (t : Table) (w : Char) (hw : isGap w) (havoids : t.Avoids w)
    (source : String) (toks : List Token) (htoks : t.tokens source = .ok toks) :
    ∃ toks', t.tokens ((String.singleton w).intercalate (toks.map Token.value)) = .ok toks' ∧
      toks'.map Token.label = toks.map Token.label := by
  obtain ⟨toks', hscans, hlabel⟩ := (Table.tokens_eq_ok_iff.mp htoks).join hw havoids []
  refine ⟨toks', Table.tokens_eq_ok_iff.mpr ?_, hlabel⟩
  rw [String.toList_intercalate, String.toList_singleton, List.map_map]
  exact hscans

/-- Numbers in several lines are read again in one line, with tabs between them. -/
theorem tokens_join_values_numbers :
    isGap '\t' ∧ Table.numbers.Avoids '\t' ∧
    ∃ toks', Table.numbers.tokens "1.5\t7\t12" = .ok toks' ∧ toks'.map Token.label =
      [(.accepted "broken", "1.5"), (.keyword, "7"), (.accepted "whole", "12")] := by
  have havoids : Table.numbers.Avoids '\t' := by decide +kernel
  have htoks : Table.numbers.tokens "1.5\n\n7 12 " = .ok
      [⟨.accepted "broken", "1.5", ⟨⟨0, 1, 1⟩, ⟨3, 1, 4⟩⟩⟩,
        ⟨.keyword, "7", ⟨⟨5, 3, 1⟩, ⟨6, 3, 2⟩⟩⟩,
        ⟨.accepted "whole", "12", ⟨⟨7, 3, 3⟩, ⟨9, 3, 5⟩⟩⟩] := by decide +kernel
  obtain ⟨toks', hread, hlabel⟩ :=
    tokens_join_values .numbers '\t' (by decide) havoids "1.5\n\n7 12 " _ htoks
  exact ⟨by decide, havoids, toks', hread, hlabel⟩

end Munch
