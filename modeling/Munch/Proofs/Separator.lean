import Munch.Proofs.Relocation

/-!
# Separated texts

Between two texts stands a character of a gap on which no edge is taken. No walk crosses it, so the
first text is read as if it ended there, and behind it the second one is read as if it stood alone.
A walk that is stopped by the end of the first text is stopped by the separator instead, and that
shows only in the failure.
-/

namespace Munch

/-- A failure at the end of a text, once a character follows there. -/
def Diagnostic.followedBy (d : Diagnostic) (c : Char) : Diagnostic :=
  match d.cause with
  | .unexpectedCharacter none => { d with cause := .unexpectedCharacter (some c) }
  | _ => d

namespace Table

variable {t : Table} {text value : List Char} {c : Char}

/-- A longest accepted beginning stays the longest whatever comes behind a character that no edge
bears. -/
theorem Longest.append_of_avoids (h : t.Longest text value) (hc : t.Avoids c)
    (more : List Char) : t.Longest (text ++ c :: more) value := by
  obtain ⟨done, hstuck, -⟩ := t.walk_spec text
  exact (hstuck.append_of_avoids hc more).longest_iff.mp (hstuck.longest_iff.mpr h)

/-- A text of which nothing is accepted is rejected with anything behind a character that no edge
bears. -/
theorem Rejects.append_of_avoids (h : t.Rejects text) (hc : t.Avoids c) (more : List Char) :
    t.Rejects (text ++ c :: more) := by
  obtain ⟨done, hstuck, -⟩ := t.walk_spec text
  exact (hstuck.append_of_avoids hc more).rejects_iff.mp (hstuck.rejects_iff.mpr h)

end Table

namespace Scanner

variable {t : Table} {before text more : List Char} {toks toks' : List Token} {d : Diagnostic}
  {d? : Option Diagnostic} {c : Char}

/-- A failure looks one character ahead, so what follows tells only in a failure at the end. -/
theorem failureBetween_append :
    failureBetween before (text ++ c :: more) = (failureBetween before text).followedBy c := by
  cases text <;> rfl

/-- A gap in front of a text is not told from the gap with which it begins. -/
theorem Scans.append_gap {gap : List Char} (hgap : Gap gap)
    (h : Scans t (before ++ gap) text toks d?) : Scans t before (gap ++ text) toks d? := by
  cases h with
  | ended hgap' => exact .ended (hgap.append hgap')
  | @failed _ gap' stuck rest hgap' hat hrejects hstuck =>
      rw [← List.append_assoc, List.append_assoc before]
      exact .failed (hgap.append hgap') hat hrejects hstuck
  | @read _ gap' value rest state toks _ hgap' hat hlongest hdrive hscans =>
      rw [List.append_assoc before] at hscans ⊢
      rw [← List.append_assoc]
      exact .read (hgap.append hgap') hat hlongest hdrive hscans

/-- The first token of a text stays the first one before a character that no walk crosses. -/
theorem Scans.read_of_avoids {gap value rest : List Char} {state : StateId} (havoids : t.Avoids c)
    (hgap : Gap gap) (hat : AtToken (value ++ rest)) (hlongest : t.Longest (value ++ rest) value)
    (hdrive : t.drive Table.initial value = some state)
    (h : Scans t (before ++ gap ++ value) (rest ++ c :: more) toks d?) :
    Scans t before (gap ++ (value ++ rest) ++ c :: more)
      (tokenBehind t (before ++ gap) value state :: toks) d? := by
  have hat' := hat.append (c :: more)
  have hlongest' := hlongest.append_of_avoids havoids more
  rw [List.append_assoc] at hat' hlongest'
  rw [List.append_assoc, List.append_assoc]
  exact .read hgap hat' hlongest' hdrive h

/-- Behind a text that is read to its end a run goes on behind the separator. -/
theorem Scans.append_separator (hc : isGap c) (havoids : t.Avoids c)
    (h : Scans t before text toks none) (hmore : Scans t (before ++ text ++ [c]) more toks' d?) :
    Scans t before (text ++ c :: more) (toks ++ toks') d? := by
  generalize hnone : (none : Option Diagnostic) = ended at h
  induction h with
  | @ended before gap hgap =>
      -- the separator belongs to the gap between the two texts
      rw [List.append_assoc] at hmore
      simpa using hmore.append_gap (hgap.append (gap_singleton hc))
  | failed => simp at hnone
  | read hgap hat hlongest hdrive _ ih =>
      refine .read_of_avoids havoids hgap hat hlongest hdrive (ih ?_ hnone)
      simpa using hmore

/-- A run that fails in a text fails in the same way before the separator. -/
theorem Scans.fail_before_separator (havoids : t.Avoids c)
    (h : Scans t before text toks (some d)) :
    Scans t before (text ++ c :: more) toks (some (d.followedBy c)) := by
  generalize hsome : some d = failed at h
  induction h with
  | ended => simp at hsome
  | @failed before gap stuck rest hgap hat hrejects hstuck =>
      obtain rfl := Option.some.inj hsome
      have hat' := hat.append (c :: more)
      have hrejects' := hrejects.append_of_avoids havoids more
      have hstuck' := hstuck.append_of_avoids havoids more
      rw [List.append_assoc] at hat' hrejects' hstuck'
      rw [← failureBetween_append, List.append_assoc, List.append_assoc]
      exact .failed hgap hat' hrejects' hstuck'
  | read hgap hat hlongest hdrive _ ih =>
      exact .read_of_avoids havoids hgap hat hlongest hdrive (ih hsome)

/-- A run fails with an unexpected character or with an unexpected end. -/
theorem Scans.cause_eq (h : Scans t before text toks (some d)) :
    ∃ found, d.cause = .unexpectedCharacter found := by
  generalize hsome : some d = failed at h
  induction h with
  | ended => simp at hsome
  | failed =>
      obtain rfl := Option.some.inj hsome
      exact ⟨_, rfl⟩
  | read _ _ _ _ _ ih => exact ih hsome

end Scanner

/-- Two texts with a character of a gap between them on which no edge is taken are read one after
the other: the tokens of both, those of the second one moved behind the first; or its failure, moved
likewise; or the failure of the first one, where the end is replaced by the separator. -/
theorem tokens_separated (t : Table) (w : Char) (hw : isGap w) (havoids : t.Avoids w)
    (a b : String) :
    let whole := a ++ String.singleton w ++ b
    let move := Location.movedIn whole.toList (a.length + 1)
    (∀ ts us, t.tokens a = .ok ts → t.tokens b = .ok us →
      t.tokens whole = .ok (ts ++ us.map (·.relocate move))) ∧
    (∀ ts d, t.tokens a = .ok ts → t.tokens b = .error d →
      t.tokens whole = .error (d.relocate move)) ∧
    (∀ c l, t.tokens a = .error ⟨.unexpectedCharacter (some c), l⟩ →
      t.tokens whole = .error ⟨.unexpectedCharacter (some c), l⟩) ∧
    (∀ l, t.tokens a = .error ⟨.unexpectedCharacter none, l⟩ →
      t.tokens whole = .error ⟨.unexpectedCharacter (some w), l⟩) ∧
    (∀ d, t.tokens a = .error d → ∃ found, d.cause = .unexpectedCharacter found) := by
  intro whole move
  have hwhole : whole.toList = a.toList ++ w :: b.toList := by simp [whole]
  -- the run over the second text, where this text stands in the whole
  have hsecond {toks : List Token} {d? : Option Diagnostic}
      (h : Scanner.Scans t [] b.toList toks d?) :
      Scanner.Scans t (a.toList ++ [w]) b.toList (toks.map (·.relocate move))
        (d?.map (·.relocate move)) := by
    have hsplit : a.toList ++ [w] ++ b.toList = whole.toList := by simp [hwhole]
    simpa [move, String.length_toList] using h.relocate_behind hsplit
  have hfirst {d : Diagnostic} (h : t.tokens a = .error d) :
      t.tokens whole = .error (d.followedBy w) := by
    obtain ⟨toks, hscans⟩ := Table.tokens_eq_error_iff_exists.mp h
    exact Table.tokens_eq_error_iff_exists.mpr ⟨toks, hwhole ▸ hscans.fail_before_separator havoids⟩
  refine ⟨?_, ?_, fun c l h => hfirst h, fun l h => hfirst h, ?_⟩
  · intro ts us hts hus
    rw [Table.tokens_eq_ok_iff] at hts hus ⊢
    rw [hwhole]
    exact hts.append_separator hw havoids (hsecond hus)
  · intro ts d hts hd
    rw [Table.tokens_eq_ok_iff] at hts
    rw [Table.tokens_eq_error_iff_exists] at hd ⊢
    obtain ⟨us, hus⟩ := hd
    rw [hwhole]
    exact ⟨_, hts.append_separator hw havoids (hsecond hus)⟩
  · intro d h
    obtain ⟨toks, hscans⟩ := Table.tokens_eq_error_iff_exists.mp h
    exact hscans.cause_eq

/-- A newline separates numbers: the second text is read in the next line, and so is its failure. -/
theorem tokens_separated_numbers :
    isGap '\n' ∧ Table.numbers.Avoids '\n' ∧
    Table.numbers.tokens "12.5\n7" =
      .ok [⟨.accepted "broken", "12.5", ⟨⟨0, 1, 1⟩, ⟨4, 1, 5⟩⟩⟩,
        ⟨.keyword, "7", ⟨⟨5, 2, 1⟩, ⟨6, 2, 2⟩⟩⟩] ∧
    Table.numbers.tokens "12.5\n7 ." = .error ⟨.unexpectedCharacter (some '.'), ⟨7, 2, 3⟩⟩ := by
  have havoids : Table.numbers.Avoids '\n' := by decide +kernel
  have hfirst : Table.numbers.tokens "12.5" =
      .ok [⟨.accepted "broken", "12.5", ⟨⟨0, 1, 1⟩, ⟨4, 1, 5⟩⟩⟩] := by decide +kernel
  have hread : Table.numbers.tokens "7" = .ok [⟨.keyword, "7", ⟨⟨0, 1, 1⟩, ⟨1, 1, 2⟩⟩⟩] := by
    decide +kernel
  have hfails : Table.numbers.tokens "7 ." =
      .error ⟨.unexpectedCharacter (some '.'), ⟨2, 1, 3⟩⟩ := by decide +kernel
  obtain ⟨hok, -⟩ := tokens_separated .numbers '\n' (by decide) havoids "12.5" "7"
  obtain ⟨-, herror, -⟩ := tokens_separated .numbers '\n' (by decide) havoids "12.5" "7 ."
  exact ⟨by decide, havoids, (hok _ _ hfirst hread).trans (by decide),
    (herror _ _ hfirst hfails).trans (by decide)⟩

end Munch
