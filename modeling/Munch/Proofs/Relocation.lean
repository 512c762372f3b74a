import Munch.Proofs.Run

/-!
# Runs at another place

What a run reads of a text does not depend on what stands before the text, apart from the locations
that it tells. `Scans.relocate` puts another text in front and moves every location along.
-/

namespace Munch

/-- The location of an index of a text, so many characters behind that of a location. -/
def Location.movedIn (text : List Char) (n : Nat) (l : Location) : Location :=
  counted text (l.index + n)

/-- A location in a text is moved by the front before it to the location behind both. -/
theorem Location.movedIn_behind {front read text : List Char} (h : front ++ read <+: text) :
    (behind read).movedIn text front.length = behind (front ++ read) := by
  obtain ⟨rest, rfl⟩ := h
  rw [movedIn, index_behind, Nat.add_comm, ← List.length_append, counted_append]

/-- A location in a text that begins at another one: the first line goes on in the line of this
one, and behind a newline columns are counted anew. -/
def Location.offset (origin l : Location) : Location :=
  ⟨origin.index + l.index, origin.line + l.line - 1,
    if l.line = 1 then l.column + origin.column - 1 else l.column⟩

@[simp] theorem Location.offset_first (origin : Location) : origin.offset first = origin := by
  simp [offset, first]

/-- Crossing a character takes a location and its offset along. -/
theorem Location.offset_cross {l : Location} (hline : 1 ≤ l.line) (hcolumn : 1 ≤ l.column)
    (origin : Location) (c : Char) : origin.offset (l.cross c) = (origin.offset l).cross c := by
  unfold offset cross
  split
  · have hne : l.line + 1 ≠ 1 := by omega
    simp only [if_neg hne, Location.mk.injEq, and_true]
    omega
  · simp only [Location.mk.injEq, true_and]
    refine ⟨by omega, ?_⟩
    split <;> omega

/-- Where the front of a text ends, the rest of it begins. -/
theorem Location.offset_behind (front read : List Char) :
    (behind front).offset (behind read) = behind (front ++ read) := by
  induction read using List.reverseRecOn with
  | nil => simp
  | append_singleton read c ih =>
      rw [← List.append_assoc, behind_concat, behind_concat, ← ih]
      exact offset_cross (one_le_line_behind read) (one_le_column_behind read) _ c

/-- A token whose extent is moved. -/
def Token.relocate (move : Location → Location) (tok : Token) : Token :=
  { tok with extent := ⟨move tok.extent.start, move tok.extent.stop⟩ }

/-- A diagnostic whose location is moved. -/
def Diagnostic.relocate (move : Location → Location) (d : Diagnostic) : Diagnostic :=
  { d with location := move d.location }

namespace Scanner

variable {t : Table} {before text : List Char} {toks : List Token} {d? : Option Diagnostic}

/-- A run over a text that stands farther behind reads the same, with all locations moved. -/
theorem Scans.relocate (h : Scans t before text toks d?) (front : List Char)
    {move : Location → Location}
    (hmove : ∀ read, read <+: before ++ text → move (.behind read) = .behind (front ++ read)) :
    Scans t (front ++ before) text (toks.map (·.relocate move)) (d?.map (·.relocate move)) := by
  induction h with
  | ended hgap => exact .ended hgap
  | @failed before gap stuck rest hgap hat hrejects hstuck =>
      have hread : before ++ gap ++ stuck <+: before ++ (gap ++ (stuck ++ rest)) :=
        ⟨rest, by simp⟩
      have hfailure : (failureBetween (before ++ gap ++ stuck) rest).relocate move =
          failureBetween (front ++ before ++ gap ++ stuck) rest := by
        simp only [failureBetween, Diagnostic.relocate, hmove _ hread, ← List.append_assoc]
      rw [List.map_nil, Option.map_some, hfailure]
      exact .failed hgap hat hrejects hstuck
  | @read before gap value rest state toks d? hgap hat hlongest hdrive _ ih =>
      have hstart : before ++ gap <+: before ++ (gap ++ (value ++ rest)) :=
        ⟨value ++ rest, by simp⟩
      have hstop : before ++ gap ++ value <+: before ++ (gap ++ (value ++ rest)) :=
        ⟨rest, by simp⟩
      have htoken : (tokenBehind t (before ++ gap) value state).relocate move =
          tokenBehind t (front ++ before ++ gap) value state := by
        simp only [tokenBehind, Token.relocate, hmove _ hstart, hmove _ hstop,
          ← List.append_assoc]
      rw [List.map_cons, htoken]
      refine .read hgap hat hlongest hdrive ?_
      -- what the rest of the run reads is read of the same text, with more of it behind
      have hrest := ih fun read hread => hmove read (by simpa using hread)
      rwa [← List.append_assoc, ← List.append_assoc] at hrest

/-- A text that stands behind another one is read as it is alone, with all locations counted on from
the end of this one. -/
theorem Scans.relocate_offset (h : Scans t [] text toks d?) (front : List Char) :
    Scans t front text (toks.map (·.relocate (.offset (.behind front))))
      (d?.map (·.relocate (.offset (.behind front)))) := by
  simpa using h.relocate front fun read _ => Location.offset_behind front read

/-- A run over the second part of a text reads what it reads of this part alone, with all locations
moved behind the first part. -/
theorem Scans.relocate_behind {front whole : List Char} (h : Scans t [] text toks d?)
    (hwhole : front ++ text = whole) :
    Scans t front text (toks.map (·.relocate (.movedIn whole front.length)))
      (d?.map (·.relocate (.movedIn whole front.length))) := by
  have hmove (read : List Char) (hread : read <+: [] ++ text) :
      (Location.behind read).movedIn whole front.length = .behind (front ++ read) := by
    refine Location.movedIn_behind ?_
    rw [← hwhole]
    exact (List.prefix_append_right_inj front).mpr hread
  simpa using h.relocate front hmove

end Scanner

end Munch
