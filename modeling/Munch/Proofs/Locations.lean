import Munch.Proofs.Operations

/-!
# All locations are counted

Whatever is asked of a scanner, and in whatever order, its cursor and every location that it answers
with are those that counting gives. A walk that is taken back counts for nothing, because only what
lies before an index is counted.
-/

namespace Munch

/-- The locations of a token or of a failure. -/
def resultLocations : Except Diagnostic Token → List Location
  | .ok tok => [tok.extent.start, tok.extent.stop]
  | .error d => [d.location]

/-- The locations that an answer tells. -/
def Answer.locations : Answer → List Location
  | .token r => resultLocations r
  | .next r? => r?.toList.flatMap resultLocations
  | .ready _ => []
  | .char _ => []

/-- A location lies in a text and is the one counted there. -/
def Location.CountedIn (text : List Char) (l : Location) : Prop :=
  l.index ≤ text.length ∧ l = Location.counted text l.index

namespace Scanner.Behind

variable {s : Scanner} {t : Table} {source done : List Char}

/-- A scanner always tells a location that is counted in its source. -/
theorem counted_location (h : s.Behind t source done) : s.location.CountedIn source := by
  rw [Location.CountedIn, h.location_eq]
  exact ⟨h.index_le, rfl⟩

/-- A token and a failure are located where the scan stands before or after them. -/
theorem counted_of_token (h : s.Behind t source done) :
    ∀ l ∈ resultLocations s.token.1, l.CountedIn source := by
  intro l hl
  cases hhalt : s.halt? with
  | some d =>
      -- the failure is given out again, and the scan has not moved since
      rw [token_of_halted hhalt] at hl
      obtain rfl := List.mem_singleton.mp hl
      rw [h.halt_eq d hhalt]
      exact h.counted_location
  | none =>
      obtain ⟨value, state, hlongest, -, htoken⟩ | ⟨stuck, -, hstuck, htoken⟩ := token_cases hhalt
      · obtain ⟨rest, hrest⟩ := hlongest.begins
        rw [htoken] at hl
        rcases List.mem_pair.mp hl with rfl | rfl
        · exact h.counted_location
        · exact (h.advance hhalt hrest).counted_location
      · obtain ⟨rest, hrest⟩ := hstuck.begins
        rw [htoken] at hl
        obtain rfl := List.mem_singleton.mp hl
        exact (h.advance hhalt hrest).counted_location

/-- The next token, or the failure in its place, tells locations that are counted in the source. -/
theorem counted_of_next (h : s.Behind t source done) :
    ∀ l ∈ (Answer.next s.next.1).locations, l.CountedIn source := by
  obtain ⟨gap, hgap⟩ := h.skipGap
  obtain ⟨-, hnext⟩ | ⟨-, hnext⟩ := next_cases s
  · simp [hnext, Answer.locations]
  · simpa [hnext, Answer.locations] using hgap.counted_of_token

/-- All locations in an answer are counted in the source. -/
theorem counted_of_perform (h : s.Behind t source done) (o : Operation) :
    ∀ l ∈ (s.perform o).1.locations, l.CountedIn source := by
  cases o with
  | skip => simp [Scanner.perform, Answer.locations]
  | token => exact h.counted_of_token
  | next => exact h.counted_of_next
  | peek => simp [Scanner.perform, Answer.locations]

end Scanner.Behind

/-- After any operations a cursor stands in its source, its line and the beginning of its line are
the counted ones, and the next operation tells counted locations only. -/
theorem cursor_and_answers_counted (t : Table) (source : String) (os : List Operation) :
    let s := (Scanner.start t source).after os
    let text := source.toList
    s.cursor.index ≤ text.length ∧
    s.cursor.line = Text.lineNumber text s.cursor.index ∧
    s.cursor.lineStart = Text.lineStart text s.cursor.index ∧
    s.cursor.lineStart ≤ s.cursor.index ∧
    ∀ o, ∀ l ∈ (s.perform o).1.locations, l.CountedIn text := by
  intro s text
  obtain ⟨done, hs⟩ := Scanner.behind_after t source os
  have hcursor : s.cursor = Cursor.counted text s.cursor.index := by
    rw [hs.index_eq]
    exact hs.cursor_eq_counted
  have hstart : s.cursor.lineStart = Text.lineStart text s.cursor.index :=
    congrArg Cursor.lineStart hcursor
  refine ⟨?_, congrArg Cursor.line hcursor, hstart, ?_, hs.counted_of_perform⟩
  · rw [hs.index_eq]
    exact hs.index_le
  · rw [hstart]
    exact Text.lineStart_le text s.cursor.index

/-- Behind empty lines a number is read, and the point behind it fails. -/
theorem cursor_and_answers_counted_numbers :
    let s := (Scanner.start .numbers "\n\n12.\n").after [.peek, .skip, .token]
    s.cursor.line = 3 ∧ ∃ l ∈ (s.perform .token).1.locations, l.CountedIn "\n\n12.\n".toList := by
  intro s
  obtain ⟨-, hline, -, -, hcounted⟩ :=
    cursor_and_answers_counted .numbers "\n\n12.\n" [.peek, .skip, .token]
  have hfailure : ⟨4, 3, 3⟩ ∈ (s.perform .token).1.locations := by decide +kernel
  refine ⟨hline.trans ?_, ⟨4, 3, 3⟩, hfailure, hcounted .token _ hfailure⟩
  decide +kernel

end Munch
