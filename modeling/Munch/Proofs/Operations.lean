import Munch.Proofs.Counting
import Munch.Proofs.Walk
import Munch.Scanner.Operation

/-!
# What the operations of a scanner do

One lemma for each operation says all that it can do, in terms of the longest accepted beginning of
the text that is left and not of walks. Every operation reads a number of characters, so a scanner
that any operations have led from the start of a source stands `Behind` a part of this source, and
its cursor is the counted one.
-/

namespace Munch.Scanner

variable {s : Scanner} {t : Table} {source done : List Char}

@[simp] theorem toList_value_cut {n : Nat} {state : StateId} :
    (s.cut n state).value.toList = s.rest.take n := by
  simp [cut]

@[simp] theorem isHalted_eq_false_iff : s.isHalted = false ↔ s.halt? = none := by
  simp [isHalted]

/-! ## One lemma for each operation -/

/-- What a scan has still to read once it has read the beginning of it. -/
theorem rest_advance {a b : List Char} (h : a ++ b = s.rest) : (s.advance a.length).rest = b := by
  simp [advance, ← h]

/-- The characters of gaps are the space, the tab and the newline, and no other white space. -/
theorem isGap_iff {c : Char} : isGap c ↔ c = ' ' ∨ c = '\t' ∨ c = '\n' := by
  simp only [isGap, Bool.or_eq_true, beq_iff_eq, or_assoc]

/-- Whether a text can stand between tokens. -/
def Gap (text : List Char) : Prop := ∀ c ∈ text, isGap c

/-- A gap may be empty. -/
theorem gap_nil : Gap [] := by simp [Gap]

/-- Two gaps in a row are one. -/
theorem Gap.append {a b : List Char} (h : Gap a) (h' : Gap b) : Gap (a ++ b) :=
  List.forall_mem_append.mpr ⟨h, h'⟩

/-- One character can be a gap. -/
theorem gap_singleton {c : Char} (hc : isGap c) : Gap [c] := List.forall_mem_singleton.mpr hc

/-- Whether a token can begin with a text: it has a first character, and no gap would take it. -/
def AtToken (text : List Char) : Prop := ∃ c, text.head? = some c ∧ ¬ isGap c

/-- Whether a token can begin is decided by the first character. -/
theorem AtToken.of_append {value rest : List Char} (h : AtToken (value ++ rest))
    (hne : value ≠ []) : AtToken value := by
  rwa [AtToken, List.head?_append_of_ne_nil _ hne] at h

/-- If a token can begin with a text, it can whatever follows. -/
theorem AtToken.append {text : List Char} (h : AtToken text) (more : List Char) :
    AtToken (text ++ more) := by
  obtain ⟨c, hhead, hc⟩ := h
  obtain ⟨rest, rfl⟩ := List.head?_eq_some_iff.mp hhead
  exact ⟨c, rfl, hc⟩

/-- No token begins at the end of a text. -/
theorem AtToken.ne_nil {text : List Char} (h : AtToken text) : text ≠ [] := by
  obtain ⟨c, hc, -⟩ := h
  intro hnil
  simp [hnil] at hc

/-- A scan that is not halted reads a gap, behind which it is at its end or at a token. -/
theorem skipGap_cases (h : s.halt? = none) :
    ∃ gap rest, Gap gap ∧ gap ++ rest = s.rest ∧ (rest = [] ∨ AtToken rest) ∧
      s.skipGap = s.advance gap.length := by
  refine ⟨s.rest.takeWhile isGap, s.rest.dropWhile isGap, ?_, List.takeWhile_append_dropWhile, ?_,
    by simp [skipGap, isHalted, h]⟩
  · exact List.all_eq_true.mp List.all_takeWhile
  · have hhead := List.head?_dropWhile_not isGap s.rest
    cases hrest : s.rest.dropWhile isGap with
    | nil => exact Or.inl rfl
    | cons c rest =>
        rw [hrest] at hhead
        exact Or.inr ⟨c, rfl, by simpa using hhead⟩

/-- A halted scan skips nothing. -/
theorem skipGap_of_halted {d : Diagnostic} (h : s.halt? = some d) : s.skipGap = s := by
  simp [skipGap, isHalted, h]

/-- A scan that is not halted cuts the longest accepted beginning, or halts where its text is
stuck. -/
theorem token_cases (h : s.halt? = none) :
    (∃ value state, s.table.Longest s.rest value ∧
      s.table.drive Table.initial value = some state ∧
      s.token = (.ok (s.cut value.length state), s.advance value.length)) ∨
    (∃ stuck, s.table.Rejects s.rest ∧ s.table.Stuck s.rest stuck ∧
      s.token = (.error (s.advance stuck.length).failure, (s.advance stuck.length).halt)) := by
  obtain ⟨stuck, hstuck, hcrossed, hremembers⟩ := s.table.walk_spec s.rest
  cases hbest : (s.table.walk s.rest).accepted? with
  | none =>
      rw [hbest] at hremembers
      exact Or.inr ⟨stuck, hremembers, hstuck, by simp [token, h, hbest, hcrossed]⟩
  | some best =>
      obtain ⟨length, state⟩ := best
      rw [hbest] at hremembers
      obtain ⟨value, hlongest, rfl, hdrive⟩ := hremembers
      exact Or.inl ⟨value, state, hlongest, hdrive, by simp [token, h, hbest]⟩

/-- A halted scan fails in the same way again. -/
theorem token_of_halted {d : Diagnostic} (h : s.halt? = some d) : s.token = (.error d, s) := by
  simp [token, h]

/-- Behind the gap a scan ends or asks for a token. -/
theorem next_cases (s : Scanner) :
    (s.skipGap.isReady = false ∧ s.next = (none, s.skipGap)) ∨
    (s.skipGap.isReady = true ∧ s.next = (some s.skipGap.token.1, s.skipGap.token.2)) := by
  cases h : s.skipGap.isReady <;> simp [next, h]

/-- A scan has no token left if none can be asked for behind the gap. -/
theorem next_eq_none_iff {s' : Scanner} :
    s.next = (none, s') ↔ s.skipGap.isReady = false ∧ s.skipGap = s' := by
  obtain ⟨hready, hnext⟩ | ⟨hready, hnext⟩ := next_cases s <;> simp [hnext, hready]

/-- Otherwise its answer is that of asking for a token there. -/
theorem next_eq_some_iff {r : Except Diagnostic Token} {s' : Scanner} :
    s.next = (some r, s') ↔ s.skipGap.isReady = true ∧ s.skipGap.token = (r, s') := by
  obtain ⟨hready, hnext⟩ | ⟨hready, hnext⟩ := next_cases s <;> simp [hnext, hready, Prod.ext_iff]

/-! ## Where a scanner stands -/

/-- `s` scans `source` by the table `t` and stands behind `done`. If it is halted, it is so by the
failure that belongs to this place. -/
structure Behind (s : Scanner) (t : Table) (source done : List Char) : Prop where
  table_eq : s.table = t
  append_rest : done ++ s.rest = source
  cursor_eq : s.cursor = Cursor.first.crossAll done
  halt_eq : ∀ d, s.halt? = some d → d = s.failure

/-- The token of a value that stands behind a text and leads to a state. -/
def tokenBehind (t : Table) (before value : List Char) (state : StateId) : Token :=
  ⟨t.kindOf (String.ofList value) state, String.ofList value,
    ⟨.behind before, .behind (before ++ value)⟩⟩

/-- The failure of a walk that is stopped between two texts. -/
def failureBetween (before rest : List Char) : Diagnostic :=
  ⟨.unexpectedCharacter rest.head?, .behind before⟩

/-- A scan starts with nothing behind it. -/
theorem behind_start (t : Table) (source : String) :
    (start t source).Behind t source.toList [] :=
  ⟨rfl, rfl, rfl, by simp [start]⟩

namespace Behind

/-- The cursor of a scanner is the counted one. -/
theorem cursor_eq_counted (h : s.Behind t source done) :
    s.cursor = Cursor.counted source done.length := by
  rw [h.cursor_eq, ← h.append_rest]
  exact Cursor.crossAll_eq_counted done s.rest

/-- The index counts the characters behind the scan. -/
theorem index_eq (h : s.Behind t source done) : s.cursor.index = done.length := by
  rw [h.cursor_eq_counted]
  rfl

/-- The location of a scan is counted over what is behind it. -/
theorem location_eq (h : s.Behind t source done) :
    s.location = Location.counted source done.length := by
  rw [location, h.cursor_eq_counted, Cursor.location_counted]

/-- The location of a scan is the one behind the text that it has read, whatever is left. -/
theorem location_eq_behind (h : s.Behind t source done) : s.location = Location.behind done := by
  rw [h.location_eq, ← h.append_rest]
  exact Location.counted_append done s.rest

/-- A scan never stands outside its source. -/
theorem index_le (h : s.Behind t source done) : done.length ≤ source.length := by
  simp [← h.append_rest]

/-- What is left is the source from the index on. -/
theorem rest_eq (h : s.Behind t source done) : s.rest = source.drop s.cursor.index := by
  rw [h.index_eq, ← h.append_rest, List.drop_left]

/-- A scan that is not halted moves on by what it reads. -/
theorem advance (h : s.Behind t source done) (hlive : s.halt? = none) {a b : List Char}
    (hrest : a ++ b = s.rest) : (s.advance a.length).Behind t source (done ++ a) := by
  refine ⟨h.table_eq, ?_, ?_, ?_⟩
  · rw [rest_advance hrest, List.append_assoc, hrest]
    exact h.append_rest
  · rw [Cursor.crossAll_append, ← h.cursor_eq]
    simp [Scanner.advance, ← hrest]
  · simp [Scanner.advance, hlive]

/-- The token that a scan cuts from the text before it. -/
theorem cut_eq (h : s.Behind t source done) (hlive : s.halt? = none) {value rest : List Char}
    (hrest : value ++ rest = s.rest) (state : StateId) :
    s.cut value.length state = tokenBehind t done value state := by
  have htake : s.rest.take value.length = value := by rw [← hrest, List.take_left]
  simp only [cut, tokenBehind, htake, h.table_eq, h.location_eq_behind,
    (h.advance hlive hrest).location_eq_behind]

/-- The failure of a walk over the text before a scan. -/
theorem failure_advance (h : s.Behind t source done) (hlive : s.halt? = none)
    {stuck rest : List Char} (hrest : stuck ++ rest = s.rest) :
    (s.advance stuck.length).failure = failureBetween (done ++ stuck) rest := by
  simp only [failure, peek?, failureBetween, rest_advance hrest,
    (h.advance hlive hrest).location_eq_behind]

/-- Halting does not move a scan. -/
theorem halt (h : s.Behind t source done) : s.halt.Behind t source done := by
  refine ⟨h.table_eq, h.append_rest, h.cursor_eq, ?_⟩
  intro d hd
  simp only [Scanner.halt, Option.some.injEq] at hd
  rw [← hd]
  rfl

/-- Skipping reads on. -/
theorem skipGap (h : s.Behind t source done) :
    ∃ more, s.skipGap.Behind t source (done ++ more) := by
  cases hhalt : s.halt? with
  | some d => exact ⟨[], by simpa [skipGap_of_halted hhalt] using h⟩
  | none =>
      obtain ⟨gap, rest, -, hrest, -, hskip⟩ := skipGap_cases hhalt
      rw [hskip]
      exact ⟨gap, h.advance hhalt hrest⟩

/-- Cutting a token reads on, and so does failing. -/
theorem token (h : s.Behind t source done) :
    ∃ more, s.token.2.Behind t source (done ++ more) := by
  cases hhalt : s.halt? with
  | some d => exact ⟨[], by simpa [token_of_halted hhalt] using h⟩
  | none =>
      obtain ⟨value, state, hlongest, -, htoken⟩ | ⟨stuck, -, hstuck, htoken⟩ := token_cases hhalt
      · obtain ⟨rest, hrest⟩ := hlongest.begins
        rw [htoken]
        exact ⟨value, h.advance hhalt hrest⟩
      · obtain ⟨rest, hrest⟩ := hstuck.begins
        -- a failure is not taken back: the scan stays where the walk was stopped
        rw [htoken]
        exact ⟨stuck, (h.advance hhalt hrest).halt⟩

/-- Asking for the next token reads on, as both of its parts do. -/
theorem next (h : s.Behind t source done) :
    ∃ more, s.next.2.Behind t source (done ++ more) := by
  obtain ⟨gap, hgap⟩ := h.skipGap
  obtain ⟨-, hnext⟩ | ⟨-, hnext⟩ := next_cases s
  · rw [hnext]
    exact ⟨gap, hgap⟩
  · obtain ⟨more, hmore⟩ := hgap.token
    rw [hnext]
    exact ⟨gap ++ more, by rwa [← List.append_assoc]⟩

/-- No operation moves a scan backward or out of its source. -/
theorem perform (h : s.Behind t source done) (o : Operation) :
    ∃ more, (s.perform o).2.Behind t source (done ++ more) := by
  cases o with
  | skip => exact h.skipGap
  | token => exact h.token
  | next => exact h.next
  | peek => exact ⟨[], by simpa [Scanner.perform] using h⟩

/-- Any list of operations reads on. -/
theorem after (h : s.Behind t source done) (os : List Operation) :
    ∃ more, (s.after os).Behind t source (done ++ more) := by
  induction os generalizing s done with
  | nil => exact ⟨[], by simpa [Scanner.after] using h⟩
  | cons o os ih =>
      obtain ⟨more, hmore⟩ := h.perform o
      obtain ⟨rest, hrest⟩ := ih hmore
      exact ⟨more ++ rest, by rwa [← List.append_assoc]⟩

end Behind

/-- Whatever operations lead from the start of a source, they lead behind a part of it. -/
theorem behind_after (t : Table) (source : String) (os : List Operation) :
    ∃ done, ((start t source).after os).Behind t source.toList done := by
  obtain ⟨done, hdone⟩ := (behind_start t source).after os
  exact ⟨done, hdone⟩

end Munch.Scanner
