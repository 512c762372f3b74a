import Mathlib.Data.Nat.Find
import Munch.Location

/-!
# Locations by counting

A cursor keeps its line and the index at which that line begins as it crosses characters. Here both
are counted over the text before an index instead, and `crossAll_take` shows that a cursor which
crossed that text has just these.
-/

namespace Munch

namespace Text

/-- The line of an index: one more than the newlines before it. -/
def lineNumber (text : List Char) (i : Nat) : Nat := 1 + (text.take i).count '\n'

/-- The beginning of the line of an index: the greatest index up to it that has a newline just
before it, or else zero. -/
def lineStart (text : List Char) (i : Nat) : Nat :=
  Nat.findGreatest (fun k => text[k - 1]? = some '\n') i

/-- A line does not begin behind any of its places. -/
theorem lineStart_le (text : List Char) (i : Nat) : lineStart text i ≤ i := Nat.findGreatest_le i

/-- The line number goes up behind each newline and nowhere else. -/
theorem lineNumber_succ {text : List Char} {i : Nat} (h : i < text.length) :
    lineNumber text (i + 1) = lineNumber text i + if text[i] = '\n' then 1 else 0 := by
  rw [lineNumber, lineNumber, List.take_succ_eq_append_getElem h, List.count_append, Nat.add_assoc]
  simp [List.count_singleton]

/-- A line begins behind each newline, and it stays the same line up to the next one. -/
theorem lineStart_succ {text : List Char} {i : Nat} (h : i < text.length) :
    lineStart text (i + 1) = if text[i] = '\n' then i + 1 else lineStart text i := by
  have hget : text[i]? = some text[i] := List.getElem?_eq_getElem h
  simp only [lineStart, Nat.findGreatest_succ, Nat.add_sub_cancel, hget, Option.some.injEq]

end Text

/-- The location of an index of a text. -/
def Location.counted (text : List Char) (i : Nat) : Location :=
  ⟨i, Text.lineNumber text i, i - Text.lineStart text i + 1⟩

/-- The location behind a text. -/
def Location.behind (text : List Char) : Location := counted text text.length

@[simp] theorem Location.index_behind (text : List Char) : (behind text).index = text.length := rfl

namespace Cursor

variable {text : List Char} {i : Nat}

/-- The cursor at an index of a text. -/
def counted (text : List Char) (i : Nat) : Cursor :=
  ⟨i, Text.lineNumber text i, Text.lineStart text i⟩

@[simp] theorem location_counted : (counted text i).location = Location.counted text i := rfl

/-- A cursor crosses a text part by part. -/
theorem crossAll_append {k : Cursor} {a b : List Char} :
    k.crossAll (a ++ b) = (k.crossAll a).crossAll b := by
  simp only [crossAll, List.foldl_append]

/-- The index goes up by one with each character. -/
theorem index_crossAll (k : Cursor) (a : List Char) :
    (k.crossAll a).index = k.index + a.length := by
  induction a generalizing k with
  | nil => rfl
  | cons c a ih =>
      have hcross : (k.cross c).index = k.index + 1 := by
        simp only [cross]
        split <;> rfl
      rw [crossAll, List.foldl_cons, ← crossAll, ih, hcross, List.length_cons]
      omega

/-- Crossing the next character counts it. -/
theorem cross_counted (h : i < text.length) :
    (counted text i).cross text[i] = counted text (i + 1) := by
  simp only [counted, cross, Text.lineNumber_succ h, Text.lineStart_succ h]
  split <;> simp

/-- The cursor that crossed the text before an index is the counted one. -/
theorem crossAll_take (h : i ≤ text.length) : first.crossAll (text.take i) = counted text i := by
  induction i with
  | zero => simp [crossAll, counted, first, Text.lineNumber, Text.lineStart]
  | succ i ih =>
      rw [List.take_succ_eq_append_getElem h, crossAll_append, ih (Nat.le_of_lt h)]
      exact cross_counted h

/-- The same of a text that is given in two parts. -/
theorem crossAll_eq_counted (a b : List Char) : first.crossAll a = counted (a ++ b) a.length := by
  have h : first.crossAll ((a ++ b).take a.length) = counted (a ++ b) a.length :=
    crossAll_take (by simp)
  rwa [List.take_left] at h

end Cursor

/-- The location behind a text is that of a cursor that crossed it. -/
theorem Location.behind_eq (text : List Char) :
    behind text = (Cursor.first.crossAll text).location := by
  have h := Cursor.crossAll_eq_counted text []
  rw [List.append_nil] at h
  rw [h]
  rfl

/-- What follows a place in a text does not count for its location. -/
theorem Location.counted_append (a b : List Char) : counted (a ++ b) a.length = behind a := by
  rw [behind_eq, Cursor.crossAll_eq_counted a b]
  rfl

/-! ## Locations character by character -/

/-- The location behind one more character: the next column, or the first one of the next line. -/
def Location.cross (l : Location) (c : Char) : Location :=
  if c = '\n' then ⟨l.index + 1, l.line + 1, 1⟩ else ⟨l.index + 1, l.line, l.column + 1⟩

/-- A cursor and its location cross a character alike. -/
theorem Cursor.location_cross {k : Cursor} (h : k.lineStart ≤ k.index) (c : Char) :
    (k.cross c).location = k.location.cross c := by
  unfold Cursor.cross Location.cross
  split
  · simp [location]
  · simp only [location, Location.mk.injEq, true_and]
    omega

@[simp] theorem Location.behind_nil : behind [] = first := behind_eq []

/-- The location behind a text is found by crossing it. -/
theorem Location.behind_concat (text : List Char) (c : Char) :
    behind (text ++ [c]) = (behind text).cross c := by
  have hstart : (Cursor.first.crossAll text).lineStart ≤ (Cursor.first.crossAll text).index := by
    rw [Cursor.crossAll_eq_counted text []]
    exact Text.lineStart_le _ _
  rw [behind_eq, behind_eq, Cursor.crossAll_append]
  exact Cursor.location_cross hstart c

/-- Lines are counted from one. -/
theorem Location.one_le_line_behind (text : List Char) : 1 ≤ (behind text).line :=
  Nat.le_add_right 1 _

/-- Columns are counted from one. -/
theorem Location.one_le_column_behind (text : List Char) : 1 ≤ (behind text).column :=
  Nat.le_add_left 1 _

end Munch
