import Mathlib.Data.List.Basic
import Munch.Proofs.Lines
import Munch.Table.Description
import Munch.Table.Step

/-!
# The grammar of descriptions

A line is legible as a row or it has a fault, and the first fault of a description decides. Both
notions speak of fields and characters only. From what a single line reads as, an induction over the
lines tells what the rows of a description build or where they fail, with the place of each line
counted on the way.
-/

namespace Munch

/-- Whether a field writes a symbol: the name of a class, or a single character. -/
def Symbol.Written (field : List Char) : Prop :=
  (∃ k : CharClass, field = k.name.toList) ∨ ∃ c, field = [c]

/-- A name is looked up among the names of the classes. -/
theorem CharClass.exists_ofName?_eq_some_iff {name : String} :
    (∃ k, ofName? name = some k) ↔ ∃ k : CharClass, name = k.name := by
  rw [← Option.isSome_iff_exists, ofName?, List.find?_isSome]
  constructor
  · rintro ⟨k, -, hk⟩
    exact ⟨k, (beq_iff_eq.mp hk).symm⟩
  · rintro ⟨k, rfl⟩
    exact ⟨k, mem_all k, beq_self_eq_true _⟩

/-- A field is read as a symbol if it writes one, and is told in the failure if not. -/
theorem Symbol.ofField_cases (field : List Char) :
    (Written field ∧ ∃ s, ofField (String.ofList field) = .ok s) ∨
    (¬ Written field ∧
      ofField (String.ofList field) = .error (.unknownSymbol (String.ofList field))) := by
  have hclass : (∃ k : CharClass, field = k.name.toList) ↔
      ∃ k, CharClass.ofName? (String.ofList field) = some k := by
    rw [CharClass.exists_ofName?_eq_some_iff]
    exact exists_congr fun k => by rw [← String.toList_inj, String.toList_ofList]
  rw [Written, hclass, ofField, String.toList_ofList]
  cases CharClass.ofName? (String.ofList field) with
  | some k => exact Or.inl ⟨Or.inl ⟨k, rfl⟩, _, rfl⟩
  | none =>
      match field with
      | [] => exact Or.inr ⟨by simp, rfl⟩
      | [c] => exact Or.inl ⟨Or.inr ⟨c, rfl⟩, _, rfl⟩
      | c :: c' :: rest => exact Or.inr ⟨by simp, rfl⟩

namespace Row

/-- The lines that can stand from the third one on. -/
inductive Legible : List Char → Prop
  | remark {line : List Char} (hmark : line.head? = some remarkMark) : Legible line
  | blank {line : List Char} (hblank : ∀ c ∈ line, Text.isWhite c) : Legible line
  | edge {line source symbol target : List Char}
      (hfields : Text.Separated line [source, symbol, target]) (hsymbol : Symbol.Written symbol) :
      Legible line

/-- What is wrong with a line that cannot stand there. -/
inductive Fault : List Char → Cause → Prop
  | fields {line : List Char} {fs : List (List Char)} (hmark : line.head? ≠ some remarkMark)
      (hblank : ¬ ∀ c ∈ line, Text.isWhite c) (hfields : Text.Separated line fs)
      (hlength : fs.length ≠ 3) : Fault line (.malformedRow fs.length (String.ofList line))
  | symbol {line source symbol target : List Char} (hmark : line.head? ≠ some remarkMark)
      (hfields : Text.Separated line [source, symbol, target])
      (hsymbol : ¬ Symbol.Written symbol) : Fault line (.unknownSymbol (String.ofList symbol))

/-- A remark begins with its mark, without indentation, or is blank. -/
theorem isRemark_iff {line : List Char} :
    isRemark line ↔ line.head? = some remarkMark ∨ ∀ c ∈ line, Text.isWhite c := by
  rw [isRemark, Bool.or_eq_true, beq_iff_eq, Text.isBlank, List.all_eq_true]

/-- The words of a line are its fields. -/
theorem words_ofList (line : List Char) :
    Text.words (String.ofList line) = (Text.fields line).map String.ofList := by
  rw [Text.words, String.toList_ofList]

/-- A line with any other number of fields is malformed. -/
theorem ofLine_of_length_ne {line : List Char} (hremark : ¬ isRemark line)
    (hlength : (Text.fields line).length ≠ 3) :
    ofLine (String.ofList line) =
      .error (.malformedRow (Text.fields line).length (String.ofList line)) := by
  rw [ofLine, String.toList_ofList, if_neg hremark, words_ofList]
  split
  · rename_i hwords
    have hthree := congrArg List.length hwords
    rw [List.length_map] at hthree
    exact absurd hthree hlength
  · rw [List.length_map]

/-- A line is read if it is legible, and its fault is told if not. -/
theorem ofLine_cases (line : List Char) :
    (Legible line ∧ ∃ row, ofLine (String.ofList line) = .ok row) ∨
    (∃ cause, Fault line cause ∧ ofLine (String.ofList line) = .error cause) := by
  have hfields : Text.Separated line (Text.fields line) := Text.fields_eq_iff.mp rfl
  by_cases hremark : isRemark line
  · refine Or.inl ⟨?_, .remark, by rw [ofLine, String.toList_ofList, if_pos hremark]⟩
    rcases isRemark_iff.mp hremark with hmark | hblank
    · exact .remark hmark
    · exact .blank hblank
  have hnot := mt isRemark_iff.mpr hremark
  rw [not_or] at hnot
  by_cases hlength : (Text.fields line).length = 3
  · obtain ⟨source, symbol, target, hthree⟩ := List.length_eq_three.mp hlength
    have hline : ofLine (String.ofList line) = (Symbol.ofField (String.ofList symbol)).map
        (edge (String.ofList source) · (String.ofList target)) := by
      rw [ofLine, String.toList_ofList, if_neg hremark, words_ofList, hthree]
      rfl
    rw [hthree] at hfields
    rcases Symbol.ofField_cases symbol with ⟨hsymbol, s, hs⟩ | ⟨hsymbol, herror⟩
    · exact Or.inl ⟨.edge hfields hsymbol, _, by rw [hline, hs]; rfl⟩
    · exact Or.inr ⟨_, .symbol hnot.1 hfields hsymbol, by rw [hline, herror]; rfl⟩
  · exact Or.inr ⟨_, .fields hnot.1 hnot.2 hfields hlength, ofLine_of_length_ne hremark hlength⟩

/-- No line is legible and has a fault. -/
theorem Fault.not_legible {line : List Char} {cause : Cause} (h : Fault line cause) :
    ¬ Legible line := by
  intro hlegible
  cases h with
  | fields hmark hblank hfields hlength =>
      cases hlegible with
      | remark hmark' => exact hmark hmark'
      | blank hblank' => exact hblank hblank'
      | edge hfields' _ => exact hlength (congrArg List.length (hfields.unique hfields'))
  | symbol hmark hfields hsymbol =>
      cases hlegible with
      | remark hmark' => exact hmark hmark'
      | blank hblank' => exact List.cons_ne_nil _ _ (hfields.unique (.blank hblank'))
      | edge hfields' hsymbol' =>
          obtain ⟨rfl, rfl, rfl⟩ : _ ∧ _ ∧ _ := by simpa using hfields.unique hfields'
          exact hsymbol hsymbol'

end Row

/-- The steps that rows are, each one with its location. -/
def Step.ofRows (locate : Nat → Location) (rows : List (List Char)) : List Step :=
  rows.mapIdx fun n row => .line (String.ofList row) (locate n)

/-- Rows are made into steps one by one, each with its own location. -/
theorem Step.ofRows_cons (locate : Nat → Location) (row : List Char) (rows : List (List Char)) :
    ofRows locate (row :: rows) =
      .line (String.ofList row) (locate 0) :: ofRows (fun n => locate (n + 1)) rows :=
  List.mapIdx_cons

namespace Table

open Text (cutLines trimmedLines fileLines chomp)

variable {t : Table} {row : Row} {cause : Cause} {line : List Char}

/-- The table that the two headers and the rows make up. -/
def ofLines (locate : Nat → Location) (accepting reserved : List (List Char))
    (rows : List (List Char)) : Table :=
  ofSteps (.accept (accepting.map String.ofList) :: .reserve (reserved.map String.ofList) ::
    Step.ofRows locate rows)

/-- A line that is read is a step that adds its row. -/
theorem step_line_of_ok (hrow : Row.ofLine (String.ofList line) = .ok row) (l : Location) :
    t.step (.line (String.ofList line) l) = t.addRow row := by
  simp only [step, step?, addLine, hrow]

/-- Behind a line that is read, reading goes on one line below. -/
theorem addLines_cons_of_ok (hrow : Row.ofLine (String.ofList (chomp line)) = .ok row)
    (l : Location) (rest : List (List Char)) : t.addLines l (line :: rest) =
      (t.addRow row).addLines ⟨l.index + line.length + 1, l.line + 1, 1⟩ rest := by
  simp only [addLines, addLine, hrow]

/-- The first line that cannot be read decides, and the failure stands at its beginning. -/
theorem addLines_cons_of_error (hcause : Row.ofLine (String.ofList (chomp line)) = .error cause)
    (l : Location) (rest : List (List Char)) :
    t.addLines l (line :: rest) = .error ⟨cause, l⟩ := by
  simp only [addLines, addLine, hcause]

/-- Rows are added one after the other, wherever they stand, up to the first one with a fault. -/
theorem addLines_cases (lines : List (List Char)) (t : Table) (i k : Nat) :
    ((∀ row ∈ lines.map chomp, Row.Legible row) ∧ ∀ locate,
      t.addLines ⟨i, k, 1⟩ lines = .ok (t.steps (Step.ofRows locate (lines.map chomp)))) ∨
    (∃ before line after cause, lines = before ++ line :: after ∧
      (∀ row ∈ before.map chomp, Row.Legible row) ∧ Row.Fault (chomp line) cause ∧
      t.addLines ⟨i, k, 1⟩ lines =
        .error ⟨cause, ⟨i + (before.flatMap (· ++ ['\n'])).length, k + before.length, 1⟩⟩) := by
  induction lines generalizing t i k with
  | nil => exact Or.inl ⟨by simp, fun _ => rfl⟩
  | cons line rest ih =>
      rcases Row.ofLine_cases (chomp line) with ⟨hlegible, row, hrow⟩ | ⟨cause, hfault, hcause⟩
      -- a row that is read stands before all that is known of the rest
      · have hline := addLines_cons_of_ok (t := t) hrow ⟨i, k, 1⟩ rest
        rcases ih (t.addRow row) (i + line.length + 1) (k + 1) with
          ⟨hrows, hok⟩ | ⟨before, line', after, cause, rfl, hrows, hfault, herror⟩
        · refine Or.inl ⟨List.forall_mem_cons.mpr ⟨hlegible, hrows⟩, fun locate => ?_⟩
          rw [hline, hok fun n => locate (n + 1), List.map_cons, Step.ofRows_cons, steps, steps,
            List.foldl_cons, step_line_of_ok hrow]
        · refine Or.inr ⟨line :: before, line', after, cause, rfl,
            List.forall_mem_cons.mpr ⟨hlegible, hrows⟩, hfault, ?_⟩
          rw [hline, herror, List.flatMap_cons, List.length_append, List.length_append,
            List.length_singleton, List.length_cons]
          congr 3 <;> omega
      · refine Or.inr ⟨[], line, rest, cause, rfl, by simp, hfault, ?_⟩
        rw [addLines_cons_of_error hcause]
        rfl

/-- Behind the two headers all is rows. -/
theorem ofDescription_eq_addLines {d : String} {accepting reserved : List Char}
    {rows : List (List Char)} (hfile : fileLines d.toList = accepting :: reserved :: rows) :
    ofDescription d =
      (ofLines (fun _ => .first) (Text.fields (chomp accepting)) (Text.fields (chomp reserved))
        []).addLines ⟨accepting.length + reserved.length + 2, 3, 1⟩ rows := by
  simp only [ofDescription, hfile, Row.words_ofList, Text.fields_chomp]
  rfl

/-- A description lacks a header, or all of its rows are legible, or the first one that is not has
a fault. -/
theorem ofDescription_cases (d : String) :
    let lines := trimmedLines d.toList
    (lines.length < 2 ∧ ofDescription d =
      .error ⟨.missingHeader (if lines = [] then "accepting states" else "reserved words"),
        ⟨d.toList.length, lines.length + 1, 1⟩⟩) ∨
    (∃ accepting reserved rows, lines = accepting :: reserved :: rows ∧
      (∀ row ∈ rows, Row.Legible row) ∧ ∀ locate, ofDescription d =
        .ok (ofLines locate (Text.fields accepting) (Text.fields reserved) rows)) ∨
    (∃ before line after cause, lines = before ++ line :: after ∧ 2 ≤ before.length ∧
      (∀ row ∈ before.drop 2, Row.Legible row) ∧ Row.Fault line cause ∧
      ofDescription d = .error ⟨cause,
        ⟨((cutLines d.toList).take before.length).flatten.length, before.length + 1, 1⟩⟩) := by
  intro lines
  have hlines : lines = (fileLines d.toList).map chomp := Text.trimmedLines_eq d.toList
  rcases hfile : fileLines d.toList with _ | ⟨accepting, _ | ⟨reserved, rows⟩⟩
  · exact Or.inl ⟨by simp [hlines, hfile], by simp only [ofDescription, hlines, hfile]; rfl⟩
  · exact Or.inl ⟨by simp [hlines, hfile], by simp only [ofDescription, hlines, hfile]; rfl⟩
  have hread := ofDescription_eq_addLines hfile
  refine Or.inr ?_
  rcases addLines_cases rows _ _ 3 with
    ⟨hrows, hok⟩ | ⟨before, line, after, cause, rfl, hrows, hfault, herror⟩
  · refine Or.inl ⟨chomp accepting, chomp reserved, rows.map chomp, ?_, hrows, fun locate => ?_⟩
    · rw [hlines, hfile]
      rfl
    · rw [hread, hok locate]
      rfl
  · refine Or.inr ⟨chomp accepting :: chomp reserved :: before.map chomp, chomp line,
      after.map chomp, cause, ?_, by simp, hrows, hfault, ?_⟩
    · rw [hlines, hfile]
      simp
    · have hlt : before.length + 2 < (fileLines d.toList).length := by
        rw [hfile]
        simp
      have hindex : ((cutLines d.toList).take (before.length + 2)).flatten.length =
          accepting.length + reserved.length + 2 + (before.flatMap (· ++ ['\n'])).length := by
        rw [Text.flatten_take_cutLines hlt, hfile]
        simp only [List.take_succ_cons, List.take_left, List.flatMap_cons, List.length_append,
          List.length_singleton]
        omega
      rw [hread, herror, List.length_cons, List.length_cons, List.length_map, hindex]
      congr 3
      omega

/-- A description is cut into lines that make it up again. It is read exactly if two of them are
headers and all others are legible; then the headers and the rows, in order, make up the table. If
not, the fault of the first line that is not legible is told, with the place where this line begins,
and the line is the one that is looked up there; or a header is missing. -/
theorem ofDescription_grammar (d : String) :
    (cutLines d.toList).flatten = d.toList ∧
    ((∃ t, ofDescription d = .ok t) ↔ 2 ≤ (trimmedLines d.toList).length ∧
      ∀ row ∈ (trimmedLines d.toList).drop 2, Row.Legible row) ∧
    (∀ t, ofDescription d = .ok t → ∃ accepting reserved rows names words,
      trimmedLines d.toList = accepting :: reserved :: rows ∧
      Text.Separated accepting names ∧ Text.Separated reserved words ∧
      ∀ locate, t = ofLines locate names words rows) ∧
    (∀ e, ofDescription d = .error e → 2 ≤ (trimmedLines d.toList).length →
      ∃ before line after, trimmedLines d.toList = before ++ line :: after ∧ 2 ≤ before.length ∧
        (∀ row ∈ before.drop 2, Row.Legible row) ∧ Row.Fault line e.cause ∧
        e.location =
          ⟨((cutLines d.toList).take before.length).flatten.length, before.length + 1, 1⟩ ∧
        Text.lineAt? d.toList (before.length + 1) = some line) ∧
    ((trimmedLines d.toList).length < 2 → ofDescription d =
      .error ⟨.missingHeader
          (if trimmedLines d.toList = [] then "accepting states" else "reserved words"),
        ⟨d.toList.length, (trimmedLines d.toList).length + 1, 1⟩⟩) := by
  refine ⟨Text.flatten_cutLines d.toList, ?_⟩
  rcases ofDescription_cases d with ⟨hlength, herror⟩ |
    ⟨accepting, reserved, rows, hsplit, hrows, hok⟩ |
    ⟨before, line, after, cause, hsplit, hbefore, hrows, hfault, herror⟩
  · refine ⟨?_, ?_, fun e _ h => absurd hlength (Nat.not_lt.mpr h), fun _ => herror⟩
    · simp [herror, Nat.not_le.mpr hlength]
    · simp [herror]
  · refine ⟨?_, ?_, ?_, ?_⟩
    · simpa [hok fun _ => .first, hsplit] using hrows
    · intro t ht
      refine ⟨accepting, reserved, rows, _, _, hsplit, Text.fields_eq_iff.mp rfl,
        Text.fields_eq_iff.mp rfl, fun locate => ?_⟩
      exact (Except.ok.inj ((hok locate).symm.trans ht)).symm
    · simp [hok fun _ => .first]
    · rw [hsplit]
      exact fun h => absurd h (by simp)
  · have hlength : 2 ≤ (trimmedLines d.toList).length := by
      rw [hsplit, List.length_append]
      omega
    -- the line with the fault is behind the headers, so not all rows are legible
    have hmem : line ∈ (trimmedLines d.toList).drop 2 := by
      rw [hsplit, List.drop_append_of_le_length hbefore]
      simp
    refine ⟨?_, ?_, ?_, fun h => absurd hlength (Nat.not_le.mpr h)⟩
    · simp only [herror, reduceCtorEq, exists_false, false_iff, not_and]
      exact fun _ h => hfault.not_legible (h line hmem)
    · simp [herror]
    · intro e he _
      obtain rfl := Except.error.inj (herror.symm.trans he)
      exact ⟨before, line, after, hsplit, hbefore, hrows, hfault, rfl, Text.lineAt?_of_split hsplit⟩

/-- Behind a remark and a row with a class, a row without a target is the first fault. -/
theorem ofDescription_grammar_short_row :
    let d := "whole\r\n\n# digits\ninit any_digit whole\r\ninit\u3000.\r\r\n"
    ofDescription d = .error ⟨.malformedRow 2 "init\u3000.", ⟨39, 5, 1⟩⟩ ∧
    ∃ line, Row.Fault line (.malformedRow 2 "init\u3000.") ∧
      Text.lineAt? d.toList 5 = some line := by
  intro d
  have hread : (ofDescription d).map (fun _ => ()) =
      .error ⟨.malformedRow 2 "init\u3000.", ⟨39, 5, 1⟩⟩ := by decide +kernel
  have herror : ofDescription d = .error ⟨.malformedRow 2 "init\u3000.", ⟨39, 5, 1⟩⟩ := by
    cases h : ofDescription d with
    | ok t => simp [h, Except.map] at hread
    | error e => simpa [h, Except.map] using hread
  have hgrammar := ofDescription_grammar d
  obtain ⟨before, line, after, -, -, -, hfault, hlocation, hline⟩ :=
    hgrammar.2.2.2.1 _ herror (by decide +kernel)
  have hplace : before.length + 1 = 5 := (congrArg Location.line hlocation).symm
  exact ⟨herror, line, hfault, hplace ▸ hline⟩

end Table

end Munch
