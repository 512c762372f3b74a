import Munch.Proofs.Printing
import Munch.Proofs.SourceLines

/-!
# Where the caret points

The last two lines of a report are the source line, as it is shown, and the line of the caret.
`marked?` reads off a report which character stands above the caret, and `marked?_report` finds it
in the line as it is shown. The spaces that are left out before this line are taken off the column
as well, so the caret points at the character at which the source failed, unless this is one of
these spaces itself.
-/

namespace Munch

namespace Text

/-- The character of a report that stands above its caret, if the line above it is so long. -/
def marked? (report : List Char) : Option Char :=
  match (fileLines report).reverse with
  | last :: shown :: _ => (last.idxOf? '^').bind (shown[·]?)
  | _ => none

/-- Whether the character at an index is one of the spaces with which its line begins. -/
def Indented (text : List Char) (i : Nat) : Prop :=
  ∀ k, lineStart text i ≤ k → k ≤ i → text[k]? = some ' '

variable {text shown dashes : List Char} {c : Char} {n : Nat}

/-! ## The last two lines of a text -/

/-- Of a text that ends in a line and the line of a caret, the character above the caret is the one
that has as many characters before it. -/
theorem marked?_append (text : List Char) (hshown : '\n' ∉ shown) (hdashes : '\n' ∉ dashes)
    (hcaret : '^' ∉ dashes) :
    marked? (text ++ '\n' :: (shown ++ '\n' :: (dashes ++ ['^', '\n']))) =
      shown[dashes.length]? := by
  have hlast : '\n' ∉ dashes ++ ['^'] := by simp [hdashes]
  have hlines : fileLines (dashes ++ ['^', '\n']) = [dashes ++ ['^']] := by
    simpa [fileLines] using fileLines_append_newline hlast []
  have hcolumn : (dashes ++ ['^']).idxOf? '^' = some dashes.length := by
    refine List.idxOf?_eq_some_iff.mpr ⟨by simp, by simp, ?_⟩
    intro k hk heq
    rw [List.getElem_append_left hk] at heq
    exact hcaret (heq ▸ List.getElem_mem hk)
  rw [marked?, fileLines_append, fileLines_append_newline hshown, hlines]
  simp [hcolumn]

/-! ## The line as it is shown -/

/-- What is left when the end is cut off is the front. -/
theorem dropEndWhile_isPrefix (p : Char → Bool) (text : List Char) :
    dropEndWhile p text <+: text := by
  obtain ⟨removed, -, happend⟩ := exists_append_dropEndWhile p text
  exact ⟨removed, happend⟩

/-- What stands in a front of a text stands at the same place in the text. -/
theorem getElem?_of_prefix {a b : List Char} (h : a <+: b) (hc : a[n]? = some c) :
    b[n]? = some c := by
  obtain ⟨hn, rfl⟩ := List.getElem?_eq_some_iff.mp hc
  exact List.prefix_iff_getElem?.mp h n hn

/-- How many spaces a line begins with. -/
def indentation (text : List Char) : Nat := (text.takeWhile (· == ' ')).length

/-- The indentation holds spaces only. -/
theorem getElem?_of_lt_indentation (hn : n < indentation text) : text[n]? = some ' ' := by
  have hprefix : text.takeWhile (· == ' ') <+: text := List.takeWhile_prefix _
  have hspace := List.mem_takeWhile_imp (List.getElem_mem hn)
  refine getElem?_of_prefix hprefix (List.getElem?_eq_some_iff.mpr ⟨hn, ?_⟩)
  exact beq_iff_eq.mp hspace

/-- Without its indentation a line is shifted by it. -/
theorem getElem?_dropWhile (text : List Char) (n : Nat) :
    (text.dropWhile (· == ' '))[n]? = text[indentation text + n]? := by
  calc (text.dropWhile (· == ' '))[n]?
      = (text.takeWhile (· == ' ') ++ text.dropWhile (· == ' '))[indentation text + n]? := by
        rw [indentation, List.getElem?_append_right (Nat.le_add_right _ n), Nat.add_sub_cancel_left]
    _ = text[indentation text + n]? := by rw [List.takeWhile_append_dropWhile]

/-- Behind the indentation stands no space, or nothing. -/
theorem getElem?_indentation_ne (text : List Char) : text[indentation text]? ≠ some ' ' := by
  have hhead := List.head?_dropWhile_not (· == ' ') text
  rw [List.head?_eq_getElem?, getElem?_dropWhile, Nat.add_zero] at hhead
  intro heq
  simp [heq] at hhead

end Text

namespace Diagnostic

variable {d : Diagnostic} {source file report : String} {c : Char}

/-- The number of a line in decimal digits. -/
def lineDigits (d : Diagnostic) : List Char := Nat.toDigits 10 d.location.line

/-- The line of the caret up to the caret: the margin, which is as wide as that of the shown line,
and a dash for each column before the caret. -/
def dashes (d : Diagnostic) (source : List Char) : List Char :=
  List.replicate (d.lineDigits.length + 1) ' ' ++ ['|', ' '] ++
    List.replicate (d.caretColumn source - 1) '-'

/-- A line number is written on one line. -/
theorem newline_not_mem_lineDigits (d : Diagnostic) : '\n' ∉ d.lineDigits := fun hmem =>
  absurd (Nat.isDigit_of_mem_toDigits (by decide) (by decide) hmem) (by decide)

/-- Before the caret stand the number, the three characters of the margin and the dashes. -/
theorem length_dashes (d : Diagnostic) (source : List Char) :
    (d.dashes source).length = d.lineDigits.length + 3 + (d.caretColumn source - 1) := by
  simp only [dashes, List.length_append, List.length_replicate, List.length_cons, List.length_nil]

/-- The last two lines of a report are the shown line and the line of the caret. -/
theorem exists_toList_report (h : d.report source file = .ok report) :
    ∃ above, report.toList = above ++ '\n' :: (d.lineDigits ++ [' ', '|', ' '] ++
      d.shownLine source.toList ++ '\n' :: (d.dashes source.toList ++ ['^', '\n'])) := by
  have hlength : (toString d.location.line).length = d.lineDigits.length := by
    rw [← String.length_toList]
    simp [lineDigits]
  refine ⟨(d.heading ++ "\n" ++ "-> " ++ file ++ "\n").toList ++
    (List.replicate (d.lineDigits.length + 1) ' ' ++ ['|']), ?_⟩
  simp only [Diagnostic.report, hlength] at h
  split at h
  · simp at h
  · rw [← Except.ok.inj h]
    simp [dashes, lineDigits]

/-- The caret stands under the character of the shown line that has as many characters before it as
the caret has dashes. -/
theorem marked?_report (hshown : '\n' ∉ d.shownLine source.toList)
    (h : d.report source file = .ok report) :
    Text.marked? report.toList =
      (d.shownLine source.toList)[d.caretColumn source.toList - 1]? := by
  obtain ⟨above, habove⟩ := exists_toList_report h
  have hline : '\n' ∉ d.lineDigits ++ [' ', '|', ' '] ++ d.shownLine source.toList := by
    simp [d.newline_not_mem_lineDigits, hshown]
  have hdashes : '\n' ∉ d.dashes source.toList := by simp [dashes]
  have hcaret : '^' ∉ d.dashes source.toList := by simp [dashes]
  rw [habove, Text.marked?_append above hline hdashes hcaret, length_dashes,
    List.getElem?_append_right (by simp)]
  simp

/-- What is shown of a line, and where: the characters behind its indentation. -/
theorem getElem?_of_shownLine {n : Nat} (h : (d.shownLine source.toList)[n]? = some c) :
    (d.sourceLine source.toList)[Text.indentation (d.sourceLine source.toList) + n]? = some c := by
  rw [← Text.getElem?_dropWhile]
  exact Text.getElem?_of_prefix (Text.dropEndWhile_isPrefix _ _) h

theorem caretColumn_eq (d : Diagnostic) (source : List Char) :
    d.caretColumn source = max 1 (d.location.column - Text.indentation (d.sourceLine source)) := rfl

end Diagnostic

open Text (Indented AtLine marked? indentation)

namespace Text.AtLine

variable {text before front back after line : List Char} {c : Char} {n : Nat}

/-- A character of the line, as it is looked up, stands in the text. -/
theorem getElem?_of_chomp (h : AtLine text before front back after)
    (hc : (chomp (front ++ back))[n]? = some c) : text[before.length + n]? = some c := by
  have hline := getElem?_of_prefix (dropEndWhile_isPrefix _ (front ++ back)) hc
  rw [← h.append_eq, List.getElem?_append_right (Nat.le_add_right _ n), Nat.add_sub_cancel_left,
    ← List.append_assoc]
  exact getElem?_of_prefix (List.prefix_append _ after) hline

/-- A space is not removed from the end of a line, so one at the place lies in what is looked up. -/
theorem length_front_lt (h : AtLine text before front back after)
    (hspace : text[before.length + front.length]? = some ' ') :
    front.length < (chomp (front ++ back)).length := by
  rw [← h.append_eq, List.getElem?_append_right (by omega), Nat.add_sub_cancel_left,
    List.getElem?_append_right (by omega), Nat.sub_self] at hspace
  have hback : back[0]? = some ' ' := by
    cases back with
    | nil => exact absurd (h.ends ' ' (by simpa [List.head?_eq_getElem?] using hspace)) (by decide)
    | cons c back => simpa using hspace
  obtain ⟨removed, hremoved, happend⟩ := exists_append_dropEndWhile (· == '\r') (front ++ back)
  by_contra hge
  have hle : (dropEndWhile (· == '\r') (front ++ back)).length ≤ front.length := Nat.not_lt.mp hge
  have hspace : (front ++ back)[front.length]? = some ' ' := by
    rw [List.getElem?_append_right (by omega), Nat.sub_self, hback]
  rw [← happend, List.getElem?_append_right hle] at hspace
  exact absurd (hremoved ' ' (List.mem_of_getElem? hspace)) (by decide)

/-- The place lies in the indentation exactly if it has less characters of the line before it than
the indentation has. -/
theorem indented_iff (h : AtLine text before front back after) :
    Indented text (before.length + front.length) ↔
      front.length < indentation (chomp (front ++ back)) := by
  rw [Indented, h.lineStart_eq]
  constructor
  · intro hspaces
    have hshown := h.length_front_lt (hspaces _ (Nat.le_add_right _ _) (Nat.le_refl _))
    by_contra hge
    have hlt : indentation (chomp (front ++ back)) < (chomp (front ++ back)).length := by omega
    have hget := List.getElem?_eq_getElem hlt
    have hspace := hspaces (before.length + indentation (chomp (front ++ back))) (by omega)
      (by omega)
    rw [h.getElem?_of_chomp hget] at hspace
    exact getElem?_indentation_ne _ (hget.trans hspace)
  · intro hlt k hk hle
    obtain ⟨n, rfl⟩ := Nat.exists_eq_add_of_le hk
    exact h.getElem?_of_chomp (getElem?_of_lt_indentation (by omega))

/-- A character of the line behind both the indentation and the place stands at the place, or is the
first one behind the spaces there if the place lies in the indentation. -/
theorem getElem?_of_max_indentation (h : AtLine text before front back after)
    (hc : (chomp (front ++ back))[max (indentation (chomp (front ++ back))) front.length]? =
      some c) :
    (¬ Indented text (before.length + front.length) →
      text[before.length + front.length]? = some c) ∧
    (Indented text (before.length + front.length) →
      ∃ n, text[before.length + front.length + n]? = some c ∧ c ≠ ' ' ∧
        ∀ k < n, text[before.length + front.length + k]? = some ' ') := by
  rw [h.indented_iff, Nat.not_lt]
  constructor
  · intro hle
    rw [Nat.max_eq_right hle] at hc
    exact h.getElem?_of_chomp hc
  · intro hspace
    rw [Nat.max_eq_left hspace.le] at hc
    refine ⟨indentation (chomp (front ++ back)) - front.length, ?_, ?_, ?_⟩
    · rw [Nat.add_assoc, Nat.add_sub_cancel' hspace.le]
      exact h.getElem?_of_chomp hc
    · rintro rfl
      exact getElem?_indentation_ne _ hc
    · intro k hk
      rw [Nat.add_assoc]
      exact h.getElem?_of_chomp (getElem?_of_lt_indentation (by omega))

end Text.AtLine

namespace Scanner.Behind

variable {s : Scanner} {t : Table} {source file report : String}
  {before front back after : List Char} {c : Char}

/-- The caret of a failure stands as many columns from the left as the line has characters before
the place, less the indentation. -/
theorem caretColumn_eq (hs : s.Behind t source.toList (before ++ front))
    (hline : AtLine source.toList before front back after) :
    s.failure.caretColumn source.toList =
      max 1 (front.length + 1 - indentation (Text.chomp (front ++ back))) := by
  have hlocation : s.failure.location = _ := hs.location_eq_of_atLine hline
  rw [Diagnostic.caretColumn_eq, hs.sourceLine_eq hline, hlocation]

/-- The caret of a failure stands under the character of its line that is behind both the front of
the line and its indentation. -/
theorem getElem?_of_marked (hs : s.Behind t source.toList (before ++ front))
    (hline : AtLine source.toList before front back after)
    (hreport : s.failure.report source file = .ok report) (hc : marked? report.toList = some c) :
    (Text.chomp (front ++ back))[max (indentation (Text.chomp (front ++ back))) front.length]? =
      some c := by
  have hsource := hs.sourceLine_eq hline
  have hnewline : '\n' ∉ s.failure.shownLine source.toList := fun hmem => by
    have hmem := (Text.dropEndWhile_isPrefix _ _).subset hmem
    have hmem := (List.dropWhile_suffix _).subset hmem
    rw [hsource] at hmem
    exact hline.newline_not_mem ((Text.dropEndWhile_isPrefix _ _).subset hmem)
  rw [Diagnostic.marked?_report hnewline hreport] at hc
  have hc := Diagnostic.getElem?_of_shownLine hc
  rw [hs.caretColumn_eq hline, hsource] at hc
  generalize Text.chomp (front ++ back) = line at hc ⊢
  -- the indentation is taken off the column, but not more than there is
  have hplace : indentation line + (max 1 (front.length + 1 - indentation line) - 1) =
      max (indentation line) front.length := by omega
  rwa [hplace] at hc

/-- In the indentation all of the column is taken off, and the caret stands in the first one. -/
theorem caretColumn_eq_one (hs : s.Behind t source.toList (before ++ front))
    (hline : AtLine source.toList before front back after)
    (h : Indented source.toList (before.length + front.length)) :
    s.failure.caretColumn source.toList = 1 := by
  have hlt := hline.indented_iff.mp h
  rw [hs.caretColumn_eq hline]
  omega

end Scanner.Behind

/-- The report on a failure of a source has its caret under the character at which the source
failed, if the line that is shown is so long. Only where this is one of the spaces with which the
line begins, and which are not shown, the caret stands in the first column and under the first
character behind them. -/
theorem caret_under_failure (t : Table) (source file : String) (d : Diagnostic)
    (hfails : t.tokens source = .error d) (hfits : d.caretColumn source.toList ≤ caretLimit) :
    let text := source.toList
    let i := d.location.index
    (Indented text i → d.caretColumn text = 1) ∧
    ∃ report, d.report source file = .ok report ∧ ∀ c, marked? report.toList = some c →
      (¬ Indented text i → text[i]? = some c) ∧
      (Indented text i →
        ∃ n, text[i + n]? = some c ∧ c ≠ ' ' ∧ ∀ k < n, text[i + k]? = some ' ') := by
  intro text i
  obtain ⟨hlt, -⟩ | ⟨-, report, hreport⟩ := d.report_cases source file
  · exact absurd hfits (Nat.not_le.mpr hlt)
  obtain ⟨s, done, hs, rfl⟩ := Table.exists_behind_of_tokens_eq_error hfails
  obtain ⟨before, front, back, after, rfl, hline, hlocation⟩ := hs.exists_atLine
  have hi : i = before.length + front.length := by
    rw [← List.length_append]
    exact congrArg Location.index hlocation
  rw [hi]
  exact ⟨hs.caretColumn_eq_one hline, report, hreport, fun c hc =>
    hline.getElem?_of_max_indentation (hs.getElem?_of_marked hline hreport hc)⟩

/-- Texts between angle brackets that can be broken over lines, but not indented. -/
def Table.folded : Table := ofSteps
  [.accept ["closed"], .connect "init" (.only '<') "open", .connect "open" (.anyOf .letter) "open",
    .connect "open" (.anyOf .newline) "open", .connect "open" (.only '>') "closed"]

/-- The second line begins with a space at which the source fails, but the caret stands under the
letter behind it: the report does not show the character that it is about. -/
theorem caret_not_under_indented_failure :
    ¬ ∀ (t : Table) (source file : String) (d : Diagnostic) (report : String),
      t.tokens source = .error d → d.caretColumn source.toList ≤ caretLimit →
      d.report source file = .ok report →
      ∀ c, marked? report.toList = some c → source.toList[d.location.index]? = some c := by
  intro hclaim
  have hspace := hclaim .folded "<a\n  b>" "main.src" ⟨.unexpectedCharacter (some ' '), ⟨3, 2, 1⟩⟩
    "Error: UnexpectedCharacter\n-> main.src\n  |\n2 | b>\n  | ^\n" (by decide +kernel)
    (by decide +kernel) (by decide +kernel) 'b' (by decide +kernel)
  simp at hspace

/-- A digit behind an indented bracket is what the caret points at. Where the indentation itself
fails, the caret stands in the first column. -/
theorem caret_under_failure_brackets :
    let source := "<a>\n  <b 7>"
    let d : Diagnostic := ⟨.unexpectedCharacter (some '7'), ⟨9, 2, 6⟩⟩
    let d' : Diagnostic := ⟨.unexpectedCharacter (some ' '), ⟨3, 2, 1⟩⟩
    (Table.brackets.tokens source = .error d ∧ d.caretColumn source.toList ≤ caretLimit ∧
      ∃ report, d.report source "main.src" = .ok report ∧ marked? report.toList = some '7' ∧
        source.toList[9]? = some '7') ∧
    Table.folded.tokens "<a\n  b>" = .error d' ∧ d'.caretColumn "<a\n  b>".toList = 1 := by
  intro source d d'
  have hfails : Table.brackets.tokens source = .error d := by decide +kernel
  have hfits : d.caretColumn source.toList ≤ caretLimit := by decide +kernel
  obtain ⟨-, report, hreport, hcaret⟩ :=
    caret_under_failure .brackets source "main.src" d hfails hfits
  have hshown : (d.report source "main.src").map (marked? ·.toList) = .ok (some '7') := by
    decide +kernel
  have hmarked : marked? report.toList = some '7' := by
    simpa [hreport, Except.map] using hshown
  have hfails' : Table.folded.tokens "<a\n  b>" = .error d' := by decide +kernel
  obtain ⟨hfirst, -⟩ :=
    caret_under_failure .folded "<a\n  b>" "main.src" d' hfails' (by decide +kernel)
  refine ⟨⟨hfails, hfits, report, hreport, hmarked, (hcaret '7' hmarked).1 fun hindented => ?_⟩,
    hfails', hfirst fun k hk hle => ?_⟩
  · have hspace := hindented 9 (Text.lineStart_le _ 9) (Nat.le_refl 9)
    simp [source] at hspace
  · have hstart : Text.lineStart "<a\n  b>".toList 3 = 3 := by decide +kernel
    obtain rfl : k = 3 := Nat.le_antisymm hle (hstart.symm.le.trans hk)
    decide

end Munch
