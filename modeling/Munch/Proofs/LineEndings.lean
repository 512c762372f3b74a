import Mathlib.Data.List.Infix
import Munch.Proofs.Grammar

/-!
# The line endings of a description

Line endings of two characters can be written as one before a description is read, or they can be
left to the reading of its lines. The lines are the same, and `ofDescription_congr` tells that
nothing else of a description counts, apart from where each line begins; `unixEndings_flatten_take`
tells what is written before a line in both cases.
-/

namespace Munch

namespace Text

variable {body rest text : List Char} {n : Nat}

/-- How often a carriage return and a newline follow each other in a text. -/
def countPairs (text : List Char) : Nat := text.tails.countP (['\r', '\n'].isPrefixOf ·)

/-- A pair is counted where it begins. -/
theorem countPairs_cons (c : Char) (rest : List Char) :
    countPairs (c :: rest) =
      countPairs rest + if c = '\r' ∧ rest.head? = some '\n' then 1 else 0 := by
  have hpair : ['\r', '\n'].isPrefixOf (c :: rest) = true ↔ c = '\r' ∧ rest.head? = some '\n' := by
    cases rest with
    | nil => simp
    | cons c' rest =>
        simp only [List.isPrefixOf, Bool.and_true, Bool.and_eq_true, beq_iff_eq, List.head?_cons,
          Option.some.injEq, @eq_comm _ '\r' c, @eq_comm _ '\n' c']
  rw [countPairs, countPairs, List.tails_cons, List.countP_cons]
  simp only [hpair]

/-- Each pair is written with one character less. -/
theorem length_unixEndings_add_countPairs (text : List Char) :
    (unixEndings text).length + countPairs text = text.length := by
  induction text with
  | nil => rfl
  | cons c rest ih =>
      rw [unixEndings_cons, countPairs_cons]
      split
      · rw [List.length_cons]
        omega
      · rw [List.length_cons, List.length_cons]
        omega

/-! ## Line endings line by line -/

/-- What holds no newline is not changed, unless a newline follows it. -/
theorem unixEndings_append_of_not_mem (hbody : '\n' ∉ body) (hrest : rest.head? ≠ some '\n') :
    unixEndings (body ++ rest) = body ++ unixEndings rest := by
  induction body with
  | nil => rfl
  | cons c body ih =>
      rw [List.mem_cons, not_or] at hbody
      have hhead : (body ++ rest).head? ≠ some '\n' := by
        cases body with
        | nil => exact hrest
        | cons c' body => exact fun h => hbody.2 (by simp [Option.some.inj h])
      rw [List.cons_append, unixEndings_cons, if_neg fun h => hhead h.2, ih hbody.2]
      rfl

/-- The last line has no ending that could be changed. -/
theorem unixEndings_last (hbody : '\n' ∉ body) : unixEndings body = body := by
  simpa using @unixEndings_append_of_not_mem body [] hbody (by simp)

/-- No line ending reaches over a newline. -/
theorem unixEndings_append_newline (text rest : List Char) :
    unixEndings (text ++ '\n' :: rest) = unixEndings (text ++ ['\n']) ++ unixEndings rest := by
  induction text with
  | nil => simp [unixEndings_cons]
  | cons c text ih =>
      have hhead : (text ++ '\n' :: rest).head? = (text ++ ['\n']).head? := by
        cases text <;> rfl
      rw [List.cons_append, List.cons_append, unixEndings_cons, unixEndings_cons, hhead, ih]
      split <;> rfl

/-- A line with its ending is a line with an ending again, and without them both are the same. -/
theorem exists_unixEndings_line (hbody : '\n' ∉ body) :
    ∃ body', '\n' ∉ body' ∧ unixEndings (body ++ ['\n']) = body' ++ ['\n'] ∧
      chomp body' = chomp body := by
  rcases List.eq_nil_or_concat body with rfl | ⟨front, c, rfl⟩
  · exact ⟨[], hbody, rfl, rfl⟩
  rw [List.concat_eq_append, List.mem_append, List.mem_singleton, not_or] at hbody
  obtain ⟨hfront, hc⟩ := hbody
  have hunix : unixEndings (front ++ [c, '\n']) = front ++ unixEndings [c, '\n'] :=
    unixEndings_append_of_not_mem hfront (by simpa using Ne.symm hc)
  -- a last carriage return goes with the newline, and is no part of the trimmed line either way
  by_cases hcr : c = '\r'
  · subst hcr
    exact ⟨front, hfront, by simpa [unixEndings_cons] using hunix, by simp [chomp, dropEndWhile]⟩
  · refine ⟨front ++ [c], by simp [hfront, hc], ?_, by simp⟩
    simpa [unixEndings_cons, hcr] using hunix

/-- Without their endings the lines stay the same. -/
theorem trimmedLines_unixEndings (text : List Char) :
    trimmedLines (unixEndings text) = trimmedLines text := by
  induction text using line_induction with
  | last body hbody => rw [unixEndings_last hbody]
  | line body rest hbody ih =>
      obtain ⟨body', hbody', hunix, hchomp⟩ := exists_unixEndings_line hbody
      rw [unixEndings_append_newline, hunix, List.append_assoc, List.singleton_append, trimmedLines,
        trimmedLines, cutLines_append_newline hbody', cutLines_append_newline hbody, List.map_cons,
        List.map_cons, trimEnding_append_newline hbody', trimEnding_append_newline hbody, hchomp,
        ← trimmedLines, ih, trimmedLines]

/-- The text before a line, with its endings written as newlines. -/
theorem unixEndings_flatten_take (text : List Char) (n : Nat) :
    unixEndings ((cutLines text).take n).flatten =
      ((cutLines (unixEndings text)).take n).flatten := by
  induction text using line_induction generalizing n with
  | last body hbody =>
      rw [unixEndings_last hbody, cutLines_last hbody]
      split
      · simp
      · cases n with
        | zero => rfl
        | succ n => simp [unixEndings_last hbody]
  | line body rest hbody ih =>
      obtain ⟨body', hbody', hunix, -⟩ := exists_unixEndings_line hbody
      have hlines : unixEndings (body ++ '\n' :: rest) = body' ++ '\n' :: unixEndings rest := by
        rw [unixEndings_append_newline, hunix, List.append_assoc, List.singleton_append]
      rw [hlines, cutLines_append_newline hbody, cutLines_append_newline hbody']
      cases n with
      | zero => rfl
      | succ n =>
          rw [List.take_succ_cons, List.take_succ_cons, List.flatten_cons, List.flatten_cons, ← ih,
            List.append_assoc, List.singleton_append, unixEndings_append_newline, hunix]

end Text

/-- Where a line begins, given by the number of lines before it. -/
def Location.ofLine (text : List Char) (n : Nat) : Location :=
  ⟨((Text.cutLines text).take n).flatten.length, n + 1, 1⟩

@[simp] theorem Location.line_ofLine (text : List Char) (n : Nat) :
    (ofLine text n).line = n + 1 := rfl

@[simp] theorem Location.column_ofLine (text : List Char) (n : Nat) :
    (ofLine text n).column = 1 := rfl

namespace Table

open Text (fileLines cutLines trimmedLines chomp unixEndings countPairs)

/-- The lines before a place take up their characters and a newline each. -/
theorem length_lines_take_succ (line : List Char) (rest : List (List Char)) (n : Nat) :
    (((line :: rest).take (n + 1)).flatMap (· ++ ['\n'])).length =
      line.length + 1 + ((rest.take n).flatMap (· ++ ['\n'])).length := by
  rw [List.take_succ_cons, List.flatMap_cons, List.length_append, List.length_append,
    List.length_singleton]

/-- Rows that are the same without their endings are added in the same way, wherever they stand. -/
theorem addLines_congr {lines lines' : List (List Char)} (h : lines.map chomp = lines'.map chomp)
    (t : Table) (i i' k : Nat) :
    (∃ u, t.addLines ⟨i, k, 1⟩ lines = .ok u ∧ t.addLines ⟨i', k, 1⟩ lines' = .ok u) ∨
    ∃ cause n, n < lines.length ∧
      t.addLines ⟨i, k, 1⟩ lines =
        .error ⟨cause, ⟨i + ((lines.take n).flatMap (· ++ ['\n'])).length, k + n, 1⟩⟩ ∧
      t.addLines ⟨i', k, 1⟩ lines' =
        .error ⟨cause, ⟨i' + ((lines'.take n).flatMap (· ++ ['\n'])).length, k + n, 1⟩⟩ := by
  induction lines generalizing lines' t i i' k with
  | nil =>
      obtain rfl : lines' = [] := List.map_eq_nil_iff.mp h.symm
      exact Or.inl ⟨t, rfl, rfl⟩
  | cons line rest ih =>
      obtain ⟨line', rest', rfl, hline, hrest⟩ := List.map_eq_cons_iff.mp h.symm
      cases hrow : Row.ofLine (String.ofList (chomp line)) with
      | ok row =>
          have hrow' := hline ▸ hrow
          rw [addLines_cons_of_ok hrow, addLines_cons_of_ok hrow']
          -- both go on one line below, each as many characters farther as its own line has
          obtain hok | ⟨cause, n, hn, herror, herror'⟩ := ih hrest.symm (t.addRow row)
            (i + line.length + 1) (i' + line'.length + 1) (k + 1)
          · exact Or.inl hok
          · refine Or.inr ⟨cause, n + 1, Nat.succ_lt_succ hn, ?_, ?_⟩
            · rw [herror, length_lines_take_succ]
              congr 3 <;> omega
            · rw [herror', length_lines_take_succ]
              congr 3 <;> omega
      | error cause =>
          have hrow' := hline ▸ hrow
          exact Or.inr ⟨cause, 0, Nat.succ_pos _, addLines_cons_of_error hrow _ _,
            addLines_cons_of_error hrow' _ _⟩

/-- A failure at the end of a description stands behind all of its lines. -/
theorem ofLine_length_fileLines (text : List Char) :
    Location.ofLine text (fileLines text).length =
      ⟨text.length, (fileLines text).length + 1, 1⟩ := by
  have hlength : (cutLines text).length = (fileLines text).length := by
    have h := congrArg List.length (Text.trimmedLines_eq text)
    rwa [trimmedLines, List.length_map, List.length_map] at h
  rw [Location.ofLine, ← hlength, List.take_length, Text.flatten_cutLines]

/-- A row begins behind the headers and the rows before it. -/
theorem ofLine_of_rows {text accepting reserved : List Char} {rows : List (List Char)} {n : Nat}
    (hfile : fileLines text = accepting :: reserved :: rows) (hn : n < rows.length) :
    Location.ofLine text (n + 2) = ⟨accepting.length + reserved.length + 2 +
      ((rows.take n).flatMap (· ++ ['\n'])).length, 3 + n, 1⟩ := by
  have hlt : n + 2 < (fileLines text).length := by
    rw [hfile, List.length_cons, List.length_cons]
    omega
  rw [Location.ofLine, Text.flatten_take_cutLines hlt, hfile, length_lines_take_succ,
    length_lines_take_succ]
  simp only [Location.mk.injEq, and_true]
  omega

/-- Of a description only the lines without their endings count, and for the place of a failure
where its line begins. -/
theorem ofDescription_congr {d d' : String} (h : trimmedLines d.toList = trimmedLines d'.toList) :
    (∃ t, ofDescription d = .ok t ∧ ofDescription d' = .ok t) ∨
    ∃ cause n, ofDescription d = .error ⟨cause, .ofLine d.toList n⟩ ∧
      ofDescription d' = .error ⟨cause, .ofLine d'.toList n⟩ := by
  rw [Text.trimmedLines_eq, Text.trimmedLines_eq] at h
  have hend (d : String) := ofLine_length_fileLines d.toList
  -- no line, a single one, or two headers and the rows
  rcases hfile : fileLines d.toList with _ | ⟨accepting, _ | ⟨reserved, rows⟩⟩
  · have hfile' : fileLines d'.toList = [] := by simpa [hfile] using h.symm
    refine Or.inr ⟨.missingHeader "accepting states", 0, ?_, ?_⟩
    · simpa [ofDescription, hfile] using (hend d).symm
    · simpa [ofDescription, hfile'] using (hend d').symm
  · obtain ⟨accepting', hfile', -⟩ : ∃ line, fileLines d'.toList = [line] ∧
        chomp line = chomp accepting := by simpa [hfile] using h.symm
    refine Or.inr ⟨.missingHeader "reserved words", 1, ?_, ?_⟩
    · simpa [ofDescription, hfile] using (hend d).symm
    · simpa [ofDescription, hfile'] using (hend d').symm
  · rw [hfile, List.map_cons, List.map_cons] at h
    obtain ⟨accepting', lines', hfile', haccepting, h⟩ := List.map_eq_cons_iff.mp h.symm
    obtain ⟨reserved', rows', rfl, hreserved, hrows⟩ := List.map_eq_cons_iff.mp h
    have hlength : rows.length = rows'.length := by
      simpa using (congrArg List.length hrows).symm
    rw [ofDescription_eq_addLines hfile, ofDescription_eq_addLines hfile', haccepting, hreserved]
    obtain hok | ⟨cause, n, hn, herror, herror'⟩ := addLines_congr hrows.symm _ _ _ 3
    · exact Or.inl hok
    · refine Or.inr ⟨cause, n + 2, ?_, ?_⟩
      · rw [ofLine_of_rows hfile hn, herror]
      · rw [ofLine_of_rows hfile' (hlength ▸ hn), herror']

/-- A description in which line endings of two characters are written as one is read as the same
table, or it fails for the same reason in the same line and column. The index of the failure is
smaller by one for each such ending before it. -/
theorem ofDescription_unixEndings (d : String) :
    (∃ t, ofDescription d = .ok t ∧ ofDescription (.ofList (unixEndings d.toList)) = .ok t) ∨
    ∃ e e', ofDescription d = .error e ∧
      ofDescription (.ofList (unixEndings d.toList)) = .error e' ∧
      e.cause = e'.cause ∧ e.location.line = e'.location.line ∧
      e.location.column = e'.location.column ∧
      e.location.index = e'.location.index + countPairs (d.toList.take e.location.index) := by
  have htext : (String.ofList (unixEndings d.toList)).toList = unixEndings d.toList :=
    String.toList_ofList
  have hlines : trimmedLines d.toList =
      trimmedLines (String.ofList (unixEndings d.toList)).toList := by
    rw [htext, Text.trimmedLines_unixEndings]
  obtain hok | ⟨cause, n, herror, herror'⟩ := ofDescription_congr hlines
  · exact Or.inl hok
  refine Or.inr ⟨_, _, herror, herror', rfl, by simp, by simp, ?_⟩
  have htake : d.toList.take (Location.ofLine d.toList n).index =
      ((cutLines d.toList).take n).flatten := by
    have hprefix : ((cutLines d.toList).take n).flatten <+: d.toList := by
      conv => rhs; rw [← Text.flatten_cutLines d.toList]
      exact List.IsPrefix.flatten (List.take_prefix n _)
    exact (List.prefix_iff_eq_take.mp hprefix).symm
  have hlength := Text.length_unixEndings_add_countPairs ((cutLines d.toList).take n).flatten
  rw [Text.unixEndings_flatten_take, ← htext] at hlength
  rw [htake]
  exact hlength.symm

end Table

end Munch
