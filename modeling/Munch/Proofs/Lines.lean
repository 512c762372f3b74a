import Munch.Proofs.Fields
import Munch.Text.Lines

/-!
# Lines and their endings

A description is read line by line, and its lines are cut where a newline stands and without it.
`cutLines` keeps the endings, so that its lines make up the text again and the characters before a
line can be counted. Both ways of cutting a text take a line off its front, and `line_induction`
goes along.
-/

namespace Munch.Text

variable {text body rest line : List Char} {n : Nat}

/-- Cuts a text behind each newline. -/
def cutLines : List Char → List (List Char)
  | [] => []
  | c :: rest =>
    if c = '\n' then [c] :: cutLines rest
    else match cutLines rest with
      | [] => [[c]]
      | line :: lines => (c :: line) :: lines

/-- Removes the newlines and the carriage returns at the end of a line. -/
def trimEnding (line : List Char) : List Char := dropEndWhile (fun c => c == '\n' || c == '\r') line

/-- The lines of a text, without their endings. -/
def trimmedLines (text : List Char) : List (List Char) := (cutLines text).map trimEnding

/-- A text is a line without a newline, or such a line, a newline, and a text. -/
theorem line_induction {P : List Char → Prop} (last : ∀ body, '\n' ∉ body → P body)
    (line : ∀ body rest, '\n' ∉ body → P rest → P (body ++ '\n' :: rest)) (text : List Char) :
    P text := by
  induction h : text.length using Nat.strongRecOn generalizing text with
  | _ n ih =>
    by_cases hmem : '\n' ∈ text
    · obtain ⟨body, rest, rfl, hbody⟩ := List.eq_append_cons_of_mem hmem
      refine line body rest hbody (ih rest.length ?_ rest rfl)
      rw [← h, List.length_append, List.length_cons]
      omega
    · exact last text hmem

/-! ## Lines with their endings -/

/-- A text without newlines is one line, or none if it is empty. -/
theorem cutLines_last (hbody : '\n' ∉ body) : cutLines body = if body = [] then [] else [body] := by
  induction body with
  | nil => rfl
  | cons c body ih =>
      rw [List.mem_cons, not_or] at hbody
      rw [cutLines, if_neg (Ne.symm hbody.1), ih hbody.2]
      by_cases hnil : body = [] <;> simp [hnil]

/-- The first line is cut off behind its newline. -/
theorem cutLines_append_newline (hbody : '\n' ∉ body) (rest : List Char) :
    cutLines (body ++ '\n' :: rest) = (body ++ ['\n']) :: cutLines rest := by
  induction body with
  | nil => simp [cutLines]
  | cons c body ih =>
      rw [List.mem_cons, not_or] at hbody
      rw [List.cons_append, cutLines, if_neg (Ne.symm hbody.1), ih hbody.2]
      rfl

/-- The lines make up the text. -/
theorem flatten_cutLines (text : List Char) : (cutLines text).flatten = text := by
  induction text using line_induction with
  | last body hbody =>
      rw [cutLines_last hbody]
      by_cases hnil : body = [] <;> simp [hnil]
  | line body rest hbody ih =>
      rw [cutLines_append_newline hbody, List.flatten_cons, ih]
      simp

/-! ## Lines without their endings -/

/-- A text is not cut at a character that it does not have. -/
theorem splitOn_eq_singleton {c : Char} (hbody : c ∉ body) : body.splitOn c = [body] := by
  rw [List.splitOn_eq_splitOnP]
  refine List.splitOnP_eq_singleton fun c' hc => ?_
  exact beq_false_of_ne fun heq => hbody (heq ▸ hc)

/-- What is empty behind the last newline is no line of a file. -/
theorem fileLines_last (hbody : '\n' ∉ body) :
    fileLines body = if body = [] then [] else [body] := by
  by_cases hnil : body = [] <;> simp [fileLines, splitOn_eq_singleton hbody, hnil]

/-- The first line of a file is cut off without its newline. -/
theorem fileLines_append_newline (hbody : '\n' ∉ body) (rest : List Char) :
    fileLines (body ++ '\n' :: rest) = body :: fileLines rest := by
  have hsplit : (body ++ '\n' :: rest).splitOn '\n' = body :: rest.splitOn '\n' := by
    rw [List.splitOn_append_cons_self, splitOn_eq_singleton hbody]
    rfl
  obtain ⟨line, lines, hlines⟩ := List.exists_cons_of_ne_nil (List.splitOn_ne_nil '\n' rest)
  have hlast : (body :: line :: lines).getLast? = (line :: lines).getLast? :=
    List.getLast?_cons_cons
  have hdrop : (body :: line :: lines).dropLast = body :: (line :: lines).dropLast := rfl
  rw [fileLines, fileLines, hsplit, hlines, hlast, hdrop]
  split <;> rfl

/-- The lines before a newline and the lines behind it are cut apart. -/
theorem fileLines_append (text rest : List Char) :
    fileLines (text ++ '\n' :: rest) = text.splitOn '\n' ++ fileLines rest := by
  induction text using line_induction with
  | last body hbody => rw [fileLines_append_newline hbody, splitOn_eq_singleton hbody]; rfl
  | line body text hbody ih =>
      rw [List.append_assoc, List.cons_append, fileLines_append_newline hbody, ih,
        List.splitOn_append_cons_self, splitOn_eq_singleton hbody]
      rfl

/-- All lines can be looked up, the first one under the number one. -/
theorem lineAt?_succ (hn : n < (fileLines text).length) :
    lineAt? text (n + 1) = (fileLines text)[n]?.map chomp := by
  have hprefix : fileLines text <+: text.splitOn '\n' := by
    rw [fileLines]
    split
    · exact List.dropLast_prefix _
    · exact List.prefix_refl _
  obtain ⟨more, hmore⟩ := hprefix
  rw [lineAt?, if_neg (Nat.succ_ne_zero n), Nat.add_sub_cancel, ← hmore,
    List.getElem?_append_left hn]

/-- Line endings of two characters hold the newlines of a text, and all of them stay. -/
theorem count_newline_unixEndings (text : List Char) :
    (unixEndings text).count '\n' = text.count '\n' := by
  induction text with
  | nil => rfl
  | cons c rest ih =>
      rw [unixEndings_cons]
      split
      · have hne : c ≠ '\n' := by
          rintro rfl
          simp_all
        rw [ih, List.count_cons_of_ne hne]
      · rw [List.count_cons, List.count_cons, ih]

/-! ## Both ways of cutting -/

/-- What is removed from the end of a text passes the test. -/
theorem exists_append_dropEndWhile (p : Char → Bool) (text : List Char) :
    ∃ removed, (∀ c ∈ removed, p c) ∧ dropEndWhile p text ++ removed = text := by
  refine ⟨(text.reverse.takeWhile p).reverse, ?_, ?_⟩
  · intro c hc
    exact List.all_eq_true.mp List.all_takeWhile c (List.mem_reverse.mp hc)
  · rw [dropEndWhile, ← List.reverse_append, List.takeWhile_append_dropWhile, List.reverse_reverse]

/-- The end of a line is white space, so it does not count for the fields. -/
theorem fields_chomp (line : List Char) : fields (chomp line) = fields line := by
  obtain ⟨removed, hremoved, happend⟩ := exists_append_dropEndWhile (· == '\r') line
  have hwhite : ∀ c ∈ removed, isWhite c := by
    intro c hc
    rw [beq_iff_eq.mp (hremoved c hc)]
    decide
  rw [chomp]
  conv => rhs; rw [← happend]
  exact (fields_append_of_white _ hwhite).symm

/-- What is dropped depends on the characters that are there. -/
theorem dropWhile_congr {p q : Char → Bool} (h : ∀ c ∈ text, p c = q c) :
    text.dropWhile p = text.dropWhile q := by
  induction text with
  | nil => rfl
  | cons c rest ih =>
      have hrest := ih fun c' hc' => h c' (List.mem_cons_of_mem _ hc')
      rw [List.dropWhile_cons, List.dropWhile_cons, h c List.mem_cons_self, hrest]

/-- Where no newline is, carriage returns are all that can be removed from the end. -/
theorem trimEnding_eq_chomp (hbody : '\n' ∉ body) : trimEnding body = chomp body := by
  refine congrArg List.reverse (dropWhile_congr fun c hc => ?_)
  have hne : c ≠ '\n' := fun heq => hbody (heq ▸ List.mem_reverse.mp hc)
  rw [beq_false_of_ne hne, Bool.false_or]

/-- With the newline at the end, the carriage returns before it are removed. -/
theorem trimEnding_append_newline (hbody : '\n' ∉ body) :
    trimEnding (body ++ ['\n']) = chomp body := by
  rw [← trimEnding_eq_chomp hbody]
  simp [trimEnding, dropEndWhile]

/-- Without their endings the lines are the same. -/
theorem trimmedLines_eq (text : List Char) : trimmedLines text = (fileLines text).map chomp := by
  induction text using line_induction with
  | last body hbody =>
      rw [trimmedLines, cutLines_last hbody, fileLines_last hbody]
      by_cases hnil : body = [] <;> simp [hnil, trimEnding_eq_chomp hbody]
  | line body rest hbody ih =>
      rw [trimmedLines, cutLines_append_newline hbody, fileLines_append_newline hbody,
        List.map_cons, List.map_cons, ← trimmedLines, ih, trimEnding_append_newline hbody]

/-- A line is looked up by the number of lines before it. -/
theorem lineAt?_of_split {before after : List (List Char)}
    (h : trimmedLines text = before ++ line :: after) :
    lineAt? text (before.length + 1) = some line := by
  rw [trimmedLines_eq] at h
  have hlength : (fileLines text).length = before.length + (after.length + 1) := by
    rw [← List.length_map chomp, h, List.length_append, List.length_cons]
  rw [lineAt?_succ (by omega), ← List.getElem?_map, h]
  simp

/-- Before a line all lines end in a newline. -/
theorem flatten_take_cutLines (hn : n < (fileLines text).length) :
    ((cutLines text).take n).flatten = ((fileLines text).take n).flatMap (· ++ ['\n']) := by
  induction text using line_induction generalizing n with
  | last body hbody =>
      -- at most one line, so none lies before another
      rw [fileLines_last hbody] at hn
      have hzero : n = 0 := by
        by_cases hnil : body = []
        · simp [hnil] at hn
        · simpa [hnil] using hn
      rw [hzero]
      rfl
  | line body rest hbody ih =>
      rw [cutLines_append_newline hbody]
      rw [fileLines_append_newline hbody] at hn ⊢
      cases n with
      | zero => rfl
      | succ n =>
          rw [List.take_succ_cons, List.take_succ_cons, List.flatten_cons, List.flatMap_cons,
            ih (Nat.lt_of_succ_lt_succ hn)]

end Munch.Text
