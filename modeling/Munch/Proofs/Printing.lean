import Munch.Command
import Munch.Proofs.Folders
import Munch.Proofs.Iteration

/-!
# What the command prints

The command drives a scanner itself: it skips, asks for a token and prints it, until there are no
more or one fails, and in the end it tells the line in which the scanner stands. `printTokens_eq`
says what this loop leaves behind in terms of the run over the source, and from there the exit code
and all that is printed are told by the tokens of the source, its failure and its newlines.
-/

namespace Munch

/-- Bytes are decoded exactly if they are the encoding of a text. -/
theorem fromUTF8?_eq_some_iff {bytes : ByteArray} {text : String} :
    String.fromUTF8? bytes = some text ↔ bytes = text.toUTF8 := by
  unfold String.fromUTF8?
  split
  · rw [Option.some.injEq, ← String.toByteArray_inj]
    rfl
  · rename_i hinvalid
    simp only [reduceCtorEq, false_iff]
    rintro rfl
    exact hinvalid text.isValidUTF8

/-- A file is read as a text exactly if its bytes are the encoding of this text. -/
theorem Files.read_eq_ok_iff {files : Files} {path text : String} :
    files.read path = .ok text ↔ files path = .ok text.toUTF8 := by
  unfold read
  cases files path with
  | error fault => simp
  | ok bytes =>
      rw [Except.ok.injEq, ← fromUTF8?_eq_some_iff]
      cases hdecode : String.fromUTF8? bytes <;> simp [hdecode]

/-- A report is made unless the line of its caret has too many columns. -/
theorem Diagnostic.report_cases (d : Diagnostic) (source path : String) :
    (caretLimit < d.caretColumn source.toList ∧
      d.report source path = .error .caretOutOfRange) ∨
    (d.caretColumn source.toList ≤ caretLimit ∧ ∃ report, d.report source path = .ok report) := by
  simp only [report]
  rcases Nat.lt_or_ge caretLimit (d.caretColumn source.toList) with hlt | hle
  · exact Or.inl ⟨hlt, by rw [if_pos hlt]⟩
  · exact Or.inr ⟨hle, _, by rw [if_neg (Nat.not_lt.mpr hle)]⟩

/-- Tokens, one to a line. -/
def tokenLines (toks : List Token) : String := String.join (toks.map fun tok => tok.display ++ "\n")

/-- The first token is on the first line. -/
theorem tokenLines_cons (tok : Token) (toks : List Token) :
    tokenLines (tok :: toks) = tok.display ++ "\n" ++ tokenLines toks := String.join_cons

namespace Command

variable {s s' : Scanner} {t : Table} {tok : Token} {d : Diagnostic} {source path : String}

/-! ## The loop -/

/-- Without a token left, the loop ends and prints nothing more. -/
theorem printTokens_of_none (h : s.next = (none, s')) (text : String) (logged : List Record) :
    printTokens s text logged = ⟨text, logged, none, s'⟩ := by
  obtain ⟨hready, rfl⟩ := Scanner.next_eq_none_iff.mp h
  rw [printTokens, hready]
  rfl

/-- A failure is printed and logged, and ends the loop. -/
theorem printTokens_of_error (h : s.next = (some (.error d), s')) (text : String)
    (logged : List Record) :
    printTokens s text logged =
      ⟨text ++ d.message ++ "\n", ⟨.debug, d.message⟩ :: logged, some d, s'⟩ := by
  obtain ⟨hready, htoken⟩ := Scanner.next_eq_some_iff.mp h
  rw [printTokens, if_pos hready]
  split <;> simp_all

/-- A token is printed and logged, and the loop goes on behind it. -/
theorem printTokens_of_ok (h : s.next = (some (.ok tok), s')) (text : String)
    (logged : List Record) :
    printTokens s text logged =
      printTokens s' (text ++ tok.display ++ "\n") (Run.tokenRecord tok :: logged) := by
  obtain ⟨hready, htoken⟩ := Scanner.next_eq_some_iff.mp h
  rw [printTokens, if_pos hready]
  split <;> simp_all

/-- The loop prints and logs the tokens of the run and its failure, and leaves its scanner. -/
theorem printTokens_eq (s : Scanner) (text : String) (logged : List Record) :
    printTokens s text logged =
      ⟨text ++ tokenLines s.run.tokens ++ s.run.failure?.elim "" (·.message ++ "\n"),
        s.run.records.reverse ++ logged, s.run.failure?, s.run.final⟩ := by
  revert text logged
  refine Scanner.run_induction (P := fun s run => ∀ text logged, printTokens s text logged =
    ⟨text ++ tokenLines run.tokens ++ run.failure?.elim "" (·.message ++ "\n"),
      run.records.reverse ++ logged, run.failure?, run.final⟩) ?ended ?failed ?read s
  case ended =>
    intro s s' hnext text logged
    simp [printTokens_of_none hnext, tokenLines, Run.records]
  case failed =>
    intro s d s' hnext text logged
    simp [printTokens_of_error hnext, tokenLines, Run.records, String.append_assoc]
  case read =>
    intro s tok s' hnext ih text logged
    simp [printTokens_of_ok hnext, ih, tokenLines_cons, Run.records, String.append_assoc]

/-! ## What a scan prints -/

/-- A source that is cut into tokens is scanned with exit code zero; the last line printed tells how
many lines it has. -/
theorem scan_of_ok {toks : List Token} (h : t.tokens source = .ok toks) (printed path : String) :
    (scan printed t source path).exit = 0 ∧ (scan printed t source path).stdout =
      printed ++ tokenLines toks ++ toString (1 + source.toList.count '\n') ++ "\n" := by
  obtain ⟨hnone, htoks⟩ := Table.run_of_tokens_eq_ok h
  have hline := Scanner.line_final_of_none hnone
  simp [scan, printTokens_eq, hnone, htoks, hline, String.append_assoc]

/-- Of a source that fails, the tokens before the failure and the failure are printed; the report
and its line follow if there is room for the caret. -/
theorem scan_of_error (h : t.tokens source = .error d) (printed path : String) :
    let told := printed ++ tokenLines (Scanner.start t source).run.tokens ++ d.message ++ "\n"
    (∀ fault, d.report source path = .error fault →
      (scan printed t source path).exit = 101 ∧ (scan printed t source path).stdout = told) ∧
    (∀ report, d.report source path = .ok report →
      (scan printed t source path).exit = 1 ∧ (scan printed t source path).stdout =
        told ++ report ++ toString d.location.line ++ "\n") := by
  have hsome := Table.failure?_of_tokens_eq_error h
  have hline := Scanner.line_final_of_some hsome
  constructor
  · intro fault hfault
    simp [scan, printTokens_eq, hsome, hfault, String.append_assoc]
  · intro report hreport
    simp [scan, printTokens_eq, hsome, hreport, hline, String.append_assoc]

/-- The exit code of a scan tells whether the source is cut into tokens. -/
theorem exit_scan_eq_zero_iff (printed : String) (t : Table) (source path : String) :
    (scan printed t source path).exit = 0 ↔ ∃ toks, t.tokens source = .ok toks := by
  cases htokens : t.tokens source with
  | ok toks => simpa using (scan_of_ok htokens printed path).1
  | error d =>
      -- a source that fails exits with one or with 101
      obtain ⟨hfault, hreport⟩ := scan_of_error htokens printed path
      cases hd : d.report source path with
      | error fault => simp [(hfault fault hd).1]
      | ok report => simp [(hreport report hd).1]

/-! ## The whole command -/

variable {files : Files} {args : List String} {text : String}

/-- A call names two files of text, of which the first one describes a table: the table, the text of
the second file, and its path. -/
inductive Opens (files : Files) (args : List String) : Table → String → String → Prop
  | intro {tablePath path description text : String} {t : Table}
      (hpaths : paths args = [tablePath, path])
      (htable : files tablePath = .ok description.toUTF8) (hsource : files path = .ok text.toUTF8)
      (hdescription : Table.ofDescription description = .ok t) : Opens files args t text path

/-- A call that opens its files scans the text of the source with the line endings of Unix. -/
theorem run_of_opens (h : Opens files args t text path) :
    run files args = scan (if dumpOption ∈ args then t.dump else "") t
      (String.ofList (Text.unixEndings text.toList)) path := by
  obtain ⟨hpaths, htable, hsource, hdescription⟩ := h
  rw [← Files.read_eq_ok_iff] at htable hsource
  simp only [run, hpaths, htable, hsource, hdescription]

/-- Any other call fails before anything is scanned. -/
theorem run_of_not_opens (h : ¬ ∃ t text path, Opens files args t text path) :
    ∃ complaint, run files args = failed complaint := by
  unfold run
  split
  · rename_i tablePath path hpaths
    split
    · exact ⟨_, rfl⟩
    · rename_i description htable
      split
      · exact ⟨_, rfl⟩
      · rename_i text hsource
        split
        · exact ⟨_, rfl⟩
        · rename_i t hdescription
          rw [Files.read_eq_ok_iff] at htable hsource
          exact absurd ⟨t, text, path, .intro hpaths htable hsource hdescription⟩ h
  · exact ⟨_, rfl⟩

/-- A call exits with zero exactly if it opens a table and a source and the source, with the line
endings of Unix, is cut into tokens; then it prints the table if that is asked for, the tokens, one
to a line, and the number of lines of the file. If the source fails, it exits with one and prints
the tokens up to the failure, the failure, its report and the number of its line; where the line of
the caret cannot be laid out, it exits with 101 behind the failure. Any other call exits with one
and prints nothing. -/
theorem run_prints_tokens (files : Files) (args : List String) :
    let o := run files args
    (o.exit = 0 ↔ ∃ t text path toks, Opens files args t text path ∧
      t.tokens (String.ofList (Text.unixEndings text.toList)) = .ok toks) ∧
    (∀ t text path, Opens files args t text path →
      let source := String.ofList (Text.unixEndings text.toList)
      let dumped := if "--dump-table" ∈ args then t.dump else ""
      (∀ toks, t.tokens source = .ok toks → o.stdout =
        dumped ++ tokenLines toks ++ toString (1 + text.toList.count '\n') ++ "\n") ∧
      (∀ d, t.tokens source = .error d →
        let told := dumped ++ tokenLines (Scanner.start t source).run.tokens ++ d.message ++ "\n"
        let line := (Text.lineAt? source.toList d.location.line).getD []
        let width := max 1 (d.location.column - (line.takeWhile (· == ' ')).length)
        (65535 < width → o.exit = 101 ∧ o.stdout = told) ∧
        (width ≤ 65535 → ∃ report, d.report source path = .ok report ∧ o.exit = 1 ∧
          o.stdout = told ++ report ++ toString d.location.line ++ "\n"))) ∧
    ((¬ ∃ t text path, Opens files args t text path) → o.exit = 1 ∧ o.stdout = "") := by
  intro o
  refine ⟨?exits, ?printed, ?refused⟩
  case exits =>
    constructor
    · intro hexit
      by_cases hopens : ∃ t text path, Opens files args t text path
      · obtain ⟨t, text, path, h⟩ := hopens
        have ho : o = scan _ t _ path := run_of_opens h
        rw [ho, exit_scan_eq_zero_iff] at hexit
        obtain ⟨toks, htoks⟩ := hexit
        exact ⟨t, text, path, toks, h, htoks⟩
      · obtain ⟨complaint, hfailed⟩ := run_of_not_opens hopens
        have ho : o = failed complaint := hfailed
        simp [ho, failed] at hexit
    · rintro ⟨t, text, path, toks, h, htoks⟩
      have ho : o = scan _ t _ path := run_of_opens h
      rw [ho]
      exact (exit_scan_eq_zero_iff _ t _ path).mpr ⟨toks, htoks⟩
  case printed =>
    intro t text path h source dumped
    have ho : o = scan dumped t source path := run_of_opens h
    rw [ho]
    refine ⟨?_, ?_⟩
    · intro toks htoks
      rw [(scan_of_ok htoks dumped path).2, String.toList_ofList, Text.count_newline_unixEndings]
    · intro d hd told line width
      have hwidth : d.caretColumn source.toList = width := rfl
      obtain ⟨hfault, hreport⟩ := scan_of_error hd dumped path
      obtain ⟨hlt, hd⟩ | ⟨hle, report, hd⟩ := d.report_cases source path
      · rw [hwidth] at hlt
        exact ⟨fun _ => hfault _ hd, fun hle => absurd hlt (Nat.not_lt.mpr hle)⟩
      · rw [hwidth] at hle
        exact ⟨fun hlt => absurd hlt (Nat.not_lt.mpr hle), fun _ => ⟨report, hd, hreport report hd⟩⟩
  case refused =>
    intro hopens
    obtain ⟨complaint, hfailed⟩ := run_of_not_opens hopens
    have ho : o = failed complaint := hfailed
    rw [ho]
    exact ⟨rfl, rfl⟩

/-- Two tallies are printed behind the table, and then the report on the character that is none.
Both files lie in one folder. -/
theorem run_prints_tokens_tallies :
    let description := "strokes\n|\ninit | strokes\nstrokes | strokes\n"
    let text := "|\r\n  || x"
    let files := Folder.toFiles
      ⟨[("tally.dfa", description.toUTF8), ("tally.txt", text.toUTF8)]⟩
    let args := ["tally.dfa", "--dump-table", "tally.txt"]
    (∃ t, Opens files args t text "tally.txt") ∧ (run files args).exit = 1 ∧
    (run files args).stdout = "accepting: strokes\nreserved: |\n" ++
      "init --|--> strokes\nstrokes --|--> strokes\n" ++
      "keyword: |\nstrokes: ||\nError at Line: 2 Row: 6 Unexpected character: x\n" ++
      "Error: UnexpectedCharacter\n-> tally.txt\n  |\n2 | || x\n  | ---^\n" ++ "2\n" := by
  intro description text files args
  let d : Diagnostic := ⟨.unexpectedCharacter (some 'x'), ⟨7, 2, 6⟩⟩
  have hread : (Table.ofDescription description).map (fun t =>
      (t.tokens "|\n  || x", t.dump ++ tokenLines (Scanner.start t "|\n  || x").run.tokens)) =
      .ok (.error d, "accepting: strokes\nreserved: |\n" ++
        "init --|--> strokes\nstrokes --|--> strokes\n" ++ "keyword: |\nstrokes: ||\n") := by
    decide +kernel
  have hreport : d.report "|\n  || x" "tally.txt" =
      .ok "Error: UnexpectedCharacter\n-> tally.txt\n  |\n2 | || x\n  | ---^\n" := by decide +kernel
  have hunix : String.ofList (Text.unixEndings text.toList) = "|\n  || x" := by decide +kernel
  have htable : files "tally.dfa" = .ok description.toUTF8 :=
    Folder.Holds.toFiles_eq ⟨by decide +kernel, by decide, by decide +kernel, rfl⟩ (by decide)
  have hsource : files "tally.txt" = .ok text.toUTF8 :=
    Folder.Holds.toFiles_eq ⟨by decide +kernel, by decide, by decide +kernel, rfl⟩ (by decide)
  cases hdescription : Table.ofDescription description with
  | error e => simp [hdescription, Except.map] at hread
  | ok t =>
      simp only [hdescription, Except.map, Except.ok.injEq, Prod.mk.injEq] at hread
      have hopens : Opens files args t text "tally.txt" :=
        .intro rfl htable hsource hdescription
      obtain ⟨-, herror⟩ := (run_prints_tokens files args).2.1 t text "tally.txt" hopens
      rw [hunix] at herror
      obtain ⟨report, hok, hexit, hstdout⟩ := (herror d hread.1).2 (by decide +kernel)
      obtain rfl := Except.ok.inj (hok.symm.trans hreport)
      refine ⟨⟨t, hopens⟩, hexit, hstdout.trans ?_⟩
      rw [if_pos (by decide), hread.2]
      decide +kernel

end Command

end Munch
