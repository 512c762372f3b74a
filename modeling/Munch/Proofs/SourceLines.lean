import Munch.Diagnostic.Report
import Munch.Proofs.Iteration
import Munch.Proofs.Lines

/-!
# The line of a location

A scanner counts lines as it crosses newlines, and a report cuts the whole source at its newlines
and looks the line up by its number. `AtLine` says where the line of a place begins and ends;
`lineNumber_eq` and `lineStart_eq` tell what is counted there, and `lineAt?_eq` tells what is found
there. So both mean the same line, with the carriage returns at its end left out.
-/

namespace Munch

namespace Text

variable {text before front back after : List Char}

/-- A place in a text lies behind `before ++ front`, and its line is `front ++ back`. -/
structure AtLine (text before front back after : List Char) : Prop where
  append_eq : before ++ (front ++ (back ++ after)) = text
  begins : ∀ c, before.getLast? = some c → c = '\n'
  newline_not_mem : '\n' ∉ front ++ back
  ends : ∀ c, after.head? = some c → c = '\n'

/-- A text that a place cuts in two has a line there. -/
theorem exists_atLine (done rest : List Char) :
    ∃ before front back after, before ++ front = done ∧
      AtLine (done ++ rest) before front back after := by
  have hfront : ∃ before front, before ++ front = done ∧ '\n' ∉ front ∧
      ∀ c, before.getLast? = some c → c = '\n' := by
    induction done using List.reverseRecOn with
    | nil => exact ⟨[], [], by simp⟩
    | append_singleton done c ih =>
        obtain ⟨before, front, rfl, hfront, hbefore⟩ := ih
        by_cases hc : c = '\n'
        · exact ⟨before ++ front ++ [c], [], by simp, by simp, by simp [hc]⟩
        · exact ⟨before, front ++ [c], by simp, by simp [hfront, Ne.symm hc], hbefore⟩
  obtain ⟨before, front, rfl, hfront, hbefore⟩ := hfront
  refine ⟨before, front, rest.takeWhile (· != '\n'), rest.dropWhile (· != '\n'), rfl,
    by simp, hbefore, ?_, ?_⟩
  · have hback : '\n' ∉ rest.takeWhile (· != '\n') := fun hmem => by
      simpa using List.mem_takeWhile_imp hmem
    simp [hfront, hback]
  · intro c hc
    have hhead := List.head?_dropWhile_not (· != '\n') rest
    simpa [hc] using hhead

namespace AtLine

/-- The line, as it is cut out by newlines. -/
theorem takeWhile_eq (h : AtLine text before front back after) :
    (text.drop before.length).takeWhile (· != '\n') = front ++ back := by
  have hbody : ∀ c ∈ front ++ back, (c != '\n') = true := fun c hc =>
    bne_iff_ne.mpr fun heq => h.newline_not_mem (heq ▸ hc)
  rw [← h.append_eq, List.drop_left, ← List.append_assoc, List.takeWhile_append_of_pos hbody]
  cases after with
  | nil => simp
  | cons c after => simp [h.ends c rfl]

/-- The number of the line is one more than the newlines before it. -/
theorem lineNumber_eq (h : AtLine text before front back after) :
    lineNumber text (before.length + front.length) = before.count '\n' + 1 := by
  have hfront : '\n' ∉ front := fun hmem => h.newline_not_mem (List.mem_append_left _ hmem)
  have htake : text.take (before.length + front.length) = before ++ front := by
    rw [← h.append_eq, ← List.append_assoc, ← List.length_append, List.take_left]
  rw [lineNumber, htake, List.count_append, List.count_eq_zero_of_not_mem hfront, Nat.add_comm]

/-- The line begins behind what stands before it. -/
theorem lineStart_eq (h : AtLine text before front back after) :
    lineStart text (before.length + front.length) = before.length := by
  refine Nat.findGreatest_eq_iff.mpr ⟨Nat.le_add_right _ _, ?_, ?_⟩
  · intro hpos
    have hlast : before[before.length - 1]? = before.getLast? := List.getLast?_eq_getElem?.symm
    obtain ⟨c, hc⟩ := Option.ne_none_iff_exists'.mp
      (mt List.getLast?_eq_none_iff.mp (List.ne_nil_of_length_pos (Nat.pos_of_ne_zero hpos)))
    rw [← h.append_eq, List.getElem?_append_left (by omega), hlast, hc, h.begins c hc]
  · intro k hlt hle hnewline
    -- an index farther on lies in the front of the line, which holds no newline
    rw [← h.append_eq, List.getElem?_append_right (by omega),
      List.getElem?_append_left (by omega)] at hnewline
    exact h.newline_not_mem (List.mem_append_left _ (List.mem_of_getElem? hnewline))

/-- The location of the place, by what stands before it. -/
theorem counted_eq (h : AtLine text before front back after) :
    Location.counted text (before.length + front.length) =
      ⟨before.length + front.length, before.count '\n' + 1, front.length + 1⟩ := by
  rw [Location.counted, h.lineNumber_eq, h.lineStart_eq, Nat.add_sub_cancel_left]

/-- Cut at its newlines, a text has this line in this place. -/
theorem getElem?_splitOn (h : AtLine text before front back after) :
    (text.splitOn '\n')[before.count '\n']? = some (front ++ back) := by
  obtain ⟨rfl, hbefore, hbody, hafter⟩ := h
  induction before using line_induction with
  | last body hnewline =>
      -- no newline stands before the line, so nothing does
      have hnil : body = [] := by
        refine List.getLast?_eq_none_iff.mp (Option.eq_none_iff_forall_ne_some.mpr fun c hc => ?_)
        exact hnewline (hbefore c hc ▸ List.mem_of_getLast? hc)
      subst hnil
      rw [List.nil_append, ← List.append_assoc]
      cases after with
      | nil => simp [splitOn_eq_singleton hbody]
      | cons c after =>
          obtain rfl := hafter c rfl
          rw [List.splitOn_append_cons_self, splitOn_eq_singleton hbody]
          rfl
  | line body rest hnewline ih =>
      have hrest : ∀ c, rest.getLast? = some c → c = '\n' := fun c hc =>
        hbefore c (by simp [List.getLast?_append, List.getLast?_cons, hc])
      have hcount : (body ++ '\n' :: rest).count '\n' = rest.count '\n' + 1 := by
        simp [List.count_eq_zero_of_not_mem hnewline]
      rw [hcount, List.append_assoc, List.cons_append, List.splitOn_append_cons_self,
        splitOn_eq_singleton hnewline]
      exact ih hrest

/-- The line is found under its number, without the carriage returns at its end. -/
theorem lineAt?_eq (h : AtLine text before front back after) :
    lineAt? text (before.count '\n' + 1) = some (chomp (front ++ back)) := by
  rw [lineAt?, if_neg (Nat.succ_ne_zero _), Nat.add_sub_cancel, h.getElem?_splitOn, Option.map_some]

end AtLine

/-- A line is what is shown of it and carriage returns. -/
theorem exists_chomp_append_replicate (line : List Char) :
    ∃ returns, chomp line ++ List.replicate returns '\r' = line := by
  obtain ⟨removed, hremoved, happend⟩ := exists_append_dropEndWhile (· == '\r') line
  have hreturns : removed = List.replicate removed.length '\r' :=
    List.eq_replicate_of_mem fun c hc => beq_iff_eq.mp (hremoved c hc)
  exact ⟨removed.length, by rw [← hreturns]; exact happend⟩

end Text

namespace Scanner

variable {s : Scanner} {t : Table} {source done before front back after : List Char}

/-- The location of a scanner, by what stands before it in its line and before this line. -/
theorem Behind.location_eq_of_atLine (h : s.Behind t source (before ++ front))
    (hline : Text.AtLine source before front back after) :
    s.location = ⟨before.length + front.length, before.count '\n' + 1, front.length + 1⟩ := by
  rw [h.location_eq, List.length_append]
  exact hline.counted_eq

/-- The line of a failure is that in which the scanner stands. -/
theorem Behind.sourceLine_eq (h : s.Behind t source (before ++ front))
    (hline : Text.AtLine source before front back after) :
    s.failure.sourceLine source = Text.chomp (front ++ back) := by
  have hlocation : s.failure.location = _ := h.location_eq_of_atLine hline
  rw [Diagnostic.sourceLine, hlocation, hline.lineAt?_eq]
  rfl

/-- A scanner stands in a line of its source. -/
theorem Behind.exists_atLine (h : s.Behind t source done) :
    ∃ before front back after, before ++ front = done ∧
      Text.AtLine source before front back after ∧
      s.location = ⟨done.length, before.count '\n' + 1, front.length + 1⟩ := by
  obtain ⟨before, front, back, after, rfl, hline⟩ := Text.exists_atLine done s.rest
  rw [h.append_rest] at hline
  refine ⟨before, front, back, after, rfl, hline, ?_⟩
  rw [List.length_append]
  exact h.location_eq_of_atLine hline

end Scanner

/-- A source fails where some scanner stands in it. -/
theorem Table.exists_behind_of_tokens_eq_error {t : Table} {source : String} {d : Diagnostic}
    (h : t.tokens source = .error d) :
    ∃ s : Scanner, ∃ done, s.Behind t source.toList done ∧ d = s.failure := by
  obtain ⟨done, hdone⟩ := (Scanner.behind_start t source).final
  obtain ⟨hhalt, -⟩ := Scanner.final_cases (s := Scanner.start t source) rfl
  rw [Table.failure?_of_tokens_eq_error h] at hhalt
  exact ⟨_, done, hdone, hdone.halt_eq d hhalt⟩

/-- Whatever is asked of a scanner, a line is found under the number that it tells. With the
carriage returns at its end it is the source from the first column of the scanner's line up to the
next newline or the end, and there the scanner stands. So there is a line for every failure of a
source. -/
theorem lineAt?_of_location (t : Table) (source : String) (os : List Operation) :
    let text := source.toList
    let p := ((Scanner.start t source).after os).location
    let i := p.index - (p.column - 1)
    let line := (text.drop i).takeWhile (· != '\n')
    (p.column ≤ p.index + 1 ∧ p.index ≤ text.length ∧ i ≤ p.index ∧ p.index ≤ i + line.length ∧
      ∃ shown returns, Text.lineAt? text p.line = some shown ∧
        shown ++ List.replicate returns '\r' = line) ∧
    ∀ d, t.tokens source = .error d →
      ∃ shown, Text.lineAt? text d.location.line = some shown ∧ d.sourceLine text = shown := by
  intro text p i line
  constructor
  · obtain ⟨done, hs⟩ := Scanner.behind_after t source os
    obtain ⟨before, front, back, after, rfl, hline, hp⟩ := hs.exists_atLine
    have hp : p = _ := hp
    have hi : i = before.length := by
      simp [i, hp]
    have htext : line = front ++ back := by
      rw [← hline.takeWhile_eq, ← hi]
    obtain ⟨returns, hreturns⟩ := Text.exists_chomp_append_replicate (front ++ back)
    have hprefix : before ++ front <+: source.toList := ⟨_, hs.append_rest⟩
    rw [htext, hi, hp]
    refine ⟨?_, hprefix.length_le, ?_, ?_, _, returns, hline.lineAt?_eq, hreturns⟩
    all_goals simp only [List.length_append]; omega
  · intro d hd
    obtain ⟨s, done, hs, rfl⟩ := Table.exists_behind_of_tokens_eq_error hd
    obtain ⟨before, front, back, after, rfl, hline, hp⟩ := hs.exists_atLine
    have hfound := hline.lineAt?_eq
    have hnumber : s.failure.location.line = before.count '\n' + 1 := congrArg Location.line hp
    rw [← hnumber] at hfound
    exact ⟨_, hfound, hs.sourceLine_eq hline⟩

/-- The second bracket is stopped by carriage returns, which do not count for the line. -/
theorem lineAt?_of_location_brackets :
    let source := "<a>\n  <b\r\r\n7>"
    let d : Diagnostic := ⟨.unexpectedCharacter (some '\r'), ⟨8, 2, 5⟩⟩
    Table.brackets.tokens source = .error d ∧
      ∃ shown, Text.lineAt? source.toList 2 = some shown ∧ d.sourceLine source.toList = shown := by
  intro source d
  have hfails : Table.brackets.tokens source = .error d := by decide +kernel
  exact ⟨hfails, (lineAt?_of_location .brackets source []).2 d hfails⟩

end Munch
