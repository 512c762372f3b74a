import Munch.Proofs.Iteration

/-!
# Sources that are cut short

A walk may look far beyond the end of its token, over later tokens too, before it is taken back.
None of that counts: a source that is cut right behind a token reads the same tokens up to there. In
a shorter text fewer beginnings compete, and the longest accepted one is still among them.
-/

namespace Munch

namespace Scanner

variable {t : Table} {before text : List Char} {front toks : List Token} {last : Token}
  {d? : Option Diagnostic}

/-- A token is read from the beginning of what follows it as well. -/
theorem Scans.read_of_shorter {gap value rest part : List Char} {state : StateId} (hgap : Gap gap)
    (hat : AtToken (value ++ rest)) (hlongest : t.Longest (value ++ rest) value)
    (hdrive : t.drive Table.initial value = some state) (hpart : part <+: rest)
    (h : Scans t (before ++ gap ++ value) part toks d?) :
    Scans t before (gap ++ (value ++ part))
      (tokenBehind t (before ++ gap) value state :: toks) d? := by
  have hat' : AtToken (value ++ part) := (hat.of_append hlongest.ne_nil).append part
  have hlongest' : t.Longest (value ++ part) value :=
    hlongest.of_shorter (List.prefix_append value part)
      ((List.prefix_append_right_inj value).mpr hpart)
  exact .read hgap hat' hlongest' hdrive h

/-- Cut behind any of its tokens, a text is read up to this token, and that is all of it. -/
theorem Scans.cut (h : Scans t before text toks d?) (hfront : front ++ [last] <+: toks) :
    ∃ read, read <+: text ∧ last.extent.stop.index = (before ++ read).length ∧
      Scans t before read (front ++ [last]) none := by
  induction h generalizing front with
  | ended => simp at hfront
  | failed => simp at hfront
  | @read before gap value rest state toks d? hgap hat hlongest hdrive _ ih =>
      have hbegins {part : List Char} (hpart : part <+: rest) :
          gap ++ (value ++ part) <+: gap ++ (value ++ rest) :=
        (List.prefix_append_right_inj gap).mpr ((List.prefix_append_right_inj value).mpr hpart)
      -- the text is cut right behind the first token or somewhere in the rest
      cases front with
      | nil =>
          obtain ⟨rfl, -⟩ := List.cons_prefix_cons.mp hfront
          refine ⟨gap ++ (value ++ []), hbegins List.nil_prefix, by simp [tokenBehind], ?_⟩
          exact .read_of_shorter hgap hat hlongest hdrive List.nil_prefix (.ended gap_nil)
      | cons tok front =>
          rw [List.cons_append] at hfront
          obtain ⟨rfl, hfront'⟩ := List.cons_prefix_cons.mp hfront
          obtain ⟨part, hpart, hindex, hscans⟩ := ih hfront'
          refine ⟨gap ++ (value ++ part), hbegins hpart, by simpa using hindex, ?_⟩
          exact .read_of_shorter hgap hat hlongest hdrive hpart hscans

end Scanner

/-- Whatever comes behind the first tokens of a source, its text up to the end of the last one of
them is cut into just these tokens, with the same extents. -/
theorem tokens_take_stop (t : Table) (source : String) (front : List Token) (last : Token)
    (hyields : (Scanner.start t source).Yields (front ++ [last])) :
    t.tokens (String.ofList (source.toList.take last.extent.stop.index)) =
      .ok (front ++ [last]) := by
  obtain ⟨read, hread, hindex, hscans⟩ :=
    (Scanner.scans_start t source).cut (Scanner.yields_iff.mp hyields)
  rw [List.nil_append] at hindex
  rw [Table.tokens_eq_ok_iff, String.toList_ofList, hindex, ← List.prefix_iff_eq_take.mp hread]
  exact hscans

/-- The walk over the second number crosses the point, which is cut off, and the scan fails behind
it. -/
theorem tokens_take_stop_numbers :
    let reserved : Token := ⟨.keyword, "7", ⟨⟨0, 1, 1⟩, ⟨1, 1, 2⟩⟩⟩
    let number : Token := ⟨.accepted "whole", "12", ⟨⟨2, 2, 1⟩, ⟨4, 2, 3⟩⟩⟩
    (Scanner.start .numbers "7\n12.x").Yields [reserved, number] ∧
    Table.numbers.tokens "7\n12" = .ok [reserved, number] := by
  intro reserved number
  have hyields : (Scanner.start .numbers "7\n12.x").Yields ([reserved] ++ [number]) := by
    refine Scanner.yields_iff.mpr ?_
    decide +kernel
  have htokens := tokens_take_stop .numbers "7\n12.x" [reserved] number hyields
  have hcut : String.ofList ("7\n12.x".toList.take number.extent.stop.index) = "7\n12" := by decide
  rw [hcut] at htokens
  exact ⟨hyields, htokens⟩

end Munch
