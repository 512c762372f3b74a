import Munch.Proofs.Iteration
import Munch.Proofs.Relocation

/-!
# Starting anew

A scanner keeps nothing between two tokens but the place where it stands. So whatever led it there,
it answers like a fresh scanner over the text that is left, with all locations counted on from this
place.
-/

namespace Munch

/-- A token or a failure of which the locations are moved. -/
def relocateResult (move : Location → Location) :
    Except Diagnostic Token → Except Diagnostic Token
  | .ok tok => .ok (tok.relocate move)
  | .error d => .error (d.relocate move)

namespace Scanner

variable {s : Scanner} {t : Table} {source done : List Char}

/-- A run reads what a run over its text alone reads, farther behind. -/
theorem Behind.results_eq (h : s.Behind t source done) (hlive : s.halt? = none) :
    s.run.results = (start t (String.ofList s.rest)).run.results.map
      (relocateResult (.offset (.behind done))) := by
  have hfresh := scans_start t (String.ofList s.rest)
  rw [String.toList_ofList] at hfresh
  -- both runs are over the same text at the same place
  obtain ⟨htokens, hfailure⟩ := (scans_run h hlive).unique (hfresh.relocate_offset done)
  rw [Run.results, Run.results, htokens, hfailure, List.map_append]
  congr 1
  · simp only [List.map_map]
    rfl
  · cases (start t (String.ofList s.rest)).run.failure? <;> rfl

/-- Whatever operations lead to a scan that is not halted, its answers from there on are those of a
fresh scanner over the rest of the source, with every location counted on from where the scan
stands. -/
theorem answers_restart (t : Table) (source : String) (os : List Operation)
    (hlive : ((start t source).after os).isHalted = false) :
    let s := (start t source).after os
    let fresh := start t (String.ofList (source.toList.drop s.cursor.index))
    ∀ n, s.answer? n = (fresh.answer? n).map (relocateResult s.location.offset) := by
  intro s fresh n
  obtain ⟨done, hs⟩ := behind_after t source os
  have hhalt : s.halt? = none := isHalted_eq_false_iff.mp hlive
  have hrest : s.rest = source.toList.drop s.cursor.index := hs.rest_eq
  have hlocation : s.location = .behind done := hs.location_eq_behind
  rw [answer?_eq_getElem?_results, answer?_eq_getElem?_results, hs.results_eq hhalt,
    List.getElem?_map, hrest, hlocation]

/-- Behind the first bracket a second one goes over two lines, and in the third line one is left
open: the failure is located in the first column of the line after. -/
theorem answers_restart_brackets :
    let s := (start .brackets "\n<a> <b\n><c\n").after [.skip, .token, .peek]
    s.isHalted = false ∧
    s.answer? 0 = some (.ok ⟨.accepted "closed", "<b\n>", ⟨⟨5, 2, 5⟩, ⟨9, 3, 2⟩⟩⟩) ∧
    s.answer? 1 = some (.error ⟨.unexpectedCharacter none, ⟨12, 4, 1⟩⟩) ∧ s.answer? 2 = none := by
  intro s
  have hlive : s.isHalted = false := by decide +kernel
  have hrestart := answers_restart .brackets "\n<a> <b\n><c\n" [.skip, .token, .peek] hlive
  refine ⟨hlive, (hrestart 0).trans ?_, (hrestart 1).trans ?_, (hrestart 2).trans ?_⟩ <;>
    decide +kernel

end Scanner

end Munch
