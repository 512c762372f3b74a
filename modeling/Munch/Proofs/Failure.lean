import Munch.Proofs.Operations

/-!
# Where a scan fails

A scan fails where its walk is stopped, and that may be far behind the place where the token would
have begun. `StopsAt` tells by indices of the source how far the walk goes; there is exactly one
such index, and the failure, its location and the cursor behind it are read off from it.
-/

namespace Munch

namespace Table

variable {t : Table} {text : List Char} {i p : Nat}

/-- From the initial state the text between two indices leads somewhere, and there it ends, or no
edge is there for its next character. -/
def StopsAt (t : Table) (text : List Char) (i p : Nat) : Prop :=
  i ≤ p ∧ p ≤ text.length ∧ ∃ s, t.drive initial ((text.drop i).take (p - i)) = some s ∧
    (p = text.length ∨ ∃ c, text[p]? = some c ∧ t.next? s c = none)

/-- A walk from an index stops where the text behind the index is stuck. -/
theorem stopsAt_iff_stuck (hi : i ≤ text.length) :
    t.StopsAt text i p ↔ ∃ done, t.Stuck (text.drop i) done ∧ p = i + done.length := by
  constructor
  · rintro ⟨hip, hp, s, hdrive, hend⟩
    refine ⟨(text.drop i).take (p - i), ⟨s, text.drop p, hdrive, ?_, ?_⟩, ?_⟩
    · have hdrop : text.drop p = (text.drop i).drop (p - i) := by
        rw [List.drop_drop, Nat.add_sub_cancel' hip]
      rw [hdrop, List.take_append_drop]
    · intro c hc
      rw [List.head?_drop] at hc
      rcases hend with rfl | ⟨c', hc', hnone⟩
      · simp at hc
      · rwa [Option.some.inj (hc.symm.trans hc')]
    · rw [List.length_take, List.length_drop]
      omega
  · rintro ⟨done, ⟨s, rest, hdrive, hsplit, hend⟩, rfl⟩
    have hlength : done.length + rest.length = text.length - i := by
      rw [← List.length_append, hsplit, List.length_drop]
    have hnext : text[i + done.length]? = rest.head? := by
      rw [← List.head?_drop, ← List.drop_drop, ← hsplit, List.drop_left]
    refine ⟨by omega, by omega, s, ?_, ?_⟩
    · rwa [Nat.add_sub_cancel_left, ← hsplit, List.take_left]
    · rw [hnext]
      cases rest with
      | nil =>
          rw [List.length_nil] at hlength
          exact Or.inl (by omega)
      | cons c rest => exact Or.inr ⟨c, rfl, hend c rfl⟩

/-- A walk stops somewhere, and at one index only. -/
theorem existsUnique_stopsAt (t : Table) (hi : i ≤ text.length) : ∃! p, t.StopsAt text i p := by
  obtain ⟨done, hstuck, -⟩ := t.walk_spec (text.drop i)
  refine ⟨i + done.length, (stopsAt_iff_stuck hi).mpr ⟨done, hstuck, rfl⟩, ?_⟩
  intro q hq
  obtain ⟨other, hother, rfl⟩ := (stopsAt_iff_stuck hi).mp hq
  rw [hother.unique hstuck]

end Table

namespace Scanner

variable {s : Scanner} {t : Table} {source done : List Char}

/-- A scan that is not halted fails exactly if no nonempty text with which the rest begins is
accepted. -/
theorem exists_error_iff (h : s.halt? = none) :
    (∃ d, s.token.1 = .error d) ↔ s.table.Rejects s.rest := by
  obtain ⟨value, state, hlongest, -, htoken⟩ | ⟨stuck, hrejects, -, htoken⟩ := token_cases h
  · simp [htoken, hlongest.not_rejects]
  · simp [htoken, hrejects]

/-- The failure of a scan is that of the place where its text is stuck, and there it stays. -/
theorem Behind.error_eq (h : s.Behind t source done) (hlive : s.halt? = none) {d : Diagnostic}
    (hd : s.token.1 = .error d) :
    ∃ stuck rest, t.Stuck s.rest stuck ∧ stuck ++ rest = s.rest ∧
      d = failureBetween (done ++ stuck) rest ∧
      s.token.2.Behind t source (done ++ stuck) := by
  obtain ⟨value, state, -, -, htoken⟩ | ⟨stuck, -, hstuck, htoken⟩ := token_cases hlive
  · simp [htoken] at hd
  · obtain ⟨rest, hrest⟩ := hstuck.begins
    rw [htoken, h.failure_advance hlive hrest] at hd
    rw [h.table_eq] at hstuck
    refine ⟨stuck, rest, hstuck, hrest, (Except.error.inj hd).symm, ?_⟩
    rw [htoken]
    exact (h.advance hlive hrest).halt

/-- Whatever operations lead to a scan that is not halted, it fails exactly if no nonempty text with
which the rest of the source begins is accepted. The walk stops at one index only; what is
unexpected is the character there or the end, the failure is located there, and there the cursor is
left. -/
theorem token_fails_where_walk_stops (t : Table) (source : String) (os : List Operation)
    (hlive : ((start t source).after os).isHalted = false) :
    let s := (start t source).after os
    let text := source.toList
    let i := s.cursor.index
    ((∃ d, s.token.1 = .error d) ↔ ¬ ∃ p, p <+: text.drop i ∧ p ≠ [] ∧ t.accepts p) ∧
    (∃! p, t.StopsAt text i p) ∧
    ∀ d p, s.token.1 = .error d → t.StopsAt text i p →
      d.cause = .unexpectedCharacter text[p]? ∧ d.location = Location.counted text p ∧
      s.token.2.cursor = Cursor.counted text p := by
  intro s text i
  obtain ⟨done, hs⟩ := behind_after t source os
  have hhalt : s.halt? = none := isHalted_eq_false_iff.mp hlive
  have hi : i ≤ text.length := hs.index_eq.trans_le hs.index_le
  have hrest : s.rest = text.drop i := hs.rest_eq
  refine ⟨?_, t.existsUnique_stopsAt hi, ?_⟩
  · rw [exists_error_iff hhalt, hs.table_eq, hrest, ← Table.not_rejects_iff, not_not]
  · intro d p hd hp
    obtain ⟨stuck, rest, hstuck, hsplit, rfl, hafter⟩ := hs.error_eq hhalt hd
    rw [hrest] at hstuck
    -- the walk stops where the text behind the scan is stuck, and that is one place
    have hp : p = (done ++ stuck).length := by
      obtain ⟨other, hother, rfl⟩ := (Table.stopsAt_iff_stuck hi).mp hp
      rw [hother.unique hstuck, List.length_append, ← hs.index_eq]
    have htext : text = (done ++ stuck) ++ rest := by
      rw [List.append_assoc, hsplit, hs.append_rest]
    have hcursor : s.token.2.cursor = Cursor.counted text p := by
      rw [hp]
      exact hafter.cursor_eq_counted
    refine ⟨?_, ?_, hcursor⟩
    · rw [htext, hp, ← List.head?_drop, List.drop_left]
      rfl
    · rw [htext, hp, Location.counted_append]
      rfl

/-- The second bracket is left open over three newlines; the number behind them is unexpected. -/
theorem token_fails_where_walk_stops_brackets :
    let s := (start .brackets "<a>\n<b\n\nc7>").after [.next, .skip]
    s.isHalted = false ∧ ∃ d, s.token.1 = .error d ∧
      d.cause = .unexpectedCharacter (some '7') ∧ d.location = ⟨9, 4, 2⟩ ∧
      s.token.2.cursor = ⟨9, 4, 8⟩ := by
  intro s
  have hlive : s.isHalted = false := by decide +kernel
  have hfails := token_fails_where_walk_stops .brackets "<a>\n<b\n\nc7>" [.next, .skip] hlive
  have hstops : Table.brackets.StopsAt "<a>\n<b\n\nc7>".toList s.cursor.index 9 :=
    ⟨by decide +kernel, by decide, 2, by decide +kernel, Or.inr ⟨'7', rfl, by decide +kernel⟩⟩
  have herror : s.token.1.toBool = false := by decide +kernel
  cases hd : s.token.1 with
  | ok tok => simp [hd, Except.toBool] at herror
  | error d =>
      obtain ⟨hcause, hlocation, hcursor⟩ := hfails.2.2 d 9 hd hstops
      exact ⟨hlive, d, rfl, hcause, hlocation.trans (by decide), hcursor.trans (by decide)⟩

end Scanner

end Munch
