import Munch.Proofs.Operations

/-!
# Maximal munch

A token is the longest accepted text with which the rest of the source begins. Backtracking, several
accepting states on the way, edges back to the initial state and the end of the source are all
behind the walk; what is left here is to tell which token comes out and where the cursor stands.
-/

namespace Munch

/-- The kind of a token is decided by its text: the state counts only if this is not reserved. -/
theorem Table.kindOf_eq (t : Table) (value : String) (state : StateId) :
    t.kindOf value state =
      if value ∈ t.reserved then .keyword else .accepted (t.nameOf state) := by
  simp only [kindOf, isReserved, Std.ExtTreeSet.contains_iff_mem]

namespace Scanner

variable {s : Scanner} {tok : Token}

/-- Reading moves the index by the characters that are there to be read. -/
theorem index_advance (s : Scanner) (n : Nat) :
    (s.advance n).cursor.index = s.cursor.index + min n s.rest.length := by
  simp [advance, Cursor.index_crossAll]

/-- A token that is given out is cut from the longest accepted beginning. -/
theorem exists_longest_of_token (h : s.halt? = none) (htok : s.token.1 = .ok tok) :
    ∃ value state, s.table.Longest s.rest value ∧
      s.table.drive Table.initial value = some state ∧
      tok = s.cut value.length state ∧ s.token.2 = s.advance value.length := by
  obtain ⟨value, state, hlongest, hdrive, htoken⟩ | ⟨stuck, -, -, htoken⟩ := token_cases h
  · rw [htoken] at htok
    exact ⟨value, state, hlongest, hdrive, (Except.ok.inj htok).symm, by rw [htoken]⟩
  · simp [htoken] at htok

/-- A token is a keyword exactly if its text is reserved, in whatever state the walk ended. -/
theorem isKeyword_iff_of_token (htok : s.token.1 = .ok tok) :
    tok.isKeyword ↔ tok.value ∈ s.table.reserved := by
  cases hhalt : s.halt? with
  | some d => simp [token_of_halted hhalt] at htok
  | none =>
      obtain ⟨value, state, -, -, rfl, -⟩ := exists_longest_of_token hhalt htok
      simp only [Token.isKeyword, cut, Table.kindOf_eq, decide_eq_true_eq]
      split <;> simp_all

/-- A token is given out exactly if some nonempty text with which the rest begins is accepted. -/
theorem exists_token_iff (h : s.halt? = none) :
    (∃ tok, s.token.1 = .ok tok) ↔ ∃ p, p <+: s.rest ∧ p ≠ [] ∧ s.table.accepts p := by
  rw [← Table.not_rejects_iff]
  obtain ⟨value, state, hlongest, -, htoken⟩ | ⟨stuck, hrejects, -, htoken⟩ := token_cases h
  · simp [htoken, hlongest.not_rejects]
  · simp [htoken, hrejects]

/-- A scan that is not halted gives out a token exactly if the rest of its source begins with a
nonempty accepted text. The token is then the longest such text; its extent begins where the scan
stands and ends where the scan goes on. -/
theorem token_eq_longest_accepted (t : Table) (source : String) (os : List Operation)
    (hlive : ((start t source).after os).isHalted = false) :
    let s := (start t source).after os
    let text := source.toList.drop s.cursor.index
    ((∃ tok, s.token.1 = .ok tok) ↔ ∃ p, p <+: text ∧ p ≠ [] ∧ t.accepts p) ∧
    ∀ tok, s.token.1 = .ok tok →
      t.Longest text tok.value.toList ∧
      tok.extent.start = s.location ∧
      tok.extent.start.index = s.cursor.index ∧
      tok.extent.stop.index = s.cursor.index + tok.value.length ∧
      s.token.2.location = tok.extent.stop ∧
      s.token.2.isHalted = false ∧
      ∃ state, t.drive Table.initial tok.value.toList = some state ∧
        tok.kind = if tok.value ∈ t.reserved then .keyword else .accepted (t.nameOf state) := by
  intro s text
  obtain ⟨done, hs⟩ := behind_after t source os
  have hhalt : s.halt? = none := isHalted_eq_false_iff.mp hlive
  have htext : s.rest = text := hs.rest_eq
  have htable : s.table = t := hs.table_eq
  refine ⟨by rw [exists_token_iff hhalt, htext, htable], ?_⟩
  intro tok htok
  obtain ⟨value, state, hlongest, hdrive, rfl, hafter⟩ := exists_longest_of_token hhalt htok
  have hvalue : (s.cut value.length state).value.toList = value := by
    rw [toList_value_cut]
    exact (List.prefix_iff_eq_take.mp hlongest.begins).symm
  have hlength : (s.cut value.length state).value.length = value.length := by
    rw [← String.length_toList, hvalue]
  rw [hvalue, hlength, hafter, ← htext, ← htable]
  refine ⟨hlongest, rfl, rfl, ?_, rfl, ?_, state, hdrive, s.table.kindOf_eq _ _⟩
  · show (s.advance value.length).cursor.index = _
    rw [index_advance, Nat.min_eq_left hlongest.begins.length_le]
  · simp [isHalted, advance, hhalt]

/-- The first number is of the state in which it ends. Behind it and the gap the walk crosses the
point and is taken back, and the number that is left is reserved. -/
theorem token_eq_longest_accepted_numbers :
    let first := start .numbers "12.5 7.x"
    let s := first.after [.next, .skip]
    (∃ tok, first.token.1 = .ok tok ∧ tok.value = "12.5" ∧ tok.kind = .accepted "broken") ∧
    s.isHalted = false ∧ ∃ tok, s.token.1 = .ok tok ∧
      Table.numbers.Longest ("12.5 7.x".toList.drop s.cursor.index) tok.value.toList ∧
      tok.value = "7" ∧ tok.kind = .keyword := by
  intro first s
  have hlive : s.isHalted = false := by decide +kernel
  obtain ⟨hread, htoken⟩ := token_eq_longest_accepted .numbers "12.5 7.x" [.next, .skip] hlive
  obtain ⟨hread₀, htoken₀⟩ := token_eq_longest_accepted .numbers "12.5 7.x" [] rfl
  obtain ⟨tok₀, htok₀⟩ := hread₀.mpr ⟨['1', '2'], by decide +kernel, by decide, by decide +kernel⟩
  obtain ⟨tok, htok⟩ := hread.mpr ⟨['7'], by decide +kernel, by decide, by decide +kernel⟩
  have hvalue₀ : tok₀.value = "12.5" := by
    have hvalues : first.token.1.map Token.value = .ok "12.5" := by decide +kernel
    simpa [show first.token.1 = .ok tok₀ from htok₀, Except.map] using hvalues
  have hvalue : tok.value = "7" := by
    have hvalues : s.token.1.map Token.value = .ok "7" := by decide +kernel
    simpa [show s.token.1 = .ok tok from htok, Except.map] using hvalues
  obtain ⟨-, -, -, -, -, -, state₀, hdrive₀, hkind₀⟩ := htoken₀ tok₀ htok₀
  obtain ⟨hlongest, -, -, -, -, -, state, -, hkind⟩ := htoken tok htok
  rw [hvalue₀] at hdrive₀ hkind₀
  rw [hvalue] at hkind
  -- the state of broken numbers is the second one that is accepted, behind the initial state
  have hstate₀ : Table.numbers.drive Table.initial "12.5".toList = some 2 := by decide +kernel
  obtain rfl := Option.some.inj (hstate₀.symm.trans hdrive₀)
  refine ⟨⟨tok₀, htok₀, hvalue₀, ?_⟩, hlive, tok, htok, hlongest, hvalue, ?_⟩
  · rw [hkind₀, if_neg (by decide +kernel)]
    decide +kernel
  · rw [hkind, if_pos (by decide +kernel)]

end Scanner

end Munch
