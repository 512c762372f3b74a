import Munch.Proofs.Grammar
import Munch.Proofs.LastWrite

/-!
# What a description can name

Steps may give a state any name, but a description names states and reserved words by its fields. So
no name and no reserved word in a table that was described is empty or holds white space, and words
that stand apart from each other by spaces can be told from each other again.
-/

namespace Munch

namespace Text

/-- Whether a text can be a field: it is not empty and holds no white space. -/
def IsWord (s : String) : Prop := s.toList ≠ [] ∧ ∀ c ∈ s.toList, ¬ isWhite c

/-- White space stands in no word. -/
theorem IsWord.not_mem {s : String} (h : IsWord s) {c : Char} (hc : isWhite c) : c ∉ s.toList :=
  fun hmem => h.2 c hmem hc

/-- Every field is a word. -/
theorem isWord_of_mem_fields {text field : List Char} (h : field ∈ fields text) :
    IsWord (String.ofList field) := by
  have hfields : Separated text (fields text) := fields_eq_iff.mp rfl
  generalize fields text = fs at h hfields
  induction hfields with
  | blank => simp at h
  | field _ hne hfield _ _ ih =>
      rcases List.mem_cons.mp h with rfl | h
      · simpa [IsWord] using And.intro hne hfield
      · exact ih h

/-- All words of a line are words. -/
theorem isWord_of_mem_words {line w : String} (h : w ∈ words line) : IsWord w := by
  obtain ⟨field, hfield, rfl⟩ := List.mem_map.mp h
  exact isWord_of_mem_fields hfield

/-- Words with a space between each two of them are its fields. -/
theorem fields_intercalate {words : List String} (h : ∀ w ∈ words, IsWord w) :
    fields ([' '].intercalate (words.map String.toList)) = words.map String.toList := by
  induction words with
  | nil => simp
  | cons w words ih =>
      have hw : IsWord w := h w List.mem_cons_self
      have hwords := ih fun w' hw' => h w' (List.mem_cons_of_mem _ hw')
      cases words with
      | nil => simpa using fields_eq_singleton hw.1 hw.2
      | cons w' words =>
          rw [List.map_cons] at hwords
          rw [List.map_cons, List.map_cons, List.intercalate_cons_cons, List.append_assoc,
            List.singleton_append, fields_append_cons (by decide), hwords,
            fields_eq_singleton hw.1 hw.2]
          rfl

end Text

open Text (IsWord)

/-- The name of the initial state can stand in a description. -/
theorem isWord_initialName : IsWord initialName := by
  have hall : initialName.toList.all (!Text.isWhite ·) = true := by decide
  exact ⟨by decide, fun c hc => by simpa using List.all_eq_true.mp hall c hc⟩

/-- A row that is read names its states by fields. -/
theorem Row.isWord_of_ofLine {line source target : String} {symbol : Symbol}
    (h : ofLine line = .ok (.edge source symbol target)) : IsWord source ∧ IsWord target := by
  rw [ofLine] at h
  split at h
  · simp at h
  split at h
  case h_1 source' field target' heq =>
    cases hsymbol : Symbol.ofField field with
    | error cause => simp [hsymbol, Except.map] at h
    | ok symbol' =>
        obtain ⟨rfl, rfl, rfl⟩ : source' = source ∧ symbol' = symbol ∧ target' = target := by
          simpa [hsymbol, Except.map] using h
        have hsource : source' ∈ Text.words line := by simp [heq]
        have htarget : target' ∈ Text.words line := by simp [heq]
        exact ⟨Text.isWord_of_mem_words hsource, Text.isWord_of_mem_words htarget⟩
  case h_2 => simp at h

/-- Whether all that a step mentions or reserves are words. -/
structure Step.Worded (st : Step) : Prop where
  mentioned : ∀ name ∈ st.mentioned, IsWord name
  reserved : ∀ words, st = .reserve words → ∀ w ∈ words, IsWord w

/-- A step that lists accepting states mentions all of them. -/
theorem Step.mentioned_accept (names : List String) : (Step.accept names).mentioned = names := by
  simp [mentioned, changes, Change.mentioned, List.flatMap_map]

/-- Every line is a step with words only. -/
theorem Step.worded_line (text : String) (l : Location) : (Step.line text l).Worded := by
  refine ⟨?_, by simp⟩
  intro name hname
  cases hrow : Row.ofLine text with
  | error cause => simp [mentioned, changes, hrow] at hname
  | ok row =>
      cases row with
      | remark => simp [mentioned, changes, Row.changes, hrow] at hname
      | edge source symbol target =>
          obtain ⟨hsource, htarget⟩ := Row.isWord_of_ofLine hrow
          have hname : name = source ∨ name = target := by
            simpa [mentioned, changes, Row.changes, hrow, Change.mentioned] using hname
          rcases hname with rfl | rfl
          · exact hsource
          · exact htarget

namespace Table

/-- Whether all names and all reserved words of a table are words. -/
structure Worded (t : Table) : Prop where
  names : ∀ name ∈ t.names, IsWord name
  reserved : ∀ w ∈ t.reservedWords, IsWord w

/-- Steps that give words as names build a table of words. -/
theorem worded_ofSteps {ss : List Step} (h : ∀ st ∈ ss, st.Worded) : (ofSteps ss).Worded := by
  constructor
  case names =>
    intro name hname
    rw [mem_names_ofSteps, List.mem_cons, List.mem_flatMap] at hname
    rcases hname with rfl | ⟨st, hst, hname⟩
    · exact isWord_initialName
    · exact (h st hst).mentioned name hname
  case reserved =>
    intro w hw
    rw [reservedWords, Std.ExtTreeSet.mem_toList, mem_reserved_ofSteps] at hw
    obtain ⟨words, hst, hw⟩ := hw
    exact (h _ hst).reserved words rfl w hw

/-- A table that is described is one that steps with words only build. -/
theorem exists_steps_of_ofDescription {d : String} {t : Table} (h : ofDescription d = .ok t) :
    ∃ ss : List Step, t = ofSteps ss ∧ ∀ st ∈ ss, st.Worded := by
  have hfields (text : List Char) :
      ∀ w ∈ (Text.fields text).map String.ofList, IsWord w :=
    List.forall_mem_map.mpr fun _ => Text.isWord_of_mem_fields
  obtain ⟨-, herror⟩ | ⟨accepting, reserved, rows, -, -, hok⟩ |
    ⟨before, line, after, cause, -, -, -, -, herror⟩ := ofDescription_cases d
  · simp [herror] at h
  · refine ⟨_, (Except.ok.inj ((hok fun _ => .first).symm.trans h)).symm, ?_⟩
    intro st hst
    rcases List.mem_cons.mp hst with rfl | hst
    · refine ⟨?_, by simp⟩
      rw [Step.mentioned_accept]
      exact hfields accepting
    rcases List.mem_cons.mp hst with rfl | hst
    · refine ⟨by simp [Step.mentioned, Step.changes, Change.mentioned], ?_⟩
      rintro words hwords
      rw [← Step.reserve.inj hwords]
      exact hfields reserved
    · obtain ⟨n, hn, rfl⟩ := List.mem_mapIdx.mp hst
      exact Step.worded_line _ _
  · simp [herror] at h

/-- A table that was described holds words only, as names and as reserved words. -/
theorem worded_of_ofDescription {d : String} {t : Table} (h : ofDescription d = .ok t) :
    t.Worded := by
  obtain ⟨ss, rfl, hss⟩ := exists_steps_of_ofDescription h
  exact worded_ofSteps hss

/-- A table that was described is well numbered. -/
theorem numbered_of_ofDescription {d : String} {t : Table} (h : ofDescription d = .ok t) :
    t.Numbered := by
  obtain ⟨ss, rfl, -⟩ := exists_steps_of_ofDescription h
  exact numbered_ofSteps ss

end Table

end Munch
