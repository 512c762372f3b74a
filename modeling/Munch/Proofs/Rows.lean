import Munch.Proofs.Words

/-!
# Rows and their fields

A row has three fields, and they can be found in two ways. `Captures` is the pattern of a row: three
stretches without white space, and white space between each two of them. But the fields of a line
can also be listed one by one, as many as there are. `captures_iff_words` says that both ways agree,
so the pattern captures a line in one way at most. `Reads` is all that a line can be read as, told
by its fields alone, and what the line does to a table follows from it.
-/

namespace Munch

open Text (Separated isWhite)

/-- Each class is found by its name, so no two have the same. -/
theorem CharClass.ofName?_name (k : CharClass) : ofName? k.name = some k := by cases k <;> decide

/-- The name of a class is never taken for a single character. -/
theorem CharClass.length_name_ne_one (k : CharClass) : k.name.length ≠ 1 := by cases k <;> decide

namespace Symbol

variable {field : String} {s : Symbol}

/-- The symbol that a field writes: a class by its name, or a single character by itself. -/
inductive Writes : String → Symbol → Prop
  | anyOf (k : CharClass) : Writes k.name (.anyOf k)
  | only (c : Char) : Writes (.singleton c) (.only c)

/-- No class has a name of one character, so a field writes one symbol at most. -/
theorem Writes.ofField_eq (h : Writes field s) : ofField field = .ok s := by
  cases h with
  | anyOf k => simp only [ofField, CharClass.ofName?_name]
  | only c =>
      have hnone : CharClass.ofName? (.singleton c) = none := by
        refine List.find?_eq_none.mpr fun k _ hk => k.length_name_ne_one ?_
        rw [beq_iff_eq.mp hk, ← String.length_toList, String.toList_singleton,
          List.length_singleton]
      simp only [ofField, hnone, String.toList_singleton]

/-- A field can be a symbol if it writes one. -/
theorem written_iff : Written field.toList ↔ ∃ s, Writes field s := by
  constructor
  · rintro (⟨k, hk⟩ | ⟨c, hc⟩)
    · obtain rfl := String.toList_inj.mp hk
      exact ⟨_, .anyOf k⟩
    · rw [← String.toList_singleton, String.toList_inj] at hc
      subst hc
      exact ⟨_, .only c⟩
  · rintro ⟨_, k | c⟩
    · exact Or.inl ⟨k, rfl⟩
    · exact Or.inr ⟨c, String.toList_singleton c⟩

/-- A field writes no symbol if it is no name of a class and does not hold one character. -/
theorem forall_not_writes_iff :
    (∀ s, ¬ Writes field s) ↔ (∀ k : CharClass, field ≠ k.name) ∧ field.length ≠ 1 := by
  rw [← not_exists, ← written_iff, Written, not_or, ← List.length_eq_one_iff, String.length_toList]
  simp only [String.toList_inj, not_exists, ne_eq]

/-- A field that writes no symbol is told in the failure. -/
theorem ofField_eq_of_forall_not_writes (h : ∀ s, ¬ Writes field s) :
    ofField field = .error (.unknownSymbol field) := by
  obtain ⟨hwritten, -⟩ | ⟨-, herror⟩ := ofField_cases field.toList
  · exact absurd (written_iff.mp hwritten) (not_exists.mpr h)
  · rwa [String.ofList_toList] at herror

/-- Every symbol has a character. -/
theorem members_ne_nil (s : Symbol) : s.members ≠ [] := by
  cases s with
  | anyOf k => cases k <;> decide
  | only c => exact List.cons_ne_nil c []

end Symbol

namespace Row

/-! ## The pattern of a row -/

/-- The pattern of a row, and the three fields that it captures. -/
inductive Captures : List Char → List Char → List Char → List Char → Prop
  | intro {lead source gap symbol gap' target trail : List Char} (hlead : ∀ c ∈ lead, isWhite c)
      (hsource : source ≠ [] ∧ ∀ c ∈ source, ¬ isWhite c) (hgap : gap ≠ [] ∧ ∀ c ∈ gap, isWhite c)
      (hsymbol : symbol ≠ [] ∧ ∀ c ∈ symbol, ¬ isWhite c)
      (hgap' : gap' ≠ [] ∧ ∀ c ∈ gap', isWhite c)
      (htarget : target ≠ [] ∧ ∀ c ∈ target, ¬ isWhite c) (htrail : ∀ c ∈ trail, isWhite c) :
      Captures (lead ++ (source ++ (gap ++ (symbol ++ (gap' ++ (target ++ trail))))))
        source symbol target

variable {text rest field source symbol target : List Char} {fs : List (List Char)}

/-- The white space between two fields is not empty. -/
theorem exists_gap_of_separated (h : Separated rest (field :: fs))
    (hrest : ∀ c, rest.head? = some c → isWhite c) :
    ∃ gap rest', rest = gap ++ (field ++ rest') ∧ (gap ≠ [] ∧ ∀ c ∈ gap, isWhite c) ∧
      (field ≠ [] ∧ ∀ c ∈ field, ¬ isWhite c) ∧ (∀ c, rest'.head? = some c → isWhite c) ∧
      Separated rest' fs := by
  cases h with
  | @field gap _ rest' _ hgap hne hfield hrest' h =>
      refine ⟨gap, rest', rfl, ⟨?_, hgap⟩, ⟨hne, hfield⟩, hrest', h⟩
      -- without a gap the field would begin where white space has to stand
      rintro rfl
      obtain ⟨c, field, rfl⟩ := List.exists_cons_of_ne_nil hne
      exact hfield c List.mem_cons_self (hrest c rfl)

/-- Where white space stands, it is what comes first. -/
theorem head?_gap_append {gap : List Char} (hgap : gap ≠ [] ∧ ∀ c ∈ gap, isWhite c)
    (more : List Char) : ∀ c, (gap ++ more).head? = some c → isWhite c := by
  intro c hc
  rw [List.head?_append_of_ne_nil _ hgap.1] at hc
  exact hgap.2 c (List.mem_of_mem_head? hc)

/-- The pattern captures the fields of a line if there are three of them. -/
theorem captures_iff_separated :
    Captures text source symbol target ↔ Separated text [source, symbol, target] := by
  constructor
  · rintro ⟨hlead, hsource, hgap, hsymbol, hgap', htarget, htrail⟩
    have htrail' : ∀ c, List.head? _ = some c → isWhite c :=
      fun c hc => htrail c (List.mem_of_mem_head? hc)
    exact .field hlead hsource.1 hsource.2 (head?_gap_append hgap _)
      (.field hgap.2 hsymbol.1 hsymbol.2 (head?_gap_append hgap' _)
        (.field hgap'.2 htarget.1 htarget.2 htrail' (.blank htrail)))
  · intro h
    cases h with
    | field hlead hne hsource hrest h =>
        obtain ⟨gap, rest', rfl, hgap, hsymbol, hrest', h⟩ := exists_gap_of_separated h hrest
        obtain ⟨gap', trail, rfl, hgap', htarget, -, h⟩ := exists_gap_of_separated h hrest'
        cases h with
        | blank htrail => exact .intro hlead ⟨hne, hsource⟩ hgap hsymbol hgap' htarget htrail

/-- The pattern and the list of fields tell the same. -/
theorem captures_iff_words {line source symbol target : String} :
    Captures line.toList source.toList symbol.toList target.toList ↔
      Text.words line = [source, symbol, target] := by
  rw [captures_iff_separated, ← Text.fields_eq_iff, Text.words]
  constructor
  · intro h
    simp [h]
  · intro h
    have hfields := congrArg (List.map String.toList) h
    simpa [Function.comp_def] using hfields

/-! ## What a line is read as -/

/-- Whether a line adds nothing: it begins with the remark mark, or all of it is white space. -/
def Skipped (line : String) : Prop :=
  line.toList.head? = some remarkMark ∨ ∀ c ∈ line.toList, isWhite c

/-- What a line is read as: each way excludes the others. -/
inductive Reads (line : String) : Except Cause Row → Prop
  | remark (hskipped : Skipped line) : Reads line (.ok .remark)
  | edge {source field target : String} {symbol : Symbol} (hskipped : ¬ Skipped line)
      (hwords : Text.words line = [source, field, target]) (hsymbol : Symbol.Writes field symbol) :
      Reads line (.ok (.edge source symbol target))
  | malformed (hskipped : ¬ Skipped line) (hlength : (Text.words line).length ≠ 3) :
      Reads line (.error (.malformedRow (Text.words line).length line))
  | unknown {source field target : String} (hskipped : ¬ Skipped line)
      (hwords : Text.words line = [source, field, target])
      (hsymbol : ∀ symbol, ¬ Symbol.Writes field symbol) :
      Reads line (.error (.unknownSymbol field))

variable {line : String} {r : Except Cause Row}

/-- The lines that are skipped are the remarks. -/
theorem isRemark_toList_iff : isRemark line.toList ↔ Skipped line := isRemark_iff

instance : Decidable (Skipped line) := decidable_of_iff _ isRemark_toList_iff

/-- A line of three words is a row, as far as the second one is a symbol. -/
theorem ofLine_of_words {source field target : String} (hskipped : ¬ Skipped line)
    (hwords : Text.words line = [source, field, target]) :
    ofLine line = (Symbol.ofField field).map (edge source · target) := by
  rw [ofLine, if_neg (mt isRemark_toList_iff.mp hskipped), hwords]

/-- What a line can be read as by its words is what it is read as. -/
theorem Reads.ofLine_eq (h : Reads line r) : ofLine line = r := by
  cases h with
  | remark hskipped => rw [ofLine, if_pos (isRemark_toList_iff.mpr hskipped)]
  | edge hskipped hwords hsymbol =>
      rw [ofLine_of_words hskipped hwords, hsymbol.ofField_eq]
      rfl
  | malformed hskipped hlength =>
      have hfields : (Text.words line).length = (Text.fields line.toList).length :=
        List.length_map _
      rw [hfields] at hlength ⊢
      simpa using ofLine_of_length_ne (mt isRemark_toList_iff.mp hskipped) hlength
  | unknown hskipped hwords hnone =>
      rw [ofLine_of_words hskipped hwords, Symbol.ofField_eq_of_forall_not_writes hnone]
      rfl

/-- Every line can be read. -/
theorem exists_reads (line : String) : ∃ r, Reads line r := by
  by_cases hskipped : Skipped line
  · exact ⟨_, .remark hskipped⟩
  by_cases hlength : (Text.words line).length = 3
  · obtain ⟨source, field, target, hwords⟩ := List.length_eq_three.mp hlength
    by_cases hsymbol : ∃ symbol, Symbol.Writes field symbol
    · obtain ⟨symbol, hsymbol⟩ := hsymbol
      exact ⟨_, .edge hskipped hwords hsymbol⟩
    · exact ⟨_, .unknown hskipped hwords (not_exists.mp hsymbol)⟩
  · exact ⟨_, .malformed hskipped hlength⟩

/-- The function and the relation tell the same of every line. -/
theorem ofLine_eq_iff : ofLine line = r ↔ Reads line r := by
  constructor
  · rintro rfl
    obtain ⟨r, h⟩ := exists_reads line
    rwa [h.ofLine_eq]
  · exact Reads.ofLine_eq

/-- The lines that are read as remarks are those that are skipped. -/
theorem ofLine_eq_remark_iff : ofLine line = .ok .remark ↔ Skipped line := by
  rw [ofLine_eq_iff]
  constructor
  · intro h
    cases h with
    | remark hskipped => exact hskipped
  · exact .remark

end Row

namespace Table

variable {t t' : Table} {line : String} {l : Location} {d : Diagnostic}

/-- A line is added to a table as the row that it is read as. -/
theorem addLine_eq_ok_iff :
    t.addLine line l = .ok t' ↔ ∃ row, Row.Reads line (.ok row) ∧ t.addRow row = t' := by
  simp only [← Row.ofLine_eq_iff, addLine]
  cases Row.ofLine line <;> simp

/-- A line that cannot be read fails with the reason of this, at the location that is given with
it. -/
theorem addLine_eq_error_iff :
    t.addLine line l = .error d ↔ Row.Reads line (.error d.cause) ∧ d.location = l := by
  obtain ⟨cause, location⟩ := d
  simp only [← Row.ofLine_eq_iff, addLine]
  cases Row.ofLine line <;> simp [eq_comm]

/-- A connection leaves an edge behind. -/
theorem connect_ne_empty (source : String) (symbol : Symbol) (target : String) :
    empty.connect source symbol target ≠ empty := by
  obtain ⟨c, hc⟩ := List.exists_mem_of_ne_nil _ symbol.members_ne_nil
  intro heq
  have hnext : (empty.connect source symbol target).next? (empty.mention source).2 c = none := by
    rw [heq]
    rfl
  simp [next?_connect, hc] at hnext

/-- The lines that no table is changed by are those that are skipped. -/
theorem forall_addLine_eq_ok_iff : (∀ t : Table, t.addLine line l = .ok t) ↔ Row.Skipped line := by
  constructor
  · intro hall
    obtain ⟨row, hreads, hrow⟩ := addLine_eq_ok_iff.mp (hall empty)
    cases hreads with
    | remark h => exact h
    | edge _ _ _ => exact absurd hrow (connect_ne_empty _ _ _)
  · intro h t
    exact addLine_eq_ok_iff.mpr ⟨.remark, .remark h, rfl⟩

/-- A line is malformed if it has not three words; the failure tells their number and the whole
line. -/
theorem addLine_malformed_iff {n : Nat} {row : String} :
    (∃ l', t.addLine line l = .error ⟨.malformedRow n row, l'⟩) ↔
      ¬ Row.Skipped line ∧ (Text.words line).length ≠ 3 ∧ n = (Text.words line).length ∧
        row = line := by
  simp only [addLine_eq_error_iff]
  constructor
  · rintro ⟨l', hreads, -⟩
    cases hreads with
    | malformed h hlength => exact ⟨h, hlength, rfl, rfl⟩
  · rintro ⟨h, hlength, rfl, rfl⟩
    exact ⟨l, .malformed h hlength, rfl⟩

/-- No field is empty, so one that does not hold one character holds more. -/
theorem addLine_unknown_iff {field : String} :
    (∃ l', t.addLine line l = .error ⟨.unknownSymbol field, l'⟩) ↔
      ¬ Row.Skipped line ∧ (∃ source target, Text.words line = [source, field, target]) ∧
        (∀ k : CharClass, field ≠ k.name) ∧ 1 < field.length := by
  simp only [addLine_eq_error_iff]
  constructor
  · rintro ⟨l', hreads, -⟩
    cases hreads with
    | unknown h hwords hnone =>
        obtain ⟨hclass, hone⟩ := Symbol.forall_not_writes_iff.mp hnone
        have hmem : field ∈ Text.words line := by simp [hwords]
        have hpos : 0 < field.length := by
          rw [← String.length_toList]
          exact List.length_pos_iff.mpr (Text.isWord_of_mem_words hmem).1
        exact ⟨h, ⟨_, _, hwords⟩, hclass, by omega⟩
  · rintro ⟨h, ⟨source, target, hwords⟩, hclass, hlength⟩
    have hnone := Symbol.forall_not_writes_iff.mpr ⟨hclass, by omega⟩
    exact ⟨l, .unknown h hwords hnone, rfl⟩

/-- A failure stands where the line does, is one of two, and the step makes no change. -/
theorem failed_addLine (hd : t.addLine line l = .error d) :
    d.location = l ∧ t.step (.line line l) = t ∧
      ((∃ n row, d.cause = .malformedRow n row) ∨ ∃ field, d.cause = .unknownSymbol field) := by
  obtain ⟨hreads, hlocation⟩ := addLine_eq_error_iff.mp hd
  refine ⟨hlocation, by simp only [step, step?, hd], ?_⟩
  generalize d.cause = cause at hreads
  cases hreads with
  | malformed => exact Or.inl ⟨_, _, rfl⟩
  | unknown => exact Or.inr ⟨_, rfl⟩

/-- A line is skipped exactly if it begins with the remark mark or all of it is white space: it is
then read as a remark and leaves each table as it is. There are tables that a row leaves as they are
too, if they have its edge already, but no row does so to all tables. Of a line that is not skipped
the fields count, which the pattern of a row captures exactly if there are three of them: with
another number of them the line is malformed, with a middle field that writes no symbol this field
is told, and else the line connects the two states. A failure stands where the line does and changes
nothing. -/
theorem addLine_by_fields (line : String) (l : Location) :
    let fs := Text.words line
    let skipped := line.toList.head? = some '#' ∨ ∀ c ∈ line.toList, isWhite c
    Separated line.toList (fs.map String.toList) ∧
    (∀ source field target : String,
      Row.Captures line.toList source.toList field.toList target.toList ↔
        fs = [source, field, target]) ∧
    (Row.ofLine line = .ok .remark ↔ skipped) ∧
    ((∀ t : Table, t.addLine line l = .ok t) ↔ skipped) ∧
    ∀ t : Table,
      (skipped → t.addLine line l = .ok t) ∧
      (∀ n row, (∃ l', t.addLine line l = .error ⟨.malformedRow n row, l'⟩) ↔
        ¬ skipped ∧ fs.length ≠ 3 ∧ n = fs.length ∧ row = line) ∧
      (∀ field, (∃ l', t.addLine line l = .error ⟨.unknownSymbol field, l'⟩) ↔
        ¬ skipped ∧ (∃ source target, fs = [source, field, target]) ∧
          (∀ k : CharClass, field ≠ k.name) ∧ 1 < field.length) ∧
      (∀ source field target symbol, ¬ skipped → fs = [source, field, target] →
        Symbol.Writes field symbol → t.addLine line l = .ok (t.connect source symbol target)) ∧
      ∀ d, t.addLine line l = .error d → d.location = l ∧ t.step (.line line l) = t ∧
        ((∃ n row, d.cause = .malformedRow n row) ∨ ∃ field, d.cause = .unknownSymbol field) := by
  intro fs skipped
  have hfs : fs.map String.toList = Text.fields line.toList := by
    simp [fs, Text.words, Function.comp_def]
  refine ⟨hfs ▸ Text.fields_eq_iff.mp rfl, fun _ _ _ => Row.captures_iff_words,
    Row.ofLine_eq_remark_iff, forall_addLine_eq_ok_iff,
    fun t => ⟨fun h => forall_addLine_eq_ok_iff.mpr h t, fun _ _ => addLine_malformed_iff,
      fun _ => addLine_unknown_iff, ?_, fun _ => failed_addLine⟩⟩
  intro source field target symbol hskipped hwords hsymbol
  exact addLine_eq_ok_iff.mpr ⟨_, .edge hskipped hwords hsymbol, rfl⟩

/-- A newline and an ideographic space stand between the fields of the first line. The second one
has a field too many, the middle field of the third one is none of the classes, and nothing is left
behind by them. The last line is a remark. -/
theorem addLine_by_fields_over_lines :
    let l : Location := ⟨3, 4, 1⟩
    numbers.addLine "point\n.\u3000broken\r" l =
      .ok (numbers.connect "point" (.only '.') "broken") ∧
    (∃ l', numbers.addLine "point . broken #" l =
      .error ⟨.malformedRow 4 "point . broken #", l'⟩) ∧
    (∃ l', numbers.addLine "\tpoint any broken" l = .error ⟨.unknownSymbol "any", l'⟩) ∧
    numbers.step (.line "\tpoint any broken" l) = numbers ∧
    numbers.addLine "# point . broken" l = .ok numbers := by
  intro l
  obtain ⟨-, -, -, -, hedge⟩ := addLine_by_fields "point\n.\u3000broken\r" l
  obtain ⟨-, -, -, -, hlong⟩ := addLine_by_fields "point . broken #" l
  obtain ⟨-, -, -, -, hunknown⟩ := addLine_by_fields "\tpoint any broken" l
  obtain ⟨-, -, -, -, hremark⟩ := addLine_by_fields "# point . broken" l
  obtain ⟨-, -, hfield, -, hfailed⟩ := hunknown numbers
  have herror : ∃ l', numbers.addLine "\tpoint any broken" l = .error ⟨.unknownSymbol "any", l'⟩ :=
    (hfield "any").mpr ⟨show ¬ Row.Skipped _ by decide, ⟨"point", "broken", by decide⟩,
      fun k => by cases k <;> decide, by decide⟩
  refine ⟨?_, ?_, herror, ?_, (hremark numbers).1 (Or.inl (by decide))⟩
  · exact (hedge numbers).2.2.2.1 "point" "." "broken" (.only '.') (show ¬ Row.Skipped _ by decide)
      (by decide) (.only '.')
  · exact ((hlong numbers).2.1 4 _).mpr ⟨show ¬ Row.Skipped _ by decide, by decide, by decide, rfl⟩
  · obtain ⟨l', hd⟩ := herror
    exact (hfailed _ hd).2.1

end Table

end Munch
