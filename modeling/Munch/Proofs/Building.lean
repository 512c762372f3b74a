import Munch.Proofs.Interning

/-!
# Building, change by change

A step makes one state after the other accepting, reserves one word after the other, or connects two
states. Taken apart into such changes, a list of steps is a list of changes, and what is to be known
of building is one lemma on a single change and one induction.
-/

namespace Munch

/-- The smallest change of a table. -/
inductive Change
  | accept (name : String)
  | reserve (word : String)
  | connect (source : String) (symbol : Symbol) (target : String)
  deriving DecidableEq, Repr

/-- The changes that a row makes. -/
def Row.changes : Row → List Change
  | .remark => []
  | .edge source symbol target => [.connect source symbol target]

/-- The changes that a step makes. A row that cannot be read makes none. -/
def Step.changes : Step → List Change
  | .accept names => names.map .accept
  | .reserve words => words.map .reserve
  | .connect source symbol target => [.connect source symbol target]
  | .line text _ =>
    match Row.ofLine text with
    | .ok row => row.changes
    | .error _ => []

/-- The states that a change mentions, in the order in which they are numbered. -/
def Change.mentioned : Change → List String
  | .accept name => [name]
  | .reserve _ => []
  | .connect source _ target => [source, target]

/-- The edges that a change writes: one for each character of its symbol. -/
def Change.written : Change → List ((String × Char) × String)
  | .accept _ => []
  | .reserve _ => []
  | .connect source symbol target => symbol.members.map fun c => ((source, c), target)

/-- A connection writes an edge for each character of its symbol, all of them to its target. -/
theorem Change.mem_written_connect {e : String × Char} {source target target' : String}
    {symbol : Symbol} : (e, target) ∈ (Change.connect source symbol target').written ↔
      e.1 = source ∧ e.2 ∈ symbol.members ∧ target = target' := by
  obtain ⟨name, c⟩ := e
  simp only [written, List.mem_map, Prod.mk.injEq]
  constructor
  · rintro ⟨c', hc', ⟨rfl, rfl⟩, rfl⟩
    exact ⟨rfl, hc', rfl⟩
  · rintro ⟨rfl, hc, rfl⟩
    exact ⟨c, hc, ⟨rfl, rfl⟩, rfl⟩

/-- A row that is read is a remark or a single connection. -/
theorem Step.changes_line (text : String) (l : Location) :
    (Step.line text l).changes = [] ∨
      ∃ source symbol target, (Step.line text l).changes = [.connect source symbol target] := by
  cases hrow : Row.ofLine text with
  | error cause => simp [changes, hrow]
  | ok row => cases row <;> simp [changes, Row.changes, hrow]

/-- A step that writes edges is a single change. -/
theorem Step.changes_cases (st : Step) :
    (∀ ch ∈ st.changes, ch.written = []) ∨ ∃ ch, st.changes = [ch] := by
  cases st with
  | accept names => simp [changes, Change.written]
  | reserve words => simp [changes, Change.written]
  | connect source symbol target => exact Or.inr ⟨_, rfl⟩
  | line text l =>
      rcases changes_line text l with h | ⟨source, symbol, target, h⟩
      · simp [h]
      · exact Or.inr ⟨_, h⟩

/-- No step but one that lists accepting states makes a state accepting: rows never do. -/
theorem Step.accept_mem_changes {st : Step} {name : String} :
    .accept name ∈ st.changes ↔ ∃ names, st = .accept names ∧ name ∈ names := by
  cases st with
  | accept names => simp [changes]
  | reserve words => simp [changes]
  | connect source symbol target => simp [changes]
  | line text l => rcases changes_line text l with h | ⟨source, symbol, target, h⟩ <;> simp [h]

/-- No step but one that lists reserved words reserves one. -/
theorem Step.reserve_mem_changes {st : Step} {word : String} :
    .reserve word ∈ st.changes ↔ ∃ words, st = .reserve words ∧ word ∈ words := by
  cases st with
  | accept names => simp [changes]
  | reserve words => simp [changes]
  | connect source symbol target => simp [changes]
  | line text l => rcases changes_line text l with h | ⟨source, symbol, target, h⟩ <;> simp [h]

namespace Table

variable {t t' : Table} {ch : Change} {cs : List Change} {name word : String}

/-- The table after a change. -/
def apply (t : Table) : Change → Table
  | .accept name => t.accept name
  | .reserve word => t.reserve word
  | .connect source symbol target => t.connect source symbol target

/-- A step makes its changes one after the other. -/
theorem step_eq_foldl_apply (t : Table) (st : Step) : t.step st = st.changes.foldl apply t := by
  cases st with
  | accept names => simp only [step, step?, Step.changes, List.foldl_map, apply]
  | reserve words => simp only [step, step?, Step.changes, List.foldl_map, apply]
  | connect source symbol target => rfl
  | line text l =>
      cases hrow : Row.ofLine text with
      | error cause => simp [step, step?, addLine, Step.changes, hrow]
      | ok row =>
          cases row <;> simp [step, step?, addLine, addRow, Step.changes, Row.changes, apply, hrow]

/-- Steps make all their changes in one go. -/
theorem steps_eq_foldl_apply (t : Table) (ss : List Step) :
    t.steps ss = (ss.flatMap Step.changes).foldl apply t := by
  simp only [steps, List.foldl_flatMap, ← step_eq_foldl_apply]

/-- Steps can be made in two parts. -/
theorem steps_append (t : Table) (ss ss' : List Step) :
    t.steps (ss ++ ss') = (t.steps ss).steps ss' := List.foldl_append

/-! ## Names and numbers -/

/-- Every change keeps a table well numbered. -/
theorem Numbered.apply (h : t.Numbered) (ch : Change) : (t.apply ch).Numbered := by
  cases ch with
  | accept name => exact h.accept name
  | reserve word => exact h.reserve word
  | connect source symbol target => exact h.connect source symbol target

/-- No change moves a name. -/
theorem names_prefix_apply (t : Table) (ch : Change) : t.names <+: (t.apply ch).names := by
  cases ch with
  | accept name => exact names_prefix_mention t name
  | reserve word => exact List.prefix_refl _
  | connect source symbol target =>
      exact (names_prefix_mention t source).trans (names_prefix_mention _ target)

/-- A change makes the names known that it mentions. -/
theorem mem_names_apply : name ∈ (t.apply ch).names ↔ name ∈ t.names ∨ name ∈ ch.mentioned := by
  cases ch with
  | accept other => simp [apply, Change.mentioned, mem_names_mention]
  | reserve word => simp [apply, Change.mentioned]
  | connect source symbol target =>
      simp [apply, Change.mentioned, mem_names_mention, or_assoc]

/-- A list of changes keeps a table well numbered. -/
theorem Numbered.foldl_apply (h : t.Numbered) (cs : List Change) :
    (cs.foldl Table.apply t).Numbered := by
  induction cs generalizing t with
  | nil => exact h
  | cons ch cs ih => exact ih (h.apply ch)

/-- No list of changes moves a name. -/
theorem names_prefix_foldl_apply (t : Table) (cs : List Change) :
    t.names <+: (cs.foldl apply t).names := by
  induction cs generalizing t with
  | nil => exact List.prefix_refl _
  | cons ch cs ih => exact (names_prefix_apply t ch).trans (ih (t.apply ch))

/-- No list of steps moves a name. -/
theorem names_prefix_steps (t : Table) (ss : List Step) : t.names <+: (t.steps ss).names := by
  rw [steps_eq_foldl_apply]
  exact names_prefix_foldl_apply t _

/-- A list of changes makes the names known that are mentioned in it. -/
theorem mem_names_foldl_apply :
    name ∈ (cs.foldl apply t).names ↔ name ∈ t.names ∨ name ∈ cs.flatMap Change.mentioned := by
  induction cs generalizing t with
  | nil => simp
  | cons ch cs ih => simp [ih, mem_names_apply, or_assoc]

/-- A table that fits did so before its latest changes. -/
theorem Fits.of_isPrefix (h : t'.Fits) (hnames : t.names <+: t'.names) : t.Fits :=
  Nat.le_trans hnames.length_le h

/-! ## Accepting states -/

/-- The name of an accepting state. -/
def Marks (t : Table) (name : String) : Prop := ∃ s ∈ t.accepting, t.names[s]? = some name

/-- The names that are listed as accepting are those of the accepting states. -/
theorem mem_acceptingNames (ht : t.Numbered) : name ∈ t.acceptingNames ↔ t.Marks name := by
  simp only [acceptingNames, Std.ExtTreeSet.mem_toList, Std.ExtTreeSet.mem_ofList,
    List.contains_iff_mem, List.mem_map, Marks]
  constructor
  · rintro ⟨s, hs, rfl⟩
    exact ⟨s, hs, getElem?_names_of_lt (ht.accepting s hs)⟩
  · rintro ⟨s, hs, hname⟩
    exact ⟨s, hs, nameOf_eq_of_getElem? hname⟩

/-- New names leave the accepting states as they are. -/
theorem Numbered.marks_iff (ht : t.Numbered) (hnames : t.names <+: t'.names)
    (haccepting : t'.accepting = t.accepting) : t'.Marks name ↔ t.Marks name := by
  simp only [Marks, haccepting]
  refine exists_congr fun s => and_congr_right fun hs => ?_
  rw [getElem?_names_of_isPrefix hnames (ht.accepting s hs)]

/-- A change makes the state accepting that it names, and takes it back from none. -/
theorem Numbered.marks_apply_iff (ht : t.Numbered) (hfits : (t.apply ch).Fits) :
    (t.apply ch).Marks name ↔ t.Marks name ∨ ch = .accept name := by
  cases ch with
  | accept other =>
      -- the mention keeps what was accepting, and the number that it gives out bears the name
      have hother : (t.mention other).1.names[(t.mention other).2]? = some other :=
        getElem?_snd_mention hfits
      have hmention : (t.mention other).1.Marks name ↔ t.Marks name :=
        ht.marks_iff (names_prefix_mention t other) accepting_mention
      rw [← hmention, Change.accept.injEq]
      simp only [Marks, Table.apply, mem_accepting_accept, names_accept, accepting_mention]
      constructor
      · rintro ⟨s, rfl | hs, hname⟩
        · exact Or.inr (Option.some.inj (hother.symm.trans hname))
        · exact Or.inl ⟨s, hs, hname⟩
      · rintro (⟨s, hs, hname⟩ | rfl)
        · exact ⟨s, Or.inr hs, hname⟩
        · exact ⟨_, Or.inl rfl, hother⟩
  | reserve word =>
      have hmarks : (t.reserve word).Marks name ↔ t.Marks name :=
        ht.marks_iff (List.prefix_refl _) rfl
      simpa [Table.apply] using hmarks
  | connect source symbol target =>
      have hmarks : (t.connect source symbol target).Marks name ↔ t.Marks name :=
        ht.marks_iff (names_prefix_apply t (.connect source symbol target))
          (accepting_mention.trans accepting_mention)
      simpa [Table.apply] using hmarks

/-- After a list of changes those states are accepting that were before or are named in it. -/
theorem Numbered.marks_foldl_apply_iff (ht : t.Numbered)
    (hfits : (cs.foldl Table.apply t).Fits) :
    (cs.foldl Table.apply t).Marks name ↔ t.Marks name ∨ Change.accept name ∈ cs := by
  induction cs generalizing t with
  | nil => simp
  | cons ch cs ih =>
      have hfits' : (t.apply ch).Fits := hfits.of_isPrefix (names_prefix_foldl_apply _ cs)
      simp [ih (ht.apply ch) hfits, ht.marks_apply_iff hfits', or_assoc, eq_comm]

/-! ## Reserved words -/

/-- A change reserves the word that it names, and gives none free. -/
theorem mem_reserved_apply :
    word ∈ (t.apply ch).reserved ↔ word ∈ t.reserved ∨ ch = .reserve word := by
  cases ch with
  | accept name => simp [apply]
  | reserve other =>
      simp [apply, reserve, Std.ExtTreeSet.mem_insert, Std.LawfulEqCmp.compare_eq_iff_eq, or_comm]
  | connect source symbol target => simp [apply]

/-- After a list of changes those words are reserved that were before or are named in it. -/
theorem mem_reserved_foldl_apply :
    word ∈ (cs.foldl apply t).reserved ↔ word ∈ t.reserved ∨ Change.reserve word ∈ cs := by
  induction cs generalizing t with
  | nil => simp
  | cons ch cs ih => simp [ih, mem_reserved_apply, or_assoc, eq_comm]

end Table

end Munch
