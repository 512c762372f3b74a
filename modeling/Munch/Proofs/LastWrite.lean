import Mathlib.Data.Finset.Card
import Munch.Proofs.Automaton
import Munch.Proofs.Building

/-!
# The last write wins

Steps write edges between names, a table keeps edges between numbers. Read back as names, the edges
of the table that steps build are those that the steps write; where they write an edge several times
the last one counts. Accepting states, reserved words and states are the union of all steps.
-/

namespace Munch

/-- The states that a step mentions. -/
def Step.mentioned (st : Step) : List String := st.changes.flatMap Change.mentioned

/-- The edges that a step writes: source and character, and the target. -/
def Step.written (st : Step) : List ((String × Char) × String) :=
  st.changes.flatMap Change.written

/-- The last of the steps that write an edge leads it to this target. -/
def LastWritten (ss : List Step) (e : String × Char) (target : String) : Prop :=
  ∃ before st after, ss = before ++ st :: after ∧ (e, target) ∈ st.written ∧
    ∀ st' ∈ after, ∀ target', (e, target') ∉ st'.written

/-- Without steps nothing is written. -/
theorem not_lastWritten_nil {e : String × Char} {target : String} :
    ¬ LastWritten [] e target := by
  intro hlast
  obtain ⟨before, st, after, happend, -⟩ := hlast
  simp at happend

/-- A step that writes an edge writes it last as long as no step follows; one that does not leaves
the last write as it was. -/
theorem lastWritten_concat {ss : List Step} {st : Step} {e : String × Char} {target : String} :
    LastWritten (ss ++ [st]) e target ↔ (e, target) ∈ st.written ∨
      ((∀ target', (e, target') ∉ st.written) ∧ LastWritten ss e target) := by
  constructor
  · intro hlast
    obtain ⟨before, st₀, after, happend, hwritten, hafter⟩ := hlast
    -- the last write is made by the new step exactly if no step follows it
    rcases List.eq_nil_or_concat after with rfl | ⟨after, st', rfl⟩
    · obtain ⟨-, hst⟩ := List.append_inj' happend rfl
      obtain rfl := List.singleton_inj.mp hst
      exact Or.inl hwritten
    · rw [List.concat_eq_append, ← List.cons_append, ← List.append_assoc] at happend
      obtain ⟨rfl, hst⟩ := List.append_inj' happend rfl
      obtain rfl := List.singleton_inj.mp hst
      exact Or.inr ⟨hafter st (by simp), before, st₀, after, rfl, hwritten,
        fun st' h => hafter st' (by simp [h])⟩
  · rintro (hwritten | ⟨hunwritten, before, st₀, after, rfl, hwritten, hafter⟩)
    · exact ⟨ss, st, [], rfl, hwritten, by simp⟩
    · refine ⟨before, st₀, after ++ [st], by simp, hwritten, ?_⟩
      intro st' hst'
      rcases List.mem_append.mp hst' with h | h
      · exact hafter st' h
      · rw [List.mem_singleton.mp h]
        exact hunwritten

/-- An edge is written last by some step as soon as it is written at all. -/
theorem exists_lastWritten_iff {ss : List Step} {e : String × Char} :
    (∃ target, LastWritten ss e target) ↔ ∃ st ∈ ss, ∃ target, (e, target) ∈ st.written := by
  constructor
  · rintro ⟨target, before, st, after, rfl, hwritten, -⟩
    exact ⟨st, by simp, target, hwritten⟩
  · induction ss using List.reverseRecOn with
    | nil => simp
    | append_singleton ss st ih =>
        rintro ⟨st', hst', target, hwritten⟩
        by_cases hst : ∃ target', (e, target') ∈ st.written
        · obtain ⟨target', h⟩ := hst
          exact ⟨target', lastWritten_concat.mpr (Or.inl h)⟩
        · rw [not_exists] at hst
          rcases List.mem_append.mp hst' with h | h
          · obtain ⟨target', hlast⟩ := ih ⟨st', h, target, hwritten⟩
            exact ⟨target', lastWritten_concat.mpr (Or.inr ⟨hst, hlast⟩)⟩
          · rw [List.mem_singleton.mp h] at hwritten
            exact absurd hwritten (hst target)

namespace Table

variable {t t' : Table} {ch : Change} {st : Step} {name : String} {e : String × Char}
  {target : String}

/-- The name of the state to which an edge leads, given by the name of its source and its
character. -/
def target? (t : Table) (e : String × Char) : Option String :=
  (t.state? e.1).bind fun s => (t.next? s e.2).map t.nameOf

/-- An edge of a table between the names that stand at its numbers. -/
def Leads (t : Table) (e : String × Char) (target : String) : Prop :=
  ∃ s s', t.names[s]? = some e.1 ∧ t.next? s e.2 = some s' ∧ t.names[s']? = some target

/-- Looking an edge up by name finds where it leads. -/
theorem target?_eq_some_iff (ht : t.Numbered) (hfits : t.Fits) :
    t.target? e = some target ↔ t.Leads e target := by
  simp only [target?, Option.bind_eq_some_iff, Option.map_eq_some_iff, Leads,
    state?_eq_some_iff ht hfits]
  constructor
  · rintro ⟨s, hs, s', hnext, rfl⟩
    exact ⟨s, s', hs, hnext, getElem?_names_of_lt (ht.edges s _ s' hnext).2⟩
  · rintro ⟨s, s', hs, hnext, hs'⟩
    exact ⟨s, hs, s', hnext, nameOf_eq_of_getElem? hs'⟩

/-! ## One change -/

/-- New names leave the edges between the earlier ones as they are. -/
theorem Numbered.leads_iff (ht : t.Numbered) (hnames : t.names <+: t'.names)
    (hedges : t'.edges = t.edges) : t'.Leads e target ↔ t.Leads e target := by
  have hnext (s : StateId) (c : Char) : t'.next? s c = t.next? s c := by simp only [next?, hedges]
  simp only [Leads, hnext]
  constructor
  all_goals
    intro hleads
    obtain ⟨s, s', hs, hedge, hs'⟩ := hleads
    obtain ⟨hlt, hlt'⟩ := ht.edges s _ s' hedge
    refine ⟨s, s', ?_, hedge, ?_⟩
  · rwa [← getElem?_names_of_isPrefix hnames hlt]
  · rwa [← getElem?_names_of_isPrefix hnames hlt']
  · rwa [getElem?_names_of_isPrefix hnames hlt]
  · rwa [getElem?_names_of_isPrefix hnames hlt']

/-- A connection writes its edges over those that were there. -/
theorem Numbered.leads_connect_iff (ht : t.Numbered) {source target' : String} {symbol : Symbol}
    (hfits : (t.connect source symbol target').Fits) :
    (t.connect source symbol target').Leads e target ↔
      (e.1 = source ∧ e.2 ∈ symbol.members ∧ target = target') ∨
      (¬ (e.1 = source ∧ e.2 ∈ symbol.members) ∧ t.Leads e target) := by
  have hmore : (t.mention source).1.names <+: (t.connect source symbol target').names :=
    names_prefix_mention _ target'
  have hnames : t.names <+: (t.connect source symbol target').names :=
    (names_prefix_mention t source).trans hmore
  have hsource : (t.connect source symbol target').names[(t.mention source).2]? = some source := by
    rw [getElem?_names_of_isPrefix hmore (snd_mention_lt t source)]
    exact getElem?_snd_mention (hfits.of_isPrefix hmore)
  have htarget : (t.connect source symbol target').names[((t.mention source).1.mention target').2]?
      = some target' := getElem?_snd_mention hfits
  have hnumbered := ht.connect source symbol target'
  constructor
  · intro hleads
    obtain ⟨s, s', hs, hnext, hs'⟩ := hleads
    rw [next?_connect] at hnext
    split at hnext
    case isTrue hwritten =>
      -- one of the new edges, which lead from the number of the source to that of the target
      obtain rfl := Option.some.inj hnext
      rw [hwritten.1, hsource] at hs
      rw [htarget] at hs'
      exact Or.inl ⟨(Option.some.inj hs).symm, hwritten.2, (Option.some.inj hs').symm⟩
    case isFalse hkept =>
      -- an edge that was there before, between numbers that were given out before
      obtain ⟨hlt, hlt'⟩ := ht.edges s _ s' hnext
      refine Or.inr ⟨?_, s, s', ?_, hnext, ?_⟩
      · rintro ⟨rfl, hc⟩
        exact hkept ⟨hnumbered.place_inj hs hsource, hc⟩
      · rwa [← getElem?_names_of_isPrefix hnames hlt]
      · rwa [← getElem?_names_of_isPrefix hnames hlt']
  · rintro (⟨hname, hc, rfl⟩ | ⟨hkept, s, s', hs, hnext, hs'⟩)
    · refine ⟨_, _, by rw [hname]; exact hsource, ?_, htarget⟩
      rw [next?_connect, if_pos ⟨rfl, hc⟩]
    · obtain ⟨hlt, hlt'⟩ := ht.edges s _ s' hnext
      have hs₂ := getElem?_names_of_isPrefix hnames hlt
      refine ⟨s, s', hs₂.trans hs, ?_, (getElem?_names_of_isPrefix hnames hlt').trans hs'⟩
      rw [next?_connect, if_neg, hnext]
      rintro ⟨rfl, hc⟩
      rw [hsource] at hs₂
      exact hkept ⟨Option.some.inj (hs.symm.trans hs₂.symm), hc⟩

/-- A change writes its edges over those that were there. -/
theorem Numbered.leads_apply_iff (ht : t.Numbered) (hfits : (t.apply ch).Fits) :
    (t.apply ch).Leads e target ↔
      (e, target) ∈ ch.written ∨ ((∀ target', (e, target') ∉ ch.written) ∧ t.Leads e target) := by
  cases ch with
  | accept name =>
      have hleads : (t.accept name).Leads e target ↔ t.Leads e target :=
        ht.leads_iff (names_prefix_mention t name) edges_mention
      simpa [Table.apply, Change.written] using hleads
  | reserve word =>
      have hleads : (t.reserve word).Leads e target ↔ t.Leads e target :=
        ht.leads_iff (List.prefix_refl _) rfl
      simpa [Table.apply, Change.written] using hleads
  | connect source symbol target' =>
      have hunwritten : (∀ target'', (e, target'') ∉
          (Change.connect source symbol target').written) ↔
            ¬ (e.1 = source ∧ e.2 ∈ symbol.members) := by
        simp only [Change.mem_written_connect]
        exact ⟨fun h hc => h target' ⟨hc.1, hc.2, rfl⟩, fun h _ hc => h ⟨hc.1, hc.2.1⟩⟩
      rw [Change.mem_written_connect, hunwritten]
      exact ht.leads_connect_iff hfits

/-- Changes that write nothing leave all edges as they are. -/
theorem Numbered.leads_foldl_apply_iff (ht : t.Numbered) {cs : List Change}
    (hfits : (cs.foldl Table.apply t).Fits) (hcs : ∀ ch ∈ cs, ch.written = []) :
    (cs.foldl Table.apply t).Leads e target ↔ t.Leads e target := by
  induction cs generalizing t with
  | nil => rfl
  | cons ch cs ih =>
      have hfits' : (t.apply ch).Fits := hfits.of_isPrefix (names_prefix_foldl_apply _ cs)
      rw [List.foldl_cons, ih (ht.apply ch) hfits fun ch' h => hcs ch' (List.mem_cons_of_mem _ h),
        ht.leads_apply_iff hfits']
      simp [hcs ch List.mem_cons_self]

/-! ## One step -/

/-- A step writes its edges over those that were there. -/
theorem Numbered.leads_step_iff (ht : t.Numbered) (hfits : (t.step st).Fits) :
    (t.step st).Leads e target ↔
      (e, target) ∈ st.written ∨ ((∀ target', (e, target') ∉ st.written) ∧ t.Leads e target) := by
  rw [step_eq_foldl_apply] at hfits ⊢
  rcases st.changes_cases with hcs | ⟨ch, hch⟩
  · have hwritten : st.written = [] := List.flatMap_eq_nil_iff.mpr hcs
    simp [ht.leads_foldl_apply_iff hfits hcs, hwritten]
  · have hwritten : st.written = ch.written := by simp [Step.written, hch]
    rw [hwritten]
    rw [hch] at hfits ⊢
    exact ht.leads_apply_iff hfits

/-! ## A list of steps -/

/-- Whatever steps build is well numbered. -/
theorem numbered_ofSteps (ss : List Step) : (ofSteps ss).Numbered := by
  rw [ofSteps, steps_eq_foldl_apply]
  exact numbered_empty.foldl_apply _

/-- A table can be built in two parts. -/
theorem ofSteps_append (ss more : List Step) : ofSteps (ss ++ more) = (ofSteps ss).steps more :=
  steps_append empty ss more

/-- The last step is made on what the others have built. -/
theorem ofSteps_concat (ss : List Step) (st : Step) :
    ofSteps (ss ++ [st]) = (ofSteps ss).step st := ofSteps_append ss [st]

/-- No step moves a name. -/
theorem names_prefix_step (t : Table) (st : Step) : t.names <+: (t.step st).names := by
  rw [step_eq_foldl_apply]
  exact names_prefix_foldl_apply t _

/-- The edges of a table are those that its steps write, and the last write of each counts. -/
theorem leads_ofSteps_iff {ss : List Step} (hfits : (ofSteps ss).Fits) :
    (ofSteps ss).Leads e target ↔ LastWritten ss e target := by
  induction ss using List.reverseRecOn with
  | nil =>
      refine iff_of_false ?_ not_lastWritten_nil
      rintro ⟨s, s', -, hnext, -⟩
      simp [next?, ofSteps, steps, empty] at hnext
  | append_singleton ss st ih =>
      rw [ofSteps_concat] at hfits ⊢
      rw [(numbered_ofSteps ss).leads_step_iff hfits, lastWritten_concat,
        ih (hfits.of_isPrefix (names_prefix_step _ st))]

/-- A table knows the initial state and the states that its steps mention. -/
theorem mem_names_ofSteps {ss : List Step} :
    name ∈ (ofSteps ss).names ↔ name ∈ initialName :: ss.flatMap Step.mentioned := by
  rw [ofSteps, steps_eq_foldl_apply, mem_names_foldl_apply, List.flatMap_assoc]
  simp [empty, Step.mentioned]

/-- A table has as many states as different names are mentioned, that of the initial state
included. -/
theorem length_names_ofSteps (ss : List Step) :
    (ofSteps ss).names.length = (initialName :: ss.flatMap Step.mentioned).toFinset.card := by
  rw [← List.toFinset_card_of_nodup (numbered_ofSteps ss).nodup]
  congr 1
  ext name
  simp only [List.mem_toFinset, mem_names_ofSteps]

/-! ## Counting edges -/

/-- The edges of a table: the names of their sources and their characters. -/
def edgeNames (t : Table) : List (String × Char) := t.edges.keys.map fun k => (t.nameOf k.1, k.2)

/-- By name there are as many edges as by number. -/
theorem length_edgeNames (t : Table) : t.edgeNames.length = t.edges.size := by
  rw [edgeNames, List.length_map, Std.ExtTreeMap.length_keys]

/-- Numbers do not repeat names, so no two edges go by the same one. -/
theorem Numbered.nodup_edgeNames (ht : t.Numbered) : t.edgeNames.Nodup := by
  refine Std.ExtTreeMap.nodup_keys.map_on ?_
  intro ⟨s, c⟩ hk ⟨s', c'⟩ hk' heq
  obtain ⟨hname, rfl⟩ := Prod.mk.inj heq
  obtain ⟨s₁, hnext⟩ := mem_keys_edges_iff.mp hk
  obtain ⟨s₁', hnext'⟩ := mem_keys_edges_iff.mp hk'
  have hs := getElem?_names_of_lt (ht.edges s c s₁ hnext).1
  have hs' := getElem?_names_of_lt (ht.edges s' c s₁' hnext').1
  rw [ht.place_inj hs (hs'.trans (congrArg some hname.symm))]

/-- The edges by name are those that lead somewhere. -/
theorem Numbered.mem_edgeNames (ht : t.Numbered) :
    e ∈ t.edgeNames ↔ ∃ target, t.Leads e target := by
  obtain ⟨name, c⟩ := e
  simp only [edgeNames, List.mem_map, Prod.mk.injEq]
  constructor
  · rintro ⟨⟨s, c⟩, hk, rfl, rfl⟩
    obtain ⟨s', hnext⟩ := mem_keys_edges_iff.mp hk
    obtain ⟨hlt, hlt'⟩ := ht.edges s c s' hnext
    exact ⟨t.nameOf s', s, s', getElem?_names_of_lt hlt, hnext, getElem?_names_of_lt hlt'⟩
  · rintro ⟨target, s, s', hs, hnext, -⟩
    exact ⟨(s, c), mem_keys_edges_iff.mpr ⟨s', hnext⟩, nameOf_eq_of_getElem? hs, rfl⟩

/-- A table has as many edges as steps write, those that are written again counted once. -/
theorem size_edges_ofSteps {ss : List Step} (hfits : (ofSteps ss).Fits) :
    (ofSteps ss).edges.size =
      (ss.flatMap fun st => st.written.map Prod.fst).toFinset.card := by
  have ht := numbered_ofSteps ss
  rw [← length_edgeNames, ← List.toFinset_card_of_nodup ht.nodup_edgeNames]
  congr 1
  ext e
  rw [List.mem_toFinset, List.mem_toFinset, ht.mem_edgeNames]
  simp only [leads_ofSteps_iff hfits, exists_lastWritten_iff]
  simp

/-! ## What steps build -/

/-- The accepting states are those that some step lists. -/
theorem marks_ofSteps_iff {ss : List Step} (hfits : (ofSteps ss).Fits) :
    (ofSteps ss).Marks name ↔ ∃ names, Step.accept names ∈ ss ∧ name ∈ names := by
  have hempty : ¬ empty.Marks name := by simp [Marks, empty]
  rw [ofSteps, steps_eq_foldl_apply] at hfits ⊢
  rw [numbered_empty.marks_foldl_apply_iff hfits, List.mem_flatMap]
  simp only [hempty, false_or, Step.accept_mem_changes]
  constructor
  · rintro ⟨st, hst, names, rfl, hname⟩
    exact ⟨names, hst, hname⟩
  · rintro ⟨names, hst, hname⟩
    exact ⟨_, hst, names, rfl, hname⟩

/-- The reserved words are those that some step lists. -/
theorem mem_reserved_ofSteps {ss : List Step} {word : String} :
    word ∈ (ofSteps ss).reserved ↔ ∃ words, Step.reserve words ∈ ss ∧ word ∈ words := by
  have hempty : word ∉ empty.reserved := by simp [empty]
  rw [ofSteps, steps_eq_foldl_apply, mem_reserved_foldl_apply, List.mem_flatMap]
  simp only [hempty, false_or, Step.reserve_mem_changes]
  constructor
  · rintro ⟨st, hst, words, rfl, hword⟩
    exact ⟨words, hst, hword⟩
  · rintro ⟨words, hst, hword⟩
    exact ⟨_, hst, words, rfl, hword⟩

/-- The reserved words of a table are the union of all that its steps reserve. -/
theorem mem_reservedWords_ofSteps {ss : List Step} {word : String} :
    word ∈ (ofSteps ss).reservedWords ↔ ∃ words, Step.reserve words ∈ ss ∧ word ∈ words := by
  rw [reservedWords, Std.ExtTreeSet.mem_toList, mem_reserved_ofSteps]

/-- The table that steps build, as long as there are numbers for all of its states. An edge is there
if a step writes it, and the last step that does so decides where it leads. -/
theorem ofSteps_last_write_wins (ss : List Step)
    (hfits : (initialName :: ss.flatMap Step.mentioned).toFinset.card ≤ numberLimit) :
    (∀ e, ((ofSteps ss).target? e).isSome ↔ ∃ st ∈ ss, ∃ target, (e, target) ∈ st.written) ∧
    (∀ e target, (ofSteps ss).target? e = some target ↔ LastWritten ss e target) ∧
    (∀ name, name ∈ (ofSteps ss).acceptingNames ↔
      ∃ names, Step.accept names ∈ ss ∧ name ∈ names) ∧
    (∀ word, word ∈ (ofSteps ss).reservedWords ↔
      ∃ words, Step.reserve words ∈ ss ∧ word ∈ words) ∧
    (∀ name, name ∈ (ofSteps ss).names ↔
      name = initialName ∨ ∃ st ∈ ss, name ∈ st.mentioned) ∧
    (ofSteps ss).names.Nodup ∧
    (ofSteps ss).edges.size = (ss.flatMap fun st => st.written.map Prod.fst).toFinset.card := by
  have ht := numbered_ofSteps ss
  have hfits : (ofSteps ss).Fits := (length_names_ofSteps ss).trans_le hfits
  have hlast (e : String × Char) (target : String) :
      (ofSteps ss).target? e = some target ↔ LastWritten ss e target :=
    (target?_eq_some_iff ht hfits).trans (leads_ofSteps_iff hfits)
  refine ⟨?_, hlast, ?_, fun _ => mem_reservedWords_ofSteps, ?_, ht.nodup,
    size_edges_ofSteps hfits⟩
  · intro e
    simp only [Option.isSome_iff_exists, hlast, exists_lastWritten_iff]
  · intro name
    rw [mem_acceptingNames ht, marks_ofSteps_iff hfits]
  · intro name
    rw [mem_names_ofSteps, List.mem_cons, List.mem_flatMap]

/-- A letter that is given a state of its own behind all letters, a remark, and a row that fails. -/
def overlapping : List Step :=
  [.accept ["word", "hex"], .reserve ["if"], .connect "init" (.anyOf .letter) "word",
    .line "# digits" ⟨0, 3, 1⟩, .line "init x hex" ⟨9, 4, 1⟩, .line "init word" ⟨20, 5, 1⟩]

/-- One letter has an edge of its own, and the other ones keep the edge of their class. -/
theorem ofSteps_last_write_wins_overlapping :
    (initialName :: overlapping.flatMap Step.mentioned).toFinset.card ≤ numberLimit ∧
      (ofSteps overlapping).target? ("init", 'x') = some "hex" ∧
      (ofSteps overlapping).target? ("init", 'y') = some "word" := by
  have hfits : (initialName :: overlapping.flatMap Step.mentioned).toFinset.card ≤ numberLimit := by
    decide +kernel
  obtain ⟨-, htarget, -⟩ := ofSteps_last_write_wins overlapping hfits
  have hremark : (Step.line "# digits" ⟨0, 3, 1⟩).written = [] := by decide +kernel
  have hhex : (Step.line "init x hex" ⟨9, 4, 1⟩).written = [(("init", 'x'), "hex")] := by
    decide +kernel
  have hfailing : (Step.line "init word" ⟨20, 5, 1⟩).written = [] := by decide +kernel
  refine ⟨hfits, (htarget _ _).mpr ?_, (htarget _ _).mpr ?_⟩
  · exact ⟨overlapping.take 4, _, [.line "init word" ⟨20, 5, 1⟩], rfl, by simp [hhex],
      by simp [hfailing]⟩
  · exact ⟨overlapping.take 2, .connect "init" (.anyOf .letter) "word", overlapping.drop 3, rfl,
      by decide +kernel, by simp [overlapping, hremark, hhex, hfailing]⟩

end Table

end Munch
