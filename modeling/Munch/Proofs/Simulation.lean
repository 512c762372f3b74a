import Mathlib.Data.List.ProdSigma
import Munch.Proofs.LastWrite
import Munch.Proofs.Run

/-!
# Tables that scan alike

A run asks its table for edges, accepting states, reserved words and the names of states, and for
nothing else. So it is enough to relate the numbers of two tables in a way that the edges keep, and
`Scans.simulate` carries a run over one table to a run over the other. For tables that steps build
the relation comes from a map between names, which may send several states to the same one.
-/

namespace Munch

namespace Table

/-! ## Related numbers -/

variable {t u : Table} {R : StateId → StateId → Prop} {s s' : StateId} {text value done : List Char}

/-- A relation between the states of two tables that their edges keep and that tells accepting
states from others. -/
structure Simulation (t u : Table) (R : StateId → StateId → Prop) : Prop where
  initial : R initial initial
  next : ∀ s s' c, R s s' → Option.Rel R (t.next? s c) (u.next? s' c)
  accepting : ∀ s s', R s s' → t.isAccepting s = u.isAccepting s'

namespace Simulation

/-- From related states a text leads to related states, or nowhere in both tables. -/
theorem drive (h : t.Simulation u R) (hs : R s s') (text : List Char) :
    Option.Rel R (t.drive s text) (u.drive s' text) := by
  induction text generalizing s s' with
  | nil => exact .some hs
  | cons c rest ih =>
      have hnext := h.next s s' c hs
      rw [drive_cons, drive_cons]
      generalize t.next? s c = x, u.next? s' c = y at hnext ⊢
      cases hnext with
      | none => exact .none
      | some hs' => exact ih hs'

/-- Where a text leads in one table, it leads to a related state in the other. -/
theorem exists_drive_eq_some (h : t.Simulation u R) (hs : t.drive Table.initial text = some s) :
    ∃ s', u.drive Table.initial text = some s' ∧ R s s' := by
  have hrel := h.drive h.initial text
  rw [hs] at hrel
  generalize u.drive Table.initial text = y at hrel ⊢
  cases hrel with
  | some hs' => exact ⟨_, rfl, hs'⟩

/-- Both tables accept the same texts. -/
theorem accepts_eq (h : t.Simulation u R) (text : List Char) : t.accepts text = u.accepts text := by
  have hrel := h.drive h.initial text
  rw [accepts, accepts]
  generalize t.drive Table.initial text = x, u.drive Table.initial text = y at hrel ⊢
  cases hrel with
  | none => rfl
  | some hs => exact h.accepting _ _ hs

/-- What is longest accepted of a text in one table is so in the other. -/
theorem longest (h : t.Simulation u R) (hl : t.Longest text value) : u.Longest text value := by
  refine ⟨hl.begins, hl.ne_nil, h.accepts_eq value ▸ hl.accepted, ?_⟩
  intro p hp haccepts
  exact hl.max p hp (h.accepts_eq p ▸ haccepts)

/-- A text of which one table accepts nothing is rejected by the other. -/
theorem rejects (h : t.Simulation u R) (hr : t.Rejects text) : u.Rejects text :=
  fun p hp haccepts => hr p hp (h.accepts_eq p ▸ haccepts)

/-- A text is stuck at the same place in both tables. -/
theorem stuck (h : t.Simulation u R) (hstuck : t.Stuck text done) : u.Stuck text done := by
  obtain ⟨s, rest, hdrive, hsplit, hend⟩ := hstuck
  obtain ⟨s', hdrive', hs⟩ := h.exists_drive_eq_some hdrive
  refine ⟨s', rest, hdrive', hsplit, ?_⟩
  intro c hc
  have hnext := h.next s s' c hs
  rw [hend c hc] at hnext
  generalize u.next? s' c = y at hnext ⊢
  cases hnext
  rfl

end Simulation

end Table

/-- A run over one table is a run over a related one. `label` tells how the tokens differ. -/
theorem Scanner.Scans.simulate {t u : Table} {R : StateId → StateId → Prop}
    {before text : List Char} {toks : List Token} {d? : Option Diagnostic}
    (h : Scans t before text toks d?) (hsim : t.Simulation u R) {label : Token → Token}
    (hlabel : ∀ before value s s', R s s' →
      label (tokenBehind t before value s) = tokenBehind u before value s') :
    Scans u before text (toks.map label) d? := by
  induction h with
  | ended hgap => exact .ended hgap
  | failed hgap hat hrejects hstuck =>
      exact .failed hgap hat (hsim.rejects hrejects) (hsim.stuck hstuck)
  | read hgap hat hlongest hdrive _ ih =>
      obtain ⟨s', hdrive', hs⟩ := hsim.exists_drive_eq_some hdrive
      rw [List.map_cons, hlabel _ _ _ _ hs]
      exact .read hgap hat (hsim.longest hlongest) hdrive' ih

/-- A relation between two tables carries over what a source is cut into. -/
theorem Table.Simulation.tokens_eq {t u : Table} {R : StateId → StateId → Prop}
    (hsim : t.Simulation u R) {label : Token → Token}
    (hlabel : ∀ before value s s', R s s' →
      label (Scanner.tokenBehind t before value s) = Scanner.tokenBehind u before value s')
    (source : String) : u.tokens source = (t.tokens source).map (List.map label) := by
  cases h : t.tokens source with
  | ok toks => exact tokens_eq_ok_iff.mpr ((tokens_eq_ok_iff.mp h).simulate hsim hlabel)
  | error d =>
      obtain ⟨toks, hscans⟩ := tokens_eq_error_iff_exists.mp h
      exact tokens_eq_error_iff_exists.mpr ⟨_, hscans.simulate hsim hlabel⟩

/-! ## Renamed states -/

/-- The kind of a token in a table with other names for its states. -/
def TokenKind.rename (f : String → String) : TokenKind → TokenKind
  | keyword => keyword
  | accepted state => accepted (f state)

/-- A token in a table with other names for its states. -/
def Token.rename (f : String → String) (tok : Token) : Token :=
  { tok with kind := tok.kind.rename f }

namespace Table

variable {t u : Table} {f : String → String} {name : String} {s s' : StateId} {c : Char}

/-- The states to which the edges lead from the initial one, by their names. -/
inductive Reaches (t : Table) : String → Prop
  | initial : Reaches t initialName
  | edge {name target : String} {c : Char} (h : Reaches t name)
      (htarget : t.target? (name, c) = some target) : Reaches t target

/-- A map between the names of two tables keeps the initial state and, at each state that is
reached, the edges and whether it is accepting. -/
structure Folds (f : String → String) (t u : Table) : Prop where
  initial : f initialName = initialName
  target : ∀ name, t.Reaches name → ∀ c, u.target? (f name, c) = (t.target? (name, c)).map f
  accepting : ∀ name, t.Reaches name → (name ∈ t.acceptingNames ↔ f name ∈ u.acceptingNames)

/-- Two states are paired if the map sends the name of the first one, which is reached, to the name
of the second one. -/
def Paired (f : String → String) (t u : Table) (s s' : StateId) : Prop :=
  ∃ name, t.Reaches name ∧ t.names[s]? = some name ∧ u.names[s']? = some (f name)

/-- An edge from a state that stands in the list is found by the name of the state. -/
theorem target?_eq_map_nameOf (ht : t.Numbered) (hfits : t.Fits) (hs : t.names[s]? = some name) :
    t.target? (name, c) = (t.next? s c).map t.nameOf := by
  rw [target?, (state?_eq_some_iff ht hfits).mpr hs]
  rfl

/-- A state that stands in the list is accepting exactly if its name is listed as such. -/
theorem isAccepting_iff_mem_acceptingNames (ht : t.Numbered) (hs : t.names[s]? = some name) :
    t.isAccepting s ↔ name ∈ t.acceptingNames := by
  rw [mem_acceptingNames ht, isAccepting, Std.ExtTreeSet.contains_iff_mem]
  constructor
  · intro h
    exact ⟨s, h, hs⟩
  · rintro ⟨s', h, hs'⟩
    rwa [ht.place_inj hs hs']

/-- The initial state has number zero, whatever the steps are. -/
theorem getElem?_names_initial (ss : List Step) :
    (ofSteps ss).names[initial]? = some initialName :=
  getElem?_names_of_isPrefix (names_prefix_steps empty ss) Nat.zero_lt_one

/-- A map between names pairs numbers in a way that the edges keep. -/
theorem Folds.simulation {ss ss' : List Step} (h : Folds f (ofSteps ss) (ofSteps ss'))
    (hfits : (ofSteps ss).Fits) (hfits' : (ofSteps ss').Fits) :
    (ofSteps ss).Simulation (ofSteps ss') (Paired f (ofSteps ss) (ofSteps ss')) := by
  have ht := numbered_ofSteps ss
  have hu := numbered_ofSteps ss'
  refine ⟨?initial, ?next, ?accepting⟩
  case initial =>
    refine ⟨initialName, .initial, getElem?_names_initial ss, ?_⟩
    rw [h.initial]
    exact getElem?_names_initial ss'
  case next =>
    rintro s s' c ⟨name, hreaches, hs, hs'⟩
    -- the map is about edges between names, so both numbers are read as the names that they pair
    have htarget := h.target name hreaches c
    rw [target?_eq_map_nameOf ht hfits hs, target?_eq_map_nameOf hu hfits' hs'] at htarget
    cases hnext : (ofSteps ss).next? s c with
    | none =>
        rw [hnext, Option.map_none, Option.map_none, Option.map_eq_none_iff] at htarget
        rw [htarget]
        exact .none
    | some s₁ =>
        rw [hnext] at htarget
        obtain ⟨s₁', hnext', hname⟩ := Option.map_eq_some_iff.mp htarget
        have htarget₁ : (ofSteps ss).target? (name, c) = some ((ofSteps ss).nameOf s₁) := by
          rw [target?_eq_map_nameOf ht hfits hs, hnext]
          rfl
        have hs₁ := getElem?_names_of_lt (ht.edges s c s₁ hnext).2
        have hs₁' := getElem?_names_of_lt (hu.edges s' c s₁' hnext').2
        rw [hnext']
        exact .some ⟨_, .edge hreaches htarget₁, hs₁, hname ▸ hs₁'⟩
  case accepting =>
    rintro s s' ⟨name, hreaches, hs, hs'⟩
    rw [Bool.eq_iff_iff, isAccepting_iff_mem_acceptingNames ht hs,
      isAccepting_iff_mem_acceptingNames hu hs']
    exact h.accepting name hreaches

/-- The kind of a token in the one table, renamed, is its kind in the other table. -/
theorem Paired.kindOf_eq (h : Paired f t u s s') (hreserved : t.reserved = u.reserved)
    (value : String) : (t.kindOf value s).rename f = u.kindOf value s' := by
  obtain ⟨name, -, hs, hs'⟩ := h
  rw [kindOf, kindOf, isReserved, isReserved, hreserved, nameOf_eq_of_getElem? hs,
    nameOf_eq_of_getElem? hs']
  split <;> rfl

/-- A map between the names of two tables that steps build, with the same reserved words, carries
over what a source is cut into: the tokens differ in the names of their states only, and a failure
does not differ at all. Neither the numbers of states nor those that are not reached count. -/
theorem tokens_of_folds (ss ss' : List Step) (f : String → String)
    (hfits : (initialName :: ss.flatMap Step.mentioned).toFinset.card ≤ numberLimit)
    (hfits' : (initialName :: ss'.flatMap Step.mentioned).toFinset.card ≤ numberLimit)
    (hreserved : ∀ word,
      word ∈ (ofSteps ss).reservedWords ↔ word ∈ (ofSteps ss').reservedWords)
    (hf : Folds f (ofSteps ss) (ofSteps ss')) (source : String) :
    (ofSteps ss').tokens source =
      ((ofSteps ss).tokens source).map (List.map (Token.rename f)) := by
  have hfits : (ofSteps ss).Fits := (length_names_ofSteps ss).trans_le hfits
  have hfits' : (ofSteps ss').Fits := (length_names_ofSteps ss').trans_le hfits'
  have hreserved : (ofSteps ss).reserved = (ofSteps ss').reserved := by
    refine Std.ExtTreeSet.ext_mem fun word => ?_
    simpa only [reservedWords, Std.ExtTreeSet.mem_toList] using hreserved word
  refine (hf.simulation hfits hfits').tokens_eq ?_ source
  intro before value s s' hs
  simp only [Scanner.tokenBehind, Token.rename, hs.kindOf_eq hreserved]

/-! ## Maps that can be checked -/

/-- No state leads on with a character that is not in the alphabet. -/
theorem target?_eq_none_of_not_mem_alphabet (hc : c ∉ t.alphabet) (name : String) :
    t.target? (name, c) = none := by
  have havoids : t.Avoids c := avoids_iff_not_mem_alphabet.mpr hc
  simp [target?, havoids _]

/-- A map is checked at the names of a list that the edges do not leave, and on the characters of
edges only. -/
theorem folds_of_closed (names : List String) (hinitial : initialName ∈ names)
    (hclosed : ∀ e ∈ names ×ˢ t.alphabet, ∀ target ∈ t.target? e, target ∈ names)
    (hname : f initialName = initialName)
    (htarget : ∀ e ∈ names ×ˢ (t.alphabet ++ u.alphabet),
      u.target? (f e.1, e.2) = (t.target? e).map f)
    (haccepting : ∀ name ∈ names, name ∈ t.acceptingNames ↔ f name ∈ u.acceptingNames) :
    Folds f t u := by
  have hreaches {name : String} (h : t.Reaches name) : name ∈ names := by
    induction h with
    | initial => exact hinitial
    | @edge name target c _ htarget ih =>
        by_cases hc : c ∈ t.alphabet
        · exact hclosed (name, c) (List.mem_product.mpr ⟨ih, hc⟩) target htarget
        · simp [target?_eq_none_of_not_mem_alphabet hc] at htarget
  refine ⟨hname, ?_, fun name h => haccepting name (hreaches h)⟩
  intro name h c
  by_cases hc : c ∈ t.alphabet ++ u.alphabet
  · exact htarget (name, c) (List.mem_product.mpr ⟨hreaches h, hc⟩)
  · rw [List.mem_append, not_or] at hc
    rw [target?_eq_none_of_not_mem_alphabet hc.1, target?_eq_none_of_not_mem_alphabet hc.2]
    rfl

/-- Tallies whose first stroke has a state of its own, and a state that no text reaches. -/
def unrolled : List Step :=
  [.reserve ["|"], .connect "lost" (.only '.') "init", .accept ["first", "later", "lost"],
    .connect "init" (.only '|') "first", .connect "first" (.only '|') "later",
    .connect "later" (.only '|') "later"]

/-- The same tallies with one state for all strokes. -/
def rolled : List Step :=
  [.connect "strokes" (.only '|') "strokes", .connect "init" (.only '|') "strokes",
    .accept ["strokes"], .reserve ["|"]]

/-- The states of all strokes are one. -/
def roll (name : String) : String := if name = initialName then initialName else "strokes"

/-- The state that is not reached has an edge that the map does not keep. -/
theorem tokens_of_folds_unrolled :
    (initialName :: unrolled.flatMap Step.mentioned).toFinset.card ≤ numberLimit ∧
    (initialName :: rolled.flatMap Step.mentioned).toFinset.card ≤ numberLimit ∧
    Folds roll (ofSteps unrolled) (ofSteps rolled) ∧
    (ofSteps rolled).tokens "|| |" =
      .ok [⟨.accepted "strokes", "||", ⟨⟨0, 1, 1⟩, ⟨2, 1, 3⟩⟩⟩,
        ⟨.keyword, "|", ⟨⟨3, 1, 4⟩, ⟨4, 1, 5⟩⟩⟩] := by
  have hfits : (initialName :: unrolled.flatMap Step.mentioned).toFinset.card ≤ numberLimit := by
    decide +kernel
  have hfits' : (initialName :: rolled.flatMap Step.mentioned).toFinset.card ≤ numberLimit := by
    decide +kernel
  have hfolds : Folds roll (ofSteps unrolled) (ofSteps rolled) :=
    folds_of_closed ["init", "first", "later"] (by decide) (by decide +kernel) (by decide)
      (by decide +kernel) (by decide +kernel)
  have hwords : (ofSteps unrolled).reservedWords = (ofSteps rolled).reservedWords := by
    decide +kernel
  have htokens : (ofSteps unrolled).tokens "|| |" =
      .ok [⟨.accepted "later", "||", ⟨⟨0, 1, 1⟩, ⟨2, 1, 3⟩⟩⟩,
        ⟨.keyword, "|", ⟨⟨3, 1, 4⟩, ⟨4, 1, 5⟩⟩⟩] := by decide +kernel
  refine ⟨hfits, hfits', hfolds, ?_⟩
  rw [tokens_of_folds unrolled rolled roll hfits hfits' (fun word => by rw [hwords]) hfolds,
    htokens]
  rfl

end Table

end Munch
