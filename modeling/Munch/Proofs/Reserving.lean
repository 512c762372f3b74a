import Munch.Proofs.Simulation

/-!
# Reserved words do not move a cut

A reserved word is told from other texts once it is cut out, and neither the walk nor the cursor
asks for it. So a table cuts a source as it does without its reserved words, `tokens_eq_map_mark`
puts the keywords back in, and tables that differ in their reserved words only are compared by way
of the table that has none.
-/

namespace Munch

/-- Whether a step reserves words. All other steps build the automaton. -/
def Step.isReserve : Step → Bool
  | .reserve _ => true
  | _ => false

/-- A token of a table without reserved words, in the same table with these reserved words. -/
def Token.mark (words : Std.ExtTreeSet String) (tok : Token) : Token :=
  if tok.value ∈ words then { tok with kind := .keyword } else tok

namespace Token

variable {words : Std.ExtTreeSet String} {tok : Token}

@[simp] theorem value_mark : (tok.mark words).value = tok.value := by
  unfold mark
  split <;> rfl

@[simp] theorem extent_mark : (tok.mark words).extent = tok.extent := by
  unfold mark
  split <;> rfl

/-- A token is marked by its text alone. -/
theorem kind_mark :
    (tok.mark words).kind = if tok.value ∈ words then .keyword else tok.kind := by
  unfold mark
  split <;> rfl

end Token

namespace Table

variable {t : Table} {name word : String}

/-! ## Tables without their reserved words -/

/-- A table without its reserved words. -/
def bare (t : Table) : Table := { t with reserved := ∅ }

/-- Mentioning a state does not ask for reserved words. -/
theorem bare_mention (t : Table) (name : String) :
    t.bare.mention name = ((t.mention name).1.bare, (t.mention name).2) := by
  cases h : t.names.idxOf? name <;> simp [mention, state?, bare, h]

/-- Making a state accepting does not ask for reserved words. -/
theorem bare_accept (t : Table) (name : String) : (t.accept name).bare = t.bare.accept name := by
  rw [accept, accept, bare_mention]
  rfl

/-- Connecting two states does not ask for reserved words. -/
theorem bare_connect (t : Table) (source : String) (symbol : Symbol) (target : String) :
    (t.connect source symbol target).bare = t.bare.connect source symbol target := by
  simp only [connect, bare_mention]
  rfl

/-- A step that reserves words builds nothing else, and the others build the same with and without
reserved words. -/
theorem bare_step (t : Table) (st : Step) :
    (t.step st).bare = if st.isReserve then t.bare else t.bare.step st := by
  cases st with
  | accept names => exact (List.foldl_hom bare fun u name => (bare_accept u name).symm).symm
  | reserve words =>
      induction words generalizing t with
      | nil => rfl
      | cons word words ih => exact ih (t.reserve word)
  | connect source symbol target => exact bare_connect t source symbol target
  | line text l =>
      cases hrow : Row.ofLine text with
      | error cause => simp [step, step?, addLine, hrow, Step.isReserve]
      | ok row =>
          cases row <;> simp [step, step?, addLine, addRow, hrow, Step.isReserve, bare_connect]

/-- Without its reserved words a table is the one that the other steps build. -/
theorem bare_ofSteps (ss : List Step) :
    (ofSteps ss).bare = ofSteps (ss.filter (!·.isReserve)) := by
  induction ss using List.reverseRecOn with
  | nil => rfl
  | append_singleton ss st ih =>
      rw [ofSteps_concat, bare_step, ih, List.filter_append]
      cases hst : st.isReserve <;> simp [hst, ofSteps_concat]

/-! ## What a source is cut into -/

/-- Without its reserved words a table is the same automaton. -/
theorem simulation_bare (t : Table) : t.bare.Simulation t Eq := by
  refine ⟨rfl, ?_, ?_⟩
  · rintro s _ c rfl
    show Option.Rel Eq (t.next? s c) (t.next? s c)
    cases t.next? s c with
    | none => exact .none
    | some s' => exact .some rfl
  · rintro s _ rfl
    rfl

/-- A table cuts a source as it does without its reserved words, and marks them afterwards. -/
theorem tokens_eq_map_mark (t : Table) (source : String) :
    t.tokens source = (t.bare.tokens source).map (List.map (Token.mark t.reserved)) := by
  refine t.simulation_bare.tokens_eq ?_ source
  rintro before value s _ rfl
  unfold Token.mark
  simp only [Scanner.tokenBehind, kindOf, isReserved, Std.ExtTreeSet.contains_iff_mem]
  split <;> rfl

/-- The tokens of a run over a table without reserved words are of the states in which their texts
end. -/
theorem exists_kind_eq_accepted (hbare : t.reserved = ∅) {before text : List Char}
    {toks : List Token} {d? : Option Diagnostic} (h : Scanner.Scans t before text toks d?) :
    ∀ tok ∈ toks, ∃ state, tok.kind = .accepted state := by
  induction h with
  | ended => simp
  | failed => simp
  | @read before gap value rest state toks d? hgap hat hlongest hdrive _ ih =>
      intro tok htok
      rcases List.mem_cons.mp htok with rfl | htok
      · exact ⟨t.nameOf state, by simp [Scanner.tokenBehind, kindOf, isReserved, hbare]⟩
      · exact ih tok htok

end Table

/-- Two tokens that tables with these reserved words cut out at the same place, where a table
without reserved words cuts out the token `plain`. -/
structure Token.SameCut (words words' : List String) (plain tok tok' : Token) : Prop where
  value_eq : tok.value = tok'.value
  extent_eq : tok.extent = tok'.extent
  kind_eq : (tok.value ∈ words ↔ tok.value ∈ words') → tok.kind = tok'.kind
  left : tok.value ∈ words → tok.value ∉ words' →
    tok.kind = .keyword ∧ ∃ state, plain.kind = .accepted state ∧ tok'.kind = .accepted state
  right : tok.value ∉ words → tok.value ∈ words' →
    tok'.kind = .keyword ∧ ∃ state, plain.kind = .accepted state ∧ tok.kind = .accepted state

/-- One token, marked by two lists of words, is the same cut. -/
theorem Token.sameCut_mark {u u' : Table} {plain : Token} {state : String}
    (h : plain.kind = .accepted state) :
    SameCut u.reservedWords u'.reservedWords plain (plain.mark u.reserved)
      (plain.mark u'.reserved) := by
  constructor
  case value_eq => simp
  case extent_eq => simp
  all_goals simp only [value_mark, kind_mark, Table.reservedWords, Std.ExtTreeSet.mem_toList]
  case kind_eq =>
    intro hiff
    simp only [hiff]
  case left =>
    intro hmem hnot
    exact ⟨if_pos hmem, state, h, by rw [if_neg hnot, h]⟩
  case right =>
    intro hnot hmem
    exact ⟨if_pos hmem, state, h, by rw [if_neg hnot, h]⟩

namespace Table

/-- Tables that the same steps build, those apart that reserve words, cut every source at the same
places or fail on it in the same way. The words of each table are those that its own steps reserve.
A text that both reserve or that neither reserves is a token of one kind, and a text that one of
them reserves is a keyword there and elsewhere a token of the state that it would be of without
reserved words. -/
theorem tokens_of_other_words (ss ss' : List Step)
    (hsteps : ss.filter (!·.isReserve) = ss'.filter (!·.isReserve)) (source : String) :
    let t := ofSteps ss
    let t' := ofSteps ss'
    let bare := ofSteps (ss.filter (!·.isReserve))
    (∀ word, word ∈ t.reservedWords ↔ ∃ words, Step.reserve words ∈ ss ∧ word ∈ words) ∧
    (∀ word, word ∈ t'.reservedWords ↔ ∃ words, Step.reserve words ∈ ss' ∧ word ∈ words) ∧
    bare.reservedWords = [] ∧
    ((∃ d, t.tokens source = .error d ∧ t'.tokens source = .error d) ∨
    ∃ toks toks' plains : List Token, t.tokens source = .ok toks ∧ t'.tokens source = .ok toks' ∧
      bare.tokens source = .ok plains ∧ toks.length = toks'.length ∧ toks.length = plains.length ∧
      ∀ (n : Nat) tok tok' plain, toks[n]? = some tok → toks'[n]? = some tok' →
        plains[n]? = some plain →
        Token.SameCut t.reservedWords t'.reservedWords plain tok tok') := by
  intro t t' bare
  have hbare : t.bare = bare := bare_ofSteps ss
  have hbare' : t'.bare = bare := by rw [bare_ofSteps, ← hsteps]
  have htokens := t.tokens_eq_map_mark source
  have htokens' := t'.tokens_eq_map_mark source
  rw [hbare] at htokens
  rw [hbare'] at htokens'
  have hempty : bare.reserved = ∅ := hbare ▸ rfl
  refine ⟨fun _ => mem_reservedWords_ofSteps, fun _ => mem_reservedWords_ofSteps,
    by simp [reservedWords, hempty], ?_⟩
  -- both runs are the bare one, with the words of each table marked in it
  cases hplain : bare.tokens source with
  | error d =>
      rw [hplain] at htokens htokens'
      exact Or.inl ⟨d, htokens, htokens'⟩
  | ok plains =>
      rw [hplain] at htokens htokens'
      refine Or.inr ⟨_, _, plains, htokens, htokens', rfl, by simp, by simp, ?_⟩
      intro n tok tok' plain htok htok' hplain'
      obtain rfl : plain.mark t.reserved = tok := by simpa [hplain'] using htok
      obtain rfl : plain.mark t'.reserved = tok' := by simpa [hplain'] using htok'
      obtain ⟨state, hstate⟩ := exists_kind_eq_accepted hempty (tokens_eq_ok_iff.mp hplain) plain
        (List.mem_of_getElem? hplain')
      exact Token.sameCut_mark hstate

/-- Numbers in which a broken one is reserved, before any state is mentioned and among the rows. -/
def numbersReserved : List Step :=
  [.reserve ["1.5", "."], .accept ["whole", "broken"], .line "init any_digit whole" ⟨0, 3, 1⟩,
    .line "whole any_digit whole" ⟨21, 4, 1⟩, .reserve ["10"], .line "whole . point" ⟨43, 5, 1⟩,
    .connect "point" (.anyOf .digit) "broken", .connect "broken" (.anyOf .digit) "broken"]

/-- The same steps with other numbers reserved behind all of them. -/
def numbersReservedLater : List Step :=
  numbersReserved.filter (!·.isReserve) ++ [.reserve ["10", "7"]]

/-- The last number is a keyword of the first table, and of the other one it is what it would be
without reserved words. -/
theorem tokens_of_other_words_numbers :
    numbersReserved.filter (!·.isReserve) = numbersReservedLater.filter (!·.isReserve) ∧
    ∃ toks', (ofSteps numbersReservedLater).tokens "7 10.5\n1.5" = .ok toks' ∧
      toks'.length = 3 ∧ ∃ tok', toks'[2]? = some tok' ∧
        tok'.value = "1.5" ∧ tok'.extent = ⟨⟨7, 2, 1⟩, ⟨10, 2, 4⟩⟩ ∧
        tok'.kind = .accepted "broken" := by
  have hsteps : numbersReserved.filter (!·.isReserve) =
      numbersReservedLater.filter (!·.isReserve) := by decide
  have htokens : (ofSteps numbersReserved).tokens "7 10.5\n1.5" =
      .ok [⟨.accepted "whole", "7", ⟨⟨0, 1, 1⟩, ⟨1, 1, 2⟩⟩⟩,
        ⟨.accepted "broken", "10.5", ⟨⟨2, 1, 3⟩, ⟨6, 1, 7⟩⟩⟩,
        ⟨.keyword, "1.5", ⟨⟨7, 2, 1⟩, ⟨10, 2, 4⟩⟩⟩] := by decide +kernel
  have hplain : (ofSteps (numbersReserved.filter (!·.isReserve))).tokens "7 10.5\n1.5" =
      .ok [⟨.accepted "whole", "7", ⟨⟨0, 1, 1⟩, ⟨1, 1, 2⟩⟩⟩,
        ⟨.accepted "broken", "10.5", ⟨⟨2, 1, 3⟩, ⟨6, 1, 7⟩⟩⟩,
        ⟨.accepted "broken", "1.5", ⟨⟨7, 2, 1⟩, ⟨10, 2, 4⟩⟩⟩] := by decide +kernel
  obtain ⟨-, -, -, ⟨d, herror, -⟩ | ⟨toks, toks', plains, hok, hok', hok₀, hlength, -, hcut⟩⟩ :=
    tokens_of_other_words numbersReserved numbersReservedLater hsteps "7 10.5\n1.5"
  · simp [htokens] at herror
  obtain rfl := Except.ok.inj (htokens.symm.trans hok)
  obtain rfl := Except.ok.inj (hplain.symm.trans hok₀)
  obtain ⟨tok', htok'⟩ : ∃ tok', toks'[2]? = some tok' :=
    ⟨_, List.getElem?_eq_getElem (hlength ▸ by decide)⟩
  have hsame := hcut 2 _ tok' _ rfl htok' rfl
  obtain ⟨-, state, hstate, hkind⟩ := hsame.left (by decide +kernel) (by decide +kernel)
  obtain rfl := TokenKind.accepted.inj hstate
  exact ⟨hsteps, toks', hok', hlength.symm, tok', htok', hsame.value_eq.symm, hsame.extent_eq.symm,
    hkind⟩

end Table

end Munch
