import Munch.Proofs.LastWrite

/-!
# The order of first mention

Whatever the steps are, a table lists its states in the order in which they are first mentioned.
It finds the number of a state by searching this list. The same numbers can be kept in a map beside
the list, to which a state is added when it is mentioned for the first time; a `Register` does so,
and its list and its map never part.
-/

namespace Munch

variable {name : String} {l : List String}

/-- Behind a list a name counts only if it is new. -/
theorem eraseDups_concat (l : List String) (name : String) :
    (l ++ [name]).eraseDups = if name ∈ l then l.eraseDups else l.eraseDups ++ [name] := by
  rw [List.eraseDups_append]
  by_cases h : name ∈ l <;> simp [List.removeAll, List.eraseDups_cons, h]

/-! ## The names of a table -/

namespace Table

variable {t : Table}

/-- If the names are the first mentions so far, they still are after one more. -/
theorem names_mention_of_eq (h : t.names = l.eraseDups) :
    (t.mention name).1.names = (l ++ [name]).eraseDups := by
  rw [names_mention, eraseDups_concat, h]
  simp only [List.mem_eraseDups]

/-- Each change keeps the names the first mentions: those of the change come behind the others. -/
theorem names_apply_of_eq {ch : Change} (h : t.names = l.eraseDups) :
    (t.apply ch).names = (l ++ ch.mentioned).eraseDups := by
  cases ch with
  | accept name => exact names_mention_of_eq h
  | reserve word => simpa [apply, Change.mentioned] using h
  | connect source symbol target =>
      have hsource : (t.mention source).1.names = (l ++ [source]).eraseDups :=
        names_mention_of_eq h
      have htarget : ((t.mention source).1.mention target).1.names =
          (l ++ [source] ++ [target]).eraseDups := names_mention_of_eq hsource
      rwa [List.append_assoc] at htarget

/-- A list of changes keeps the names the first mentions of all that is mentioned. -/
theorem names_foldl_apply_of_eq {cs : List Change} (h : t.names = l.eraseDups) :
    (cs.foldl apply t).names = (l ++ cs.flatMap Change.mentioned).eraseDups := by
  induction cs generalizing t l with
  | nil => simpa using h
  | cons ch cs ih =>
      rw [List.foldl_cons, ih (names_apply_of_eq h), List.flatMap_cons, List.append_assoc]

/-- A table lists the initial state and the states that the steps mention, each at its first
mention. -/
theorem names_ofSteps (ss : List Step) :
    (ofSteps ss).names = (initialName :: ss.flatMap Step.mentioned).eraseDups := by
  have hempty : empty.names = [initialName].eraseDups := rfl
  rw [ofSteps, steps_eq_foldl_apply, names_foldl_apply_of_eq hempty, List.flatMap_assoc]
  rfl

end Table

/-! ## Numbers in a map -/

/-- States in the order of first mention, and beside them a map from each to its number. -/
structure Register where
  names : List String
  numbers : Std.ExtTreeMap String StateId

namespace Register

variable {r : Register}

/-- Mentions a state: it is numbered if the map has no number for it yet. -/
def mention (r : Register) (name : String) : Register :=
  match r.numbers[name]? with
  | some _ => r
  | none => ⟨r.names ++ [name], r.numbers.insert name (Table.number r.names.length)⟩

/-- The register of states that are mentioned one after the other. -/
def ofMentions (names : List String) : Register := names.foldl mention ⟨[], ∅⟩

/-- The map tells of each state the number that belongs to its place in the list. -/
def Agrees (r : Register) : Prop :=
  ∀ name, r.numbers[name]? = (r.names.idxOf? name).map Table.number

/-- As long as map and list agree, the list takes up exactly the new names. -/
theorem Agrees.names_mention (h : r.Agrees) (name : String) :
    (r.mention name).names = if name ∈ r.names then r.names else r.names ++ [name] := by
  by_cases hmem : name ∈ r.names
  · obtain ⟨place, hplace⟩ := Option.isSome_iff_exists.mp (List.isSome_idxOf?.mpr hmem)
    simp [mention, h name, hplace, hmem]
  · simp [mention, h name, List.idxOf?_eq_none_iff.mpr hmem, hmem]

/-- A new state gets its number in the map and its place in the list at once. -/
theorem Agrees.mention (h : r.Agrees) (name : String) : (r.mention name).Agrees := by
  intro other
  cases hname : r.numbers[name]? with
  | some s => simpa only [Register.mention, hname] using h other
  | none =>
      have hnew : r.names.idxOf? name = none := by simpa [hname, eq_comm] using h name
      have hlonger : (r.names ++ [name]).idxOf? other = (r.names.idxOf? other).or _ :=
        List.findIdx?_append
      simp only [Register.mention, hname]
      rw [Std.ExtTreeMap.getElem?_insert, hlonger, h other]
      -- the place of the new state is the length of the list before it
      by_cases heq : name = other
      · subst heq
        simp [hnew]
      · simp [Std.LawfulEqCmp.compare_eq_iff_eq, heq]

/-- The last mention is made on the register of the others. -/
theorem ofMentions_concat (names : List String) (name : String) :
    ofMentions (names ++ [name]) = (ofMentions names).mention name := by
  simp [ofMentions]

/-- Map and list of a register agree, whatever is mentioned. -/
theorem agrees_ofMentions (names : List String) : (ofMentions names).Agrees := by
  induction names using List.reverseRecOn with
  | nil => simp [Agrees, ofMentions]
  | append_singleton names name ih =>
      rw [ofMentions_concat]
      exact ih.mention name

/-- A register lists the states at their first mentions. -/
theorem names_ofMentions (names : List String) : (ofMentions names).names = names.eraseDups := by
  induction names using List.reverseRecOn with
  | nil => rfl
  | append_singleton names name ih =>
      rw [ofMentions_concat, (agrees_ofMentions names).names_mention, ih, eraseDups_concat]
      simp only [List.mem_eraseDups]

/-- By the names of a table, its numbers and those in the map of a register are the same. -/
theorem numbers_eq_state? {t : Table} {names : List String} (h : t.names = names.eraseDups)
    (name : String) : (ofMentions names).numbers[name]? = t.state? name := by
  rw [agrees_ofMentions names name, names_ofMentions, Table.state?, h]

end Register

end Munch
