import Mathlib.Data.List.Nodup
import Munch.Table.Step

/-!
# The numbers of states

A table knows its states by number, and whoever builds it knows them by name. Numbers are places in
the list of names, so they are read back as names as long as each state has a number of its own, and
new names at the end of the list leave the earlier ones where they are.
-/

namespace Munch.Table

variable {t t' : Table} {name other : String} {s : StateId}

/-- No number is beyond the place that it is given out for. -/
theorem number_le (place : Nat) : number place ≤ place := Nat.mod_le place numberLimit

/-- Below the limit a number is the place itself; behind it the numbers begin again. -/
theorem number_eq_self {place : Nat} (h : place < numberLimit) : number place = place :=
  Nat.mod_eq_of_lt h

/-- Each state of a table has a number of its own. -/
def Fits (t : Table) : Prop := t.names.length ≤ numberLimit

/-- Names are not repeated, and all numbers in a table are numbers of names. -/
structure Numbered (t : Table) : Prop where
  nodup : t.names.Nodup
  edges : ∀ s c s', t.next? s c = some s' → s < t.names.length ∧ s' < t.names.length
  accepting : ∀ s ∈ t.accepting, s < t.names.length

/-- The table with which building begins is well numbered. -/
theorem numbered_empty : empty.Numbered := by
  refine ⟨List.nodup_singleton _, ?_, ?_⟩
  · intro s c s' h
    simp [next?, empty] at h
  · intro s h
    simp [empty] at h

/-- The number of a name is the place where the name stands. -/
theorem state?_eq_some_iff (ht : t.Numbered) (hfits : t.Fits) :
    t.state? name = some s ↔ t.names[s]? = some name := by
  have hnumber {place : Nat} (h : place < t.names.length) : number place = place :=
    number_eq_self (Nat.lt_of_lt_of_le h hfits)
  simp only [state?, Option.map_eq_some_iff, List.idxOf?_eq_some_iff, List.getElem?_eq_some_iff]
  constructor
  · rintro ⟨place, ⟨hlt, hname, -⟩, rfl⟩
    rw [hnumber hlt]
    exact ⟨hlt, hname⟩
  · rintro ⟨hlt, hname⟩
    refine ⟨s, ⟨hlt, hname, ?_⟩, hnumber hlt⟩
    intro place hplace heq
    have := (ht.nodup.getElem_inj_iff).mp (heq.trans hname.symm)
    omega

/-- A number is read back as the name at its place. -/
theorem nameOf_eq_of_getElem? (h : t.names[s]? = some name) : t.nameOf s = name := by
  simp [nameOf, List.getD_eq_getElem?_getD, h]

/-- At a number in the list no name has to be made up. -/
theorem getElem?_names_of_lt (h : s < t.names.length) : t.names[s]? = some (t.nameOf s) := by
  simp [nameOf, List.getD_eq_getElem?_getD, h]

/-- Names that are added at the end do not move the others. -/
theorem getElem?_names_of_isPrefix (hnames : t.names <+: t'.names) {s : StateId}
    (hs : s < t.names.length) : t'.names[s]? = t.names[s]? := by
  obtain ⟨more, hmore⟩ := hnames
  rw [← hmore, List.getElem?_append_left hs]

/-- No name stands at two places. -/
theorem Numbered.place_inj (ht : t.Numbered) {s s' : StateId} (hs : t.names[s]? = some name)
    (hs' : t.names[s']? = some name) : s = s' := by
  obtain ⟨hlt, hname⟩ := List.getElem?_eq_some_iff.mp hs
  obtain ⟨hlt', hname'⟩ := List.getElem?_eq_some_iff.mp hs'
  exact ht.nodup.getElem_inj_iff.mp (hname.trans hname'.symm)

/-! ## Mentioning a state -/

/-- A mention adds a new name at the end, and a known one nowhere. -/
theorem names_mention (t : Table) (name : String) :
    (t.mention name).1.names = if name ∈ t.names then t.names else t.names ++ [name] := by
  by_cases h : name ∈ t.names
  · obtain ⟨place, hplace⟩ := Option.isSome_iff_exists.mp (List.isSome_idxOf?.mpr h)
    simp [mention, state?, hplace, h]
  · simp [mention, state?, List.idxOf?_eq_none_iff.mpr h, h]

@[simp] theorem edges_mention : (t.mention name).1.edges = t.edges := by
  simp only [mention]
  split <;> rfl

@[simp] theorem accepting_mention : (t.mention name).1.accepting = t.accepting := by
  simp only [mention]
  split <;> rfl

@[simp] theorem reserved_mention : (t.mention name).1.reserved = t.reserved := by
  simp only [mention]
  split <;> rfl

/-- All names stay where they are when one is mentioned. -/
theorem names_prefix_mention (t : Table) (name : String) :
    t.names <+: (t.mention name).1.names := by
  rw [names_mention]
  split
  · exact List.prefix_refl _
  · exact List.prefix_append _ _

/-- The mentioned name is known then, and no other name comes to be known. -/
theorem mem_names_mention :
    other ∈ (t.mention name).1.names ↔ other ∈ t.names ∨ other = name := by
  rw [names_mention]
  split
  · exact ⟨Or.inl, fun h => h.elim id fun h => h ▸ ‹name ∈ t.names›⟩
  · simp

/-- A mention keeps a table well numbered: no name is repeated, and none in use goes away. -/
theorem Numbered.mention (h : t.Numbered) (name : String) : (t.mention name).1.Numbered := by
  have hle := (names_prefix_mention t name).length_le
  refine ⟨?_, ?_, ?_⟩
  · rw [names_mention]
    split
    case isTrue => exact h.nodup
    case isFalse hnew => simpa using h.nodup.concat hnew
  · intro s c s' hedge
    rw [next?, edges_mention] at hedge
    obtain ⟨hs, hs'⟩ := h.edges s c s' hedge
    exact ⟨Nat.lt_of_lt_of_le hs hle, Nat.lt_of_lt_of_le hs' hle⟩
  · intro s hs
    rw [accepting_mention] at hs
    exact Nat.lt_of_lt_of_le (h.accepting s hs) hle

/-- The number that is given out is a place in the list of names. -/
theorem snd_mention_lt (t : Table) (name : String) :
    (t.mention name).2 < (t.mention name).1.names.length := by
  cases h : t.names.idxOf? name with
  | none =>
      have hle := number_le t.names.length
      simpa [Table.mention, state?, h] using Nat.lt_succ_of_le hle
  | some place =>
      obtain ⟨hlt, -⟩ := List.idxOf?_eq_some_iff.mp h
      simp only [Table.mention, state?, h, Option.map_some]
      exact Nat.lt_of_le_of_lt (number_le place) hlt

/-- The name stands at this place if each state has a number of its own. -/
theorem getElem?_snd_mention (hfits : (t.mention name).1.Fits) :
    (t.mention name).1.names[(t.mention name).2]? = some name := by
  cases h : t.names.idxOf? name with
  | none =>
      simp only [Fits, Table.mention, state?, h, Option.map_none, List.length_append,
        List.length_singleton] at hfits ⊢
      -- were there no number left, the new state would share that of an earlier one
      rw [number_eq_self (by omega)]
      simp
  | some place =>
      obtain ⟨hlt, hname, -⟩ := List.idxOf?_eq_some_iff.mp h
      simp only [Fits, Table.mention, state?, h, Option.map_some] at hfits ⊢
      rw [number_eq_self (Nat.lt_of_lt_of_le hlt hfits), List.getElem?_eq_getElem hlt, hname]

/-! ## Numbers that stay -/

/-- A state keeps its number when others are added. -/
theorem state?_of_isPrefix (hnames : t.names <+: t'.names) (h : t.state? name = some s) :
    t'.state? name = some s := by
  obtain ⟨more, hmore⟩ := hnames
  obtain ⟨place, hplace, rfl⟩ := Option.map_eq_some_iff.mp h
  have hlonger : t'.names.idxOf? name = (t.names.idxOf? name).or _ := hmore ▸ List.findIdx?_append
  rw [state?, hlonger, hplace]
  rfl

/-- A state that was mentioned has the number that was given out. -/
theorem state?_mention (t : Table) (name : String) :
    (t.mention name).1.state? name = some (t.mention name).2 := by
  cases h : t.state? name with
  | some s => simp [mention, h]
  | none =>
      have hnone : t.names.idxOf? name = none := Option.map_eq_none_iff.mp h
      have hlonger : (t.names ++ [name]).idxOf? name = (t.names.idxOf? name).or _ :=
        List.findIdx?_append
      simp only [mention, h]
      rw [state?, hlonger, hnone]
      simp

/-- Mentioning a known state changes nothing. -/
theorem mention_of_state? (h : t.state? name = some s) : t.mention name = (t, s) := by
  simp only [mention, h]

/-- Once a state is mentioned it has the same number for good. -/
theorem snd_mention_of_isPrefix (hnames : (t.mention name).1.names <+: t'.names) :
    (t'.mention name).2 = (t.mention name).2 := by
  rw [mention_of_state? (state?_of_isPrefix hnames (t.state?_mention name))]

/-! ## Building a table -/

@[simp] theorem names_accept : (t.accept name).names = (t.mention name).1.names := rfl

/-- The state that is named becomes accepting, and no other one does. -/
theorem mem_accepting_accept :
    s ∈ (t.accept name).accepting ↔ s = (t.mention name).2 ∨ s ∈ t.accepting := by
  simp only [accept, Std.ExtTreeSet.mem_insert, Std.LawfulEqCmp.compare_eq_iff_eq,
    accepting_mention, @eq_comm _ s]

@[simp] theorem reserved_accept : (t.accept name).reserved = t.reserved := reserved_mention

@[simp] theorem reserved_connect {source target : String} {symbol : Symbol} :
    (t.connect source symbol target).reserved = t.reserved :=
  reserved_mention.trans reserved_mention

@[simp] theorem names_reserve : (t.reserve name).names = t.names := rfl

@[simp] theorem names_connect {source target : String} {symbol : Symbol} :
    (t.connect source symbol target).names = ((t.mention source).1.mention target).1.names := rfl

/-- The number that becomes accepting has just been given out, so it has a name. -/
theorem Numbered.accept (h : t.Numbered) (name : String) : (t.accept name).Numbered := by
  have hmention := h.mention name
  refine ⟨hmention.nodup, hmention.edges, ?_⟩
  intro s hs
  rcases mem_accepting_accept.mp hs with rfl | hs
  · exact snd_mention_lt t name
  · exact hmention.accepting s (by rwa [accepting_mention])

/-- Reserved words have no numbers. -/
theorem Numbered.reserve (h : t.Numbered) (word : String) : (t.reserve word).Numbered :=
  ⟨h.nodup, h.edges, h.accepting⟩

/-- The edges behind a number of insertions on the characters of a symbol. -/
theorem getElem?_foldl_insert (edges : Std.ExtTreeMap (StateId × Char) StateId) (cs : List Char)
    (s s' : StateId) (k : StateId × Char) :
    (cs.foldl (fun edges c => edges.insert (s, c) s') edges)[k]? =
      if k.1 = s ∧ k.2 ∈ cs then some s' else edges[k]? := by
  induction cs generalizing edges with
  | nil => simp
  | cons c cs ih =>
      obtain ⟨s₀, c₀⟩ := k
      have heq : compare (s, c) (s₀, c₀) = .eq ↔ s₀ = s ∧ c₀ = c := by
        rw [Std.LawfulEqCmp.compare_eq_iff_eq, Prod.mk.injEq, eq_comm, @eq_comm _ c]
      simp only [List.foldl_cons, ih, Std.ExtTreeMap.getElem?_insert, heq, List.mem_cons]
      by_cases hs : s₀ = s <;> by_cases hc : c₀ = c <;> simp [hs, hc]

/-- The edges of a table with one more connection. -/
theorem next?_connect {source target : String} {symbol : Symbol} {c : Char} :
    (t.connect source symbol target).next? s c =
      if s = (t.mention source).2 ∧ c ∈ symbol.members then
        some ((t.mention source).1.mention target).2
      else t.next? s c := by
  simp only [next?, connect, getElem?_foldl_insert, edges_mention]

/-- New edges lead between numbers that were given out just now, and the earlier ones between names
that are still there. -/
theorem Numbered.connect (h : t.Numbered) (source : String) (symbol : Symbol) (target : String) :
    (t.connect source symbol target).Numbered := by
  have hmentions := (h.mention source).mention target
  refine ⟨hmentions.nodup, ?_, hmentions.accepting⟩
  intro s c s' hedge
  rw [next?_connect] at hedge
  split at hedge
  case isTrue hwritten =>
    have hsource := snd_mention_lt t source
    have hle := (names_prefix_mention (t.mention source).1 target).length_le
    obtain rfl := Option.some.inj hedge
    rw [hwritten.1]
    exact ⟨Nat.lt_of_lt_of_le hsource hle, snd_mention_lt _ target⟩
  case isFalse =>
    have hle : t.names.length ≤ ((t.mention source).1.mention target).1.names.length :=
      ((names_prefix_mention t source).trans (names_prefix_mention _ target)).length_le
    obtain ⟨hs, hs'⟩ := h.edges s c s' hedge
    exact ⟨Nat.lt_of_lt_of_le hs hle, Nat.lt_of_lt_of_le hs' hle⟩

end Munch.Table
