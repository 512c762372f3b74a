import Munch.Text.White

/-!
# Fields and white space

The fields of a text are what a split at white space leaves once the empty pieces are dropped.
`Separated` says the same without splitting: fields and white space stand by turns, and each field
goes as far as it can. A text has exactly one list of fields in this sense.
-/

namespace Munch.Text

variable {text gap field rest : List Char} {fs : List (List Char)} {c : Char}

/-- A text is made up of these fields, in order, and of white space around them. No field is empty
or holds white space, and behind a field the text ends or goes on with white space. -/
inductive Separated : List Char → List (List Char) → Prop
  | blank {gap : List Char} (hgap : ∀ c ∈ gap, isWhite c) : Separated gap []
  | field {gap field rest : List Char} {fs : List (List Char)} (hgap : ∀ c ∈ gap, isWhite c)
      (hne : field ≠ []) (hfield : ∀ c ∈ field, ¬ isWhite c)
      (hrest : ∀ c, rest.head? = some c → isWhite c) (h : Separated rest fs) :
      Separated (gap ++ (field ++ rest)) (field :: fs)

/-! ## Fields of a text in parts -/

/-- White space cuts a text in two, and the fields of both parts are those of the whole. -/
theorem fields_append_cons (hc : isWhite c) (text rest : List Char) :
    fields (text ++ c :: rest) = fields text ++ fields rest := by
  rw [fields, List.splitOnP_append_cons text rest hc, List.filter_append]
  rfl

@[simp] theorem fields_nil : fields [] = [] := by simp [fields]

/-- White space before a text adds no field. -/
theorem fields_append_gap (hgap : ∀ c ∈ gap, isWhite c) (text : List Char) :
    fields (gap ++ text) = fields text := by
  induction gap with
  | nil => rfl
  | cons c gap ih =>
      have hc : isWhite c := hgap c List.mem_cons_self
      have hcons : fields (c :: (gap ++ text)) = fields (gap ++ text) :=
        fields_append_cons hc [] (gap ++ text)
      rw [List.cons_append, hcons]
      exact ih fun c hmem => hgap c (List.mem_cons_of_mem _ hmem)

/-- White space alone has no fields. -/
theorem fields_eq_nil (hgap : ∀ c ∈ gap, isWhite c) : fields gap = [] := by
  simpa using fields_append_gap hgap []

/-- White space at the end of a text does not count. -/
theorem fields_append_of_white (text : List Char) (hgap : ∀ c ∈ gap, isWhite c) :
    fields (text ++ gap) = fields text := by
  cases gap with
  | nil => rw [List.append_nil]
  | cons c gap =>
      have hgap' : ∀ c ∈ gap, isWhite c := fun c hmem => hgap c (List.mem_cons_of_mem _ hmem)
      rw [fields_append_cons (hgap c List.mem_cons_self), fields_eq_nil hgap', List.append_nil]

/-- A text without white space is its only field. -/
theorem fields_eq_singleton (hne : field ≠ []) (hfield : ∀ c ∈ field, ¬ isWhite c) :
    fields field = [field] := by
  rw [fields, List.splitOnP_eq_singleton (by simpa using hfield)]
  simp [hne]

/-- What goes on with white space behind a field does not touch it. -/
theorem fields_append_rest (hne : field ≠ []) (hfield : ∀ c ∈ field, ¬ isWhite c)
    (hrest : ∀ c, rest.head? = some c → isWhite c) :
    fields (field ++ rest) = field :: fields rest := by
  have hsingle := fields_eq_singleton hne hfield
  cases rest with
  | nil => rw [List.append_nil, hsingle, fields_nil]
  | cons c rest =>
      have hc : isWhite c := hrest c rfl
      have hcons : fields (c :: rest) = fields rest := fields_append_cons hc [] rest
      rw [fields_append_cons hc, hsingle, hcons]
      rfl

/-! ## The one list of fields -/

/-- Whatever stretches of a text are told apart by white space, they are its fields. -/
theorem Separated.fields_eq (h : Separated text fs) : fields text = fs := by
  induction h with
  | blank hgap => exact fields_eq_nil hgap
  | field hgap hne hfield hrest _ ih =>
      rw [fields_append_gap hgap, fields_append_rest hne hfield hrest, ih]

/-- A text can be taken apart at its white space in one way only. -/
theorem Separated.unique {fs' : List (List Char)} (h : Separated text fs)
    (h' : Separated text fs') : fs = fs' :=
  h.fields_eq.symm.trans h'.fields_eq

/-- White space may be longer at the front. -/
theorem Separated.cons_white (h : Separated text fs) (hc : isWhite c) :
    Separated (c :: text) fs := by
  have hcons {gap : List Char} (hgap : ∀ c ∈ gap, isWhite c) : ∀ c' ∈ c :: gap, isWhite c' :=
    List.forall_mem_cons.mpr ⟨hc, hgap⟩
  cases h with
  | blank hgap => exact .blank (hcons hgap)
  | field hgap hne hfield hrest h => exact .field (hcons hgap) hne hfield hrest h

/-- Any other character begins a field or makes the first one longer. -/
theorem Separated.exists_cons_field (h : Separated text fs) (hc : ¬ isWhite c) :
    ∃ fs', Separated (c :: text) fs' := by
  have hsingle : ∀ c' ∈ [c], ¬ isWhite c' := by simpa using hc
  have hbegin (hhead : ∀ c', text.head? = some c' → isWhite c') :
      Separated (c :: text) ([c] :: fs) :=
    @Separated.field [] [c] text fs (by simp) (by simp) hsingle hhead h
  cases h with
  | blank hgap =>
      exact ⟨_, hbegin fun c' hc' => hgap c' (List.mem_of_mem_head? hc')⟩
  | @field gap field rest fs hgap hne hfield hrest h =>
      -- without a gap the character joins the field, with one it is a field of its own
      cases gap with
      | nil =>
          have hlonger : ∀ c' ∈ c :: field, ¬ isWhite c' := List.forall_mem_cons.mpr ⟨hc, hfield⟩
          exact ⟨_, @Separated.field [] (c :: field) rest fs (by simp) (by simp) hlonger hrest h⟩
      | cons c' gap =>
          refine ⟨_, hbegin fun c'' hc'' => ?_⟩
          obtain rfl := Option.some.inj hc''
          exact hgap _ List.mem_cons_self

/-- Every text can be taken apart at its white space. -/
theorem exists_separated (text : List Char) : ∃ fs, Separated text fs := by
  induction text with
  | nil => exact ⟨[], .blank (by simp)⟩
  | cons c text ih =>
      obtain ⟨fs, h⟩ := ih
      by_cases hc : isWhite c
      · exact ⟨fs, h.cons_white hc⟩
      · exact h.exists_cons_field hc

/-- Splitting at white space finds the one list of fields. -/
theorem fields_eq_iff : fields text = fs ↔ Separated text fs := by
  constructor
  · rintro rfl
    obtain ⟨fs, h⟩ := exists_separated text
    rwa [h.fields_eq]
  · exact Separated.fields_eq

end Munch.Text
