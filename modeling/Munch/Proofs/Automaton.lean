import Mathlib.Data.List.Infix
import Munch.Table.Step

/-!
# The texts that a table accepts

`drive` follows a text through a table without regard to accepting states. The notions in which
scanning is specified stand on it: the texts that a table accepts, the longest of them with which a
text begins, and how far a text leads at all. None of them mentions a walk.
-/

namespace Munch.Table

variable {t : Table} {s : StateId} {text done value : List Char}

/-- The state to which a text leads from a state, if there are edges all the way. -/
def drive (t : Table) (s : StateId) (text : List Char) : Option StateId := text.foldlM t.next? s

@[simp] theorem drive_nil : t.drive s [] = some s := rfl

@[simp] theorem drive_cons {c : Char} :
    t.drive s (c :: text) = (t.next? s c).bind fun s' => t.drive s' text := by
  simp only [drive, List.foldlM_cons]
  rfl

/-- A text leads on from where its front has led. -/
theorem drive_append {more : List Char} :
    t.drive s (text ++ more) = (t.drive s text).bind fun s' => t.drive s' more := by
  simp only [drive, List.foldlM_append]
  rfl

/-- Whether a text leads from the initial state to an accepting state. -/
def accepts (t : Table) (text : List Char) : Bool := (t.drive initial text).any t.isAccepting

/-- A text is accepted if the state in which it ends is accepting. -/
theorem accepts_eq_true_iff :
    t.accepts text ↔ ∃ s, t.drive initial text = some s ∧ t.isAccepting s := by
  simp only [accepts, Option.any_eq_true]

/-- What is accepted has edges all the way. -/
theorem isSome_drive_of_accepts (h : t.accepts text) : (t.drive initial text).isSome := by
  obtain ⟨s, hs, -⟩ := accepts_eq_true_iff.mp h
  simp [hs]

/-- `value` is the longest of the nonempty texts with which `text` begins and that are accepted. -/
structure Longest (t : Table) (text value : List Char) : Prop where
  begins : value <+: text
  ne_nil : value ≠ []
  accepted : t.accepts value
  max : ∀ p, p <+: text → t.accepts p → p.length ≤ value.length

/-- No nonempty text with which `text` begins is accepted. -/
def Rejects (t : Table) (text : List Char) : Prop := ∀ p, p <+: text → t.accepts p → p = []

/-- A text is not rejected exactly if some beginning of it, other than the empty one, is
accepted. -/
theorem not_rejects_iff : ¬ t.Rejects text ↔ ∃ p, p <+: text ∧ p ≠ [] ∧ t.accepts p := by
  simp only [Rejects, not_forall]
  constructor
  · intro h
    obtain ⟨p, hp, haccepts, hne⟩ := h
    exact ⟨p, hp, hne, haccepts⟩
  · intro h
    obtain ⟨p, hp, hne, haccepts⟩ := h
    exact ⟨p, hp, haccepts, hne⟩

/-- A longest accepted beginning is an accepted one. -/
theorem Longest.not_rejects (h : t.Longest text value) : ¬ t.Rejects text :=
  fun hrejects => h.ne_nil (hrejects value h.begins h.accepted)

/-- A text has only one longest accepted beginning. -/
theorem Longest.unique {other : List Char} (h : t.Longest text value) (h' : t.Longest text other) :
    value = other := by
  have hlength : value.length = other.length :=
    Nat.le_antisymm (h'.max value h.begins h.accepted) (h.max other h'.begins h'.accepted)
  exact (List.prefix_of_prefix_length_le h.begins h'.begins hlength.le).eq_of_length hlength

/-- In a shorter text the longest accepted beginning stays the longest one, as long as the text
still begins with it. -/
theorem Longest.of_shorter {part : List Char} (h : t.Longest text value) (hvalue : value <+: part)
    (hpart : part <+: text) : t.Longest part value :=
  ⟨hvalue, h.ne_nil, h.accepted, fun p hp haccepts => h.max p (hp.trans hpart) haccepts⟩

/-! ## Where a text leads no further -/

/-- `text` leads as far as `done`: behind it the text ends, or no edge is there for the next
character. -/
def Stuck (t : Table) (text done : List Char) : Prop :=
  ∃ s rest, t.drive initial done = some s ∧ done ++ rest = text ∧
    ∀ c, rest.head? = some c → t.next? s c = none

/-- A text leads along itself, as far as it leads. -/
theorem Stuck.begins (h : t.Stuck text done) : done <+: text := by
  obtain ⟨s, rest, -, htext, -⟩ := h
  exact ⟨rest, htext⟩

/-- All beginnings that lead somewhere lie before the place where the text is stuck. -/
theorem Stuck.prefix_of_isSome_drive {p : List Char} (h : t.Stuck text done) (hp : p <+: text)
    (hsome : (t.drive initial p).isSome) : p <+: done := by
  obtain ⟨s, rest, hdrive, rfl, hstuck⟩ := h
  rcases List.prefix_or_prefix_of_prefix hp (List.prefix_append done rest) with hle | ⟨q, rfl⟩
  · exact hle
  -- a longer one would have to cross the character at which the text is stuck
  cases q with
  | nil => simp
  | cons c q =>
      have hc : rest.head? = some c := by
        rw [List.prefix_append_right_inj] at hp
        obtain ⟨more, rfl⟩ := hp
        rfl
      simp [drive_append, hdrive, hstuck c hc] at hsome

/-- A text is stuck at one place only. -/
theorem Stuck.unique {other : List Char} (h : t.Stuck text done) (h' : t.Stuck text other) :
    done = other := by
  have hsome {d : List Char} (hd : t.Stuck text d) : (t.drive initial d).isSome := by
    obtain ⟨s, -, hdrive, -⟩ := hd
    simp [hdrive]
  have hle := h'.prefix_of_isSome_drive h.begins (hsome h)
  have hge := h.prefix_of_isSome_drive h'.begins (hsome h')
  exact hle.eq_of_length_le hge.length_le

/-- The longest accepted beginning does not depend on what follows the place where the text is
stuck. -/
theorem Stuck.longest_iff (h : t.Stuck text done) :
    t.Longest done value ↔ t.Longest text value := by
  have hbegins {p : List Char} (hp : p <+: text) (haccepts : t.accepts p) : p <+: done :=
    h.prefix_of_isSome_drive hp (isSome_drive_of_accepts haccepts)
  constructor
  · intro hl
    exact ⟨hl.begins.trans h.begins, hl.ne_nil, hl.accepted,
      fun p hp haccepts => hl.max p (hbegins hp haccepts) haccepts⟩
  · intro hl
    exact ⟨hbegins hl.begins hl.accepted, hl.ne_nil, hl.accepted,
      fun p hp haccepts => hl.max p (hp.trans h.begins) haccepts⟩

/-- Whether anything is accepted is decided before the place where the text is stuck. -/
theorem Stuck.rejects_iff (h : t.Stuck text done) : t.Rejects done ↔ t.Rejects text := by
  constructor
  · intro hr p hp haccepts
    exact hr p (h.prefix_of_isSome_drive hp (isSome_drive_of_accepts haccepts)) haccepts
  · intro hr p hp haccepts
    exact hr p (hp.trans h.begins) haccepts

/-! ## Characters without edges -/

/-- The characters on which edges are taken. -/
def alphabet (t : Table) : List Char := t.edges.keys.map Prod.snd

/-- No edge is taken on a character. -/
def Avoids (t : Table) (c : Char) : Prop := ∀ s, t.next? s c = none

/-- The keys of the edges are the states and characters that lead on. -/
theorem mem_keys_edges_iff {c : Char} : (s, c) ∈ t.edges.keys ↔ ∃ s', t.next? s c = some s' := by
  rw [Std.ExtTreeMap.mem_keys, ← Std.ExtTreeMap.isSome_getElem?_iff_mem,
    Option.isSome_iff_exists]
  rfl

/-- No edge bears a character exactly if it is not in the alphabet of the table. -/
theorem avoids_iff_not_mem_alphabet {c : Char} : t.Avoids c ↔ c ∉ t.alphabet := by
  simp only [Avoids, alphabet, List.mem_map, Prod.exists, exists_eq_right, mem_keys_edges_iff,
    not_exists, Option.eq_none_iff_forall_ne_some, ne_eq]

instance {c : Char} : Decidable (t.Avoids c) := decidable_of_iff _ avoids_iff_not_mem_alphabet.symm

/-- Before a character without edges a text is stuck as it is at its end. -/
theorem Stuck.append_of_avoids {c : Char} (h : t.Stuck text done) (hc : t.Avoids c)
    (more : List Char) : t.Stuck (text ++ c :: more) done := by
  obtain ⟨s, rest, hdrive, rfl, hstuck⟩ := h
  refine ⟨s, rest ++ c :: more, hdrive, by simp, ?_⟩
  cases rest with
  | nil => simpa using hc s
  | cons c' rest => simpa using hstuck

/-! ## Tables for examples -/

/-- Numbers, in which a point counts only once a digit follows it, and one reserved number. -/
def numbers : Table := ofSteps
  [.accept ["whole", "broken"], .reserve ["7"],
    .connect "init" (.anyOf .digit) "whole", .connect "whole" (.anyOf .digit) "whole",
    .connect "whole" (.only '.') "point", .connect "point" (.anyOf .digit) "broken",
    .connect "broken" (.anyOf .digit) "broken"]

/-- Texts between angle brackets, over several lines. -/
def brackets : Table := ofSteps
  [.accept ["closed"], .connect "init" (.only '<') "open", .connect "open" (.anyOf .letter) "open",
    .connect "open" (.anyOf .space) "open", .connect "open" (.only '>') "closed"]

end Munch.Table
