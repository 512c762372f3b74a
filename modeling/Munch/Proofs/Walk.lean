import Munch.Proofs.Automaton
import Munch.Scanner.Walk

/-!
# What a walk finds

A walk overwrites the one accepted length that it remembers whenever it enters an accepting state.
The invariant is that this length belongs to the longest accepted beginning of the text behind the
walk; `walk_spec` carries it to where the text is stuck, and from there to the whole text.
-/

namespace Munch.Table

variable {t : Table} {text done : List Char}

/-- What is remembered of a text is its longest accepted beginning: how long it is, and the state
to which it leads. -/
def Remembers (t : Table) (text : List Char) : Option (Nat × StateId) → Prop
  | none => t.Rejects text
  | some (length, s) =>
    ∃ value, t.Longest text value ∧ value.length = length ∧ t.drive initial value = some s

/-- Of the empty text nothing is accepted. -/
theorem remembers_nil : t.Remembers [] none := by
  intro p hp _
  exact List.prefix_nil.mp hp

/-- Crossing a character into an accepting state makes the whole text the longest. -/
theorem remembers_concat_of_accepts {c : Char} {s : StateId}
    (hdrive : t.drive initial (done ++ [c]) = some s) (hs : t.isAccepting s) :
    t.Remembers (done ++ [c]) (some (done.length + 1, s)) := by
  refine ⟨done ++ [c], ⟨List.prefix_refl _, by simp, ?_, fun p hp _ => hp.length_le⟩, by simp,
    hdrive⟩
  exact accepts_eq_true_iff.mpr ⟨s, hdrive, hs⟩

/-- Crossing a character into another state changes nothing. -/
theorem remembers_concat_of_not_accepts {c : Char} {best : Option (Nat × StateId)}
    (haccepts : ¬ t.accepts (done ++ [c])) (h : t.Remembers done best) :
    t.Remembers (done ++ [c]) best := by
  have hbegins {p : List Char} (hp : p <+: done ++ [c]) (hp' : t.accepts p) : p <+: done := by
    rcases List.prefix_concat_iff.mp hp with rfl | hle
    · exact absurd hp' haccepts
    · exact hle
  cases best with
  | none => exact fun p hp hp' => h p (hbegins hp hp') hp'
  | some best =>
      obtain ⟨value, hl, hvalue⟩ := h
      refine ⟨value, ⟨hl.begins.trans (List.prefix_append _ _), hl.ne_nil, hl.accepted, ?_⟩, hvalue⟩
      exact fun p hp hp' => hl.max p (hbegins hp hp') hp'

/-- What is remembered where a text is stuck is what there is to remember of the whole text. -/
theorem Stuck.remembers_iff (h : t.Stuck text done) {best : Option (Nat × StateId)} :
    t.Remembers done best ↔ t.Remembers text best := by
  cases best with
  | none => exact h.rejects_iff
  | some best => simp only [Remembers, h.longest_iff]

/-- The state of a walk: the text behind it leads to a state and is counted, and its longest
accepted beginning is remembered. -/
structure Walks (t : Table) (done : List Char) (s : StateId) (w : Walk) : Prop where
  drive_eq : t.drive initial done = some s
  crossed_eq : w.crossed = done.length
  remembers : t.Remembers done w.accepted?

/-- A walk begins in the initial state, with nothing behind it. -/
theorem walks_nil : t.Walks [] initial ⟨0, none⟩ := ⟨rfl, rfl, remembers_nil⟩

/-- One step of a walk keeps its invariant. -/
theorem Walks.concat {s s' : StateId} {w : Walk} {c : Char} (h : t.Walks done s w)
    (hc : t.next? s c = some s') :
    t.Walks (done ++ [c]) s'
      ⟨w.crossed + 1, if t.isAccepting s' then some (w.crossed + 1, s') else w.accepted?⟩ := by
  have hdrive : t.drive initial (done ++ [c]) = some s' := by
    simp [drive_append, h.drive_eq, hc]
  refine ⟨hdrive, by simp [h.crossed_eq], ?_⟩
  by_cases hs : t.isAccepting s'
  · rw [if_pos hs, h.crossed_eq]
    exact remembers_concat_of_accepts hdrive hs
  · rw [if_neg hs]
    refine remembers_concat_of_not_accepts ?_ h.remembers
    simpa [accepts, hdrive] using hs

/-- A walk goes on until the text is stuck. -/
theorem Walks.walkFrom {s : StateId} {w : Walk} (h : t.Walks done s w) (text : List Char) :
    ∃ more s', t.Stuck (done ++ text) (done ++ more) ∧
      t.Walks (done ++ more) s' (t.walkFrom s w text) := by
  induction text generalizing done s w with
  | nil =>
      refine ⟨[], s, ⟨s, [], by simpa using h.drive_eq, by simp, by simp⟩, ?_⟩
      simpa [Table.walkFrom] using h
  | cons c rest ih =>
      cases hc : t.next? s c with
      | none =>
          -- no edge leaves on the next character, so the text is stuck where the walk stops
          refine ⟨[], s, ⟨s, c :: rest, by simpa using h.drive_eq, by simp, by simpa using hc⟩, ?_⟩
          simpa [Table.walkFrom, hc] using h
      | some s' =>
          obtain ⟨more, s'', hstuck, hwalks⟩ := ih (h.concat hc)
          refine ⟨c :: more, s'', by simpa using hstuck, ?_⟩
          simpa [Table.walkFrom, hc] using hwalks

/-- A walk crosses what leads somewhere and remembers the longest accepted beginning of the text. -/
theorem walk_spec (t : Table) (text : List Char) :
    ∃ done, t.Stuck text done ∧ (t.walk text).crossed = done.length ∧
      t.Remembers text (t.walk text).accepted? := by
  have hnil : t.Walks [] initial ⟨0, none⟩ := walks_nil
  obtain ⟨done, s, hstuck, hwalks⟩ := hnil.walkFrom text
  simp only [List.nil_append] at hstuck hwalks
  exact ⟨done, hstuck, hwalks.crossed_eq, hstuck.remembers_iff.mp hwalks.remembers⟩

end Munch.Table
