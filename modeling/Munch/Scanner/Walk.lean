import Munch.Table

/-! # Walks

A walk follows a text through a table for as long as there are edges, and remembers the last
accepting state that it entered. The characters up to there are the longest accepted text at the
place where the walk began; the empty text is never accepted.
-/

namespace Munch

/-- What a walk has seen: how many characters it has crossed, and the length and the state of the
longest accepted text among them. -/
structure Walk where
  crossed : Nat
  accepted? : Option (Nat × StateId)
  deriving DecidableEq, Repr

namespace Table

/-- Continues a walk from a state over a text. -/
def walkFrom (t : Table) (s : StateId) (w : Walk) : List Char → Walk
  | [] => w
  | c :: rest =>
    match t.next? s c with
    | none => w
    | some s' =>
      let length := w.crossed + 1
      t.walkFrom s' ⟨length, if t.isAccepting s' then some (length, s') else w.accepted?⟩ rest

/-- The walk from the initial state over a text. -/
def walk (t : Table) (text : List Char) : Walk := t.walkFrom initial ⟨0, none⟩ text

/-- The length of an accepted text is never zero. -/
theorem walkFrom_accepted_pos {t : Table} {s : StateId} {w : Walk} {text : List Char}
    (h : ∀ p, w.accepted? = some p → 0 < p.1) :
    ∀ p, (t.walkFrom s w text).accepted? = some p → 0 < p.1 := by
  induction text generalizing s w with
  | nil => exact h
  | cons c rest ih =>
      simp only [walkFrom]
      split
      · exact h
      · apply ih
        intro p hp
        split at hp
        · obtain rfl := Option.some.inj hp
          exact Nat.succ_pos _
        · exact h p hp

/-- What a walk accepts has at least one character. -/
theorem walk_accepted_pos {t : Table} {text : List Char} {p : Nat × StateId}
    (h : (t.walk text).accepted? = some p) : 0 < p.1 :=
  walkFrom_accepted_pos (by simp) p h

/-- A walk over the empty text accepts nothing. -/
@[simp] theorem walk_nil {t : Table} : t.walk [] = ⟨0, none⟩ := rfl

end Table

end Munch
