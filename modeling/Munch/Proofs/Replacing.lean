import Munch.Proofs.LineEndings
import Munch.Scanner.Run

/-!
# Line endings are replaced from left to right

The endings of a source are written as newlines before it is scanned, by replacing each carriage
return with a newline behind it. `Replaces` is replacement from left to right in general, and
`replaces_unixEndings` tells that this is what happens. It takes back that every newline was given
a carriage return, also where carriage returns stood before, and it leaves the lines of a text.
-/

namespace Munch

namespace Text

variable {old new text rest out : List Char}

/-- The text in which every `old` is replaced by `new`, from left to right: what is replaced does
not overlap, and a character stays if no `old` begins with it. -/
inductive Replaces (old new : List Char) : List Char → List Char → Prop
  | nil : Replaces old new [] []
  | found {rest out : List Char} (h : Replaces old new rest out) :
      Replaces old new (old ++ rest) (new ++ out)
  | kept {c : Char} {rest out : List Char} (hnone : ¬ old <+: c :: rest)
      (h : Replaces old new rest out) : Replaces old new (c :: rest) (c :: out)

/-- Replacing leaves no choice. -/
theorem Replaces.unique {out' : List Char} (hold : old ≠ []) (h : Replaces old new text out)
    (h' : Replaces old new text out') : out = out' := by
  induction h generalizing out' with
  | nil =>
      generalize htext : [] = text at h'
      cases h' with
      | nil => rfl
      | found _ => exact absurd (List.append_eq_nil_iff.mp htext.symm).1 hold
      | kept _ _ => simp at htext
  | @found rest out _ ih =>
      generalize htext : old ++ rest = text at h'
      cases h' with
      | nil => exact absurd (List.append_eq_nil_iff.mp htext).1 hold
      | found h' => rw [ih (List.append_cancel_left htext ▸ h')]
      | kept hnone _ => exact absurd ⟨rest, htext⟩ hnone
  | @kept c rest out hnone _ ih =>
      generalize htext : c :: rest = text at h'
      cases h' with
      | nil => simp at htext
      | found _ => exact absurd ⟨_, htext.symm⟩ hnone
      | kept _ h' =>
          obtain ⟨rfl, rfl⟩ := List.cons.inj htext
          rw [ih h']

/-! ## Carriage returns before newlines -/

/-- Gives every newline a carriage return. -/
def windowsEndings (text : List Char) : List Char :=
  text.flatMap fun c => if c = '\n' then ['\r', '\n'] else [c]

/-- A newline is written as two characters, and any other character as itself. -/
theorem windowsEndings_cons (c : Char) (rest : List Char) :
    windowsEndings (c :: rest) =
      (if c = '\n' then ['\r', '\n'] else [c]) ++ windowsEndings rest := List.flatMap_cons

/-- Writing the line endings of Windows replaces the newlines from left to right. -/
theorem replaces_windowsEndings (text : List Char) :
    Replaces ['\n'] ['\r', '\n'] text (windowsEndings text) := by
  induction text with
  | nil => exact .nil
  | cons c rest ih =>
      rw [windowsEndings_cons]
      by_cases hc : c = '\n'
      · rw [if_pos hc, hc]
        exact .found ih
      · rw [if_neg hc]
        exact .kept (by simpa [eq_comm] using hc) ih

/-- No newline comes first, since a carriage return stands before each. -/
theorem head?_windowsEndings_ne (text : List Char) : (windowsEndings text).head? ≠ some '\n' := by
  cases text with
  | nil => simp [windowsEndings]
  | cons c rest =>
      rw [windowsEndings_cons]
      split
      case isTrue => simp
      case isFalse hc => simpa using hc

/-- A pair is written as its newline. -/
theorem unixEndings_pair (rest : List Char) :
    unixEndings ('\r' :: '\n' :: rest) = '\n' :: unixEndings rest := by
  rw [unixEndings_cons, if_pos ⟨rfl, rfl⟩, unixEndings_cons, if_neg (by simp)]

/-- Any other character stays. -/
theorem unixEndings_kept {c : Char} (h : ¬ ['\r', '\n'] <+: c :: rest) :
    unixEndings (c :: rest) = c :: unixEndings rest := by
  rw [unixEndings_cons, if_neg]
  rintro ⟨rfl, hhead⟩
  obtain ⟨rest, rfl⟩ := List.head?_eq_some_iff.mp hhead
  exact h ⟨rest, rfl⟩

/-- Writing the line endings of Unix replaces the pairs from left to right. -/
theorem replaces_unixEndings (text : List Char) :
    Replaces ['\r', '\n'] ['\n'] text (unixEndings text) := by
  -- a pair is two characters, so the induction is not on the text itself
  induction h : text.length using Nat.strongRecOn generalizing text with
  | _ n ih =>
    subst h
    cases text with
    | nil => exact .nil
    | cons c rest =>
        by_cases hpair : ['\r', '\n'] <+: c :: rest
        · obtain ⟨rest', hrest⟩ := hpair
          have hshorter : rest'.length < (['\r', '\n'] ++ rest').length := by
            rw [List.length_append]
            exact Nat.lt_add_of_pos_left (by decide)
          rw [← hrest] at ih ⊢
          rw [List.cons_append, List.cons_append, List.nil_append, unixEndings_pair]
          exact .found (ih rest'.length hshorter rest' rfl)
        · rw [unixEndings_kept hpair]
          exact .kept hpair (ih rest.length (Nat.lt_succ_self _) rest rfl)

/-- Carriage returns that every newline was given are taken away again, and no others. -/
theorem unixEndings_windowsEndings (text : List Char) :
    unixEndings (windowsEndings text) = text := by
  induction text with
  | nil => rfl
  | cons c rest ih =>
      rw [windowsEndings_cons]
      split
      case isTrue hc =>
        rw [hc]
        exact (unixEndings_pair _).trans (congrArg _ ih)
      case isFalse hc =>
        -- if this is a carriage return, it stands before another one at most
        have hne := head?_windowsEndings_ne rest
        rw [List.singleton_append, unixEndings_cons, if_neg fun h => hne h.2, ih]

/-! ## Lines -/

/-- Without the carriage returns at their ends the lines between newlines stay the same. -/
theorem map_chomp_splitOn_unixEndings (text : List Char) :
    ((unixEndings text).splitOn '\n').map chomp = (text.splitOn '\n').map chomp := by
  induction text using line_induction with
  | last body hbody => rw [unixEndings_last hbody]
  | line body rest hbody ih =>
      obtain ⟨body', hbody', hunix, hchomp⟩ := exists_unixEndings_line hbody
      rw [unixEndings_append_newline, hunix, List.append_assoc, List.singleton_append,
        List.splitOn_append_cons_self, List.splitOn_append_cons_self, splitOn_eq_singleton hbody,
        splitOn_eq_singleton hbody', List.map_append, List.map_append, ih]
      simp [hchomp]

/-- Lines are looked up alike in both texts. -/
theorem lineAt?_unixEndings (text : List Char) (n : Nat) :
    lineAt? (unixEndings text) n = lineAt? text n := by
  rw [lineAt?, lineAt?, ← List.getElem?_map, map_chomp_splitOn_unixEndings, List.getElem?_map]

end Text

open Text (Replaces unixEndings windowsEndings lineAt?)

/-- A source of which every newline is given a carriage return becomes the same source again when
its line endings are written as newlines, so it is cut into the same tokens or fails alike. Both are
replacements from left to right. Writing line endings as newlines changes no line of any text,
whatever carriage returns stand at its end. -/
theorem tokens_of_windowsEndings (t : Table) (source : String) (text : List Char) (n : Nat) :
    let read := String.ofList (unixEndings (windowsEndings source.toList))
    (∀ out, Replaces ['\n'] ['\r', '\n'] text out ↔ out = windowsEndings text) ∧
    (∀ out, Replaces ['\r', '\n'] ['\n'] text out ↔ out = unixEndings text) ∧
    read = source ∧ t.tokens read = t.tokens source ∧
    lineAt? (unixEndings text) n = lineAt? text n := by
  intro read
  have hread : read = source := by
    rw [← String.toList_inj, String.toList_ofList, Text.unixEndings_windowsEndings]
  have hwindows := Text.replaces_windowsEndings text
  have hunix := Text.replaces_unixEndings text
  refine ⟨fun out => ⟨fun h => h.unique (by simp) hwindows, fun h => h ▸ hwindows⟩,
    fun out => ⟨fun h => h.unique (by simp) hunix, fun h => h ▸ hunix⟩, hread, by rw [hread],
    Text.lineAt?_unixEndings text n⟩

end Munch
