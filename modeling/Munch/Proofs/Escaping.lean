import Mathlib.Data.List.TakeWhile
import Munch.Text.Escape

/-!
# Written forms can be read back

The written form of a character is told from every other by what it begins with, whatever follows
it: `unescape` reads one character off a text, and `unescape_escape_append` says that it finds the
one that was written. So what follows written forms of characters is never taken for a part of them.
-/

namespace Munch.Text

/-! ## Code points in hexadecimal digits -/

/-- The value of a hexadecimal digit. -/
def hexValue (c : Char) : Nat := if c.isDigit then c.toNat - '0'.toNat else c.toNat - 'a'.toNat + 10

/-- The number that hexadecimal digits write. -/
def readHex (digits : List Char) : Nat := digits.foldl (fun n c => 16 * n + hexValue c) 0

/-- A hexadecimal digit is read as what it was written for. -/
theorem hexValue_digitChar : ∀ n < 16, hexValue n.digitChar = n := by decide

/-- No digit is taken for the brace behind the digits, and none ends the line. -/
theorem digitChar_ne : ∀ n < 16, n.digitChar ≠ '\x7d' ∧ n.digitChar ≠ '\n' := by decide

/-- One more digit behind the others counts sixteen times less than they do. -/
theorem readHex_concat (digits : List Char) (c : Char) :
    readHex (digits ++ [c]) = 16 * readHex digits + hexValue c := by
  simp [readHex]

/-- A number is read back from its hexadecimal digits. -/
theorem readHex_toDigits (n : Nat) : readHex (Nat.toDigits 16 n) = n := by
  induction n using Nat.strongRecOn with
  | _ n ih =>
    rw [Nat.toDigits_eq_if (by decide)]
    split
    case isTrue hlt => simp [readHex, hexValue_digitChar n hlt]
    case isFalse hge =>
      rw [readHex_concat, ih (n / 16) (by omega), hexValue_digitChar _ (Nat.mod_lt n (by decide))]
      omega

/-- All that is written of a number is digits. -/
theorem exists_digitChar_of_mem_toDigits {n : Nat} {c : Char} (h : c ∈ Nat.toDigits 16 n) :
    ∃ d < 16, c = d.digitChar := by
  induction n using Nat.strongRecOn with
  | _ n ih =>
    rw [Nat.toDigits_eq_if (by decide)] at h
    split at h
    case isTrue hlt => exact ⟨n, hlt, List.mem_singleton.mp h⟩
    case isFalse hge =>
      rcases List.mem_append.mp h with hfront | hlast
      · exact ih (n / 16) (by omega) hfront
      · exact ⟨n % 16, Nat.mod_lt n (by decide), List.mem_singleton.mp hlast⟩

/-! ## One character -/

/-- Reads a character in its written form off the beginning of a text. -/
def unescape : List Char → Option (Char × List Char)
  | [] => none
  | '\\' :: '0' :: rest => some ('\x00', rest)
  | '\\' :: 't' :: rest => some ('\t', rest)
  | '\\' :: 'n' :: rest => some ('\n', rest)
  | '\\' :: 'r' :: rest => some ('\r', rest)
  | '\\' :: 'u' :: '\x7b' :: rest =>
    some (Char.ofNat (readHex (rest.takeWhile (· != '\x7d'))), (rest.dropWhile (· != '\x7d')).tail)
  | '\\' :: c :: rest => some (c, rest)
  | c :: rest => some (c, rest)

/-- A character that is written by its code point is read back, and nothing behind it is touched. -/
theorem unescape_byCodePoint_append (c : Char) (rest : List Char) :
    unescape (byCodePoint c ++ rest) = some (c, rest) := by
  have hdigits : ∀ c' ∈ Nat.toDigits 16 c.toNat, (c' != '\x7d') = true := by
    intro c' hc'
    obtain ⟨d, hd, rfl⟩ := exists_digitChar_of_mem_toDigits hc'
    exact bne_iff_ne.mpr (digitChar_ne d hd).1
  simp only [byCodePoint, List.cons_append, List.nil_append, List.append_assoc, unescape,
    List.takeWhile_append_of_pos hdigits, List.dropWhile_append_of_pos hdigits]
  simp [readHex_toDigits, Char.ofNat_toNat]

/-- A character that stands for itself is read as it stands. -/
theorem unescape_cons {c : Char} (hc : c ≠ '\\') (rest : List Char) :
    unescape (c :: rest) = some (c, rest) := by
  unfold unescape
  split <;> simp_all

/-- Whatever follows the written form of a character, the character is read back. -/
theorem unescape_escape_append (c : Char) (rest : List Char) :
    unescape (escape c ++ rest) = some (c, rest) := by
  unfold escape
  split
  -- a character without a short form stands for itself or is written by its code point
  case h_8 hbackslash =>
    split
    · exact unescape_cons hbackslash rest
    · exact unescape_byCodePoint_append c rest
  all_goals rfl

/-- Texts that begin with written forms of characters agree only if the characters do. -/
theorem escape_append_inj {c c' : Char} {rest rest' : List Char}
    (h : escape c ++ rest = escape c' ++ rest') : c = c' ∧ rest = rest' := by
  have hread := congrArg unescape h
  rw [unescape_escape_append, unescape_escape_append] at hread
  exact Prod.mk.inj (Option.some.inj hread)

/-- No written form goes over two lines. -/
theorem newline_not_mem_escape (c : Char) : '\n' ∉ escape c := by
  unfold escape
  split
  case h_8 _ _ hnewline _ _ _ _ =>
    split
    · simpa using Ne.symm hnewline
    · intro hmem
      have hdigit : '\n' ∈ Nat.toDigits 16 c.toNat := by simpa [byCodePoint] using hmem
      obtain ⟨d, hd, heq⟩ := exists_digitChar_of_mem_toDigits hdigit
      exact (digitChar_ne d hd).2 heq.symm
  all_goals simp_all

/-! ## Texts between quotes -/

/-- Between quotes an apostrophe stands for itself, and is read back as well. -/
theorem unescape_escapeQuoted_append (c : Char) (rest : List Char) :
    unescape (escapeQuoted c ++ rest) = some (c, rest) := by
  unfold escapeQuoted
  split
  case isTrue hc => exact unescape_cons (by simp [hc]) rest
  case isFalse => exact unescape_escape_append c rest

/-- No written form between quotes begins like the quote behind them. -/
theorem escapeQuoted_append_ne_quote (c : Char) (text rest : List Char) :
    escapeQuoted c ++ text ≠ '"' :: rest := by
  intro heq
  have hread := congrArg unescape heq
  rw [unescape_escapeQuoted_append, unescape_cons (by decide)] at hread
  obtain ⟨rfl, -⟩ := Prod.mk.inj (Option.some.inj hread)
  simp [escapeQuoted, escape] at heq

/-- The quote behind a text ends it, whatever follows. -/
theorem flatMap_escapeQuoted_append_inj {text text' rest rest' : List Char}
    (h : text.flatMap escapeQuoted ++ '"' :: rest = text'.flatMap escapeQuoted ++ '"' :: rest') :
    text = text' ∧ rest = rest' := by
  induction text generalizing text' with
  | nil =>
      cases text' with
      | nil => simpa using h
      | cons c text' =>
          rw [List.flatMap_cons, List.append_assoc] at h
          exact absurd h.symm (escapeQuoted_append_ne_quote c _ rest)
  | cons c text ih =>
      rw [List.flatMap_cons, List.append_assoc] at h
      cases text' with
      | nil => exact absurd h (escapeQuoted_append_ne_quote c _ rest')
      | cons c' text' =>
          rw [List.flatMap_cons, List.append_assoc] at h
          have hread := congrArg unescape h
          rw [unescape_escapeQuoted_append, unescape_escapeQuoted_append] at hread
          obtain ⟨rfl, hmore⟩ := Prod.mk.inj (Option.some.inj hread)
          obtain ⟨rfl, hrest⟩ := ih hmore
          exact ⟨rfl, hrest⟩

/-- Texts that begin with quoted texts agree only if the quoted texts do. -/
theorem toList_quote_append_inj {s s' : String} {rest rest' : List Char}
    (h : (quote s).toList ++ rest = (quote s').toList ++ rest') : s = s' ∧ rest = rest' := by
  simp only [quote, String.toList_ofList, List.append_assoc, List.cons_append, List.nil_append,
    List.cons.injEq, true_and] at h
  obtain ⟨htext, hrest⟩ := flatMap_escapeQuoted_append_inj h
  exact ⟨String.toList_inj.mp htext, hrest⟩

end Munch.Text
