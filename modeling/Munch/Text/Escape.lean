import Munch.Text.Extender
import Munch.Text.Unprintable

/-! # Written forms of characters

A message shows a character in a form that can be told from every other: itself if it is seen on
its own, and otherwise a backslash with a letter or with the code point in hexadecimal digits.
-/

namespace Munch.Text

/-- Whether a character is seen on its own, and so stands for itself: it has a visible form, is not
drawn as nothing, and is no mark on another character. -/
def isPlain (c : Char) : Bool :=
  (0x20 ≤ c.toNat && c.toNat < 0x7f) ||
    !(isUnprintable c || isIgnorable c || (isExtender c && !isLetterExtender c))

/-- A character by its code point, in lower-case hexadecimal digits without leading zeros. -/
def byCodePoint (c : Char) : List Char :=
  ['\\', 'u', '\x7b'] ++ Nat.toDigits 16 c.toNat ++ ['\x7d']

/-- The written form of a character on its own. -/
def escape (c : Char) : List Char :=
  match c with
  | '\x00' => ['\\', '0']
  | '\t' => ['\\', 't']
  | '\n' => ['\\', 'n']
  | '\r' => ['\\', 'r']
  | '"' | '\'' | '\\' => ['\\', c]
  | _ => if isPlain c then [c] else byCodePoint c

/-- The written form of a character between double quotes, where an apostrophe needs no mark. -/
def escapeQuoted (c : Char) : List Char := if c = '\'' then [c] else escape c

/-- A text between double quotes, each of its characters in its written form. -/
def quote (s : String) : String :=
  String.ofList (['"'] ++ s.toList.flatMap escapeQuoted ++ ['"'])

end Munch.Text
