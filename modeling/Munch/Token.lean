import Munch.Location

/-! # Tokens -/

namespace Munch

/-- What a token is: a reserved word, or a text that ended in an accepting state. -/
inductive TokenKind
  | keyword
  | accepted (state : String)
  deriving DecidableEq, Repr

/-- The name under which reserved words are listed. -/
def keywordName : String := "keyword"

/-- The name of a kind; that of an accepting state is its own. -/
def TokenKind.name : TokenKind → String
  | keyword => keywordName
  | accepted state => state

/-- A text that was cut out of a source, with its kind and its place there. -/
structure Token where
  kind : TokenKind
  value : String
  extent : Extent
  deriving DecidableEq, Repr

namespace Token

/-- Whether a token is a reserved word. -/
def isKeyword (t : Token) : Bool := t.kind = .keyword

/-- A token in one line. -/
def display (t : Token) : String := t.kind.name ++ ": " ++ t.value

end Token

end Munch
