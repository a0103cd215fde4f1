import Turbofish.Token

/-!
# Laying tokens out on a line

First the separators are thinned out, each by looking at the token right after
it; then what is kept is written with a space between two neighbours where
reading them together would need one.
-/
namespace Turbofish.Token

/-! ## Separators -/

/-- Whether a separator is dropped in front of this token: another separator, a
closing bracket, or punctuation that takes the separator's place. -/
def replacesSeparator (next : Token) : Bool :=
  next.isSeparator || next.isCloser || next.isSymbolOf [",", ";"]

/-- The tokens that are written. A separator at the end is not. -/
def kept : List Token → List Token
  | [] => []
  | t :: rest =>
    if t.isSeparator && rest.head?.all replacesSeparator then kept rest else t :: kept rest

/-! ## Spaces -/

/-- Operators, and the symbols that have spaces around them like operators. -/
def isInfix (t : Token) : Bool := t.cls == .operator || t.isSymbolOf ["=", "->", "+"]

/-- The keywords that keep a space in front of punctuation, as in `as ::a`. -/
def isLeadingKeyword (t : Token) : Bool :=
  t.cls == .word &&
    ([Text.ofString "as", "dyn", "impl", "mut", "const", "unsafe"] : List Text).contains t.text

/-- Whether two neighbours are written apart. Brackets decide first: nothing
stands apart from the inner side of one. -/
def apart (left right : Token) : Bool :=
  if right.isCloser || left.isOpener then false
  else
    left.isSymbolOf [",", ";", ":"]
      || left.isInfix || right.isInfix
      || (right.isWordLike && (left.isWordLike || left.isSymbolOf [">", ")"]))
      || left.isLeadingKeyword

/-- What is written between two neighbours. -/
def gap (left right : Token) : Text := if apart left right then " " else []

def layout : List Token → Text
  | [] => []
  | [t] => t.text
  | t :: u :: rest => t.text ++ gap t u ++ layout (u :: rest)

/-- The line of a list of tokens. -/
def render (tokens : List Token) : Text := layout (kept tokens)

end Turbofish.Token
