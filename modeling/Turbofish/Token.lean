import Turbofish.Fault
import Turbofish.Keyword

/-!
# Tokens

The units of printed text. A separator is a token that may be dropped when the
text is laid out; that it is one is part of the token.
-/
namespace Turbofish

inductive TokenClass
  | symbol
  | word
  | lifetime
  | literal
  | operator
  deriving DecidableEq, Repr

structure Token where
  cls : TokenClass
  text : Text
  isSeparator : Bool
  deriving DecidableEq, Repr

namespace Token

/-- Whether the token is a symbol with one of these texts. -/
def isSymbolOf (texts : List Text) (t : Token) : Bool := t.cls == .symbol && texts.contains t.text

/-- `>`, `)`, `]` and `}`, unless they are operators. -/
def isCloser (t : Token) : Bool := t.isSymbolOf [">", ")", "]", "\x7d"]

/-- `<`, `(`, `[` and the opening brace, unless they are operators. -/
def isOpener (t : Token) : Bool := t.isSymbolOf ["<", "(", "[", "\x7b"]

def isWordLike (t : Token) : Bool :=
  match t.cls with
  | .word | .lifetime | .literal => true
  | .symbol | .operator => false

/-- The text in a diagnostic, where a separator is marked. -/
def shown (t : Token) : Text := if t.isSeparator then t.text ++ Text.ofString "/*sep*/" else t.text

/-! ## Making tokens -/

def sym (text : Text) : Token := ⟨.symbol, text, false⟩
def keyword (text : Text) : Token := ⟨.word, text, false⟩
def literal (text : Text) : Token := ⟨.literal, text, false⟩
def operator (text : Text) : Token := ⟨.operator, text, false⟩
def separator (text : Text) : Token := ⟨.symbol, text, true⟩

/-- A lifetime by its name, which does not include the quote. -/
def lifetime (name : Text) : Token := ⟨.lifetime, 0x27 :: name, false⟩

/-- Whether a text that starts with this byte is a word: an ASCII letter or `_`. -/
def startsWord (b : UInt8) : Bool :=
  (0x41 ≤ b && b ≤ 0x5A) || (0x61 ≤ b && b ≤ 0x7A) || b == 0x5F

/-- Punctuation or a keyword, told apart by the first byte. -/
def word : Text → Except Fault Token
  | [] => .error (.nowhere .emptyWord)
  | b :: rest => .ok (if startsWord b then keyword (b :: rest) else sym (b :: rest))

/-- A name. A reserved word is written whole as a raw identifier; any other
name ends at its first NUL. -/
def ident (name : Text) : Except Fault Token :=
  if name.isEmpty then .error (.nowhere .emptyIdentifier)
  else if Keyword.isReserved name then .ok (keyword (Text.ofString "r#" ++ name))
  else .ok (keyword name.beforeNul)

end Token

end Turbofish
