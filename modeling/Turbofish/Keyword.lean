import Turbofish.Text

/-!
# Reserved words

A name spelled like one of these is written as a raw identifier. The words
`self`, `Self`, `super` and `crate` are not among them: they may stand in a
path, and have no raw form.
-/
namespace Turbofish.Keyword

def reserved : List Text :=
  ["abstract", "as", "async", "await", "become", "box", "break", "const", "continue",
   "do", "dyn", "else", "enum", "extern", "false", "final", "fn", "for", "if", "impl", "in",
   "let", "loop", "macro", "match", "mod", "move", "mut", "override", "priv", "pub",
   "ref", "return", "static", "struct", "trait", "true", "try", "type", "typeof",
   "unsafe", "unsized", "use", "virtual", "where", "while", "yield"].map Text.ofString

/-- Only the part before the first NUL of the name counts. -/
def isReserved (name : Text) : Bool := reserved.contains name.beforeNul

end Turbofish.Keyword
