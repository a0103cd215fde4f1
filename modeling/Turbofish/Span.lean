import Turbofish.Text

/-!
# Spans

Where a node stands in its source. A node that was built by hand has no
location and is written `<null>`.
-/
namespace Turbofish

structure Location where
  file : Text
  startLine : UInt32
  startColumn : UInt32
  endLine : UInt32
  endColumn : UInt32
  deriving DecidableEq, Repr

abbrev Span := Option Location

/-- Lines alone when the location covers several, columns within one line, and
one column when it begins and ends at the same one. -/
def Location.text (l : Location) : Text :=
  let number (n : UInt32) := Text.ofNat n.toNat
  if l.startLine ≠ l.endLine then
    l.file ++ ":" ++ number l.startLine ++ "-" ++ number l.endLine
  else if l.startColumn ≠ l.endColumn then
    l.file ++ ":" ++ number l.startLine ++ ":" ++ number l.startColumn ++ "-" ++ number l.endColumn
  else
    l.file ++ ":" ++ number l.startLine ++ ":" ++ number l.startColumn

namespace Span

def text : Span → Text
  | none => "<null>"
  | some l => l.text

/-- The line that reports an internal error found at a span. -/
def report (span : Span) (message : Text) : Text :=
  span.text ++ " BUG:" ++ message ++ "\n"

end Span

end Turbofish
