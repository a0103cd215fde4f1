import Turbofish.Text

/-!
# Lifetimes

A lifetime that was named is told apart from the static and the inferred one
even when its name is theirs.
-/
namespace Turbofish

inductive Lifetime
  | named (name : Text)
  | infer
  | unspecified
  | static
  deriving DecidableEq, Repr

namespace Lifetime

/-- The name without its leading quote. -/
def name : Lifetime → Text
  | named n => n
  | infer => "_"
  | unspecified => ""
  | static => "static"

/-- What the lifetime is bound to, as a number. -/
def binding : Lifetime → UInt16
  | named _ => 0xFFFC
  | infer => 0xFFFD
  | unspecified => 0xFFFE
  | static => 0xFFFF

def isSpecified (l : Lifetime) : Bool := l != unspecified
def isStatic (l : Lifetime) : Bool := l == static
def isInfer (l : Lifetime) : Bool := l == infer

/-- By binding, then by name. -/
def order (a b : Lifetime) : Ordering :=
  (compare a.binding b.binding).then (Text.order a.name b.name)

/-- Lists of lifetimes one by one, the shorter first. -/
def orderList (as bs : List Lifetime) : Ordering := List.compareLex order as bs

/-- The lifetime in a diagnostic, where one that was left out still shows. -/
def text : Lifetime → Text
  | unspecified => "'/*unspec*/"
  | l => 0x27 :: l.name

/-- The binder list `for<…>` of a bound in a diagnostic: every lifetime is
followed by a comma, and no list is written for no lifetimes. -/
def bindersText : List Lifetime → Text
  | [] => []
  | ls => Text.ofString "for<" ++ (ls.flatMap fun l => l.text ++ [0x2C]) ++ Text.ofString "> "

end Lifetime

end Turbofish
