import Turbofish.Syntax.Tree
import Turbofish.Fault

/-!
# What a node says of itself

Variant names, their order, and the questions that are answered by looking at
the top of a node.
-/
namespace Turbofish

namespace Ty

def span : Ty → Span
  | moved s | invalid s | infer s | never s | unit s => s
  | tuple s _ => s
  | borrow s _ _ _ => s
  | pointer s _ _ => s
  | array s _ _ => s
  | path s _ => s
  | traitObject s _ => s
  | erased s _ => s

/-- The place of the variant in the order of types. -/
def rank : Ty → Nat
  | moved _ => 0
  | invalid _ => 1
  | infer _ => 2
  | never _ => 3
  | unit _ => 4
  | tuple _ _ => 5
  | borrow _ _ _ _ => 6
  | pointer _ _ _ => 7
  | array _ _ _ => 8
  | path _ _ => 9
  | traitObject _ _ => 10
  | erased _ _ => 11

def variantName : Ty → Text
  | moved _ => "ERR:DEAD"
  | invalid _ => "None"
  | infer _ => "Any"
  | never _ => "Bang"
  | unit _ => "Unit"
  | tuple _ _ => "Tuple"
  | borrow _ _ _ _ => "Borrow"
  | pointer _ _ _ => "Pointer"
  | array _ _ _ => "Array"
  | path _ _ => "Path"
  | traitObject _ _ => "TraitObject"
  | erased _ _ => "ErasedType"

def isValid : Ty → Bool
  | invalid _ => false
  | _ => true

def isWildcard : Ty → Bool
  | infer _ => true
  | _ => false

def isUnit : Ty → Bool
  | unit _ => true
  | _ => false

def isTuple : Ty → Bool
  | tuple _ _ => true
  | _ => false

def isReference : Ty → Bool
  | borrow _ _ _ _ => true
  | _ => false

def isPointer : Ty → Bool
  | pointer _ _ _ => true
  | _ => false

/-- The path of a path type. -/
def path? : Ty → Option QPath
  | path _ p => some p
  | _ => none

def isPath (t : Ty) : Bool := t.path?.isSome

/-- A list of several bounds needs parentheses after `&`, `*const` and `->`. -/
def needsParens : Ty → Bool
  | traitObject _ bounds => 1 < bounds.length
  | erased _ bounds => 1 < bounds.length
  | _ => false

end Ty

namespace Bound

def rank : Bound → Nat
  | moved => 0
  | empty => 1
  | lifetime _ => 2
  | trait _ _ => 3
  | maybe _ => 4

def variantName : Bound → Text
  | moved => "ERR:DEAD"
  | empty => "None"
  | lifetime _ => "Lifetime"
  | trait _ _ => "IsTrait"
  | maybe _ => "MaybeTrait"

end Bound

namespace Path

def rooted : Path → Bool
  | mk r _ => r

def segments : Path → List Segment
  | mk _ ss => ss

def size (p : Path) : Nat := p.segments.length

/-- A relative path of one segment without arguments. -/
def ofName (name : Text) : Path := mk false [.mk name .none]

end Path

namespace Segment

def name : Segment → Text
  | mk n _ => n

def args : Segment → Args
  | mk _ as => as

end Segment

namespace Args

def rank : Args → Nat
  | moved => 0
  | none => 1
  | angle _ _ => 2
  | parenthesized _ _ => 3

def variantName : Args → Text
  | moved => "ERR:DEAD"
  | none => "None"
  | angle _ _ => "AngleBracketed"
  | parenthesized _ _ => "Parenthesized"

def isEmpty : Args → Bool
  | none => true
  | _ => false

end Args

/-- The groups that the arguments in angle brackets are written in. -/
inductive ArgGroup
  | lifetimes
  | values
  | associated
  deriving DecidableEq, Repr

namespace Arg

def rank : Arg → Nat
  | moved => 0
  | lifetime _ => 1
  | ty _ => 2
  | value _ => 3
  | binding _ _ => 4
  | constraint _ _ => 5

def variantName : Arg → Text
  | moved => "ERR:DEAD"
  | lifetime _ => "Lifetime"
  | ty _ => "Type"
  | value _ => "Value"
  | binding _ _ => "AssociatedTyEqual"
  | constraint _ _ => "AssociatedTyBound"

/-- A moved argument belongs to no group. -/
def group? : Arg → Option ArgGroup
  | moved => none
  | lifetime _ => some .lifetimes
  | ty _ | value _ => some .values
  | binding _ _ | constraint _ _ => some .associated

end Arg

namespace QPath

def path : QPath → Path
  | plain p => p
  | qualified _ _ p => p

/-- The self type and its position. -/
def self? : QPath → Option (Ty × UInt64)
  | plain _ => none
  | qualified self position _ => some (self, position)

/-- `<T>::a::b` -/
def ofType (self : Ty) (segments : List Segment) : QPath :=
  qualified self 0 (.mk false segments)

/-- `<T as Trait>::a::b` -/
def ofTrait (self : Ty) (interface : Path) (segments : List Segment) : QPath :=
  qualified self interface.size.toUInt64 (.mk interface.rooted (interface.segments ++ segments))

end QPath

namespace Expr

def span : Expr → Span
  | missing => none
  | block s _ _ _ => s
  | call s _ _ => s
  | int s _ _ => s
  | bool s _ => s
  | str s _ => s
  | name s _ => s
  | binary s _ _ _ => s
  | unary s _ _ => s

/-- The class an expression is reported as; expressions of different classes are
ordered by it. A missing expression has none, and so comes first. -/
def className : Expr → Text
  | missing => ""
  | block _ _ _ _ => "ExprNode_Block"
  | call _ _ _ => "ExprNode_CallPath"
  | int _ _ _ => "ExprNode_Integer"
  | bool _ _ => "ExprNode_Bool"
  | str _ _ => "ExprNode_String"
  | name _ _ => "ExprNode_NamedValue"
  | binary _ _ _ _ => "ExprNode_BinOp"
  | unary _ _ _ => "ExprNode_UniOp"

def isMissing : Expr → Bool
  | missing => true
  | _ => false

/-- A literal. -/
def isLiteral : Expr → Bool
  | int _ _ _ | bool _ _ | str _ _ => true
  | _ => false

/-- A block without a keyword. -/
def isBareBlock : Expr → Bool
  | block _ .bare _ _ => true
  | _ => false

/-- Whether the expression can be a generic argument without braces around it. -/
def isSelfDelimiting (e : Expr) : Bool := e.isLiteral || e.isBareBlock

def isBinary : Expr → Bool
  | binary _ _ _ _ => true
  | _ => false

end Expr

end Turbofish
