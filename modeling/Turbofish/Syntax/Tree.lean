import Turbofish.Span
import Turbofish.Syntax.Lifetime
import Turbofish.Syntax.Word

/-!
# Syntax trees

Rust types, paths, generic arguments and the expressions that may stand inside
them. The trees also hold what no parser produces: nodes whose content was moved
out, invalid types, empty bounds, expressions that are missing, and names and
numbers without a meaning.
-/
namespace Turbofish

mutual

inductive Ty
  | moved (span : Span)
  | invalid (span : Span)
  | infer (span : Span)
  | never (span : Span)
  | unit (span : Span)
  | tuple (span : Span) (items : List Ty)
  | borrow (span : Span) (lifetime : Lifetime) (mutable : Bool) (target : Ty)
  | pointer (span : Span) (mutable : Bool) (target : Ty)
  /-- A slice when the length is missing. -/
  | array (span : Span) (item : Ty) (length : Expr)
  | path (span : Span) (path : QPath)
  | traitObject (span : Span) (bounds : List Bound)
  | erased (span : Span) (bounds : List Bound)
  deriving Repr

inductive Bound
  | moved
  | empty
  | lifetime (lifetime : Lifetime)
  | trait (binders : List Lifetime) (path : Path)
  | maybe (path : Path)
  deriving Repr

inductive Path
  | mk (rooted : Bool) (segments : List Segment)
  deriving Repr

inductive Segment
  | mk (name : Text) (args : Args)
  deriving Repr

/-- What follows the name of a segment. -/
inductive Args
  | moved
  | none
  /-- In angle brackets, behind `::` when rooted. -/
  | angle (rooted : Bool) (args : List Arg)
  | parenthesized (inputs : List Ty) (output : Option Ty)
  deriving Repr

inductive Arg
  | moved
  | lifetime (lifetime : Lifetime)
  | ty (ty : Ty)
  | value (value : Expr)
  /-- `Item = T` -/
  | binding (name : Text) (ty : Ty)
  /-- `Item: A + B` -/
  | constraint (name : Text) (bounds : List Bound)
  deriving Repr

/-- A path, or a path qualified by a self type. The position counts the leading
segments that name the interface: two in `<T as a::Tr>::x`, none in `<T>::x`. -/
inductive QPath
  | plain (path : Path)
  | qualified (self : Ty) (position : UInt64) (path : Path)
  deriving Repr

inductive Expr
  | missing
  | block (span : Span) (kind : BlockKind) (yields : Bool) (statements : List Expr)
  | call (span : Span) (callee : QPath) (args : List Expr)
  | int (span : Span) (value : UInt64) (suffix : CoreType)
  | bool (span : Span) (value : Bool)
  | str (span : Span) (value : Text)
  | name (span : Span) (path : QPath)
  | binary (span : Span) (op : BinaryOp) (left right : Expr)
  | unary (span : Span) (op : UnaryOp) (operand : Expr)
  deriving Repr

end

end Turbofish
