import Turbofish.Span
import Turbofish.Syntax.Word

/-!
# Faults

What can be wrong with a tree that is printed, compared or copied. A fault has
a cause and the span of the node that was being worked on; most causes are
reported without a location.
-/
namespace Turbofish

/-- The kinds of node whose content can have been moved out. -/
inductive Movable
  | ty
  | arg
  | args
  | bound
  deriving DecidableEq, Repr

/-- The class a node of the kind is reported as. -/
def Movable.className : Movable → Text
  | ty => "TypeData"
  | arg => "PathParamEnt"
  | args => "PathArgs"
  | bound => "GenericBound"

inductive Cause
  | moved (what : Movable)
  | copyOfMovedType
  | emptyWord
  | emptyIdentifier
  | invalidType
  | unspecifiedLifetime
  | emptyBound
  | missingConstArgument
  | missingCallArgument
  | missingStatement
  | missingOperand (operator : Text)
  | missingUnaryOperand
  | unknownOperator (number : Nat)
  | notLiteral (className : Text)
  deriving DecidableEq, Repr

def Cause.message : Cause → Text
  | moved what => Text.ofString "destructed tagged union " ++ what.className ++ Text.ofString " used"
  | copyOfMovedType => "Copying a destructed type"
  | emptyWord => "Empty word"
  | emptyIdentifier => "Empty identifier"
  | invalidType => "Printing an invalid type"
  | unspecifiedLifetime => "Printing an unspecified lifetime"
  | emptyBound => "Printing an empty bound"
  | missingConstArgument => "Null const generic argument"
  | missingCallArgument => "Null call argument"
  | missingStatement => "Null statement in block"
  | missingOperand operator => Text.ofString "Null operand to " ++ operator
  | missingUnaryOperand => "Null operand to unary operator"
  | unknownOperator number => Text.ofString "Unknown binary operator " ++ Text.ofNat number
  | notLiteral className =>
    Text.ofString "Non-literal node " ++ className ++ Text.ofString " passed to expr_lit"

structure Fault where
  cause : Cause
  span : Span
  deriving DecidableEq, Repr

namespace Fault

/-- A fault that is reported without a location. -/
def nowhere (cause : Cause) : Fault := ⟨cause, none⟩

def moved (what : Movable) : Fault := nowhere (.moved what)

def message (fault : Fault) : Text := fault.cause.message

/-- The line that is written where the fault arises. -/
def report (fault : Fault) : Text := fault.span.report fault.message

end Fault

/-- The text of an operator; a number that names no operator has none. -/
def BinaryOp.text (op : BinaryOp) : Except Fault Text :=
  match op.text? with
  | some t => .ok t
  | none => .error (.nowhere (.unknownOperator op.number))

end Turbofish
