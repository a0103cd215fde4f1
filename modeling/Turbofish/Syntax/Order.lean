import Turbofish.Syntax.Describe

/-!
# The order of syntax trees

Nodes of different variants are ordered by variant, expressions by the name of
their class. Nodes of one variant are ordered by their parts from left to right,
lists element by element with the shorter first, and what is absent comes before
what is there. Spans do not count. Two nodes of which both were moved out cannot
be compared.
-/
namespace Turbofish

abbrev Comparison := Except Fault Ordering

namespace Comparison

/-- The first answer that is not "equal" decides. -/
@[macro_inline] def andThen (first second : Comparison) : Comparison :=
  match first with
  | .ok .eq => second
  | decided => decided

end Comparison

mutual

def Ty.order : Ty → Ty → Comparison
  | .moved _, .moved _ => .error (.moved .ty)
  | .tuple _ as, .tuple _ bs => Ty.orderList as bs
  | .borrow _ l m t, .borrow _ l' m' t' =>
    .andThen (.ok (l.order l')) (.andThen (.ok (compare m m')) (t.order t'))
  | .pointer _ m t, .pointer _ m' t' => .andThen (.ok (compare m m')) (t.order t')
  | .array _ t n, .array _ t' n' => .andThen (t.order t') (n.order n')
  | .path _ p, .path _ p' => p.order p'
  | .traitObject _ as, .traitObject _ bs => Bound.orderList as bs
  | .erased _ as, .erased _ bs => Bound.orderList as bs
  | a, b => .ok (compare a.rank b.rank)

def Ty.orderList : List Ty → List Ty → Comparison
  | [], [] => .ok .eq
  | [], _ :: _ => .ok .lt
  | _ :: _, [] => .ok .gt
  | a :: as, b :: bs => .andThen (a.order b) (Ty.orderList as bs)

def Ty.orderOption : Option Ty → Option Ty → Comparison
  | none, none => .ok .eq
  | none, some _ => .ok .lt
  | some _, none => .ok .gt
  | some a, some b => a.order b

def Bound.order : Bound → Bound → Comparison
  | .moved, .moved => .error (.moved .bound)
  | .lifetime l, .lifetime l' => .ok (l.order l')
  | .trait ls p, .trait ls' p' => .andThen (.ok (Lifetime.orderList ls ls')) (p.order p')
  | .maybe p, .maybe p' => p.order p'
  | a, b => .ok (compare a.rank b.rank)

def Bound.orderList : List Bound → List Bound → Comparison
  | [], [] => .ok .eq
  | [], _ :: _ => .ok .lt
  | _ :: _, [] => .ok .gt
  | a :: as, b :: bs => .andThen (a.order b) (Bound.orderList as bs)

def Path.order : Path → Path → Comparison
  | .mk r ss, .mk r' ss' => .andThen (.ok (compare r r')) (Segment.orderList ss ss')

def Segment.order : Segment → Segment → Comparison
  | .mk n as, .mk n' as' => .andThen (.ok (Text.order n n')) (as.order as')

def Segment.orderList : List Segment → List Segment → Comparison
  | [], [] => .ok .eq
  | [], _ :: _ => .ok .lt
  | _ :: _, [] => .ok .gt
  | a :: as, b :: bs => .andThen (a.order b) (Segment.orderList as bs)

def Args.order : Args → Args → Comparison
  | .moved, .moved => .error (.moved .args)
  | .angle r as, .angle r' as' => .andThen (.ok (compare r r')) (Arg.orderList as as')
  | .parenthesized ts o, .parenthesized ts' o' => .andThen (Ty.orderList ts ts') (Ty.orderOption o o')
  | a, b => .ok (compare a.rank b.rank)

def Arg.order : Arg → Arg → Comparison
  | .moved, .moved => .error (.moved .arg)
  | .lifetime l, .lifetime l' => .ok (l.order l')
  | .ty t, .ty t' => t.order t'
  | .value e, .value e' => e.order e'
  | .binding n t, .binding n' t' => .andThen (.ok (Text.order n n')) (t.order t')
  | .constraint n bs, .constraint n' bs' => .andThen (.ok (Text.order n n')) (Bound.orderList bs bs')
  | a, b => .ok (compare a.rank b.rank)

def Arg.orderList : List Arg → List Arg → Comparison
  | [], [] => .ok .eq
  | [], _ :: _ => .ok .lt
  | _ :: _, [] => .ok .gt
  | a :: as, b :: bs => .andThen (a.order b) (Arg.orderList as bs)

def QPath.order : QPath → QPath → Comparison
  | .plain p, .plain p' => p.order p'
  | .plain _, .qualified _ _ _ => .ok .lt
  | .qualified _ _ _, .plain _ => .ok .gt
  | .qualified t n p, .qualified t' n' p' =>
    .andThen (t.order t') (.andThen (.ok (compare n n')) (p.order p'))

def Expr.order : Expr → Expr → Comparison
  | .missing, .missing => .ok .eq
  | .block _ k y es, .block _ k' y' es' =>
    .andThen (.ok (compare k.number k'.number))
      (.andThen (.ok (compare y y')) (Expr.orderList es es'))
  | .call _ p es, .call _ p' es' => .andThen (p.order p') (Expr.orderList es es')
  | .int _ n c, .int _ n' c' => .andThen (.ok (compare c.number c'.number)) (.ok (compare n n'))
  | .bool _ b, .bool _ b' => .ok (compare b b')
  | .str _ s, .str _ s' => .ok (Text.order s s')
  | .name _ p, .name _ p' => p.order p'
  | .binary _ op l r, .binary _ op' l' r' =>
    .andThen (.ok (compare op.number op'.number)) (.andThen (l.order l') (r.order r'))
  | .unary _ op e, .unary _ op' e' => .andThen (.ok (compare op.number op'.number)) (e.order e')
  | a, b => .ok (Text.order a.className b.className)

def Expr.orderList : List Expr → List Expr → Comparison
  | [], [] => .ok .eq
  | [], _ :: _ => .ok .lt
  | _ :: _, [] => .ok .gt
  | a :: as, b :: bs => .andThen (a.order b) (Expr.orderList as bs)

end

end Turbofish
