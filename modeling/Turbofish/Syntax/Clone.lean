import Turbofish.Syntax.Describe

/-!
# Copying syntax trees

A copy is made node by node and has the same spans. It fails at the first node
whose content was moved out. Where a node keeps two parts side by side, a self
type and its path, a callee and its arguments, or the two operands of an
operator, the later part is copied first; lists and the parts of types and
argument lists are copied in order.
-/
namespace Turbofish

mutual

def Ty.clone : Ty → Except Fault Ty
  | .moved s => .error ⟨.copyOfMovedType, s⟩
  | .invalid s => .ok (.invalid s)
  | .infer s => .ok (.infer s)
  | .never s => .ok (.never s)
  | .unit s => .ok (.unit s)
  | .tuple s ts => do return .tuple s (← Ty.cloneList ts)
  | .borrow s l m t => do return .borrow s l m (← t.clone)
  | .pointer s m t => do return .pointer s m (← t.clone)
  | .array s t n => do
    let t ← t.clone
    let n ← n.clone
    return .array s t n
  | .path s p => do return .path s (← p.clone)
  | .traitObject s bs => do return .traitObject s (← Bound.cloneList bs)
  | .erased s bs => do return .erased s (← Bound.cloneList bs)

def Ty.cloneList : List Ty → Except Fault (List Ty)
  | [] => .ok []
  | t :: ts => do
    let t ← t.clone
    let ts ← Ty.cloneList ts
    return t :: ts

def Ty.cloneOption : Option Ty → Except Fault (Option Ty)
  | none => .ok none
  | some t => do return some (← t.clone)

def Bound.clone : Bound → Except Fault Bound
  | .moved => .error (.moved .bound)
  | .empty => .ok .empty
  | .lifetime l => .ok (.lifetime l)
  | .trait ls p => do return .trait ls (← p.clone)
  | .maybe p => do return .maybe (← p.clone)

def Bound.cloneList : List Bound → Except Fault (List Bound)
  | [] => .ok []
  | b :: bs => do
    let b ← b.clone
    let bs ← Bound.cloneList bs
    return b :: bs

def Path.clone : Path → Except Fault Path
  | .mk r ss => do return .mk r (← Segment.cloneList ss)

def Segment.clone : Segment → Except Fault Segment
  | .mk n as => do return .mk n (← as.clone)

def Segment.cloneList : List Segment → Except Fault (List Segment)
  | [] => .ok []
  | s :: ss => do
    let s ← s.clone
    let ss ← Segment.cloneList ss
    return s :: ss

def Args.clone : Args → Except Fault Args
  | .moved => .error (.moved .args)
  | .none => .ok .none
  | .angle r as => do return .angle r (← Arg.cloneList as)
  | .parenthesized ts o => do
    let ts ← Ty.cloneList ts
    let o ← Ty.cloneOption o
    return .parenthesized ts o

def Arg.clone : Arg → Except Fault Arg
  | .moved => .error (.moved .arg)
  | .lifetime l => .ok (.lifetime l)
  | .ty t => do return .ty (← t.clone)
  | .value e => do return .value (← e.clone)
  | .binding n t => do return .binding n (← t.clone)
  | .constraint n bs => do return .constraint n (← Bound.cloneList bs)

def Arg.cloneList : List Arg → Except Fault (List Arg)
  | [] => .ok []
  | a :: as => do
    let a ← a.clone
    let as ← Arg.cloneList as
    return a :: as

def QPath.clone : QPath → Except Fault QPath
  | .plain p => do return .plain (← p.clone)
  | .qualified t n p => do
    let p ← p.clone
    let t ← t.clone
    return .qualified t n p

def Expr.clone : Expr → Except Fault Expr
  | .missing => .ok .missing
  | .block s k y es => do return .block s k y (← Expr.cloneList es)
  | .call s p es => do
    let es ← Expr.cloneList es
    let p ← p.clone
    return .call s p es
  | .int s n c => .ok (.int s n c)
  | .bool s b => .ok (.bool s b)
  | .str s t => .ok (.str s t)
  | .name s p => do return .name s (← p.clone)
  | .binary s op l r => do
    let r ← r.clone
    let l ← l.clone
    return .binary s op l r
  | .unary s op e => do return .unary s op (← e.clone)

def Expr.cloneList : List Expr → Except Fault (List Expr)
  | [] => .ok []
  | e :: es => do
    let e ← e.clone
    let es ← Expr.cloneList es
    return e :: es

end

end Turbofish
