import Turbofish.Node

/-!
# Trees without their spans, and trees without moved nodes

Two trees that differ only in where their nodes stand have the same unlocated
tree. A tree is intact when no node in it, at any depth, was moved out; arguments
that printing passes over count too.
-/
namespace Turbofish

mutual

def Ty.unlocated : Ty → Ty
  | .moved _ => .moved none
  | .invalid _ => .invalid none
  | .infer _ => .infer none
  | .never _ => .never none
  | .unit _ => .unit none
  | .tuple _ ts => .tuple none (Ty.unlocatedList ts)
  | .borrow _ l m t => .borrow none l m t.unlocated
  | .pointer _ m t => .pointer none m t.unlocated
  | .array _ t n => .array none t.unlocated n.unlocated
  | .path _ p => .path none p.unlocated
  | .traitObject _ bs => .traitObject none (Bound.unlocatedList bs)
  | .erased _ bs => .erased none (Bound.unlocatedList bs)

def Ty.unlocatedList : List Ty → List Ty
  | [] => []
  | t :: ts => t.unlocated :: Ty.unlocatedList ts

def Ty.unlocatedOption : Option Ty → Option Ty
  | none => none
  | some t => some t.unlocated

def Bound.unlocated : Bound → Bound
  | .moved => .moved
  | .empty => .empty
  | .lifetime l => .lifetime l
  | .trait ls p => .trait ls p.unlocated
  | .maybe p => .maybe p.unlocated

def Bound.unlocatedList : List Bound → List Bound
  | [] => []
  | b :: bs => b.unlocated :: Bound.unlocatedList bs

def Path.unlocated : Path → Path
  | .mk r ss => .mk r (Segment.unlocatedList ss)

def Segment.unlocated : Segment → Segment
  | .mk n as => .mk n as.unlocated

def Segment.unlocatedList : List Segment → List Segment
  | [] => []
  | s :: ss => s.unlocated :: Segment.unlocatedList ss

def Args.unlocated : Args → Args
  | .moved => .moved
  | .none => .none
  | .angle r as => .angle r (Arg.unlocatedList as)
  | .parenthesized ts o => .parenthesized (Ty.unlocatedList ts) (Ty.unlocatedOption o)

def Arg.unlocated : Arg → Arg
  | .moved => .moved
  | .lifetime l => .lifetime l
  | .ty t => .ty t.unlocated
  | .value e => .value e.unlocated
  | .binding n t => .binding n t.unlocated
  | .constraint n bs => .constraint n (Bound.unlocatedList bs)

def Arg.unlocatedList : List Arg → List Arg
  | [] => []
  | a :: as => a.unlocated :: Arg.unlocatedList as

def QPath.unlocated : QPath → QPath
  | .plain p => .plain p.unlocated
  | .qualified t n p => .qualified t.unlocated n p.unlocated

def Expr.unlocated : Expr → Expr
  | .missing => .missing
  | .block _ k y es => .block none k y (Expr.unlocatedList es)
  | .call _ p es => .call none p.unlocated (Expr.unlocatedList es)
  | .int _ n c => .int none n c
  | .bool _ b => .bool none b
  | .str _ t => .str none t
  | .name _ p => .name none p.unlocated
  | .binary _ op l r => .binary none op l.unlocated r.unlocated
  | .unary _ op e => .unary none op e.unlocated

def Expr.unlocatedList : List Expr → List Expr
  | [] => []
  | e :: es => e.unlocated :: Expr.unlocatedList es

end

def Node.unlocated : Node → Node
  | .lifetime l => .lifetime l
  | .ty t => .ty t.unlocated
  | .path p => .path p.unlocated
  | .qpath p => .qpath p.unlocated
  | .segment s => .segment s.unlocated
  | .args as => .args as.unlocated
  | .arg a => .arg a.unlocated
  | .bound b => .bound b.unlocated
  | .expr e => .expr e.unlocated

theorem Ty.unlocatedList_eq_map (ts : List Ty) : Ty.unlocatedList ts = ts.map Ty.unlocated := by
  induction ts with
  | nil => rfl
  | cons t ts ih => simp only [Ty.unlocatedList,List.map_cons,ih]

theorem Bound.unlocatedList_eq_map (bs : List Bound) :
    Bound.unlocatedList bs = bs.map Bound.unlocated := by
  induction bs with
  | nil => rfl
  | cons b bs ih => simp only [Bound.unlocatedList,List.map_cons,ih]

theorem Segment.unlocatedList_eq_map (ss : List Segment) :
    Segment.unlocatedList ss = ss.map Segment.unlocated := by
  induction ss with
  | nil => rfl
  | cons s ss ih => simp only [Segment.unlocatedList,List.map_cons,ih]

theorem Arg.unlocatedList_eq_map (as : List Arg) :
    Arg.unlocatedList as = as.map Arg.unlocated := by
  induction as with
  | nil => rfl
  | cons a as ih => simp only [Arg.unlocatedList,List.map_cons,ih]

theorem Expr.unlocatedList_eq_map (es : List Expr) :
    Expr.unlocatedList es = es.map Expr.unlocated := by
  induction es with
  | nil => rfl
  | cons e es ih => simp only [Expr.unlocatedList,List.map_cons,ih]

theorem Ty.unlocatedOption_eq_map (o : Option Ty) :
    Ty.unlocatedOption o = o.map Ty.unlocated := by
  cases o <;> rfl

/-! ## What a node says of itself -/

@[simp] theorem Ty.needsParens_unlocated (t : Ty) : t.unlocated.needsParens = t.needsParens := by
  cases t <;> simp [unlocated,needsParens,Bound.unlocatedList_eq_map]

@[simp] theorem Arg.group?_unlocated (a : Arg) : a.unlocated.group? = a.group? := by
  cases a <;> rfl

@[simp] theorem Expr.className_unlocated (e : Expr) : e.unlocated.className = e.className := by
  cases e <;> simp only [unlocated,className]

@[simp] theorem Expr.isMissing_unlocated (e : Expr) : e.unlocated.isMissing = e.isMissing := by
  cases e <;> rfl

@[simp] theorem Expr.isBinary_unlocated (e : Expr) : e.unlocated.isBinary = e.isBinary := by
  cases e <;> rfl

@[simp] theorem Expr.isSelfDelimiting_unlocated (e : Expr) :
    e.unlocated.isSelfDelimiting = e.isSelfDelimiting := by
  cases e with
  | block _ k _ _ => cases k <;> rfl
  | _ => rfl

@[simp] theorem Node.hasPhase_unlocated (n : Node) : n.unlocated.hasPhase = n.hasPhase := by
  cases n <;> rfl

/-! ## Moved nodes -/

mutual

def Ty.isIntact : Ty → Bool
  | .moved _ => false
  | .invalid _ | .infer _ | .never _ | .unit _ => true
  | .tuple _ ts => Ty.areIntact ts
  | .borrow _ _ _ t => t.isIntact
  | .pointer _ _ t => t.isIntact
  | .array _ t n => t.isIntact && n.isIntact
  | .path _ p => p.isIntact
  | .traitObject _ bs => Bound.areIntact bs
  | .erased _ bs => Bound.areIntact bs

def Ty.areIntact : List Ty → Bool
  | [] => true
  | t :: ts => t.isIntact && Ty.areIntact ts

def Ty.optionIsIntact : Option Ty → Bool
  | none => true
  | some t => t.isIntact

def Bound.isIntact : Bound → Bool
  | .moved => false
  | .empty => true
  | .lifetime _ => true
  | .trait _ p => p.isIntact
  | .maybe p => p.isIntact

def Bound.areIntact : List Bound → Bool
  | [] => true
  | b :: bs => b.isIntact && Bound.areIntact bs

def Path.isIntact : Path → Bool
  | .mk _ ss => Segment.areIntact ss

def Segment.isIntact : Segment → Bool
  | .mk _ as => as.isIntact

def Segment.areIntact : List Segment → Bool
  | [] => true
  | s :: ss => s.isIntact && Segment.areIntact ss

def Args.isIntact : Args → Bool
  | .moved => false
  | .none => true
  | .angle _ as => Arg.areIntact as
  | .parenthesized ts o => Ty.areIntact ts && Ty.optionIsIntact o

def Arg.isIntact : Arg → Bool
  | .moved => false
  | .lifetime _ => true
  | .ty t => t.isIntact
  | .value e => e.isIntact
  | .binding _ t => t.isIntact
  | .constraint _ bs => Bound.areIntact bs

def Arg.areIntact : List Arg → Bool
  | [] => true
  | a :: as => a.isIntact && Arg.areIntact as

def QPath.isIntact : QPath → Bool
  | .plain p => p.isIntact
  | .qualified t _ p => t.isIntact && p.isIntact

def Expr.isIntact : Expr → Bool
  | .missing | .int _ _ _ | .bool _ _ | .str _ _ => true
  | .block _ _ _ es => Expr.areIntact es
  | .call _ p es => p.isIntact && Expr.areIntact es
  | .name _ p => p.isIntact
  | .binary _ _ l r => l.isIntact && r.isIntact
  | .unary _ _ e => e.isIntact

def Expr.areIntact : List Expr → Bool
  | [] => true
  | e :: es => e.isIntact && Expr.areIntact es

end

theorem Ty.areIntact_eq_all (ts : List Ty) : Ty.areIntact ts = ts.all Ty.isIntact := by
  induction ts with
  | nil => rfl
  | cons t ts ih => simp only [Ty.areIntact,List.all_cons,ih]

theorem Bound.areIntact_eq_all (bs : List Bound) : Bound.areIntact bs = bs.all Bound.isIntact := by
  induction bs with
  | nil => rfl
  | cons b bs ih => simp only [Bound.areIntact,List.all_cons,ih]

theorem Segment.areIntact_eq_all (ss : List Segment) : Segment.areIntact ss = ss.all Segment.isIntact := by
  induction ss with
  | nil => rfl
  | cons s ss ih => simp only [Segment.areIntact,List.all_cons,ih]

theorem Arg.areIntact_eq_all (as : List Arg) : Arg.areIntact as = as.all Arg.isIntact := by
  induction as with
  | nil => rfl
  | cons a as ih => simp only [Arg.areIntact,List.all_cons,ih]

theorem Expr.areIntact_eq_all (es : List Expr) : Expr.areIntact es = es.all Expr.isIntact := by
  induction es with
  | nil => rfl
  | cons e es ih => simp only [Expr.areIntact,List.all_cons,ih]

end Turbofish
