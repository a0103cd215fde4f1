import Turbofish.Proofs.Induction
import Turbofish.Syntax.Clone
import Turbofish.Syntax.Edit
import Turbofish.Syntax.Order

/-!
# Sort keys

Comparing two trees is comparing two words, letter by letter: the sort key of a
tree lists what its comparison looks at, in the order in which it is looked at.
A list is written with a one in front of every element and a zero at its end, so
that no key starts another key of its kind.
-/
namespace Turbofish

namespace Comparison

@[simp] theorem eq_andThen (c : Comparison) : andThen (.ok .eq) c = c := rfl

@[simp] theorem lt_andThen (c : Comparison) : andThen (.ok .lt) c = .ok .lt := rfl

@[simp] theorem gt_andThen (c : Comparison) : andThen (.ok .gt) c = .ok .gt := rfl

@[simp] theorem error_andThen (f : Fault) (c : Comparison) : andThen (.error f) c = .error f := rfl

theorem andThen_assoc (c d e : Comparison) :
    andThen (andThen c d) e = andThen c (andThen d e) := by
  rcases c with f | (_|_|_) <;> rfl

/-- Lists are compared element by element, the shorter first. -/
def lex {α : Type} (order : α → α → Comparison) : List α → List α → Comparison
  | [], [] => .ok .eq
  | [], _ :: _ => .ok .lt
  | _ :: _, [] => .ok .gt
  | a :: as, b :: bs => .andThen (order a b) (lex order as bs)

end Comparison

/-- A letter of a sort key. A number stands for a rank, a byte, a length or a
value; a node that was moved out has a letter of its own. -/
inductive Letter where
  | moved (what : Movable)
  | number (n : Nat)
  deriving DecidableEq, Repr

abbrev Key := List Letter

namespace Letter

/-- The letters of moved nodes come before all numbers. -/
def place : Letter → Nat
  | moved .ty => 0
  | moved .arg => 1
  | moved .args => 2
  | moved .bound => 3
  | number n => n + 4

/-- Two moved nodes of one kind cannot be compared. -/
def order : Letter → Letter → Comparison
  | moved w, moved w' =>
      if w = w' then .error (.moved w) else .ok (compare (moved w).place (moved w').place)
  | a, b => .ok (compare a.place b.place)

end Letter

namespace Key

def order : Key → Key → Comparison
  | [], [] => .ok .eq
  | [], _ :: _ => .ok .lt
  | _ :: _, [] => .ok .gt
  | a :: as, b :: bs => .andThen (a.order b) (order as bs)

/-- The bytes of a text, one above their value, with a zero behind them. -/
def ofText : Text → Key
  | [] => [.number 0]
  | c :: t => .number (c.toNat + 1) :: ofText t

def ofList {α : Type} (key : α → Key) : List α → Key
  | [] => [.number 0]
  | a :: as => .number 1 :: (key a ++ ofList key as)

end Key

/-- Numbers below zero come before the others. -/
def BlockKind.key (k : BlockKind) : Letter := .number (k.number.toInt + 2147483648).toNat

def Lifetime.key (l : Lifetime) : Key := .number l.binding.toNat :: Key.ofText l.name

mutual

def Ty.key : Ty → Key
  | .moved _ => [.moved .ty]
  | .invalid _ => [.number 1]
  | .infer _ => [.number 2]
  | .never _ => [.number 3]
  | .unit _ => [.number 4]
  | .tuple _ ts => .number 5 :: Ty.keyList ts
  | .borrow _ l m t => .number 6 :: (l.key ++ .number m.toNat :: t.key)
  | .pointer _ m t => .number 7 :: .number m.toNat :: t.key
  | .array _ t n => .number 8 :: (t.key ++ n.key)
  | .path _ p => .number 9 :: p.key
  | .traitObject _ bs => .number 10 :: Bound.keyList bs
  | .erased _ bs => .number 11 :: Bound.keyList bs

def Ty.keyList : List Ty → Key
  | [] => [.number 0]
  | t :: ts => .number 1 :: (t.key ++ Ty.keyList ts)

def Ty.keyOption : Option Ty → Key
  | none => [.number 0]
  | some t => .number 1 :: t.key

def Bound.key : Bound → Key
  | .moved => [.moved .bound]
  | .empty => [.number 1]
  | .lifetime l => .number 2 :: l.key
  | .trait ls p => .number 3 :: (Key.ofList Lifetime.key ls ++ p.key)
  | .maybe p => .number 4 :: p.key

def Bound.keyList : List Bound → Key
  | [] => [.number 0]
  | b :: bs => .number 1 :: (b.key ++ Bound.keyList bs)

def Path.key : Path → Key
  | .mk r ss => .number r.toNat :: Segment.keyList ss

def Segment.key : Segment → Key
  | .mk n as => Key.ofText n ++ as.key

def Segment.keyList : List Segment → Key
  | [] => [.number 0]
  | s :: ss => .number 1 :: (s.key ++ Segment.keyList ss)

def Args.key : Args → Key
  | .moved => [.moved .args]
  | .none => [.number 1]
  | .angle r as => .number 2 :: .number r.toNat :: Arg.keyList as
  | .parenthesized ts o => .number 3 :: (Ty.keyList ts ++ Ty.keyOption o)

def Arg.key : Arg → Key
  | .moved => [.moved .arg]
  | .lifetime l => .number 1 :: l.key
  | .ty t => .number 2 :: t.key
  | .value e => .number 3 :: e.key
  | .binding n t => .number 4 :: (Key.ofText n ++ t.key)
  | .constraint n bs => .number 5 :: (Key.ofText n ++ Bound.keyList bs)

def Arg.keyList : List Arg → Key
  | [] => [.number 0]
  | a :: as => .number 1 :: (a.key ++ Arg.keyList as)

def QPath.key : QPath → Key
  | .plain p => .number 0 :: p.key
  | .qualified t n p => .number 1 :: (t.key ++ .number n.toNat :: p.key)

def Expr.key : Expr → Key
  | .missing => Key.ofText ""
  | .block _ k y es =>
      Key.ofText "ExprNode_Block" ++ k.key :: .number y.toNat :: Expr.keyList es
  | .call _ p es => Key.ofText "ExprNode_CallPath" ++ (p.key ++ Expr.keyList es)
  | .int _ n c => Key.ofText "ExprNode_Integer" ++ [.number c.number, .number n.toNat]
  | .bool _ b => Key.ofText "ExprNode_Bool" ++ [.number b.toNat]
  | .str _ t => Key.ofText "ExprNode_String" ++ Key.ofText t
  | .name _ p => Key.ofText "ExprNode_NamedValue" ++ p.key
  | .binary _ op l r => Key.ofText "ExprNode_BinOp" ++ .number op.number :: (l.key ++ r.key)
  | .unary _ op e => Key.ofText "ExprNode_UniOp" ++ .number op.number :: e.key

def Expr.keyList : List Expr → Key
  | [] => [.number 0]
  | e :: es => .number 1 :: (e.key ++ Expr.keyList es)

end

/-! ## Lists of nodes, element by element -/

theorem Ty.keyList_eq_ofList (ts : List Ty) : Ty.keyList ts = Key.ofList Ty.key ts := by
  induction ts with
  | nil => rfl
  | cons t ts ih => simp only [Ty.keyList,Key.ofList,ih]

theorem Bound.keyList_eq_ofList (bs : List Bound) :
    Bound.keyList bs = Key.ofList Bound.key bs := by
  induction bs with
  | nil => rfl
  | cons b bs ih => simp only [Bound.keyList,Key.ofList,ih]

theorem Segment.keyList_eq_ofList (ss : List Segment) :
    Segment.keyList ss = Key.ofList Segment.key ss := by
  induction ss with
  | nil => rfl
  | cons s ss ih => simp only [Segment.keyList,Key.ofList,ih]

theorem Arg.keyList_eq_ofList (as : List Arg) : Arg.keyList as = Key.ofList Arg.key as := by
  induction as with
  | nil => rfl
  | cons a as ih => simp only [Arg.keyList,Key.ofList,ih]

theorem Expr.keyList_eq_ofList (es : List Expr) : Expr.keyList es = Key.ofList Expr.key es := by
  induction es with
  | nil => rfl
  | cons e es ih => simp only [Expr.keyList,Key.ofList,ih]

theorem Ty.orderList_eq_lex (as bs : List Ty) :
    Ty.orderList as bs = Comparison.lex Ty.order as bs := by
  induction as generalizing bs with
  | nil => cases bs <;> simp only [Ty.orderList,Comparison.lex]
  | cons a as ih => cases bs <;> simp only [Ty.orderList,Comparison.lex,ih]

theorem Bound.orderList_eq_lex (as bs : List Bound) :
    Bound.orderList as bs = Comparison.lex Bound.order as bs := by
  induction as generalizing bs with
  | nil => cases bs <;> simp only [Bound.orderList,Comparison.lex]
  | cons a as ih => cases bs <;> simp only [Bound.orderList,Comparison.lex,ih]

theorem Segment.orderList_eq_lex (as bs : List Segment) :
    Segment.orderList as bs = Comparison.lex Segment.order as bs := by
  induction as generalizing bs with
  | nil => cases bs <;> simp only [Segment.orderList,Comparison.lex]
  | cons a as ih => cases bs <;> simp only [Segment.orderList,Comparison.lex,ih]

theorem Arg.orderList_eq_lex (as bs : List Arg) :
    Arg.orderList as bs = Comparison.lex Arg.order as bs := by
  induction as generalizing bs with
  | nil => cases bs <;> simp only [Arg.orderList,Comparison.lex]
  | cons a as ih => cases bs <;> simp only [Arg.orderList,Comparison.lex,ih]

theorem Expr.orderList_eq_lex (as bs : List Expr) :
    Expr.orderList as bs = Comparison.lex Expr.order as bs := by
  induction as generalizing bs with
  | nil => cases bs <;> simp only [Expr.orderList,Comparison.lex]
  | cons a as ih => cases bs <;> simp only [Expr.orderList,Comparison.lex,ih]

/-- The order of lifetimes never fails. -/
theorem Lifetime.orderList_eq_lex (as bs : List Lifetime) :
    Except.ok (Lifetime.orderList as bs) =
      Comparison.lex (fun a b => .ok (a.order b)) as bs := by
  induction as generalizing bs with
  | nil => cases bs <;> simp only [Lifetime.orderList,Comparison.lex,List.compareLex_nil_nil,
      List.compareLex_nil_cons]
  | cons a as ih =>
      cases bs with
      | nil => simp only [Lifetime.orderList,Comparison.lex,List.compareLex_cons_nil]
      | cons b bs =>
          rw [Comparison.lex,← ih,Lifetime.orderList,List.compareLex_cons_cons]
          cases a.order b <;> rfl

theorem Text.order_eq_iff (a b : Text) : Text.order a b = .eq ↔ a = b := by
  unfold Text.order
  exact Std.LawfulEqCmp.compare_eq_iff_eq

/-- Expressions of different classes are ordered by the names of the classes. -/
theorem Expr.order_of_className_ne {a b : Expr} (h : a.className ≠ b.className) :
    a.order b = .ok (Text.order a.className b.className) := by
  cases a <;> cases b <;> simp only [className,ne_eq,not_true_eq_false] at h <;>
    simp only [order,className]

end Turbofish
