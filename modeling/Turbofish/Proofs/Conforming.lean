import Turbofish.Node

/-!
# Conforming trees

The trees that mean something and are written in the one way that says so. Nothing in
them was moved out, is invalid or is missing, apart from the length of a slice. What
their text could not show is excluded: a name that is empty or is cut short, a tuple
without items, arguments out of order, a position behind the end of its path, an
output type that is not the last thing in its path, and a block as a generic argument
whose braces are those that its value is given anyway.
-/
namespace Turbofish

/-- A name that can be told from its token: raw when it is reserved, and never cut. -/
def Text.IsName (n : Text) : Prop := n ≠ [] ∧ 0x00 ∉ n ∧ 0x23 ∉ n ∧ n ≠ Text.ofString "_"

def Lifetime.Conforming : Lifetime → Prop
  | named n => n ≠ Text.ofString "_" ∧ n ≠ Text.ofString "static"
  | infer | static => True
  | unspecified => False

namespace Args

def isParenthesized : Args → Bool
  | parenthesized _ _ => true
  | _ => false

def hasOutput : Args → Bool
  | parenthesized _ (some _) => true
  | _ => false

end Args

/-- Only the last of these segments has an output type. -/
def Segment.OutputLast (ss : List Segment) : Prop := ∀ s ∈ ss.dropLast, s.args.hasOutput = false

namespace QPath

/-- The segments that are not part of the interface. -/
def ownSegments : QPath → List Segment
  | plain p => p.segments
  | qualified _ n p => p.segments.drop n.toNat

/-- A path in an expression has no parenthesized arguments of its own, so that
parentheses behind it are a call. -/
def IsCallable (p : QPath) : Prop := ∀ s ∈ p.ownSegments, s.args.isParenthesized = false

end QPath

/-- Arguments in the order in which they are written. -/
def Arg.grouped (as : List Arg) : List Arg :=
  as.filter (·.group? = some .lifetimes) ++ as.filter (·.group? = some .values)
    ++ as.filter (·.group? = some .associated)

/-- A bare block that does no more than give the value of an expression which would be
put into braces without it. -/
def Expr.isRedundantBlock : Expr → Bool
  | block _ .bare true [e] => !e.isSelfDelimiting
  | _ => false

mutual

def Ty.Conforming : Ty → Prop
  | .moved _ | .invalid _ => False
  | .infer _ | .never _ | .unit _ => True
  | .tuple _ ts => ts ≠ [] ∧ Ty.AllConforming ts
  | .borrow _ l _ t => (l = .unspecified ∨ l.Conforming) ∧ t.Conforming
  | .pointer _ _ t => t.Conforming
  | .array _ t n => t.Conforming ∧ (n.isMissing = true ∨ n.Conforming)
  | .path _ p => p.Conforming
  | .traitObject _ bs => Bound.AllConforming bs
  | .erased _ bs => Bound.AllConforming bs

def Ty.AllConforming : List Ty → Prop
  | [] => True
  | t :: ts => t.Conforming ∧ Ty.AllConforming ts

def Ty.OptionConforming : Option Ty → Prop
  | none => True
  | some t => t.Conforming

def Bound.Conforming : Bound → Prop
  | .moved | .empty => False
  | .lifetime l => l.Conforming
  | .trait ls p => (∀ l ∈ ls, l.Conforming) ∧ p.Conforming
  | .maybe p => p.Conforming

def Bound.AllConforming : List Bound → Prop
  | [] => True
  | b :: bs => b.Conforming ∧ Bound.AllConforming bs

def Path.Conforming : Path → Prop
  | .mk _ ss => ss ≠ [] ∧ Segment.OutputLast ss ∧ Segment.AllConforming ss

def Segment.Conforming : Segment → Prop
  | .mk n as => n.IsName ∧ as.Conforming

def Segment.AllConforming : List Segment → Prop
  | [] => True
  | s :: ss => s.Conforming ∧ Segment.AllConforming ss

def Args.Conforming : Args → Prop
  | .moved => False
  | .none => True
  | .angle _ as => Arg.grouped as = as ∧ Arg.AllConforming as
  | .parenthesized ts o => Ty.AllConforming ts ∧ Ty.OptionConforming o

def Arg.Conforming : Arg → Prop
  | .moved => False
  | .lifetime l => l.Conforming
  | .ty t => t.Conforming
  | .value e => e.Conforming ∧ e.isRedundantBlock = false
  | .binding n t => n.IsName ∧ t.Conforming
  | .constraint n bs => n.IsName ∧ Bound.AllConforming bs

def Arg.AllConforming : List Arg → Prop
  | [] => True
  | a :: as => a.Conforming ∧ Arg.AllConforming as

/-- Without an interface, the position is zero and the path has no root. -/
def QPath.Conforming : QPath → Prop
  | .plain p => p.Conforming
  | .qualified t n (.mk r ss) =>
    t.Conforming ∧ n.toNat ≤ ss.length ∧ (n = 0 → r = false)
      ∧ Segment.OutputLast (ss.take n.toNat) ∧ Segment.OutputLast (ss.drop n.toNat)
      ∧ Segment.AllConforming ss

def Expr.Conforming : Expr → Prop
  | .missing => False
  | .block _ k y es =>
      (0 ≤ k.number ∧ k.number ≤ 2) ∧ (es = [] → y = true) ∧ Expr.AllConforming es
  | .call _ p es => p.Conforming ∧ p.IsCallable ∧ Expr.AllConforming es
  | .int _ _ c => c.number ≤ 13
  | .bool _ _ | .str _ _ => True
  | .name _ p => p.Conforming ∧ p.IsCallable
  | .binary _ op l r => op.number ≤ 17 ∧ l.Conforming ∧ r.Conforming
  | .unary _ _ e => e.Conforming

def Expr.AllConforming : List Expr → Prop
  | [] => True
  | e :: es => e.Conforming ∧ Expr.AllConforming es

end

def Node.Conforming : Node → Prop
  | lifetime l => l.Conforming
  | ty t => t.Conforming
  | path p => p.Conforming
  | qpath p => p.Conforming
  | segment s => s.Conforming
  | args as => as.Conforming
  | arg a => a.Conforming
  | bound b => b.Conforming
  | expr e => e.Conforming

/-! ## Lists of nodes -/

theorem Ty.allConforming_iff (ts : List Ty) : AllConforming ts ↔ ∀ t ∈ ts, t.Conforming := by
  induction ts with
  | nil => exact ⟨fun _ => List.forall_mem_nil _,fun _ => trivial⟩
  | cons t ts ih => rw [AllConforming,ih,List.forall_mem_cons]

theorem Bound.allConforming_iff (bs : List Bound) :
    AllConforming bs ↔ ∀ b ∈ bs, b.Conforming := by
  induction bs with
  | nil => exact ⟨fun _ => List.forall_mem_nil _,fun _ => trivial⟩
  | cons b bs ih => rw [AllConforming,ih,List.forall_mem_cons]

theorem Segment.allConforming_iff (ss : List Segment) :
    AllConforming ss ↔ ∀ s ∈ ss, s.Conforming := by
  induction ss with
  | nil => exact ⟨fun _ => List.forall_mem_nil _,fun _ => trivial⟩
  | cons s ss ih => rw [AllConforming,ih,List.forall_mem_cons]

theorem Arg.allConforming_iff (as : List Arg) : AllConforming as ↔ ∀ a ∈ as, a.Conforming := by
  induction as with
  | nil => exact ⟨fun _ => List.forall_mem_nil _,fun _ => trivial⟩
  | cons a as ih => rw [AllConforming,ih,List.forall_mem_cons]

theorem Expr.allConforming_iff (es : List Expr) : AllConforming es ↔ ∀ e ∈ es, e.Conforming := by
  induction es with
  | nil => exact ⟨fun _ => List.forall_mem_nil _,fun _ => trivial⟩
  | cons e es ih => rw [AllConforming,ih,List.forall_mem_cons]

theorem Expr.Conforming.isMissing {e : Expr} (h : e.Conforming) : e.isMissing = false := by
  cases e with
  | missing => exact h.elim
  | _ => rfl

end Turbofish
