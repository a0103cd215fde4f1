import Turbofish.Proofs.Reading.Role
import Turbofish.Proofs.Induction
import Turbofish.Proofs.Unlocated

/-!
# The forms of the kinds of node

Types and expressions have two forms, alone and as an operand, where some of them
stand in parentheses. Paths and their segments have two forms as well: in an expression
they have no parenthesized arguments outside the interface, so that a call can follow. A
segment can also be followed by the next one, unless it has an output type, which would
go on with it.
-/
namespace Turbofish

namespace Output

/-- A parenthesis that would be arguments behind a segment, unless that is in an
expression. -/
def Calls (o : Output Token) : Prop := ∃ p, o = cons (.sym "(") p

/-- The next segment of a path. -/
def Continues (o : Output Token) : Prop := ∃ t p, o = cons (.sym "::") (cons t p) ∧ t.IsName

/-- What may follow a path. -/
def EndsPath (inExpr : Bool) (o : Output Token) : Prop := o.Stops ∨ inExpr = true ∧ o.Calls

end Output

def Lifetime.form : Form Lifetime where
  write := Lifetime.script
  content := id
  Valid := Lifetime.Conforming
  Fits _ _ := True

def Ty.form (operand : Bool) : Form Ty where
  write t := Script.parenthesizedIf (operand && t.needsParens) t.script
  content := Ty.unlocated
  Valid := Ty.Conforming
  Fits _ p := p.Stops

def Bound.form : Form Bound where
  write := Bound.script
  content := Bound.unlocated
  Valid := Bound.Conforming
  Fits _ p := p.Stops

def Args.form (inExpr : Bool) : Form Args where
  write := Args.script
  content := Args.unlocated
  Valid as := as.Conforming ∧ (inExpr = true → as.isParenthesized = false)
  Fits as p := p.EndsPath inExpr ∨ as.hasOutput = false ∧ p.Continues

def Segment.form (inExpr : Bool) : Form Segment where
  write := Segment.script
  content := Segment.unlocated
  Valid s := s.Conforming ∧ (inExpr = true → s.args.isParenthesized = false)
  Fits s p := (Args.form inExpr).Fits s.args p

def Path.form (inExpr : Bool) : Form Path where
  write := Path.script
  content := Path.unlocated
  Valid p := p.Conforming ∧ (inExpr = true → ∀ s ∈ p.segments, s.args.isParenthesized = false)
  Fits _ p := p.EndsPath inExpr

def QPath.form (inExpr : Bool) : Form QPath where
  write := QPath.script
  content := QPath.unlocated
  Valid p := p.Conforming ∧ (inExpr = true → p.IsCallable)
  Fits _ p := p.EndsPath inExpr

def Arg.form : Form Arg where
  write := Arg.script
  content := Arg.unlocated
  Valid := Arg.Conforming
  Fits _ p := p.Stops

/-- Behind an operand stands an operator or the end of an expression. -/
def Expr.form (operand : Bool) : Form Expr where
  write e := Script.parenthesizedIf (operand && e.isBinary) e.script
  content := Expr.unlocated
  Valid := Expr.Conforming
  Fits _ p := p.Stops ∧ (operand = false → p.Ends)

def Family.readable : Family where
  ty t := ∀ operand, (Ty.form operand).Readable t
  bound b := Bound.form.Readable b
  path p := ∀ inExpr, (Path.form inExpr).Readable p
  segment s := ∀ inExpr, (Segment.form inExpr).Readable s
  args as := ∀ inExpr, (Args.form inExpr).Readable as
  arg a := Arg.form.Readable a
  qpath p := ∀ inExpr, (QPath.form inExpr).Readable p
  expr e := ∀ operand, (Expr.form operand).Readable e

/-! ## Kinds that form lists -/

/-- Outputs that are equal in front of what follows start with the same role. -/
theorem Output.Leads.role_eq {r r' : Role} {o o' p p' : Output Token}
    (h : o.Leads fun t => t.role = r) (h' : o'.Leads fun t => t.role = r')
    (he : o ++ p = o' ++ p') : r = r' := by
  obtain ⟨t,ht,ht'⟩ := h.both h' he
  exact ht.symm.trans ht'

theorem Output.Leads.starts {P : Token → Prop} {o : Output Token} (h : o.Leads P)
    (hP : ∀ t, P t → t.role ≠ .other) : o.Starts :=
  h.imp fun t ht => Token.isStop_of_role (hP t ht)

theorem Lifetime.listable : form.Listable where
  starts h := (leads h).starts fun _ ht => ht ▸ nofun
  fits _ _ := trivial

theorem Lifetime.readable (l : Lifetime) : form.Readable l := by
  intro hl m hm p q _ _ h
  change l.script.output ++ p = m.script.output ++ q at h
  rw [Conforming.output_eq hl,Conforming.output_eq hm,Output.cons_append,Output.cons_append] at h
  obtain ⟨htoken,hrest⟩ := Output.cons_inj h
  have hname : l.name = m.name := (List.cons.inj (congrArg Token.text htoken)).2
  exact ⟨hl.name_inj hm hname,hrest⟩

theorem Ty.listable : (form false).Listable where
  starts h := (leads h).starts fun _ ht => ht ▸ role_ne_other h
  fits _ hp := hp.stops

theorem Bound.listable : form.Listable where
  starts h := (leads h).starts fun _ ht => ht ▸ role_ne_other h
  fits _ hp := hp.stops

/-- The first token of an expression, which may be the first token of its left operand. -/
theorem Expr.starts {e : Expr} (h : e.Conforming) : e.script.output.Starts := by
  have hoperand {e : Expr} (h : e.Conforming) :
      (Script.parenthesizedIf e.isBinary e.script).output.Starts :=
    (leads h).starts fun _ ht => ht ▸ role_ne_other h
  cases e with
  | binary s op l r =>
      have hl : l.isMissing = false := h.2.1.isMissing
      have hr : r.isMissing = false := h.2.2.isMissing
      rw [Expr.script,hl,hr]
      change (Script.parenthesizedIf l.isBinary l.script ++ _ ++ _).output.Starts
      rw [Script.output_append,Script.output_append,Output.append_assoc]
      exact (hoperand h.2.1).append _
  | _ => exact hoperand h

theorem Expr.listable : (form false).Listable where
  starts h := starts h
  fits _ hp := ⟨hp.stops,fun _ => hp⟩

end Turbofish
