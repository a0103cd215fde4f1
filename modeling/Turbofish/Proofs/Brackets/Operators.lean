import Turbofish.Proofs.Brackets.Depth
import Turbofish.Proofs.Malformed
import Turbofish.Proofs.Script.Trees

/-!
# Operators outside of brackets

An operation in an operand stands in parentheses. So an operation writes its own operator
outside of all brackets and no other, and nothing else writes any there. How tightly an
operator binds has no part in how an expression is read.
-/
namespace Turbofish

open Script (Plain)

/-- The operators outside of all brackets. -/
def Token.outerOperators (tokens : List Token) : List Token := outer (·.cls == .operator) tokens

namespace Script.Plain

variable {s : Script}

theorem nested (h : s.Plain) : s.output.Nested fun t => t.isPlain = true :=
  Outside.nested (fun b => by cases b <;> decide) h

/-- Whatever operators a plain script writes are inside of brackets. -/
theorem outerOperators_eq_nil (h : s.Plain) (hc : s.Complete) :
    Token.outerOperators s.output.items = [] := by
  refine (nested h hc).outer_eq_nil fun t ht => ?_
  have hcls := bne_iff_ne.mp (Bool.and_eq_true_iff.mp ht).2
  exact beq_eq_false_iff_ne.mpr hcls

end Script.Plain

/-! ## Operations -/

/-- An expression as it is written as an operand. -/
def Expr.operandScript (e : Expr) : Script := Script.parenthesizedIf e.isBinary e.script

namespace Expr

theorem operandScript_plain (e : Expr) : e.operandScript.Plain :=
  Script.Plain.parenthesizedIf (Family.plain_inductive.all_expr e).1
    (Family.plain_inductive.all_expr e).2

/-- An operation that is printed to the end is its operator between its operands. -/
theorem binary_items {s : Span} {op : BinaryOp} {l r : Expr}
    (hc : (binary s op l r).script.Complete) :
    l.operandScript.Complete ∧ r.operandScript.Complete ∧ ∃ text, op.text? = some text ∧
      (binary s op l r).script.output.items = l.operandScript.output.items ++
        .operator text :: r.operandScript.output.items := by
  rw [script] at hc ⊢
  split at hc
  · exact absurd hc (Script.not_complete_fail _)
  · rename_i hoperands
    rw [if_neg hoperands]
    obtain ⟨hlop,hr⟩ := Script.complete_append_iff.mp hc
    obtain ⟨hl,hop⟩ := Script.complete_append_iff.mp hlop
    unfold BinaryOp.script BinaryOp.text at hop ⊢
    cases htext : op.text? with
    | none =>
        rw [htext] at hop
        exact absurd hop (Script.not_complete_fail _)
    | some text =>
        refine ⟨hl,hr,text,rfl,?_⟩
        rw [Script.output_append,Script.output_append,Output.append_assoc,
          Output.append_of_complete hl]
        rfl

end Expr

namespace Node

/-- Whatever is printed to the end: an operation has one operator outside of all brackets,
which is its own, and any other node has none. -/
theorem one_outer_operator {n : Node} {s : Trace.State} (hf : (n.print s).output.fault = none) :
    (∀ span op l r, n = expr (.binary span op l r) → ∃ text, op.text? = some text ∧
        Token.outerOperators (n.print s).output.items = [.operator text]) ∧
      ((∀ e, n = expr e → e.isBinary = false) →
        Token.outerOperators (n.print s).output.items = []) := by
  have hc := (print_complete_iff n s).mp hf
  rw [print_output_of_complete hf]
  constructor
  · rintro span op l r rfl
    have hitems : (expr (.binary span op l r)).script.output =
        (Expr.binary span op l r).script.output := Script.output_scope_done _ _
    obtain ⟨hl,hr,text,htext,hbinary⟩ := Expr.binary_items ((Script.complete_scope_iff _).mp hc)
    have hleft := Plain.outerOperators_eq_nil l.operandScript_plain hl
    have hright := Plain.outerOperators_eq_nil r.operandScript_plain hr
    have hnested := Plain.nested l.operandScript_plain hl
    have hmark : (Token.operator text).mark? = none := Token.mark?_of_cls nofun
    refine ⟨text,htext,?_⟩
    unfold Token.outerOperators at hleft hright ⊢
    rw [hitems,hbinary,hnested.outer_append,hleft,Token.outer_cons hmark rfl,hright]
    rfl
  · exact fun hbinary => Plain.outerOperators_eq_nil (n.script_plain hbinary) hc

/-- `(1 == 2) + -3`: the operator in the parentheses does not count. -/
theorem one_outer_operator_sum :
    ((expr (.binary none .add (.binary none .eq (.int none 1 .unsuffixed)
        (.int none 2 .unsuffixed)) (.unary none .negate (.int none 3 .unsuffixed)))).print
          .fresh).output.fault = none ∧
      Token.outerOperators ((expr (.binary none .add (.binary none .eq (.int none 1 .unsuffixed)
        (.int none 2 .unsuffixed)) (.unary none .negate (.int none 3 .unsuffixed)))).print
          .fresh).output.items = [.operator "+"] := by
  have hf : ((expr (.binary none .add (.binary none .eq (.int none 1 .unsuffixed)
      (.int none 2 .unsuffixed)) (.unary none .negate (.int none 3 .unsuffixed)))).print
        .fresh).output.fault = none := by decide
  obtain ⟨text,htext,houter⟩ := (one_outer_operator hf).1 _ _ _ _ rfl
  cases htext
  exact ⟨hf,houter⟩

end Node

end Turbofish
