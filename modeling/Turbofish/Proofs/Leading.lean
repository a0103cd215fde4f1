import Turbofish.Proofs.Printed
import Turbofish.Proofs.Reading.Form

/-!
# What nodes begin with

Where no path in a tree is empty, each node that is printed begins with a token of its
own, in front of which a separator is written. Argument lists and missing expressions
may write nothing at all.
-/
namespace Turbofish

namespace Script

/-- The first token of a script takes the place of no separator. -/
def Begins (s : Script) : Prop := s.output.Leads fun t => t.replacesSeparator = false

namespace Begins

variable {s : Script}

theorem token {t : Token} (h : t.replacesSeparator = false) (r : Script) : Begins (token t r) :=
  Output.leads_cons h r.output

theorem append (h : Begins s) (r : Script) : Begins (s ++ r) := by
  unfold Begins
  rw [output_append]
  exact Output.Leads.append h r.output

theorem scope (h : Begins s) (site : Site) (r : Script) : Begins (scope site s r) :=
  Output.Leads.append h r.output

theorem parenthesizedIf {c : Bool} (h : c = false → Begins s) : Begins (parenthesizedIf c s) := by
  cases c with
  | false => exact h rfl
  | true => exact token (by decide) _

theorem keyword (text : Text) : Begins (keyword text) := token rfl done

theorem literal (text : Text) : Begins (literal text) := token rfl done

theorem ident {name : Text} (h : (ident name).Complete) : Begins (ident name) := by
  unfold Script.ident Token.ident at h ⊢
  split at h
  · exact absurd h (not_complete_fail _)
  · rename_i hne
    rw [if_neg hne]
    split
    · exact keyword _
    · exact keyword _

end Begins

end Script

namespace Node

open Script (Begins)

/-- A path without segments. A path with a self type is not printed as a path. -/
def isEmptyPath : Node → Bool
  | path (.mk _ []) => true
  | _ => false

/-- Whether a node writes something wherever it is printed. -/
def isWritten : Node → Bool
  | args _ => false
  | expr e => !e.isMissing
  | _ => true

/-! ## One node -/

/-- The parts of a node that write something begin as they should. -/
def PartsBegin (n : Node) : Prop := ∀ m ∈ n.printedParts, m.isWritten = true → m.script.Begins

theorem begins_of_traced {e : Expr} (h : (expr e).script.Begins) : e.script.Begins := by
  have houtput : (expr e).script.output = e.script.output := Script.output_scope_done _ _
  unfold Begins at h ⊢
  rw [← houtput]
  exact h

theorem begins_lifetime {l : Lifetime} (hc : l.script.Complete) : l.script.Begins := by
  have hl := l.complete_iff.mp hc
  unfold Lifetime.script
  rw [if_pos hl]
  exact .token rfl _

theorem begins_ty {t : Ty} (hc : t.script.Complete) (h : (ty t).PartsBegin) : t.script.Begins := by
  cases t with
  | moved s => exact absurd hc (Script.not_complete_fail _)
  | invalid s => exact absurd hc (Script.not_complete_fail _)
  | infer s => exact .keyword _
  | path s p => exact h (qpath p) (List.mem_singleton_self _) rfl
  | traitObject s bs => exact (Begins.keyword _).append _
  | erased s bs => exact (Begins.keyword _).append _
  | _ => exact .token (by decide) _

theorem begins_bound {b : Bound} (hc : b.script.Complete) (h : (bound b).PartsBegin) :
    b.script.Begins := by
  cases b with
  | moved => exact absurd hc (Script.not_complete_fail _)
  | empty => exact absurd hc (Script.not_complete_fail _)
  | lifetime l => exact begins_lifetime hc
  | trait ls p =>
      cases ls with
      | nil => exact h (path p) (List.mem_singleton_self _) rfl
      | cons l ls => exact .token (by decide) _
  | maybe p => exact .token (by decide) _

theorem begins_path {p : Path} (hne : (path p).isEmptyPath = false) (h : (path p).PartsBegin) :
    p.script.Begins := by
  obtain ⟨r,ss⟩ := p
  apply Begins.scope
  cases ss with
  | nil => cases hne
  | cons s ss =>
      cases r with
      | true => exact .token (by decide) _
      | false => exact (h (segment s) (List.mem_cons_self ..) rfl).append _

theorem begins_qpath {p : QPath} (h : (qpath p).PartsBegin) : p.script.Begins := by
  cases p with
  | plain p => exact h (path p) (List.mem_singleton_self _) rfl
  | qualified t n p =>
      obtain ⟨r,ss⟩ := p
      exact Begins.scope (.token (by decide) _) _ _

theorem begins_arg {a : Arg} (hc : a.script.Complete) (h : (arg a).PartsBegin) :
    a.script.Begins := by
  cases a with
  | moved => exact absurd hc (Script.not_complete_fail _)
  | lifetime l => exact begins_lifetime hc
  | ty t => exact h (ty t) (List.mem_singleton_self _) rfl
  | value e =>
      cases hm : e.isMissing with
      | true =>
          rw [Arg.script_missing hm] at hc
          exact absurd hc (Script.not_complete_fail _)
      | false =>
          rw [Arg.script_value hm]
          split
          · exact begins_of_traced (h (expr e) (List.mem_singleton_self _) (congrArg Bool.not hm))
          · exact .token (by decide) _
  | binding n t =>
      rw [Arg.script,Script.append_assoc] at hc ⊢
      exact (Begins.ident (Script.complete_append_iff.mp hc).1).append _
  | constraint n bs =>
      rw [Arg.script,Script.complete_scope_iff,Script.append_assoc] at hc
      rw [Arg.script,Script.append_assoc]
      exact ((Begins.ident (Script.complete_append_iff.mp hc).1).append _).scope _ _

theorem begins_expr {e : Expr} (hc : e.script.Complete) (he : e.isMissing = false)
    (h : (expr e).PartsBegin) : e.script.Begins := by
  cases e with
  | missing => cases he
  | block s k y es => cases k <;> exact .token (by decide) _
  | call s p es =>
      rw [Expr.script,Script.append_assoc,Script.append_assoc]
      exact (h (qpath p) (List.mem_cons_self ..) rfl).append _
  | int s n c => cases c <;> exact .literal _
  | bool s b => exact .keyword _
  | str s t => exact .literal _
  | name s p => exact h (qpath p) (List.mem_singleton_self _) rfl
  | binary s op l r =>
      rw [Expr.script] at hc ⊢
      split at hc
      · exact absurd hc (Script.not_complete_fail _)
      · rename_i hm
        have hl : (expr l).isWritten = true := by
          cases hlm : l.isMissing with
          | true => rw [hlm] at hm; exact absurd rfl hm
          | false => exact congrArg Bool.not hlm
        have hbegins := begins_of_traced (h (expr l) (List.mem_cons_self ..) hl)
        rw [if_neg hm,Script.append_assoc]
        exact (Begins.parenthesizedIf fun _ => hbegins).append _
  | unary s op e =>
      rw [Expr.script] at hc ⊢
      split at hc
      · exact absurd hc (Script.not_complete_fail _)
      · rename_i hm
        rw [if_neg hm]
        cases op <;> exact .token (by decide) _

/-! ## Whole trees -/

/-- A node in a tree without empty paths begins with a token of its own. -/
theorem begins (n : Node) (hc : n.script.Complete) (hne : ∀ m, n.Contains m → m.isEmptyPath = false)
    (hw : n.isWritten = true) : n.script.Begins := by
  induction n using parts_induction with
  | h n ih =>
      have hparts : n.PartsBegin := by
        intro m hm hmw
        have hmem := mem_parts_of_printed hm
        exact ih m hmem (((complete_iff n).mp hc).2 m hm) (fun k hk => hne k (.head hmem hk)) hmw
      cases n with
      | lifetime l => exact begins_lifetime hc
      | ty t => exact begins_ty hc hparts
      | path p => exact begins_path (hne _ .refl) hparts
      | qpath p => exact begins_qpath hparts
      | segment s =>
          obtain ⟨n,as⟩ := s
          exact (Begins.ident (Script.complete_append_iff.mp hc).1).append _
      | args as => cases hw
      | arg a => exact begins_arg hc hparts
      | bound b => exact begins_bound hc hparts
      | expr e =>
          apply Begins.scope
          have hm : e.isMissing = false := (Bool.not_eq_true' _).mp hw
          exact begins_expr ((Script.complete_scope_iff _).mp hc) hm hparts

end Node

end Turbofish
