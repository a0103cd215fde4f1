import Turbofish.Proofs.Parts
import Turbofish.Proofs.Script.Failure
import Turbofish.Proofs.Tracing.Transparent

/-!
# Which trees cannot be printed

Printing fails exactly on the trees that hold something malformed where it is printed. A
moved argument of an argument list is passed over and does no harm, an unspecified
lifetime does none as the lifetime of a borrow, and a missing expression does none as
the length of an array.
-/
namespace Turbofish

/-! ## Malformed nodes -/

def Ty.isMalformed : Ty → Bool
  | .moved _ | .invalid _ => true
  | _ => false

def Bound.isMalformed : Bound → Bool
  | .moved | .empty => true
  | _ => false

def Args.isMalformed : Args → Bool
  | .moved => true
  | _ => false

def Arg.isMalformed : Arg → Bool
  | .moved => true
  | .lifetime _ | .ty _ => false
  | .value e => e.isMissing
  | .binding n _ | .constraint n _ => n.isEmpty

/-- The operands, statements and arguments of an expression are there, and so is the text of
its operator. -/
def Expr.isMalformed : Expr → Bool
  | .missing | .int _ _ _ | .bool _ _ | .str _ _ | .name _ _ => false
  | .block _ _ _ es => es.any Expr.isMissing
  | .call _ _ es => es.any Expr.isMissing
  | .binary _ op l r => 17 < op.number || l.isMissing || r.isMissing
  | .unary _ _ e => e.isMissing

/-- A node that cannot be printed whatever its parts are. -/
def Node.isMalformed : Node → Bool
  | lifetime l => !l.isSpecified
  | ty t => t.isMalformed
  | path _ | qpath _ => false
  | segment s => s.name.isEmpty
  | args as => as.isMalformed
  | arg a => a.isMalformed
  | bound b => b.isMalformed
  | expr e => e.isMalformed

open Script (Complete)

/-! ## Words and lifetimes -/

theorem Lifetime.complete_iff (l : Lifetime) : l.script.Complete ↔ l.isSpecified = true := by
  unfold Lifetime.script
  split <;> simp_all

theorem Lifetime.complete_binders_iff (ls : List Lifetime) :
    (bindersScript ls).Complete ↔ ∀ l ∈ ls, l.script.Complete := by
  unfold bindersScript
  cases ls <;> simp

@[simp] theorem CoreType.complete_script (c : CoreType) : c.script.Complete := by
  cases c <;> rfl

@[simp] theorem BlockKind.complete_script (k : BlockKind) : k.script.Complete := by
  cases k <;> rfl

@[simp] theorem UnaryOp.complete_script (op : UnaryOp) : op.script.Complete := by
  cases op <;> rfl

/-- The operators without a text are those behind the last number. -/
theorem BinaryOp.complete_iff (op : BinaryOp) : op.script.Complete ↔ op.number ≤ 17 := by
  cases op with
  | unassigned extra =>
      refine ⟨nofun,fun h => absurd h ?_⟩
      simp only [number]
      omega
  | _ => exact ⟨fun _ => by decide,fun _ => rfl⟩

/-! ## Parts that are printed in lists -/

theorem Expr.complete_argScripts_iff (span : Span) (es : List Expr) :
    (∀ s ∈ argScripts span es, s.Complete) ↔
      ∀ e ∈ es, e.isMissing = false ∧ e.script.Complete := by
  rw [argScripts_eq_map_ite,List.forall_mem_map]
  refine forall₂_congr fun e _ => ?_
  cases e.isMissing <;> simp

theorem Expr.complete_statementScripts_iff (span : Span) (es : List Expr) :
    (∀ s ∈ statementScripts span es, s.Complete) ↔
      ∀ e ∈ es, e.isMissing = false ∧ e.script.Complete := by
  rw [statementScripts_eq_map_ite,List.forall_mem_map]
  refine forall₂_congr fun e _ => ?_
  cases e.isMissing <;> simp

/-- An argument is in one of the groups unless it was moved. -/
theorem Arg.complete_scripts_iff (as : List Arg) :
    ((∀ s ∈ Arg.scripts .lifetimes as, s.Complete) ∧ (∀ s ∈ Arg.scripts .values as, s.Complete) ∧
      ∀ s ∈ Arg.scripts .associated as, s.Complete) ↔
        ∀ a ∈ as, a.group? ≠ none → a.script.Complete := by
  simp only [Arg.scripts_eq_map,List.forall_mem_map,List.mem_filter,decide_eq_true_eq]
  constructor
  · rintro ⟨hl,hv,ha⟩ a h hg
    obtain ⟨g,hg⟩ := Option.ne_none_iff_exists'.mp hg
    cases g with
    | lifetimes => exact hl a ⟨h,hg⟩
    | values => exact hv a ⟨h,hg⟩
    | associated => exact ha a ⟨h,hg⟩
  · intro h
    refine ⟨?_,?_,?_⟩ <;> exact fun a ha => h a ha.1 (by rw [ha.2]; nofun)

/-! ## One node -/

namespace Node

/-- Nothing is wrong with a node itself nor with what is printed of its parts. -/
def PrintsParts (n : Node) : Prop :=
  n.isMalformed = false ∧ ∀ m ∈ n.printedParts, m.script.Complete

theorem complete_ty_iff (t : Ty) : t.script.Complete ↔ (ty t).PrintsParts := by
  change _ ↔ t.isMalformed = false ∧ ∀ m ∈ t.parts, m.script.Complete
  cases t with
  | borrow s l m t =>
      have hl : l.isSpecified = true → l.script.Complete := l.complete_iff.mpr
      simpa [Ty.script,Ty.isMalformed,Ty.parts] using fun _ => hl
  | array s t n =>
      have hn : n.isMissing = true → n.script.Complete := by
        cases n <;> simp [Expr.isMissing,Expr.script]
      cases hm : n.isMissing <;> simp [Ty.script,Ty.isMalformed,Ty.parts,Expr.tracedScript,hm,hn]
  | _ => simp [Ty.script,Ty.isMalformed,Ty.parts,Ty.scripts_eq_map,Bound.scripts_eq_map]

theorem complete_bound_iff (b : Bound) : b.script.Complete ↔ (bound b).PrintsParts := by
  change _ ↔ b.isMalformed = false ∧ ∀ m ∈ b.parts, m.script.Complete
  cases b with
  | trait ls p =>
      simp [Bound.script,Bound.isMalformed,Bound.parts,Lifetime.complete_binders_iff,or_imp,
        forall_and]
  | _ => simp [Bound.script,Bound.isMalformed,Bound.parts]

theorem complete_path_iff (p : Path) : p.script.Complete ↔ (path p).PrintsParts := by
  change _ ↔ false = false ∧ ∀ m ∈ p.parts, m.script.Complete
  obtain ⟨r,ss⟩ := p
  simp [Path.script,Path.parts,Segment.scripts_eq_map]

theorem complete_segment_iff (s : Segment) : s.script.Complete ↔ (segment s).PrintsParts := by
  change _ ↔ s.name.isEmpty = false ∧ ∀ m ∈ s.parts, m.script.Complete
  obtain ⟨n,as⟩ := s
  simp [Segment.script,Segment.name,Segment.parts]

theorem complete_args_iff (as : Args) : as.script.Complete ↔ (args as).PrintsParts := by
  cases as with
  | angle r as =>
      have h := Arg.complete_scripts_iff as
      simp only [← and_assoc] at h
      rw [PrintsParts,printedParts,List.forall_mem_map]
      simp [Args.script,isMalformed,Args.isMalformed,h]
  | parenthesized ts o =>
      change _ ↔ false = false ∧ ∀ m ∈ (Args.parenthesized ts o).parts, m.script.Complete
      have ho : (Ty.outputScript o).Complete ↔ ∀ t ∈ o, t.script.Complete := by
        cases o <;> simp [Ty.outputScript]
      simp [Args.script,Args.parts,Ty.scripts_eq_map,ho,or_imp,forall_and]
  | moved =>
      change _ ↔ true = false ∧ _
      simp [Args.script]
  | none =>
      change _ ↔ false = false ∧ ∀ m ∈ Args.none.parts, m.script.Complete
      simp [Args.script,Args.parts]

theorem complete_arg_iff (a : Arg) : a.script.Complete ↔ (arg a).PrintsParts := by
  change _ ↔ a.isMalformed = false ∧ ∀ m ∈ a.parts, m.script.Complete
  cases a with
  | value e =>
      cases hm : e.isMissing with
      | true => simp [Arg.script_missing hm,Arg.isMalformed,hm]
      | false =>
          rw [Arg.script_value hm]
          split <;> simp [Arg.isMalformed,Arg.parts,Expr.tracedScript,hm]
  | _ => simp [Arg.script,Arg.isMalformed,Arg.parts,Bound.scripts_eq_map]

theorem complete_qpath_iff (p : QPath) : p.script.Complete ↔ (qpath p).PrintsParts := by
  change _ ↔ false = false ∧ ∀ m ∈ p.parts, m.script.Complete
  cases p with
  | plain p => simp [QPath.script,QPath.parts]
  | qualified t n p =>
      obtain ⟨r,ss⟩ := p
      simp [QPath.script,QPath.parts,Segment.scripts_eq_map]

theorem complete_expr_iff (e : Expr) : e.tracedScript.Complete ↔ (expr e).PrintsParts := by
  change _ ↔ e.isMalformed = false ∧ ∀ m ∈ e.parts, m.script.Complete
  cases e with
  | block s k y es =>
      simp [Expr.script,Expr.tracedScript,Expr.isMalformed,Expr.parts,
        Expr.complete_statementScripts_iff,forall_and]
  | call s p es =>
      simp [Expr.script,Expr.tracedScript,Expr.isMalformed,Expr.parts,
        Expr.complete_argScripts_iff,forall_and,and_left_comm]
  | binary s op l r =>
      rw [Expr.tracedScript,Script.complete_scope_iff,Expr.script]
      cases hl : l.isMissing <;> cases hr : r.isMissing <;>
        simp [Expr.isMalformed,Expr.parts,Expr.tracedScript,BinaryOp.complete_iff,hl,hr,and_assoc,
          and_left_comm]
  | unary s op e =>
      rw [Expr.tracedScript,Script.complete_scope_iff,Expr.script]
      cases he : e.isMissing <;> simp [Expr.isMalformed,Expr.parts,Expr.tracedScript,he]
  | _ => simp [Expr.script,Expr.tracedScript,Expr.isMalformed,Expr.parts,CoreType.literalScript]

/-- A node is printed to the end exactly when nothing is wrong with it and those of its
parts that are printed are printed to the end. -/
theorem complete_iff : ∀ n : Node, n.script.Complete ↔ n.PrintsParts
  | lifetime l => by
      simp [PrintsParts,isMalformed,printedParts,parts,l.complete_iff]
  | ty t => complete_ty_iff t
  | path p => complete_path_iff p
  | qpath p => complete_qpath_iff p
  | segment s => complete_segment_iff s
  | args as => complete_args_iff as
  | arg a => complete_arg_iff a
  | bound b => complete_bound_iff b
  | expr e => complete_expr_iff e

/-! ## Whole trees -/

/-- A tree is printed to the end exactly when nothing malformed is met in it. -/
theorem complete_iff_forall (n : Node) :
    n.script.Complete ↔ ∀ m, n.Prints m → m.isMalformed = false :=
  holds_iff_of_step (fun _ _ => mem_parts_of_printed) complete_iff n

/-- Printing that comes to no fault writes the output of the script. -/
theorem print_output_of_complete {n : Node} {s : Trace.State}
    (h : (n.print s).output.fault = none) : (n.print s).output = n.script.output := by
  unfold Node.print at h ⊢
  split at h
  · rename_i hp
    rw [if_pos hp]
    rw [Script.print_output] at h ⊢
    exact Script.run_output_of_complete h
  · rename_i hp
    rw [if_neg hp]
    exact Script.run_output_of_complete h

/-- Tracing or not, a run comes to a fault exactly where its script has one. -/
theorem print_complete_iff (n : Node) (s : Trace.State) :
    (n.print s).output.fault = none ↔ n.script.Complete := by
  have hrun (s : Trace.State) : (n.script.run s).output.fault = none ↔ n.script.Complete := by
    constructor
    · intro h
      rw [Script.run_output_of_complete h] at h
      exact h
    · exact fun h => Script.run_complete n.script_regular h s
  unfold Node.print
  split
  · rw [Script.print_output]; exact hrun _
  · exact hrun s

/-- In any state of tracing, printing a node fails exactly when something malformed is met
in it. -/
theorem print_fails_iff (n : Node) (s : Trace.State) :
    (∃ f, (n.print s).output.fault = some f) ↔ ∃ m, n.Prints m ∧ m.isMalformed = true := by
  rw [← Option.ne_none_iff_exists',ne_eq,print_complete_iff,complete_iff_forall]
  simp only [Classical.not_forall,exists_prop,Bool.not_eq_false]

end Node

end Turbofish
