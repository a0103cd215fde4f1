import Turbofish.Proofs.Induction
import Turbofish.Proofs.Unlocated

/-!
# Scripts of trees without their spans

The only use that printing makes of a span is to report a fault with it. So the script of a
tree without its spans is the script of the tree, without the spans of its faults and of the
parts that its scopes describe. That holds of every way in which scripts are put together,
and with that of every kind of node.
-/
namespace Turbofish

/-! ## Scripts without spans -/

def Fault.unlocated (f : Fault) : Fault := .nowhere f.cause

def Site.unlocated : Site → Site
  | qualifiedPath self position size => qualifiedPath self.unlocated position size
  | constraint name bounds => constraint name (Bound.unlocatedList bounds)
  | site => site

def Script.unlocated : Script → Script
  | done => done
  | token t r => token t r.unlocated
  | remark m r => remark m r.unlocated
  | fail f => fail f.unlocated
  | scope site b r => scope site.unlocated b.unlocated r.unlocated

namespace Script

@[simp] theorem unlocated_append (r s : Script) :
    (r ++ s).unlocated = r.unlocated ++ s.unlocated := by
  induction r with
  | done | fail => rfl
  | token t r ih => simp only [token_append,unlocated,ih]
  | remark m r ih => simp only [remark_append,unlocated,ih]
  | scope site b r _ ih => simp only [scope_append,unlocated,ih]

@[simp] theorem unlocated_sym (text : Text) : (sym text).unlocated = sym text := rfl

@[simp] theorem unlocated_keyword (text : Text) : (keyword text).unlocated = keyword text := rfl

@[simp] theorem unlocated_literal (text : Text) : (literal text).unlocated = literal text := rfl

@[simp] theorem unlocated_separator (text : Text) :
    (separator text).unlocated = separator text := rfl

@[simp] theorem unlocated_ident (name : Text) : (ident name).unlocated = ident name := by
  unfold ident Token.ident
  split
  · rfl
  · split <;> rfl

@[simp] theorem unlocated_onlyIf (c : Bool) (s : Script) :
    (onlyIf c s).unlocated = onlyIf c s.unlocated := by
  cases c <;> rfl

@[simp] theorem unlocated_parenthesizedIf (c : Bool) (s : Script) :
    (parenthesizedIf c s).unlocated = parenthesizedIf c s.unlocated := by
  cases c with
  | false => rfl
  | true => simp only [parenthesizedIf,if_true,unlocated_append,unlocated_sym]

/-! ## Lists -/

@[simp] theorem unlocated_separated (sep : Text) (ss : List Script) :
    (separated sep ss).unlocated = separated sep (ss.map unlocated) := by
  induction ss with
  | nil => rfl
  | cons s ss ih =>
      simp only [separated,List.map_cons,unlocated_append,unlocated_separator,ih]

@[simp] theorem unlocated_each (mark : Text) (ss : List Script) :
    (each mark ss).unlocated = each mark (ss.map unlocated) := by
  induction ss with
  | nil => rfl
  | cons s ss ih => simp only [each,List.map_cons,unlocated_append,unlocated_sym,ih]

@[simp] theorem unlocated_segments (rooted : Bool) (ss : List Script) :
    (segments rooted ss).unlocated = segments rooted (ss.map unlocated) := by
  cases ss with
  | nil => rfl
  | cons s ss =>
      simp only [segments,List.map_cons,unlocated_append,unlocated_onlyIf,unlocated_sym,
        unlocated_each]

@[simp] theorem unlocated_items (ss : List Script) :
    (items ss).unlocated = items (ss.map unlocated) := by
  match ss with
  | [] => rfl
  | [s] => exact unlocated_append s (sym ",")
  | s :: t :: ss => exact unlocated_separated "," (s :: t :: ss)

@[simp] theorem unlocated_statements (yields : Bool) (ss : List Script) :
    (statements yields ss).unlocated = statements yields (ss.map unlocated) := by
  induction ss with
  | nil => rfl
  | cons s ss ih =>
      cases ss with
      | nil =>
          simp only [statements,List.map_cons,List.map_nil,unlocated_append,unlocated_onlyIf,
            unlocated_sym]
      | cons t ss =>
          rw [List.map_cons] at ih
          simp only [statements,List.map_cons,unlocated_append,unlocated_sym,ih]

@[simp] theorem unlocated_qualified (self : Script) (position : UInt64) (rooted : Bool)
    (ss : List Script) : (qualified self position rooted ss).unlocated =
      qualified self.unlocated position rooted (ss.map unlocated) := by
  have hremark (m : Remark) : (remark m done).unlocated = remark m done := rfl
  simp only [qualified,unlocated_append,unlocated_sym,unlocated_keyword,unlocated_onlyIf,hremark,
    unlocated_segments,unlocated_each,List.length_map,← List.map_take,← List.map_drop,
    List.isEmpty_map]

end Script

/-! ## Vocabularies -/

@[simp] theorem Lifetime.script_unlocated (l : Lifetime) : l.script.unlocated = l.script := by
  unfold script
  split <;> rfl

@[simp] theorem Lifetime.bindersScript_unlocated (ls : List Lifetime) :
    (bindersScript ls).unlocated = bindersScript ls := by
  have hmap : (ls.map script).map Script.unlocated = ls.map script := by
    rw [List.map_map]
    exact List.map_congr_left fun l _ => script_unlocated l
  simp only [bindersScript,Script.unlocated_onlyIf,Script.unlocated_append,
    Script.unlocated_keyword,Script.unlocated_sym,Script.unlocated_separated,hmap]

@[simp] theorem CoreType.script_unlocated (c : CoreType) : c.script.unlocated = c.script := by
  cases c <;> rfl

@[simp] theorem BlockKind.script_unlocated (k : BlockKind) : k.script.unlocated = k.script := by
  cases k <;> rfl

@[simp] theorem UnaryOp.script_unlocated (op : UnaryOp) : op.script.unlocated = op.script := by
  cases op <;> rfl

@[simp] theorem BinaryOp.script_unlocated (op : BinaryOp) : op.script.unlocated = op.script := by
  unfold script text
  cases op.text? <;> rfl

@[simp] theorem BinaryOp.missingOperand_unlocated (op : BinaryOp) (span : Span) :
    (op.missingOperand span).unlocated = op.missingOperand none := by
  unfold missingOperand text
  cases op.text? <;> rfl

/-! ## Every kind of node -/

/-- The families of the nodes whose script keeps its form when their spans are taken away. -/
def Family.unlocated : Family where
  ty t := t.unlocated.script = t.script.unlocated
  bound b := b.unlocated.script = b.script.unlocated
  path p := p.unlocated.script = p.script.unlocated
  segment s := s.unlocated.script = s.script.unlocated
  args as := as.unlocated.script = as.script.unlocated
  arg a := a.unlocated.script = a.script.unlocated
  qpath p := p.unlocated.script = p.script.unlocated
  expr e := e.unlocated.script = e.script.unlocated

/-- Two lists of scripts that come from one list of nodes. -/
theorem Script.map_unlocated {α : Type} {f g : α → Script} {as : List α}
    (h : ∀ a ∈ as, f a = (g a).unlocated) : as.map f = (as.map g).map unlocated := by
  rw [List.map_map]
  exact List.map_congr_left h

section

variable {ts : List Ty} {bs : List Bound} {ss : List Segment} {as : List Arg} {es : List Expr}

theorem Ty.scripts_unlocated (h : ∀ t ∈ ts, t.unlocated.script = t.script.unlocated) :
    scripts (unlocatedList ts) = (scripts ts).map Script.unlocated := by
  rw [unlocatedList_eq_map,scripts_eq_map,scripts_eq_map,List.map_map]
  exact Script.map_unlocated h

theorem Bound.scripts_unlocated (h : ∀ b ∈ bs, b.unlocated.script = b.script.unlocated) :
    scripts (unlocatedList bs) = (scripts bs).map Script.unlocated := by
  rw [unlocatedList_eq_map,scripts_eq_map,scripts_eq_map,List.map_map]
  exact Script.map_unlocated h

theorem Segment.scripts_unlocated (h : ∀ s ∈ ss, s.unlocated.script = s.script.unlocated) :
    scripts (unlocatedList ss) = (scripts ss).map Script.unlocated := by
  rw [unlocatedList_eq_map,scripts_eq_map,scripts_eq_map,List.map_map]
  exact Script.map_unlocated h

theorem Arg.scripts_unlocated (group : ArgGroup)
    (h : ∀ a ∈ as, a.unlocated.script = a.script.unlocated) :
    scripts group (unlocatedList as) = (scripts group as).map Script.unlocated := by
  rw [unlocatedList_eq_map,scripts_eq_map,scripts_eq_map,filter_group_map group?_unlocated,
    List.map_map]
  exact Script.map_unlocated fun a ha => h a (List.mem_filter.mp ha).1

theorem Expr.argScripts_unlocated (span : Span)
    (h : ∀ e ∈ es, e.unlocated.script = e.script.unlocated) :
    argScripts none (unlocatedList es) = (argScripts span es).map Script.unlocated := by
  rw [unlocatedList_eq_map,argScripts_eq_map_ite,argScripts_eq_map_ite,List.map_map]
  refine Script.map_unlocated fun e he => ?_
  simp only [Function.comp_apply,isMissing_unlocated]
  split
  · rfl
  · exact h e he

theorem Expr.statementScripts_unlocated (span : Span)
    (h : ∀ e ∈ es, e.unlocated.script = e.script.unlocated) :
    statementScripts none (unlocatedList es) = (statementScripts span es).map Script.unlocated := by
  rw [unlocatedList_eq_map,statementScripts_eq_map_ite,statementScripts_eq_map_ite,List.map_map]
  refine Script.map_unlocated fun e he => ?_
  simp only [Function.comp_apply,isMissing_unlocated,className_unlocated]
  split
  · rfl
  · rw [h e he]
    rfl

end

theorem Arg.script_value_unlocated {e : Expr} (h : e.unlocated.script = e.script.unlocated) :
    (value e.unlocated).script = (value e).script.unlocated := by
  cases hm : e.isMissing with
  | true =>
      rw [script_missing hm,script_missing (by rw [Expr.isMissing_unlocated,hm])]
      rfl
  | false =>
      rw [script_value hm,script_value (by rw [Expr.isMissing_unlocated,hm]),
        Expr.isSelfDelimiting_unlocated]
      split
      · exact h
      · rw [Expr.tracedScript,Expr.className_unlocated,h]
        rfl

theorem Family.unlocated_inductive : unlocated.Inductive where
  movedTy _ := rfl
  invalid _ := rfl
  infer _ := rfl
  never _ := rfl
  unit _ := rfl
  tuple s ts hts := by
    change Ty.script (.tuple none (Ty.unlocatedList ts)) = _
    simp only [Ty.script,Ty.scripts_unlocated hts,Script.unlocated_append,Script.unlocated_sym,
      Script.unlocated_items]
  borrow s l m t ht := by
    have ht : t.unlocated.script = t.script.unlocated := ht
    change Ty.script (.borrow none l m t.unlocated) = _
    simp [Ty.script,ht]
  pointer s m t ht := by
    have ht : t.unlocated.script = t.script.unlocated := ht
    change Ty.script (.pointer none m t.unlocated) = _
    simp [Ty.script,ht]
  array s t n ht hn := by
    have ht : t.unlocated.script = t.script.unlocated := ht
    have hn : n.unlocated.script = n.script.unlocated := hn
    change Ty.script (.array none t.unlocated n.unlocated) = _
    simp [Ty.script,ht,hn,Script.unlocated,Site.unlocated]
  pathTy _ _ hp := hp
  traitObject s bs hbs := by
    change Ty.script (.traitObject none (Bound.unlocatedList bs)) = _
    simp [Ty.script,Bound.scripts_unlocated hbs]
  erased s bs hbs := by
    change Ty.script (.erased none (Bound.unlocatedList bs)) = _
    simp [Ty.script,Bound.scripts_unlocated hbs]
  movedBound := rfl
  emptyBound := rfl
  lifetimeBound l := (Lifetime.script_unlocated l).symm
  trait ls p hp := by
    have hp : p.unlocated.script = p.script.unlocated := hp
    change Bound.script (.trait ls p.unlocated) = _
    simp [Bound.script,hp]
  maybe p hp := by
    have hp : p.unlocated.script = p.script.unlocated := hp
    change Bound.script (.maybe p.unlocated) = _
    simp [Bound.script,hp]
  path r ss hss := by
    change Path.script (.mk r (Segment.unlocatedList ss)) = _
    simp only [Path.script,Segment.scripts_unlocated hss,Script.unlocated,
      Script.unlocated_segments,Site.unlocated]
    simp [Segment.unlocatedList_eq_map]
  segment n as has := by
    have has : as.unlocated.script = as.script.unlocated := has
    change Segment.script (.mk n as.unlocated) = _
    simp [Segment.script,has]
  movedArgs := rfl
  noArgs := rfl
  angle r as has := by
    change Args.script (.angle r (Arg.unlocatedList as)) = _
    simp only [Args.script,Arg.scripts_unlocated _ has,Script.unlocated]
    simp [Site.unlocated,Arg.unlocatedList_eq_map]
  parenthesized ts o hts ho := by
    have houtput : Ty.outputScript (Ty.unlocatedOption o) = (Ty.outputScript o).unlocated := by
      cases o with
      | none => rfl
      | some t =>
          have ht : t.unlocated.script = t.script.unlocated := ho t rfl
          simp [Ty.outputScript,Ty.unlocatedOption,ht]
    change Args.script (.parenthesized (Ty.unlocatedList ts) (Ty.unlocatedOption o)) = _
    simp [Args.script,Ty.scripts_unlocated hts,houtput]
  movedArg := rfl
  lifetimeArg l := (Lifetime.script_unlocated l).symm
  tyArg _ ht := ht
  valueArg _ he := Arg.script_value_unlocated he
  binding n t ht := by
    have ht : t.unlocated.script = t.script.unlocated := ht
    change Arg.script (.binding n t.unlocated) = _
    simp [Arg.script,ht]
  constraint n bs hbs := by
    change Arg.script (.constraint n (Bound.unlocatedList bs)) = _
    simp only [Arg.script,Bound.scripts_unlocated hbs,Script.unlocated]
    simp [Site.unlocated]
  plain _ hp := hp
  qualified t n r ss ht hss _ := by
    have ht : t.unlocated.script = t.script.unlocated := ht
    change QPath.script (.qualified t.unlocated n (.mk r (Segment.unlocatedList ss))) = _
    simp only [QPath.script,Segment.scripts_unlocated hss,ht,Script.unlocated,
      Script.unlocated_qualified,Site.unlocated]
    simp [Segment.unlocatedList_eq_map]
  missing := rfl
  block s k y es hes := by
    change Expr.script (.block none k y (Expr.unlocatedList es)) = _
    simp [Expr.script,Expr.statementScripts_unlocated s hes]
  call s p es hp hes := by
    have hp : p.unlocated.script = p.script.unlocated := hp
    change Expr.script (.call none p.unlocated (Expr.unlocatedList es)) = _
    simp [Expr.script,hp,Expr.argScripts_unlocated s hes]
  int s n c := by
    change Expr.script (.int none n c) = _
    simp [Expr.script,CoreType.literalScript]
  bool _ _ := rfl
  str _ _ := rfl
  name _ _ hp := hp
  binary s op l r hl hr := by
    have hl : l.unlocated.script = l.script.unlocated := hl
    have hr : r.unlocated.script = r.script.unlocated := hr
    change Expr.script (.binary none op l.unlocated r.unlocated) = _
    rw [Expr.script,Expr.script,Expr.isMissing_unlocated,Expr.isMissing_unlocated]
    split
    · rw [Script.unlocated,BinaryOp.missingOperand_unlocated]
    · simp [hl,hr]
  unary s op e he := by
    have he : e.unlocated.script = e.script.unlocated := he
    change Expr.script (.unary none op e.unlocated) = _
    rw [Expr.script,Expr.script,Expr.isMissing_unlocated]
    split
    · rfl
    · simp [he]

theorem Node.script_unlocated : ∀ n : Node, n.unlocated.script = n.script.unlocated
  | .lifetime l => (Lifetime.script_unlocated l).symm
  | .ty t => Family.unlocated_inductive.all_ty t
  | .path p => Family.unlocated_inductive.all_path p
  | .qpath p => Family.unlocated_inductive.all_qpath p
  | .segment s => Family.unlocated_inductive.all_segment s
  | .args as => Family.unlocated_inductive.all_args as
  | .arg a => Family.unlocated_inductive.all_arg a
  | .bound b => Family.unlocated_inductive.all_bound b
  | .expr e => by
      change e.unlocated.tracedScript = e.tracedScript.unlocated
      rw [Expr.tracedScript,Expr.className_unlocated,Family.unlocated_inductive.all_expr e]
      rfl

end Turbofish
