import Turbofish.Proofs.Script.Regular
import Turbofish.Node

/-!
# The shape of the scripts of trees

By induction over trees of every kind: whatever a node writes besides its parts is
a token that is no bracket, or a pair of brackets around some of the parts. Commas are
written between brackets alone, and so is every operator that is not the one of the
expression itself, since an operation in an operand stands in parentheses. Moved and
invalid nodes and missing expressions are included; their scripts fail.
-/
namespace Turbofish

theorem Expr.isBinary_of_isSelfDelimiting {e : Expr} (h : e.isSelfDelimiting = true) :
    e.isBinary = false := by
  cases e with
  | binary _ _ _ _ => cases h
  | _ => rfl

/-- An operation writes its operator outside of brackets, and any other node is plain. -/
def Family.plain : Family where
  ty t := t.script.Plain
  bound b := b.script.Plain
  path p := p.script.Plain
  segment s := s.script.Plain
  args as := as.script.Plain
  arg a := a.script.Plain
  qpath p := p.script.Plain
  expr e := e.script.Regular ∧ (e.isBinary = false → e.script.Plain)

namespace Script

/-! ## Lists of parts -/

section

variable {Q : Script → Prop}

theorem scripts_ty {ts : List Ty} (h : ∀ t ∈ ts, Q t.script) : ∀ s ∈ Ty.scripts ts, Q s := by
  rw [Ty.scripts_eq_map]
  exact List.forall_mem_map.mpr h

theorem scripts_bound {bs : List Bound} (h : ∀ b ∈ bs, Q b.script) :
    ∀ s ∈ Bound.scripts bs, Q s := by
  rw [Bound.scripts_eq_map]
  exact List.forall_mem_map.mpr h

theorem scripts_segment {ss : List Segment} (h : ∀ s ∈ ss, Q s.script) :
    ∀ s ∈ Segment.scripts ss, Q s := by
  rw [Segment.scripts_eq_map]
  exact List.forall_mem_map.mpr h

theorem scripts_arg {as : List Arg} (h : ∀ a ∈ as, Q a.script) (group : ArgGroup) :
    ∀ s ∈ Arg.scripts group as, Q s := by
  rw [Arg.scripts_eq_map]
  exact List.forall_mem_map.mpr fun a ha => h a (List.mem_filter.mp ha).1

end

namespace Regular

/-- An expression inside the scope of its class, whose description is a fixed text. -/
theorem expr_scope {e : Expr} (h : e.script.Regular) :
    (Script.scope (.expr e.className) e.script .done).Regular :=
  .scope _ (fun _ => rfl) h .done

theorem statementScripts (span : Span) {es : List Expr} (h : ∀ e ∈ es, e.script.Regular) :
    ∀ s ∈ Expr.statementScripts span es, s.Regular := by
  induction es with
  | nil => exact List.forall_mem_nil _
  | cons e es ih =>
      obtain ⟨he,hes⟩ := List.forall_mem_cons.mp h
      refine List.forall_mem_cons.mpr ⟨?_,ih hes⟩
      split
      · exact .fail _
      · exact expr_scope he

theorem argScripts (span : Span) {es : List Expr} (h : ∀ e ∈ es, e.script.Regular) :
    ∀ s ∈ Expr.argScripts span es, s.Regular := by
  induction es with
  | nil => exact List.forall_mem_nil _
  | cons e es ih =>
      obtain ⟨he,hes⟩ := List.forall_mem_cons.mp h
      refine List.forall_mem_cons.mpr ⟨?_,ih hes⟩
      split
      · exact .fail _
      · exact he

end Regular

namespace Plain

theorem bounds {bs : List Bound} (h : ∀ b ∈ bs, b.script.Plain) :
    (separated "+" (Bound.scripts bs)).Plain :=
  Outside.additive.separated (separator (by decide) (by decide)) (scripts_bound h)

/-- `<T as a::Tr>::x`: the brackets stand around the type and the interface. -/
theorem qualified {t : Script} (n : UInt64) (r : Bool) {ss : List Script} (ht : t.Regular)
    (hss : ∀ s ∈ ss, s.Plain) : (Script.qualified t n r ss).Plain :=
  Outside.additive.qualified Regular.additive Outside.regular (between .angle)
    (fun _ => .remark _ .done) (keyword "as").regular (sym (by decide) (by decide)) ht n r hss

end Plain

end Script

/-- Describing a qualified path fails where its self type does. -/
theorem Site.qualifiedPath_fault (self : Ty) (position : UInt64) (size : Nat) :
    (qualifiedPath self position size).description.fault = self.script.output.fault := by
  rw [description,describe,Output.append_fault,Output.append_fault,Script.shown_fault]
  exact Option.or_none

/-- Describing a constraint fails where the first of its bounds does that cannot be printed. -/
theorem Site.constraint_fault (name : Text) (bs : List Bound) :
    (constraint name bs).description.fault = bs.findSome? (·.script.output.fault) := by
  rw [description,describe,Output.append_fault,Output.joined_fault,List.findSome?_map]
  simp only [Function.comp_def,Script.shown_fault]
  rfl

/-- Printing fails in the self type of a qualified path where describing it fails. -/
theorem Site.qualifiedPath_complete {t : Ty} {n : UInt64} {r : Bool} {ss : List Segment}
    (h : (Script.qualified t.script n r (Segment.scripts ss)).output.fault = none) (size : Nat) :
    (Site.qualifiedPath t n size).description.fault = none := by
  unfold Script.qualified at h
  simp only [Script.output_append,Output.append_complete_iff] at h
  rw [qualifiedPath_fault]
  exact h.1.1.1.1.2

/-- Printing fails in the bounds of a constraint where describing them fails. -/
theorem Site.constraint_complete {name : Text} {bs : List Bound}
    (h : (Script.ident name ++ Script.sym ":" ++ Script.separated "+" (Bound.scripts bs)).output.fault
      = none) :
    (Site.constraint name bs).description.fault = none := by
  rw [Script.output_append,Output.append_complete_iff,Script.separated_complete_iff,
    Bound.scripts_eq_map] at h
  rw [constraint_fault,List.findSome?_eq_none_iff]
  exact List.forall_mem_map.mp h.2

namespace Family

open Script (Regular Plain scripts_ty scripts_segment scripts_arg)
open Script.Outside (additive)
open Script.Plain

theorem plain_inductive : plain.Inductive where
  movedTy _ := .fail _
  invalid _ := .fail _
  infer _ := keyword _
  never _ := sym (by decide) (by decide)
  unit _ := between .round .done
  tuple _ ts hts := between .round (Regular.additive.items (.sym (by decide))
    (.separator (by decide)) (scripts_ty fun t ht => (hts t ht).regular))
  borrow _ l m t ht := by
    have hl : (Script.onlyIf l.isSpecified l.script).Plain :=
      additive.onlyIf fun _ => lifetimeScript l
    have hm : (Script.onlyIf m (Script.keyword "mut")).Plain :=
      additive.onlyIf fun _ => keyword _
    have ht : t.script.Plain := ht
    exact (((sym (by decide) (by decide)).append hl).append hm).append
      (parenthesizedIf ht.regular fun _ => ht)
  pointer _ m t ht := by
    have ht : t.script.Plain := ht
    exact ((sym (by decide) (by decide)).append (keyword _)).append
      (parenthesizedIf ht.regular fun _ => ht)
  array _ t n ht hn := by
    have hlength : (Script.onlyIf (!n.isMissing)
        (Script.sym ";" ++ Script.scope (.expr n.className) n.script .done)).Regular :=
      Regular.additive.onlyIf fun _ => (Regular.sym (by decide)).append (.expr_scope hn.1)
    have ht : t.script.Plain := ht
    change (Script.sym "[" ++ t.script ++ _ ++ Script.sym "]").Plain
    rw [Script.append_assoc (Script.sym "[")]
    exact between .square (Regular.append ht.regular hlength)
  pathTy _ _ hp := hp
  traitObject _ _ hbs := (keyword _).append (bounds hbs)
  erased _ _ hbs := (keyword _).append (bounds hbs)
  movedBound := .fail _
  emptyBound := .fail _
  lifetimeBound l := lifetimeScript l
  trait ls _ hp := (bindersScript ls).append hp
  maybe _ hp := (sym (by decide) (by decide)).append hp
  path r ss hss := .scope _ (fun _ => rfl)
    (additive.segments (sym (by decide) (by decide)) (scripts_segment hss)) .done
  segment n _ has := (ident n).append has
  movedArgs := .fail _
  noArgs := .done
  angle r as has := by
    have hgroup (group : ArgGroup) : (Script.separated "," (Arg.scripts group as)).Regular :=
      Regular.additive.separated (.separator (by decide))
        (scripts_arg (fun a ha => (has a ha).regular) group)
    have hinside := between .angle
      (((hgroup .lifetimes).append (hgroup .values)).append (hgroup .associated))
    refine Script.Outside.scope _ (fun _ => rfl) ?_ .done
    have hroot : (Script.onlyIf r (Script.sym "::")).Plain :=
      additive.onlyIf fun _ => sym (by decide) (by decide)
    have h := hroot.append hinside
    simp only [Script.append_assoc] at h ⊢
    exact h
  parenthesized ts o hts ho := by
    have hinputs : (Script.separated "," (Ty.scripts ts)).Regular :=
      Regular.additive.separated (.separator (by decide))
        (scripts_ty fun t ht => (hts t ht).regular)
    refine (between .round hinputs).append ?_
    match o with
    | none => exact .done
    | some t =>
        have ht : t.script.Plain := ho t rfl
        exact (sym (by decide) (by decide)).append (parenthesizedIf ht.regular fun _ => ht)
  movedArg := .fail _
  lifetimeArg l := lifetimeScript l
  tyArg _ ht := ht
  valueArg e he := by
    change (Arg.value e).script.Plain
    cases hm : e.isMissing with
    | true =>
        rw [Arg.script_missing hm]
        exact .fail _
    | false =>
        rw [Arg.script_value hm]
        split
        · rename_i hd
          exact he.2 (Expr.isBinary_of_isSelfDelimiting hd)
        · exact between .curly (Regular.expr_scope he.1)
  binding n _ ht := ((ident n).append (sym (by decide) (by decide))).append ht
  constraint n bs hbs := .scope _ Site.constraint_complete
    (((ident n).append (sym (by decide) (by decide))).append (bounds hbs)) .done
  plain _ hp := hp
  qualified t n r ss ht hss _ := by
    have ht : t.script.Plain := ht
    exact .scope _ (fun h => Site.qualifiedPath_complete h _)
      (qualified n r ht.regular (scripts_segment hss)) .done
  missing := ⟨.done,fun _ => .done⟩
  block s k y es hes := by
    have hkind : k.script.Plain := by
      cases k with
      | unsafeBlock | constBlock => exact keyword _
      | bare | unassigned _ _ => exact .done
    have hstatements : (Script.statements y (Expr.statementScripts s es)).Regular :=
      Regular.additive.statements (.sym (by decide))
        (Regular.statementScripts s fun e he => (hes e he).1)
    have h : (Expr.block s k y es).script.Plain := by
      have h := hkind.append (between .curly hstatements)
      simp only [Script.append_assoc] at h
      change (_ ++ _ ++ _ ++ _ : Script).Plain
      simp only [Script.append_assoc]
      exact h
    exact ⟨h.regular,fun _ => h⟩
  call s p es hp hes := by
    have hargs : (Script.separated "," (Expr.argScripts s es)).Regular :=
      Regular.additive.separated (.separator (by decide))
        (Regular.argScripts s fun e he => (hes e he).1)
    have h : (Expr.call s p es).script.Plain := by
      have h := Script.Outside.append hp (between .round hargs)
      simp only [Script.append_assoc] at h
      change (_ ++ _ ++ _ ++ _ : Script).Plain
      simp only [Script.append_assoc]
      exact h
    exact ⟨h.regular,fun _ => h⟩
  int s n c := by
    have hname : c.script.Plain := by
      cases c with
      | unassigned _ => exact .remark _ .done
      | _ => exact .done
    have h : (Expr.int s n c).script.Plain := hname.append (literal _)
    exact ⟨h.regular,fun _ => h⟩
  bool _ _ := ⟨(keyword _).regular,fun _ => keyword _⟩
  str _ _ := ⟨(literal _).regular,fun _ => literal _⟩
  name s p hp := by
    have h : (Expr.name s p).script.Plain := hp
    exact ⟨h.regular,fun _ => h⟩
  binary s op l r hl hr := by
    have hop : op.script.Regular := by
      unfold BinaryOp.script
      cases op.text with
      | ok t => exact .token (Token.mark?_of_cls nofun) .done
      | error f => exact .fail f
    have hl := (parenthesizedIf hl.1 hl.2).regular
    have hr := (parenthesizedIf hr.1 hr.2).regular
    refine ⟨?_,nofun⟩
    rw [Expr.script]
    split
    · exact .fail _
    · exact (hl.append hop).append hr
  unary s op e he := by
    have hop : op.script.Plain := by cases op <;> exact sym (by decide) (by decide)
    have h : (Expr.unary s op e).script.Plain := by
      rw [Expr.script]
      split
      · exact .fail _
      · exact hop.append (parenthesizedIf he.1 he.2)
    exact ⟨h.regular,fun _ => h⟩

end Family

/-- What printing any node does is regular. -/
theorem Node.script_regular : ∀ n : Node, n.script.Regular
  | .lifetime l => (Script.Plain.lifetimeScript l).regular
  | .ty t => (Family.plain_inductive.all_ty t).regular
  | .path p => (Family.plain_inductive.all_path p).regular
  | .qpath p => (Family.plain_inductive.all_qpath p).regular
  | .segment s => (Family.plain_inductive.all_segment s).regular
  | .args as => (Family.plain_inductive.all_args as).regular
  | .arg a => (Family.plain_inductive.all_arg a).regular
  | .bound b => (Family.plain_inductive.all_bound b).regular
  | .expr e => Script.Regular.expr_scope (Family.plain_inductive.all_expr e).1

/-- No node but an operation writes a comma or an operator outside of its brackets. -/
theorem Node.script_plain : ∀ n : Node, (∀ e, n = .expr e → e.isBinary = false) → n.script.Plain
  | .lifetime l, _ => Script.Plain.lifetimeScript l
  | .ty t, _ => Family.plain_inductive.all_ty t
  | .path p, _ => Family.plain_inductive.all_path p
  | .qpath p, _ => Family.plain_inductive.all_qpath p
  | .segment s, _ => Family.plain_inductive.all_segment s
  | .args as, _ => Family.plain_inductive.all_args as
  | .arg a, _ => Family.plain_inductive.all_arg a
  | .bound b, _ => Family.plain_inductive.all_bound b
  | .expr e, h =>
      .scope _ (fun _ => rfl) ((Family.plain_inductive.all_expr e).2 (h e rfl)) .done

/-- An operation writes no comma outside of its brackets either. -/
theorem Node.script_commas (n : Node) :
    n.script.Outside fun t => t.isSymbolOf [","] = false := by
  have himp {s : Script} (h : s.Plain) : s.Outside fun t => t.isSymbolOf [","] = false :=
    h.imp fun t ht => (Bool.not_eq_true' _).mp (Bool.and_eq_true_iff.mp ht).1
  have hplain := n.script_plain
  cases n with
  | expr e =>
      cases e with
      | binary s op l r =>
          have hoperand (e : Expr) := Family.plain_inductive.all_expr e
          have hop : op.script.Outside fun t => t.isSymbolOf [","] = false := by
            unfold BinaryOp.script
            cases op.text with
            | ok t => exact .token (Token.mark?_of_cls nofun) rfl .done
            | error f => exact .fail f
          have hl := himp (Script.Plain.parenthesizedIf (hoperand l).1 (hoperand l).2)
          have hr := himp (Script.Plain.parenthesizedIf (hoperand r).1 (hoperand r).2)
          refine Script.Outside.scope _ (fun _ => rfl) ?_ .done
          rw [Expr.script]
          split
          · exact .fail _
          · exact (hl.append hop).append hr
      | _ => exact himp (hplain fun _ h => by cases h; rfl)
  | _ => exact himp (hplain nofun)

end Turbofish
