import Turbofish.Proofs.Reading.Words
import Turbofish.Proofs.Script.Additive
import Turbofish.Proofs.Induction

/-!
# Conforming trees are printed to the end

Every fault of a script comes from something that a conforming tree does not hold.
-/
namespace Turbofish

namespace Script

/-- A script that comes to no fault. -/
def Complete (s : Script) : Prop := s.output.fault = none

theorem Complete.additive : Additive Complete where
  done := rfl
  append {r s} hr hs := by
    unfold Complete
    rw [output_append]
    exact (Output.append_complete_iff _ _).mpr ⟨hr,hs⟩

theorem Complete.scope (site : Site) {b : Script} (hb : b.Complete) :
    (scope site b done).Complete :=
  (Output.append_complete_iff _ _).mpr ⟨hb,rfl⟩

theorem Complete.parenthesizedIf {c : Bool} {s : Script} (hs : s.Complete) :
    (parenthesizedIf c s).Complete := by
  cases c with
  | false => exact hs
  | true => exact additive.append (additive.append rfl hs) rfl

end Script

open Script (Complete)
open Script.Complete

theorem Text.IsName.ident_complete {n : Text} (h : n.IsName) : (Script.ident n).Complete := by
  rw [Script.ident,h.ident_eq]
  rfl

theorem Lifetime.Conforming.complete {l : Lifetime} (h : l.Conforming) : l.script.Complete := by
  rw [h.script_eq]
  rfl

theorem Lifetime.binders_complete {ls : List Lifetime} (h : ∀ l ∈ ls, l.Conforming) :
    (bindersScript ls).Complete := by
  refine additive.onlyIf fun _ => additive.append (additive.append rfl ?_) rfl
  exact additive.separated rfl (List.forall_mem_map.mpr fun l hl => (h l hl).complete)

def Family.complete : Family where
  ty t := t.Conforming → t.script.Complete
  bound b := b.Conforming → b.script.Complete
  path p := p.Conforming → p.script.Complete
  segment s := s.Conforming → s.script.Complete
  args as := as.Conforming → as.script.Complete
  arg a := a.Conforming → a.script.Complete
  qpath p := p.Conforming → p.script.Complete
  expr e := e.Conforming → e.script.Complete

/-! ## Lists of parts -/

theorem Ty.scripts_complete {ts : List Ty} (h : ∀ t ∈ ts, t.Conforming → t.script.Complete)
    (hv : AllConforming ts) : ∀ s ∈ scripts ts, s.Complete := by
  rw [scripts_eq_map]
  exact List.forall_mem_map.mpr fun t ht => h t ht ((allConforming_iff ts).mp hv t ht)

theorem Bound.separated_complete {bs : List Bound}
    (h : ∀ b ∈ bs, b.Conforming → b.script.Complete) (hv : AllConforming bs) :
    (Script.separated "+" (scripts bs)).Complete := by
  rw [scripts_eq_map]
  exact additive.separated rfl
    (List.forall_mem_map.mpr fun b hb => h b hb ((allConforming_iff bs).mp hv b hb))

theorem Segment.scripts_complete {ss : List Segment}
    (h : ∀ s ∈ ss, s.Conforming → s.script.Complete) (hv : AllConforming ss) :
    ∀ s ∈ scripts ss, s.Complete := by
  rw [scripts_eq_map]
  exact List.forall_mem_map.mpr fun s hs => h s hs ((allConforming_iff ss).mp hv s hs)

theorem Arg.separated_complete {as : List Arg} (h : ∀ a ∈ as, a.Conforming → a.script.Complete)
    (hv : AllConforming as) (group : ArgGroup) :
    (Script.separated "," (scripts group as)).Complete := by
  rw [scripts_eq_map]
  refine additive.separated rfl (List.forall_mem_map.mpr fun a ha => ?_)
  have ha := (List.mem_filter.mp ha).1
  exact h a ha ((allConforming_iff as).mp hv a ha)

theorem Expr.statements_complete (span : Span) (yields : Bool) {es : List Expr}
    (h : ∀ e ∈ es, e.Conforming → e.script.Complete) (hv : AllConforming es) :
    (Script.statements yields (statementScripts span es)).Complete := by
  refine additive.statements rfl ?_
  induction es with
  | nil => exact List.forall_mem_nil _
  | cons e es ih =>
      obtain ⟨he,hes⟩ := List.forall_mem_cons.mp h
      rw [statementScripts,hv.1.isMissing]
      exact List.forall_mem_cons.mpr ⟨scope _ (he hv.1),ih hes hv.2⟩

theorem Expr.args_complete (span : Span) {es : List Expr}
    (h : ∀ e ∈ es, e.Conforming → e.script.Complete) (hv : AllConforming es) :
    (Script.separated "," (argScripts span es)).Complete := by
  refine additive.separated rfl ?_
  induction es with
  | nil => exact List.forall_mem_nil _
  | cons e es ih =>
      obtain ⟨he,hes⟩ := List.forall_mem_cons.mp h
      rw [argScripts,hv.1.isMissing]
      exact List.forall_mem_cons.mpr ⟨he hv.1,ih hes hv.2⟩

namespace Family

theorem complete_inductive : complete.Inductive where
  movedTy _ h := h.elim
  invalid _ h := h.elim
  infer _ _ := rfl
  never _ _ := rfl
  unit _ _ := rfl
  tuple _ _ hts h := additive.append
    (additive.append rfl (additive.items rfl rfl (Ty.scripts_complete hts h.2))) rfl
  borrow _ l m _ ht h := by
    have hl : (Script.onlyIf l.isSpecified l.script).Complete :=
      additive.onlyIf fun hs => h.1.elim (fun hu => by rw [hu] at hs; cases hs) (·.complete)
    have hm : (Script.onlyIf m (Script.keyword "mut")).Complete := additive.onlyIf fun _ => rfl
    exact additive.append (additive.append (additive.append rfl hl) hm) (parenthesizedIf (ht h.2))
  pointer _ _ _ ht h := additive.append (additive.append rfl rfl) (parenthesizedIf (ht h))
  array _ t n ht hn h := by
    have hlength : (Script.onlyIf (!n.isMissing)
        (Script.sym ";" ++ .scope (.expr n.className) n.script .done)).Complete :=
      additive.onlyIf fun hm => additive.append rfl
        (scope _ (hn (h.2.resolve_left (Bool.eq_false_iff.mp (Bool.not_eq_true' _ ▸ hm)))))
    exact additive.append (additive.append (additive.append rfl (ht h.1)) hlength) rfl
  pathTy _ _ hp h := hp h
  traitObject _ _ hbs h := additive.append rfl (Bound.separated_complete hbs h)
  erased _ _ hbs h := additive.append rfl (Bound.separated_complete hbs h)
  movedBound h := h.elim
  emptyBound h := h.elim
  lifetimeBound _ h := h.complete
  trait _ _ hp h := additive.append (Lifetime.binders_complete h.1) (hp h.2)
  maybe _ hp h := additive.append rfl (hp h)
  path _ _ hss h := scope _ (additive.segments rfl (Segment.scripts_complete hss h.2.2))
  segment _ _ has h := additive.append h.1.ident_complete (has h.2)
  movedArgs h := h.elim
  noArgs _ := rfl
  angle r as has h := by
    have hgroup := Arg.separated_complete has h.2
    have hroot : (Script.onlyIf r (Script.sym "::")).Complete := additive.onlyIf fun _ => rfl
    exact scope _ (additive.append (additive.append (additive.append (additive.append
      (additive.append hroot rfl) (hgroup .lifetimes)) (hgroup .values)) (hgroup .associated)) rfl)
  parenthesized ts o hts ho h := by
    have hinputs : (Script.separated "," (Ty.scripts ts)).Complete :=
      additive.separated rfl (Ty.scripts_complete hts h.1)
    refine additive.append (additive.append (additive.append rfl hinputs) rfl) ?_
    match o with
    | none => exact rfl
    | some t => exact additive.append rfl (parenthesizedIf (ho t rfl h.2))
  movedArg h := h.elim
  lifetimeArg _ h := h.complete
  tyArg _ ht h := ht h
  valueArg e he h := by
    have he := he h.1
    change (Arg.value e).script.Complete
    rw [Arg.script_value h.1.isMissing]
    split
    · exact he
    · exact additive.append (additive.append rfl (scope _ he)) rfl
  binding _ _ ht h := additive.append (additive.append h.1.ident_complete rfl) (ht h.2)
  constraint _ _ hbs h := scope _ (additive.append
    (additive.append h.1.ident_complete rfl) (Bound.separated_complete hbs h.2))
  plain _ hp h := hp h
  qualified t n r ss ht hss _ h := by
    obtain ⟨hvt,_,_,_,_,hall⟩ := h
    have hscripts := Segment.scripts_complete hss hall
    have hbetween {s : Script} (hs : s.Complete) :
        (Script.sym "<" ++ s ++ Script.sym ">").Complete :=
      additive.append (additive.append rfl hs) rfl
    exact scope _ (additive.qualified additive id hbetween (fun _ => rfl) rfl rfl (ht hvt) n r
      hscripts)
  missing h := h.elim
  block s k y es hes h := by
    have hkind : k.script.Complete := by cases k <;> rfl
    exact additive.append (additive.append (additive.append hkind rfl)
      (Expr.statements_complete s y hes h.2.2)) rfl
  call s _ _ hp hes h := additive.append (additive.append
    (additive.append (hp h.1) rfl) (Expr.args_complete s hes h.2.2)) rfl
  int _ _ c _ := by
    have hname : c.script.Complete := by cases c <;> rfl
    exact additive.append hname rfl
  bool _ _ _ := rfl
  str _ _ _ := rfl
  name _ _ hp h := hp h.1
  binary s op l r hl hr h := by
    obtain ⟨t,_,hop⟩ := BinaryOp.script_eq h.1
    rw [Expr.script,h.2.1.isMissing,h.2.2.isMissing,hop]
    exact additive.append (additive.append (parenthesizedIf (hl h.2.1)) rfl)
      (parenthesizedIf (hr h.2.2))
  unary s op e he h := by
    have hv : e.Conforming := h
    have hop : op.script.Complete := by cases op <;> rfl
    rw [Expr.script,hv.isMissing]
    exact additive.append hop (parenthesizedIf (he hv))

end Family

/-- Printing a conforming tree comes to no fault. -/
theorem Node.script_complete : ∀ {n : Node}, n.Conforming → n.script.output.fault = none
  | .lifetime _, h => Lifetime.Conforming.complete h
  | .ty t, h => Family.complete_inductive.all_ty t h
  | .path p, h => Family.complete_inductive.all_path p h
  | .qpath p, h => Family.complete_inductive.all_qpath p h
  | .segment s, h => Family.complete_inductive.all_segment s h
  | .args as, h => Family.complete_inductive.all_args as h
  | .arg a, h => Family.complete_inductive.all_arg a h
  | .bound b, h => Family.complete_inductive.all_bound b h
  | .expr e, h => Script.Complete.scope _ (Family.complete_inductive.all_expr e h)

end Turbofish
