import Turbofish.Proofs.Reading.ArgLists
import Turbofish.Proofs.Reading.Complete

/-!
# Printing is unambiguous

Every conforming tree is readable, by induction over trees of every kind; with nothing
behind it, it is known from its tokens alone.
-/
namespace Turbofish

open Output

theorem Family.readable_inductive : readable.Inductive where
  movedTy _ _ h := h.elim
  invalid _ _ h := h.elim
  infer s := Ty.readable_operand nofun (Ty.readable_infer s)
  never s := Ty.readable_operand nofun (Ty.readable_never s)
  unit s := Ty.readable_unit s
  tuple s ts hts := Ty.readable_tuple s ts fun t ht => hts t ht false
  borrow s l m t ht := Ty.readable_operand nofun (Ty.readable_borrow s l m t (ht true))
  pointer s m t ht := Ty.readable_operand nofun (Ty.readable_pointer s m t (ht true))
  array s t n ht hn := Ty.readable_operand nofun (Ty.readable_array s t n (ht false) (hn false))
  pathTy s p hp := Ty.readable_operand nofun (Ty.readable_path s p (hp false))
  traitObject s bs hbs := Ty.readable_operand nofun (Ty.readable_traitObject s bs hbs)
  erased s bs hbs := Ty.readable_operand nofun (Ty.readable_erased s bs hbs)
  movedBound h := h.elim
  emptyBound h := h.elim
  lifetimeBound := Bound.readable_lifetime
  trait ls _ hp := Bound.readable_trait ls (hp false)
  maybe _ hp := Bound.readable_maybe (hp false)
  path _ _ hss inExpr := Path.readable fun s hs => hss s hs inExpr
  segment _ _ has inExpr := Segment.readable (has inExpr)
  movedArgs _ h := h.1.elim
  noArgs _ := Args.readable_none
  angle r _ has _ := Args.readable_angle r has
  parenthesized _ _ hts ho _ :=
    Args.readable_parenthesized (fun t ht => hts t ht false) fun t ht => ho t ht true
  movedArg h := h.elim
  lifetimeArg := Arg.readable_lifetime
  tyArg _ ht := Arg.readable_ty (ht false)
  valueArg _ he := Arg.readable_value he
  binding n _ ht := Arg.readable_binding n (ht false)
  constraint n _ hbs := Arg.readable_constraint n hbs
  plain _ hp inExpr := QPath.readable_plain (hp inExpr)
  qualified _ _ _ _ ht hss _ _ := QPath.readable_qualified (ht false) hss
  missing _ h := h.elim
  block s k y _ hes := Expr.readable_block s k y fun e he => hes e he false
  call s _ _ hp hes := Expr.readable_call s (hp true) fun e he => hes e he false
  int := Expr.readable_int
  bool := Expr.readable_bool
  str := Expr.readable_str
  name s _ hp := Expr.readable_name s (hp true)
  binary s op _ _ hl hr := Expr.readable_binary s op (hl true) (hr true)
  unary s op _ he := Expr.readable_unary s op (he true)

/-- With nothing behind it, a readable value is known from what is written. -/
theorem Form.Readable.content_eq {α : Type} {F : Form α} {a b : α} (h : F.Readable a)
    (ha : F.Valid a) (hb : F.Valid b) (hfa : F.Fits a nil) (hfb : F.Fits b nil)
    (he : (F.write a).output = (F.write b).output) : F.content a = F.content b :=
  (h ha b hb nil nil hfa hfb (congrArg (· ++ nil) he)).1

namespace Node

def SameKind : Node → Node → Prop
  | lifetime _, lifetime _ | ty _, ty _ | path _, path _ | qpath _, qpath _
  | segment _, segment _ | args _, args _ | arg _, arg _ | bound _, bound _
  | expr _, expr _ => True
  | _, _ => False

theorem unlocated_eq_of_output_eq {a b : Node} (ha : a.Conforming) (hb : b.Conforming)
    (hkind : a.SameKind b) (h : a.script.output = b.script.output) : a.unlocated = b.unlocated := by
  have hr := Family.readable_inductive
  have hstops : (nil : Output Token).Stops := ends_nil.stops
  have hpath : (nil : Output Token).EndsPath false := .inl hstops
  match a, b, hkind with
  | lifetime l, lifetime m, _ =>
      exact congrArg lifetime ((Lifetime.readable l).content_eq ha hb trivial trivial h)
  | ty t, ty u, _ =>
      exact congrArg ty ((hr.all_ty t false).content_eq ha hb hstops hstops h)
  | path p, path q, _ =>
      exact congrArg path
        ((hr.all_path p false).content_eq ⟨ha,nofun⟩ ⟨hb,nofun⟩ hpath hpath h)
  | qpath p, qpath q, _ =>
      exact congrArg qpath
        ((hr.all_qpath p false).content_eq ⟨ha,nofun⟩ ⟨hb,nofun⟩ hpath hpath h)
  | segment s, segment t, _ =>
      exact congrArg segment
        ((hr.all_segment s false).content_eq ⟨ha,nofun⟩ ⟨hb,nofun⟩ (.inl hpath) (.inl hpath) h)
  | args as, args bs, _ =>
      exact congrArg args
        ((hr.all_args as false).content_eq ⟨ha,nofun⟩ ⟨hb,nofun⟩ (.inl hpath) (.inl hpath) h)
  | arg c, arg d, _ =>
      exact congrArg arg ((hr.all_arg c).content_eq ha hb hstops hstops h)
  | bound c, bound d, _ =>
      exact congrArg bound ((hr.all_bound c).content_eq ha hb hstops hstops h)
  | expr e, expr f, _ =>
      have hwrite : e.script.output = f.script.output := by
        rw [← append_nil e.script.output,← append_nil f.script.output]
        exact h
      exact congrArg expr ((hr.all_expr e false).content_eq ha hb ⟨hstops,fun _ => ends_nil⟩
        ⟨hstops,fun _ => ends_nil⟩ hwrite)

/-- Conforming trees of one kind are printed to the end, and where they are printed as
the same tokens they are the same tree up to spans. -/
theorem print_unambiguous {a b : Node} (ha : a.Conforming) (hb : b.Conforming)
    (hkind : a.SameKind b) :
    a.script.output.fault = none ∧ b.script.output.fault = none ∧
      (a.script.output.items = b.script.output.items → a.unlocated = b.unlocated) := by
  have hfa := script_complete ha
  have hfb := script_complete hb
  refine ⟨hfa,hfb,fun hitems => unlocated_eq_of_output_eq ha hb hkind ?_⟩
  calc
    a.script.output = ⟨a.script.output.items,none⟩ := congrArg (Output.mk _) hfa
    _ = ⟨b.script.output.items,none⟩ := congrArg (Output.mk · none) hitems
    _ = b.script.output := congrArg (Output.mk _) hfb.symm

/-- `Vec<!>`, once with a location and once without. -/
theorem print_unambiguous_vec :
    (ty (.path (some ⟨"a.rs",1,1,1,6⟩)
      (.plain (.mk false [.mk "Vec" (.angle false [.ty (.never none)])])))).Conforming ∧
      (ty (.path none
        (.plain (.mk false [.mk "Vec" (.angle false [.ty (.never none)])])))).Conforming ∧
      (ty (.path (some ⟨"a.rs",1,1,1,6⟩)
        (.plain (.mk false [.mk "Vec" (.angle false [.ty (.never none)])])))).unlocated =
        (ty (.path none
          (.plain (.mk false [.mk "Vec" (.angle false [.ty (.never none)])])))).unlocated := by
  have hname : Text.IsName "Vec" := ⟨by decide,by decide,by decide,by decide⟩
  have hvalid (s : Span) : (ty (.path s
      (.plain (.mk false [.mk "Vec" (.angle false [.ty (.never none)])])))).Conforming :=
    ⟨nofun,List.forall_mem_nil _,⟨hname,rfl,trivial,trivial⟩,trivial⟩
  have h := print_unambiguous (hvalid (some ⟨"a.rs",1,1,1,6⟩)) (hvalid none) trivial
  exact ⟨hvalid _,hvalid _,h.2.2 rfl⟩

end Node

end Turbofish
