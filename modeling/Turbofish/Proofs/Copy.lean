import Turbofish.Proofs.Order.Equality
import Turbofish.Proofs.Parts

/-!
# Copies are exact

A copy is the node itself, spans and malformed parts included. There is none exactly when
a moved node is contained in it, also among the arguments that printing passes over.
-/
namespace Turbofish

/-- A copy that is the value itself where that is whole, and fails where it is not. -/
def Exact {α : Type} (copy : Except Fault α) (a : α) (whole : Bool) : Prop :=
  if whole then copy = .ok a else ∃ f, copy = .error f

namespace Exact

variable {α β γ : Type} {c : Except Fault α} {d : Except Fault β} {a : α} {b : β} {v w : Bool}

theorem ok (a : α) : Exact (.ok a) a true := rfl

theorem error (f : Fault) (a : α) : Exact (.error f) a false := ⟨f,rfl⟩

/-- One part, put into a node. -/
theorem map (f : α → β) (h : Exact c a w) : Exact (c >>= fun x => pure (f x)) (f a) w := by
  cases w with
  | true =>
      have hc : c = .ok a := h
      rw [hc]
      rfl
  | false =>
      obtain ⟨e,rfl⟩ := h
      exact error e _

/-- Two parts, one copied after the other. -/
theorem map₂ (f : α → β → γ) (h : Exact c a w) (h' : Exact d b v) :
    Exact (c >>= fun x => d >>= fun y => pure (f x y)) (f a b) (w && v) := by
  cases w with
  | true =>
      have hc : c = .ok a := h
      rw [hc]
      exact h'.map (f a)
  | false =>
      obtain ⟨e,rfl⟩ := h
      exact error e _

/-- The same two parts, the second of them copied first. -/
theorem map₂_swapped (f : α → β → γ) (h : Exact c a w) (h' : Exact d b v) :
    Exact (d >>= fun y => c >>= fun x => pure (f x y)) (f a b) (w && v) := by
  rw [Bool.and_comm]
  exact h'.map₂ (fun y x => f x y) h

/-- Elements that are copied from left to right. -/
theorem list {copy : α → Except Fault α} {copyList : List α → Except Fault (List α)}
    {whole : α → Bool} {as : List α} (hnil : copyList [] = .ok [])
    (hcons : ∀ a as, copyList (a :: as) =
      copy a >>= fun x => copyList as >>= fun xs => pure (x :: xs))
    (h : ∀ a ∈ as, Exact (copy a) a (whole a)) : Exact (copyList as) as (as.all whole) := by
  induction as with
  | nil =>
      rw [hnil]
      exact ok []
  | cons a as ih =>
      obtain ⟨ha,has⟩ := List.forall_mem_cons.mp h
      rw [hcons,List.all_cons]
      exact ha.map₂ List.cons (ih has)

theorem ok_iff (h : Exact c a w) : (∃ x, c = .ok x) ↔ w = true := by
  cases w with
  | true => exact ⟨fun _ => rfl,fun _ => ⟨a,h⟩⟩
  | false =>
      obtain ⟨e,rfl⟩ := h
      exact ⟨nofun,nofun⟩

theorem eq_of_ok (h : Exact c a w) {x : α} (hx : c = .ok x) : x = a ∧ w = true := by
  have hw := h.ok_iff.mp ⟨x,hx⟩
  subst hw
  exact ⟨Except.ok.inj (hx.symm.trans h),rfl⟩

end Exact

/-! ## Every kind of node -/

def Family.copied : Family where
  ty t := Exact t.clone t t.isIntact
  bound b := Exact b.clone b b.isIntact
  path p := Exact p.clone p p.isIntact
  segment s := Exact s.clone s s.isIntact
  args as := Exact as.clone as as.isIntact
  arg a := Exact a.clone a a.isIntact
  qpath p := Exact p.clone p p.isIntact
  expr e := Exact e.clone e e.isIntact

theorem Ty.exact_list {ts : List Ty} (h : ∀ t ∈ ts, Exact t.clone t t.isIntact) :
    Exact (cloneList ts) ts (areIntact ts) := by
  rw [areIntact_eq_all]
  exact .list rfl (fun _ _ => rfl) h

theorem Bound.exact_list {bs : List Bound} (h : ∀ b ∈ bs, Exact b.clone b b.isIntact) :
    Exact (cloneList bs) bs (areIntact bs) := by
  rw [areIntact_eq_all]
  exact .list rfl (fun _ _ => rfl) h

theorem Segment.exact_list {ss : List Segment} (h : ∀ s ∈ ss, Exact s.clone s s.isIntact) :
    Exact (cloneList ss) ss (areIntact ss) := by
  rw [areIntact_eq_all]
  exact .list rfl (fun _ _ => rfl) h

theorem Arg.exact_list {as : List Arg} (h : ∀ a ∈ as, Exact a.clone a a.isIntact) :
    Exact (cloneList as) as (areIntact as) := by
  rw [areIntact_eq_all]
  exact .list rfl (fun _ _ => rfl) h

theorem Expr.exact_list {es : List Expr} (h : ∀ e ∈ es, Exact e.clone e e.isIntact) :
    Exact (cloneList es) es (areIntact es) := by
  rw [areIntact_eq_all]
  exact .list rfl (fun _ _ => rfl) h

theorem Ty.exact_option {o : Option Ty} (h : ∀ t ∈ o, Exact t.clone t t.isIntact) :
    Exact (cloneOption o) o (optionIsIntact o) := by
  cases o with
  | none => exact .ok none
  | some t => exact (h t rfl).map some

theorem Family.copied_inductive : copied.Inductive where
  movedTy s := .error _ (Ty.moved s)
  invalid _ := .ok _
  infer _ := .ok _
  never _ := .ok _
  unit _ := .ok _
  tuple s _ hts := (Ty.exact_list hts).map (Ty.tuple s)
  borrow s l m _ ht := ht.map (Ty.borrow s l m)
  pointer s m _ ht := ht.map (Ty.pointer s m)
  array s _ _ ht hn := ht.map₂ (Ty.array s) hn
  pathTy s _ hp := hp.map (Ty.path s)
  traitObject s _ hbs := (Bound.exact_list hbs).map (Ty.traitObject s)
  erased s _ hbs := (Bound.exact_list hbs).map (Ty.erased s)
  movedBound := .error _ Bound.moved
  emptyBound := .ok _
  lifetimeBound _ := .ok _
  trait ls _ hp := hp.map (Bound.trait ls)
  maybe _ hp := hp.map Bound.maybe
  path r _ hss := (Segment.exact_list hss).map (Path.mk r)
  segment n _ has := has.map (Segment.mk n)
  movedArgs := .error _ Args.moved
  noArgs := .ok _
  angle r _ has := (Arg.exact_list has).map (Args.angle r)
  parenthesized _ _ hts ho := (Ty.exact_list hts).map₂ Args.parenthesized (Ty.exact_option ho)
  movedArg := .error _ Arg.moved
  lifetimeArg _ := .ok _
  tyArg _ ht := ht.map Arg.ty
  valueArg _ he := he.map Arg.value
  binding n _ ht := ht.map (Arg.binding n)
  constraint n _ hbs := (Bound.exact_list hbs).map (Arg.constraint n)
  plain _ hp := hp.map QPath.plain
  qualified _ n _ _ ht _ hp := ht.map₂_swapped (fun t p => QPath.qualified t n p) hp
  missing := .ok _
  block s k y _ hes := (Expr.exact_list hes).map (Expr.block s k y)
  call s _ _ hp hes := hp.map₂_swapped (Expr.call s) (Expr.exact_list hes)
  int _ _ _ := .ok _
  bool _ _ := .ok _
  str _ _ := .ok _
  name s _ hp := hp.map (Expr.name s)
  binary s op _ _ hl hr := hl.map₂_swapped (Expr.binary s op) hr
  unary s op _ he := he.map (Expr.unary s op)

namespace Node

def isIntact : Node → Bool
  | lifetime _ => true
  | ty t => t.isIntact
  | path p => p.isIntact
  | qpath p => p.isIntact
  | segment s => s.isIntact
  | args as => as.isIntact
  | arg a => a.isIntact
  | bound b => b.isIntact
  | expr e => e.isIntact

/-- A node is intact when it was not moved and its parts are intact. -/
theorem isIntact_iff : ∀ n : Node,
    n.isIntact = true ↔ n.isMoved = false ∧ ∀ m ∈ n.parts, m.isIntact = true
  | lifetime _ => by simp [isIntact,isMoved,parts]
  | ty t => by
      cases t <;> simp [isIntact,isMoved,parts,Ty.parts,Ty.isIntact,Ty.areIntact_eq_all,
        Bound.areIntact_eq_all]
  | path (.mk r ss) => by
      simp [isIntact,isMoved,parts,Path.parts,Path.isIntact,Segment.areIntact_eq_all]
  | qpath (.plain p) => by simp [isIntact,isMoved,parts,QPath.parts,QPath.isIntact]
  | qpath (.qualified t n (.mk r ss)) => by
      simp [isIntact,isMoved,parts,QPath.parts,QPath.isIntact,Path.isIntact,
        Segment.areIntact_eq_all]
  | segment (.mk n as) => by simp [isIntact,isMoved,parts,Segment.parts,Segment.isIntact]
  | args as => by
      cases as with
      | parenthesized ts o =>
          have ho : Ty.optionIsIntact o = true ↔ ∀ t ∈ o, t.isIntact = true := by
            cases o <;> simp [Ty.optionIsIntact]
          simp [isIntact,isMoved,parts,Args.parts,Args.isIntact,Ty.areIntact_eq_all,ho,or_imp,
            forall_and]
      | _ => simp [isIntact,isMoved,parts,Args.parts,Args.isIntact,Arg.areIntact_eq_all]
  | arg a => by
      cases a <;> simp [isIntact,isMoved,parts,Arg.parts,Arg.isIntact,Bound.areIntact_eq_all]
  | bound b => by
      cases b with
      | trait ls p => simp [isIntact,isMoved,parts,Bound.parts,Bound.isIntact,or_imp,forall_and]
      | _ => simp [isIntact,isMoved,parts,Bound.parts,Bound.isIntact]
  | expr e => by
      cases e <;> simp [isIntact,isMoved,parts,Expr.parts,Expr.isIntact,Expr.areIntact_eq_all]

/-- A node is intact when nothing that was moved is contained in it. -/
theorem isIntact_iff_forall (n : Node) :
    n.isIntact = true ↔ ∀ m, n.Contains m → m.isMoved = false :=
  holds_iff_of_step (fun _ _ h => h) isIntact_iff n

theorem exact_clone : ∀ n : Node, Exact n.clone n n.isIntact
  | lifetime _ => .ok _
  | ty t => (Family.copied_inductive.all_ty t).map ty
  | path p => (Family.copied_inductive.all_path p).map path
  | qpath p => (Family.copied_inductive.all_qpath p).map qpath
  | segment s => (Family.copied_inductive.all_segment s).map segment
  | args as => (Family.copied_inductive.all_args as).map args
  | arg a => (Family.copied_inductive.all_arg a).map arg
  | bound b => (Family.copied_inductive.all_bound b).map bound
  | expr e => (Family.copied_inductive.all_expr e).map expr

/-- An intact node is equal to itself in the order of nodes. -/
theorem order?_self {n : Node} (h : n.isIntact = true) : n.order? n = some (.ok .eq) := by
  have hd := Comparison.deciding_inductive
  cases n with
  | lifetime l => exact congrArg (fun o => some (Except.ok o)) ((Lifetime.order_eq_iff l l).mpr rfl)
  | ty t => exact congrArg some ((hd.all_ty t t).mpr ⟨rfl,h⟩)
  | path p => exact congrArg some ((hd.all_path p p).mpr ⟨rfl,h⟩)
  | qpath p => exact congrArg some ((hd.all_qpath p p).mpr ⟨rfl,h⟩)
  | segment s => exact congrArg some ((hd.all_segment s s).mpr ⟨rfl,h⟩)
  | args as => exact congrArg some ((hd.all_args as as).mpr ⟨rfl,h⟩)
  | arg a => exact congrArg some ((hd.all_arg a a).mpr ⟨rfl,h⟩)
  | bound b => exact congrArg some ((hd.all_bound b b).mpr ⟨rfl,h⟩)
  | expr e => exact congrArg some ((hd.all_expr e e).mpr ⟨rfl,h⟩)

end Node

end Turbofish
