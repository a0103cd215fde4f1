import Turbofish.Proofs.Order.Sorted
import Turbofish.Proofs.Unlocated

/-!
# Which trees compare as equal

Two trees compare as equal exactly when they are the same without their spans and
no node in them was moved out.
-/
namespace Turbofish

open Comparison

namespace Comparison

theorem andThen_eq_iff (c d : Comparison) :
    andThen c d = .ok .eq ↔ c = .ok .eq ∧ d = .ok .eq := by
  rcases c with f | (_|_|_) <;> simp

/-- Comparing this node answers "equal" for the nodes with the same content only,
and for those when the node is whole. -/
def Decides {α β : Type} (order : α → α → Comparison) (content : α → β) (whole : α → Bool)
    (a : α) : Prop :=
  ∀ b, order a b = .ok .eq ↔ content a = content b ∧ whole a = true

theorem decides_lex {α β : Type} {order : α → α → Comparison} {content : α → β}
    {whole : α → Bool} {as : List α} (h : ∀ a ∈ as, Decides order content whole a) :
    Decides (lex order) (List.map content) (fun as => as.all whole) as := by
  induction as with
  | nil => intro bs; cases bs <;> simp [lex]
  | cons a as ih =>
      intro bs
      cases bs with
      | nil => simp [lex]
      | cons b bs =>
          have ha := h a (List.mem_cons_self ..)
          have has := ih fun x hx => h x (List.mem_cons_of_mem _ hx)
          simp only [lex,andThen_eq_iff,ha b,has bs,List.map_cons,List.cons.injEq,List.all_cons,
            Bool.and_eq_true]
          exact and_and_and_comm

end Comparison

/-! ## Values -/

theorem Lifetime.order_eq_iff (a b : Lifetime) : a.order b = .eq ↔ a = b := by
  rw [order,Ordering.then_eq_eq,Std.LawfulEqOrd.compare_eq_iff_eq,Text.order_eq_iff]
  constructor
  · rintro ⟨hb,hn⟩
    cases a <;> cases b <;> first | rfl | exact congrArg named hn |
      (simp only [binding] at hb; exact absurd hb (by decide))
  · rintro rfl
    exact ⟨rfl,rfl⟩

theorem Lifetime.orderList_eq_iff (as bs : List Lifetime) :
    Lifetime.orderList as bs = .eq ↔ as = bs := by
  have hone : ∀ l ∈ as, Decides (fun a b : Lifetime => .ok (a.order b)) id (fun _ => true) l :=
    fun l _ l' => by simp [Lifetime.order_eq_iff]
  have h := decides_lex hone bs
  rw [← Lifetime.orderList_eq_lex] at h
  simpa using h

theorem CoreType.number_inj {c d : CoreType} : c.number = d.number ↔ c = d := by
  constructor
  · intro h
    cases c <;> cases d <;> simp only [number] at h <;> first | rfl | omega | (congr; omega)
  · rintro rfl
    rfl

theorem BinaryOp.number_inj {a b : BinaryOp} : a.number = b.number ↔ a = b := by
  constructor
  · intro h
    cases a <;> cases b <;> simp only [number] at h <;> first | rfl | omega | (congr; omega)
  · rintro rfl
    rfl

theorem UnaryOp.number_inj {a b : UnaryOp} : a.number = b.number ↔ a = b := by
  cases a <;> cases b <;> decide

theorem BlockKind.number_inj {a b : BlockKind} : a.number = b.number ↔ a = b := by
  constructor
  · intro h
    rw [← ofNumber_number a,h,ofNumber_number]
  · rintro rfl
    rfl

/-! ## Nodes -/

/-- Every kind of node decides its equality. -/
def Comparison.deciding : Family where
  ty := Decides Ty.order Ty.unlocated Ty.isIntact
  bound := Decides Bound.order Bound.unlocated Bound.isIntact
  path := Decides Path.order Path.unlocated Path.isIntact
  segment := Decides Segment.order Segment.unlocated Segment.isIntact
  args := Decides Args.order Args.unlocated Args.isIntact
  arg := Decides Arg.order Arg.unlocated Arg.isIntact
  qpath := Decides QPath.order QPath.unlocated QPath.isIntact
  expr := Decides Expr.order Expr.unlocated Expr.isIntact

theorem Ty.decides_list {as : List Ty}
    (h : ∀ a ∈ as, Decides Ty.order Ty.unlocated Ty.isIntact a) :
    Decides Ty.orderList Ty.unlocatedList Ty.areIntact as := by
  intro bs
  simp only [Ty.orderList_eq_lex,Ty.unlocatedList_eq_map,Ty.areIntact_eq_all]
  exact decides_lex h bs

theorem Bound.decides_list {as : List Bound}
    (h : ∀ a ∈ as, Decides Bound.order Bound.unlocated Bound.isIntact a) :
    Decides Bound.orderList Bound.unlocatedList Bound.areIntact as := by
  intro bs
  simp only [Bound.orderList_eq_lex,Bound.unlocatedList_eq_map,Bound.areIntact_eq_all]
  exact decides_lex h bs

theorem Segment.decides_list {as : List Segment}
    (h : ∀ a ∈ as, Decides Segment.order Segment.unlocated Segment.isIntact a) :
    Decides Segment.orderList Segment.unlocatedList Segment.areIntact as := by
  intro bs
  simp only [Segment.orderList_eq_lex,Segment.unlocatedList_eq_map,Segment.areIntact_eq_all]
  exact decides_lex h bs

theorem Arg.decides_list {as : List Arg}
    (h : ∀ a ∈ as, Decides Arg.order Arg.unlocated Arg.isIntact a) :
    Decides Arg.orderList Arg.unlocatedList Arg.areIntact as := by
  intro bs
  simp only [Arg.orderList_eq_lex,Arg.unlocatedList_eq_map,Arg.areIntact_eq_all]
  exact decides_lex h bs

theorem Expr.decides_list {as : List Expr}
    (h : ∀ a ∈ as, Decides Expr.order Expr.unlocated Expr.isIntact a) :
    Decides Expr.orderList Expr.unlocatedList Expr.areIntact as := by
  intro bs
  simp only [Expr.orderList_eq_lex,Expr.unlocatedList_eq_map,Expr.areIntact_eq_all]
  exact decides_lex h bs

theorem Ty.decides_option {o : Option Ty}
    (h : ∀ t ∈ o, Decides Ty.order Ty.unlocated Ty.isIntact t) :
    Decides Ty.orderOption Ty.unlocatedOption Ty.optionIsIntact o := by
  intro o'
  cases o with
  | none => cases o' <;> simp [orderOption,unlocatedOption,optionIsIntact]
  | some t =>
      cases o' with
      | none => simp [orderOption,unlocatedOption]
      | some t' => simpa [orderOption,unlocatedOption,optionIsIntact] using h t rfl t'

theorem Expr.decides_of_className_ne {a b : Expr} (h : a.className ≠ b.className) :
    a.order b = .ok .eq ↔ a.unlocated = b.unlocated ∧ a.isIntact = true := by
  constructor
  · intro he
    rw [order_of_className_ne h] at he
    exact absurd ((Text.order_eq_iff _ _).mp (Except.ok.inj he)) h
  · rintro ⟨hu,_⟩
    have hc := congrArg className hu
    rw [className_unlocated,className_unlocated] at hc
    exact absurd hc h

theorem Comparison.deciding_inductive : deciding.Inductive where
  movedTy s := by
    intro u
    cases u <;> simp [Ty.order,Ty.rank,Ty.unlocated,Ty.isIntact]
  invalid s := by
    intro u
    cases u <;> simp [Ty.order,Ty.rank,Ty.unlocated,Ty.isIntact]
  infer s := by
    intro u
    cases u <;> simp [Ty.order,Ty.rank,Ty.unlocated,Ty.isIntact]
  never s := by
    intro u
    cases u <;> simp [Ty.order,Ty.rank,Ty.unlocated,Ty.isIntact]
  unit s := by
    intro u
    cases u <;> simp [Ty.order,Ty.rank,Ty.unlocated,Ty.isIntact]
  tuple s ts hts := by
    intro u
    cases u with
    | tuple s' us =>
        simp [Ty.order,Ty.unlocated,Ty.isIntact,Ty.decides_list hts us]
    | _ => simp [Ty.order,Ty.rank,Ty.unlocated]
  borrow s l m t ht := by
    intro u
    cases u with
    | borrow s' l' m' u =>
        simp [Ty.order,Ty.unlocated,Ty.isIntact,andThen_eq_iff,Lifetime.order_eq_iff,ht u,and_assoc]
    | _ => simp [Ty.order,Ty.rank,Ty.unlocated]
  pointer s m t ht := by
    intro u
    cases u with
    | pointer s' m' u =>
        simp [Ty.order,Ty.unlocated,Ty.isIntact,andThen_eq_iff,ht u,and_assoc]
    | _ => simp [Ty.order,Ty.rank,Ty.unlocated]
  array s t n ht hn := by
    intro u
    cases u with
    | array s' u n' =>
        simp [Ty.order,Ty.unlocated,Ty.isIntact,andThen_eq_iff,ht u,hn n',and_and_and_comm]
    | _ => simp [Ty.order,Ty.rank,Ty.unlocated]
  pathTy s p hp := by
    intro u
    cases u with
    | path s' p' =>
        simp [Ty.order,Ty.unlocated,Ty.isIntact,hp p']
    | _ => simp [Ty.order,Ty.rank,Ty.unlocated]
  traitObject s bs hbs := by
    intro u
    cases u with
    | traitObject s' bs' =>
        simp [Ty.order,Ty.unlocated,Ty.isIntact,Bound.decides_list hbs bs']
    | _ => simp [Ty.order,Ty.rank,Ty.unlocated]
  erased s bs hbs := by
    intro u
    cases u with
    | erased s' bs' =>
        simp [Ty.order,Ty.unlocated,Ty.isIntact,Bound.decides_list hbs bs']
    | _ => simp [Ty.order,Ty.rank,Ty.unlocated]
  movedBound := by
    intro c
    cases c <;> simp [Bound.order,Bound.rank,Bound.unlocated,Bound.isIntact]
  emptyBound := by
    intro c
    cases c <;> simp [Bound.order,Bound.rank,Bound.unlocated,Bound.isIntact]
  lifetimeBound l := by
    intro c
    cases c with
    | lifetime l' =>
        simp [Bound.order,Bound.unlocated,Bound.isIntact,Lifetime.order_eq_iff]
    | _ => simp [Bound.order,Bound.rank,Bound.unlocated]
  trait ls p hp := by
    intro c
    cases c with
    | trait ls' p' =>
        simp [Bound.order,Bound.unlocated,Bound.isIntact,andThen_eq_iff,Lifetime.orderList_eq_iff,hp p',and_assoc]
    | _ => simp [Bound.order,Bound.rank,Bound.unlocated]
  maybe p hp := by
    intro c
    cases c with
    | maybe p' =>
        simp [Bound.order,Bound.unlocated,Bound.isIntact,hp p']
    | _ => simp [Bound.order,Bound.rank,Bound.unlocated]
  path r ss hss := by
    rintro ⟨r',ss'⟩
    simp [Path.order,Path.unlocated,Path.isIntact,andThen_eq_iff,Segment.decides_list hss ss',and_assoc]
  segment n as has := by
    rintro ⟨n',as'⟩
    simp [Segment.order,Segment.unlocated,Segment.isIntact,andThen_eq_iff,Text.order_eq_iff,has as',and_assoc]
  movedArgs := by
    intro as
    cases as <;> simp [Args.order,Args.rank,Args.unlocated,Args.isIntact]
  noArgs := by
    intro as
    cases as <;> simp [Args.order,Args.rank,Args.unlocated,Args.isIntact]
  angle r as has := by
    intro as'
    cases as' with
    | angle r' as' =>
        simp [Args.order,Args.unlocated,Args.isIntact,andThen_eq_iff,Arg.decides_list has as',and_assoc]
    | _ => simp [Args.order,Args.rank,Args.unlocated]
  parenthesized ts o hts ho := by
    intro as'
    cases as' with
    | parenthesized ts' o' =>
        simp [Args.order,Args.unlocated,Args.isIntact,andThen_eq_iff,Ty.decides_list hts ts',Ty.decides_option ho o',and_and_and_comm]
    | _ => simp [Args.order,Args.rank,Args.unlocated]
  movedArg := by
    intro a
    cases a <;> simp [Arg.order,Arg.rank,Arg.unlocated,Arg.isIntact]
  lifetimeArg l := by
    intro a
    cases a with
    | lifetime l' =>
        simp [Arg.order,Arg.unlocated,Arg.isIntact,Lifetime.order_eq_iff]
    | _ => simp [Arg.order,Arg.rank,Arg.unlocated]
  tyArg t ht := by
    intro a
    cases a with
    | ty u =>
        simp [Arg.order,Arg.unlocated,Arg.isIntact,ht u]
    | _ => simp [Arg.order,Arg.rank,Arg.unlocated]
  valueArg e he := by
    intro a
    cases a with
    | value e' =>
        simp [Arg.order,Arg.unlocated,Arg.isIntact,he e']
    | _ => simp [Arg.order,Arg.rank,Arg.unlocated]
  binding n t ht := by
    intro a
    cases a with
    | binding n' u =>
        simp [Arg.order,Arg.unlocated,Arg.isIntact,andThen_eq_iff,Text.order_eq_iff,ht u,and_assoc]
    | _ => simp [Arg.order,Arg.rank,Arg.unlocated]
  constraint n bs hbs := by
    intro a
    cases a with
    | constraint n' bs' =>
        simp [Arg.order,Arg.unlocated,Arg.isIntact,andThen_eq_iff,Text.order_eq_iff,Bound.decides_list hbs bs',and_assoc]
    | _ => simp [Arg.order,Arg.rank,Arg.unlocated]
  plain p hp := by
    intro q
    cases q with
    | plain p' => simp [QPath.order,QPath.unlocated,QPath.isIntact,hp p']
    | qualified u n p' => simp [QPath.order,QPath.unlocated]
  qualified t n r ss ht hss hp := by
    intro q
    cases q with
    | plain p' => simp [QPath.order,QPath.unlocated]
    | qualified u n' p' =>
        simp only [QPath.order,QPath.unlocated,QPath.isIntact,andThen_eq_iff,Except.ok.injEq,
          Std.LawfulEqOrd.compare_eq_iff_eq,ht u,hp p',QPath.qualified.injEq,Bool.and_eq_true]
        constructor
        · rintro ⟨⟨htu,hti⟩,hn,hpu,hpi⟩
          exact ⟨⟨htu,hn,hpu⟩,hti,hpi⟩
        · rintro ⟨⟨htu,hn,hpu⟩,hti,hpi⟩
          exact ⟨⟨htu,hti⟩,hn,hpu,hpi⟩
  missing := by
    intro e
    cases e with
    | missing =>
        simp [Expr.order,Expr.unlocated,Expr.isIntact]
    | _ => exact Expr.decides_of_className_ne (by simp only [Expr.className]; decide)
  block s k y es hes := by
    intro e
    cases e with
    | block s' k' y' es' =>
        simp [Expr.order,Expr.unlocated,Expr.isIntact,andThen_eq_iff,BlockKind.number_inj,
          Expr.decides_list hes es',and_assoc]
    | _ => exact Expr.decides_of_className_ne (by simp only [Expr.className]; decide)
  call s p es hp hes := by
    intro e
    cases e with
    | call s' p' es' =>
        simp [Expr.order,Expr.unlocated,Expr.isIntact,andThen_eq_iff,hp p',Expr.decides_list hes es',and_and_and_comm]
    | _ => exact Expr.decides_of_className_ne (by simp only [Expr.className]; decide)
  int s n c := by
    intro e
    cases e with
    | int s' n' c' =>
        simp [Expr.order,Expr.unlocated,Expr.isIntact,andThen_eq_iff,CoreType.number_inj,and_comm]
    | _ => exact Expr.decides_of_className_ne (by simp only [Expr.className]; decide)
  bool s b := by
    intro e
    cases e with
    | bool s' b' =>
        simp [Expr.order,Expr.unlocated,Expr.isIntact]
    | _ => exact Expr.decides_of_className_ne (by simp only [Expr.className]; decide)
  str s t := by
    intro e
    cases e with
    | str s' t' =>
        simp [Expr.order,Expr.unlocated,Expr.isIntact,Text.order_eq_iff]
    | _ => exact Expr.decides_of_className_ne (by simp only [Expr.className]; decide)
  name s p hp := by
    intro e
    cases e with
    | name s' p' =>
        simp [Expr.order,Expr.unlocated,Expr.isIntact,hp p']
    | _ => exact Expr.decides_of_className_ne (by simp only [Expr.className]; decide)
  binary s op l r hl hr := by
    intro e
    cases e with
    | binary s' op' l' r' =>
        simp only [Expr.order,Expr.unlocated,Expr.isIntact,andThen_eq_iff,Except.ok.injEq,
          Nat.compare_eq_eq,BinaryOp.number_inj,hl l',hr r',Expr.binary.injEq,true_and,Bool.and_eq_true]
        rw [and_and_and_comm,← and_assoc]
    | _ => exact Expr.decides_of_className_ne (by simp only [Expr.className]; decide)
  unary s op e he := by
    intro e'
    cases e' with
    | unary s' op' e' =>
        simp [Expr.order,Expr.unlocated,Expr.isIntact,andThen_eq_iff,UnaryOp.number_inj,he e',and_assoc]
    | _ => exact Expr.decides_of_className_ne (by simp only [Expr.className]; decide)

end Turbofish
