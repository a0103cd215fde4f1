import Turbofish.Proofs.Order.Key

/-!
# Comparing trees is comparing their sort keys

A kind of node is sorted by its keys when comparing two nodes, and then what
follows them, is comparing the two keys with what follows those. What follows is
part of the statement, so that keys can be put behind each other.
-/
namespace Turbofish

open Comparison

namespace Letter

@[simp] theorem order_number (m n : Nat) :
    (number m).order (number n) = .ok (compare m n) := by
  simp only [order,place,Nat.compare_eq_ite_lt,Nat.add_lt_add_iff_right]

theorem place_moved_lt (w : Movable) (n : Nat) : (moved w).place < (number n).place := by
  cases w <;> simp only [place] <;> omega

@[simp] theorem order_moved_number (w : Movable) (n : Nat) :
    (moved w).order (number n) = .ok .lt :=
  congrArg Except.ok (Nat.compare_eq_lt.mpr (place_moved_lt w n))

@[simp] theorem order_number_moved (w : Movable) (n : Nat) :
    (number n).order (moved w) = .ok .gt :=
  congrArg Except.ok (Nat.compare_eq_gt.mpr (place_moved_lt w n))

@[simp] theorem order_moved (w : Movable) : (moved w).order (moved w) = .error (.moved w) :=
  if_pos rfl

end Letter

@[simp] theorem Key.order_cons (a b : Letter) (as bs : Key) :
    Key.order (a :: as) (b :: bs) = andThen (a.order b) (Key.order as bs) := rfl

/-- The order of these nodes is the order of their keys, whatever stands behind the keys. -/
def Key.Sorts {α : Type} (key : α → Key) (order : α → α → Comparison) (a : α) : Prop :=
  ∀ (b : α) (ks ls : Key),
    Key.order (key a ++ ks) (key b ++ ls) = andThen (order a b) (Key.order ks ls)

/-! ## Values -/

theorem compareOfLessAndEq_congr {α β : Type} [LT α] [LT β] [DecidableLT α] [DecidableLT β]
    [DecidableEq α] [DecidableEq β] {a b : α} {c d : β} (hlt : a < b ↔ c < d)
    (heq : a = b ↔ c = d) : compareOfLessAndEq a b = compareOfLessAndEq c d := by
  simp only [compareOfLessAndEq,hlt,heq]

theorem compare_toNat_uint8 (a b : UInt8) : compare a.toNat b.toNat = compare a b :=
  compareOfLessAndEq_congr UInt8.lt_iff_toNat_lt.symm UInt8.toNat_inj

theorem compare_toNat_uint16 (a b : UInt16) : compare a.toNat b.toNat = compare a b :=
  compareOfLessAndEq_congr UInt16.lt_iff_toNat_lt.symm UInt16.toNat_inj

theorem compare_toNat_uint64 (a b : UInt64) : compare a.toNat b.toNat = compare a b :=
  compareOfLessAndEq_congr UInt64.lt_iff_toNat_lt.symm UInt64.toNat_inj

theorem compare_toNat_bool (a b : Bool) : compare a.toNat b.toNat = compare a b := by
  cases a <;> cases b <;> rfl

theorem Key.sorts_ofText (t : Text) : Sorts ofText (fun a b => .ok (Text.order a b)) t := by
  induction t with
  | nil =>
      intro u ks ls
      cases u with
      | nil => simp [ofText,Text.order,List.compareLex_nil_nil]
      | cons c u => simp [ofText,Text.order,Nat.compare_eq_ite_lt,List.compareLex_nil_cons]
  | cons c t ih =>
      intro u ks ls
      cases u with
      | nil => simp [ofText,Text.order,Nat.compare_eq_ite_lt,List.compareLex_cons_nil]
      | cons d u =>
          have htail := ih u ks ls
          have hhead : compare (c.toNat + 1) (d.toNat + 1) = compare c d := by
            rw [← compare_toNat_uint8]
            simp only [Nat.compare_eq_ite_lt,Nat.add_lt_add_iff_right]
          simp only [ofText,List.cons_append,order_cons,Letter.order_number,hhead,htail]
          simp only [Text.order,List.compareLex_cons_cons]
          cases compare c d <;> rfl

@[simp] theorem Key.order_ofText_append (t : Text) (ks ls : Key) :
    Key.order (ofText t ++ ks) (ofText t ++ ls) = Key.order ks ls := by
  have hself : Text.order t t = .eq := (Text.order_eq_iff t t).mpr rfl
  simp only [sorts_ofText t t ks ls,hself,eq_andThen]

/-- The shorter of two lists comes first because zero ends a list and one goes on with it. -/
theorem Key.sorts_ofList {α : Type} {key : α → Key} {order : α → α → Comparison} {as : List α}
    (h : ∀ a ∈ as, Sorts key order a) : Sorts (ofList key) (lex order) as := by
  induction as with
  | nil =>
      intro bs ks ls
      cases bs with
      | nil => simp [ofList,lex]
      | cons b bs => simp [ofList,lex,Nat.compare_eq_ite_lt]
  | cons a as ih =>
      intro bs ks ls
      cases bs with
      | nil => simp [ofList,lex,Nat.compare_eq_ite_lt]
      | cons b bs =>
          have ha := h a (List.mem_cons_self ..)
          have has := ih (fun x hx => h x (List.mem_cons_of_mem _ hx))
          simp [ofList,lex,ha b _ _,has bs _ _,andThen_assoc]

theorem Lifetime.sorts (l : Lifetime) :
    Key.Sorts Lifetime.key (fun a b => .ok (a.order b)) l := by
  intro l' ks ls
  have hname := Key.sorts_ofText l.name l'.name ks ls
  simp only [key,List.cons_append,Key.order_cons,Letter.order_number,compare_toNat_uint16,hname,
    Lifetime.order]
  cases compare l.binding l'.binding <;> rfl

theorem Lifetime.sorts_list (as : List Lifetime) :
    Key.Sorts (Key.ofList Lifetime.key) (fun a b => .ok (Lifetime.orderList a b)) as := by
  intro bs ks ls
  simp only [Lifetime.orderList_eq_lex]
  exact Key.sorts_ofList (fun l _ => l.sorts) bs ks ls

theorem BlockKind.order_key (k k' : BlockKind) :
    k.key.order k'.key = .ok (compare k.number k'.number) := by
  have hk := Int32.le_toInt k.number
  have hk' := Int32.le_toInt k'.number
  have hlt : (k.number.toInt + 2147483648).toNat < (k'.number.toInt + 2147483648).toNat ↔
      k.number < k'.number := by
    rw [Int32.lt_iff_toInt_lt]
    omega
  have heq : (k.number.toInt + 2147483648).toNat = (k'.number.toInt + 2147483648).toNat ↔
      k.number = k'.number := by
    rw [← Int32.toInt_inj]
    omega
  rw [key,key,Letter.order_number]
  exact congrArg Except.ok (compareOfLessAndEq_congr hlt heq)

/-! ## Nodes -/

/-- Every kind of node is sorted by its keys. -/
def Key.sorting : Family where
  ty := Sorts Ty.key Ty.order
  bound := Sorts Bound.key Bound.order
  path := Sorts Path.key Path.order
  segment := Sorts Segment.key Segment.order
  args := Sorts Args.key Args.order
  arg := Sorts Arg.key Arg.order
  qpath := Sorts QPath.key QPath.order
  expr := Sorts Expr.key Expr.order

theorem Ty.sorts_list {as : List Ty} (h : ∀ a ∈ as, Key.Sorts Ty.key Ty.order a) :
    Key.Sorts Ty.keyList Ty.orderList as := by
  intro bs ks ls
  simp only [Ty.keyList_eq_ofList,Ty.orderList_eq_lex]
  exact Key.sorts_ofList h bs ks ls

theorem Bound.sorts_list {as : List Bound} (h : ∀ a ∈ as, Key.Sorts Bound.key Bound.order a) :
    Key.Sorts Bound.keyList Bound.orderList as := by
  intro bs ks ls
  simp only [Bound.keyList_eq_ofList,Bound.orderList_eq_lex]
  exact Key.sorts_ofList h bs ks ls

theorem Segment.sorts_list {as : List Segment}
    (h : ∀ a ∈ as, Key.Sorts Segment.key Segment.order a) :
    Key.Sorts Segment.keyList Segment.orderList as := by
  intro bs ks ls
  simp only [Segment.keyList_eq_ofList,Segment.orderList_eq_lex]
  exact Key.sorts_ofList h bs ks ls

theorem Arg.sorts_list {as : List Arg} (h : ∀ a ∈ as, Key.Sorts Arg.key Arg.order a) :
    Key.Sorts Arg.keyList Arg.orderList as := by
  intro bs ks ls
  simp only [Arg.keyList_eq_ofList,Arg.orderList_eq_lex]
  exact Key.sorts_ofList h bs ks ls

theorem Expr.sorts_list {as : List Expr} (h : ∀ a ∈ as, Key.Sorts Expr.key Expr.order a) :
    Key.Sorts Expr.keyList Expr.orderList as := by
  intro bs ks ls
  simp only [Expr.keyList_eq_ofList,Expr.orderList_eq_lex]
  exact Key.sorts_ofList h bs ks ls

theorem Ty.sorts_option {o : Option Ty} (h : ∀ t ∈ o, Key.Sorts Ty.key Ty.order t) :
    Key.Sorts Ty.keyOption Ty.orderOption o := by
  intro o' ks ls
  cases o with
  | none => cases o' <;> simp [keyOption,orderOption,Nat.compare_eq_ite_lt]
  | some t =>
      cases o' with
      | none => simp [keyOption,orderOption,Nat.compare_eq_ite_lt]
      | some t' => simpa [keyOption,orderOption] using h t rfl t' ks ls

theorem Expr.key_className (e : Expr) : ∃ ks, e.key = Key.ofText e.className ++ ks := by
  cases e with
  | missing => exact ⟨[],(List.append_nil _).symm⟩
  | _ => simp only [key,className]; exact ⟨_,rfl⟩

/-- Expressions of different classes differ within the names of the classes. -/
theorem Expr.sorts_of_className_ne {a b : Expr} (h : a.className ≠ b.className) (ks ls : Key) :
    Key.order (a.key ++ ks) (b.key ++ ls) = andThen (a.order b) (Key.order ks ls) := by
  obtain ⟨as,ha⟩ := a.key_className
  obtain ⟨bs,hb⟩ := b.key_className
  rw [ha,hb,order_of_className_ne h,List.append_assoc,List.append_assoc,
    Key.sorts_ofText _ b.className _ _]
  cases hc : Text.order a.className b.className with
  | eq => exact absurd ((Text.order_eq_iff _ _).mp hc) h
  | lt => simp only [hc,lt_andThen]
  | gt => simp only [hc,gt_andThen]

/-- Nodes of different variants differ in the first letter of their keys, or for
expressions in the name of their class. -/
theorem Key.sorting_inductive : Key.sorting.Inductive where
  movedTy s := by
    intro u ks ls
    cases u <;> simp [Ty.key,Ty.order,Ty.rank,Nat.compare_eq_ite_lt,Fault.moved]
  invalid s := by
    intro u ks ls
    cases u <;> simp [Ty.key,Ty.order,Ty.rank,Nat.compare_eq_ite_lt]
  infer s := by
    intro u ks ls
    cases u <;> simp [Ty.key,Ty.order,Ty.rank,Nat.compare_eq_ite_lt]
  never s := by
    intro u ks ls
    cases u <;> simp [Ty.key,Ty.order,Ty.rank,Nat.compare_eq_ite_lt]
  unit s := by
    intro u ks ls
    cases u <;> simp [Ty.key,Ty.order,Ty.rank,Nat.compare_eq_ite_lt]
  tuple s ts hts := by
    intro u ks ls
    cases u with
    | tuple s' us => simpa [Ty.key,Ty.order] using Ty.sorts_list hts us ks ls
    | _ => simp [Ty.key,Ty.order,Ty.rank,Nat.compare_eq_ite_lt]
  borrow s l m t ht := by
    intro u ks ls
    cases u with
    | borrow s' l' m' u =>
        simp [Ty.key,Ty.order,compare_toNat_bool,andThen_assoc,l.sorts l' _ _,ht u _ _]
    | _ => simp [Ty.key,Ty.order,Ty.rank,Nat.compare_eq_ite_lt]
  pointer s m t ht := by
    intro u ks ls
    cases u with
    | pointer s' m' u => simp [Ty.key,Ty.order,compare_toNat_bool,andThen_assoc,ht u _ _]
    | _ => simp [Ty.key,Ty.order,Ty.rank,Nat.compare_eq_ite_lt]
  array s t n ht hn := by
    intro u ks ls
    cases u with
    | array s' u n => simp [Ty.key,Ty.order,andThen_assoc,ht u _ _,hn n _ _]
    | _ => simp [Ty.key,Ty.order,Ty.rank,Nat.compare_eq_ite_lt]
  pathTy s p hp := by
    intro u ks ls
    cases u with
    | path s' p => simp [Ty.key,Ty.order,hp p _ _]
    | _ => simp [Ty.key,Ty.order,Ty.rank,Nat.compare_eq_ite_lt]
  traitObject s bs hbs := by
    intro u ks ls
    cases u with
    | traitObject s' bs => simp [Ty.key,Ty.order,Bound.sorts_list hbs bs _ _]
    | _ => simp [Ty.key,Ty.order,Ty.rank,Nat.compare_eq_ite_lt]
  erased s bs hbs := by
    intro u ks ls
    cases u with
    | erased s' bs => simp [Ty.key,Ty.order,Bound.sorts_list hbs bs _ _]
    | _ => simp [Ty.key,Ty.order,Ty.rank,Nat.compare_eq_ite_lt]
  movedBound := by
    intro c ks ls
    cases c <;> simp [Bound.key,Bound.order,Bound.rank,Nat.compare_eq_ite_lt,Fault.moved]
  emptyBound := by
    intro c ks ls
    cases c <;> simp [Bound.key,Bound.order,Bound.rank,Nat.compare_eq_ite_lt]
  lifetimeBound l := by
    intro c ks ls
    cases c with
    | lifetime l' => simp [Bound.key,Bound.order,l.sorts l' _ _]
    | _ => simp [Bound.key,Bound.order,Bound.rank,Nat.compare_eq_ite_lt]
  trait ls p hp := by
    intro c ks ls
    cases c with
    | trait ls' p =>
        simp [Bound.key,Bound.order,andThen_assoc,Lifetime.sorts_list _ ls' _ _,hp p _ _]
    | _ => simp [Bound.key,Bound.order,Bound.rank,Nat.compare_eq_ite_lt]
  maybe p hp := by
    intro c ks ls
    cases c with
    | maybe p => simp [Bound.key,Bound.order,hp p _ _]
    | _ => simp [Bound.key,Bound.order,Bound.rank,Nat.compare_eq_ite_lt]
  path r ss hss := by
    rintro ⟨r',ss⟩ ks ls
    simp [Path.key,Path.order,compare_toNat_bool,andThen_assoc,Segment.sorts_list hss ss _ _]
  segment n as has := by
    rintro ⟨n',as⟩ ks ls
    simp [Segment.key,Segment.order,andThen_assoc,Key.sorts_ofText n n' _ _,has as _ _]
  movedArgs := by
    intro as ks ls
    cases as <;> simp [Args.key,Args.order,Args.rank,Nat.compare_eq_ite_lt,Fault.moved]
  noArgs := by
    intro as ks ls
    cases as <;> simp [Args.key,Args.order,Args.rank,Nat.compare_eq_ite_lt]
  angle r as has := by
    intro as ks ls
    cases as with
    | angle r' as =>
        simp [Args.key,Args.order,compare_toNat_bool,andThen_assoc,Arg.sorts_list has as _ _]
    | _ => simp [Args.key,Args.order,Args.rank,Nat.compare_eq_ite_lt]
  parenthesized ts o hts ho := by
    intro as ks ls
    cases as with
    | parenthesized us o =>
        simp [Args.key,Args.order,andThen_assoc,Ty.sorts_list hts us _ _,Ty.sorts_option ho o _ _]
    | _ => simp [Args.key,Args.order,Args.rank,Nat.compare_eq_ite_lt]
  movedArg := by
    intro a ks ls
    cases a <;> simp [Arg.key,Arg.order,Arg.rank,Nat.compare_eq_ite_lt,Fault.moved]
  lifetimeArg l := by
    intro a ks ls
    cases a with
    | lifetime l' => simp [Arg.key,Arg.order,l.sorts l' _ _]
    | _ => simp [Arg.key,Arg.order,Arg.rank,Nat.compare_eq_ite_lt]
  tyArg t ht := by
    intro a ks ls
    cases a with
    | ty u => simp [Arg.key,Arg.order,ht u _ _]
    | _ => simp [Arg.key,Arg.order,Arg.rank,Nat.compare_eq_ite_lt]
  valueArg e he := by
    intro a ks ls
    cases a with
    | value e => simp [Arg.key,Arg.order,he e _ _]
    | _ => simp [Arg.key,Arg.order,Arg.rank,Nat.compare_eq_ite_lt]
  binding n t ht := by
    intro a ks ls
    cases a with
    | binding n' u =>
        simp [Arg.key,Arg.order,andThen_assoc,Key.sorts_ofText n n' _ _,ht u _ _]
    | _ => simp [Arg.key,Arg.order,Arg.rank,Nat.compare_eq_ite_lt]
  constraint n bs hbs := by
    intro a ks ls
    cases a with
    | constraint n' bs =>
        simp [Arg.key,Arg.order,andThen_assoc,Key.sorts_ofText n n' _ _,Bound.sorts_list hbs bs _ _]
    | _ => simp [Arg.key,Arg.order,Arg.rank,Nat.compare_eq_ite_lt]
  plain p hp := by
    intro q ks ls
    cases q with
    | plain p => simp [QPath.key,QPath.order,hp p _ _]
    | qualified u n p => simp [QPath.key,QPath.order,Nat.compare_eq_ite_lt]
  qualified t n r ss ht hss hp := by
    intro q ks ls
    cases q with
    | plain p => simp [QPath.key,QPath.order,Nat.compare_eq_ite_lt]
    | qualified u n' p =>
        simp [QPath.key,QPath.order,compare_toNat_uint64,andThen_assoc,ht u _ _,hp p _ _]
  missing := by
    intro e ks ls
    cases e with
    | missing => simp [Expr.key,Expr.order]
    | _ => exact Expr.sorts_of_className_ne (by simp only [Expr.className]; decide) ks ls
  block s k y es hes := by
    intro e ks ls
    cases e with
    | block s' k' y' es' =>
        simp [Expr.key,Expr.order,BlockKind.order_key,compare_toNat_bool,andThen_assoc,
          Expr.sorts_list hes es' _ _]
    | _ => exact Expr.sorts_of_className_ne (by simp only [Expr.className]; decide) ks ls
  call s p es hp hes := by
    intro e ks ls
    cases e with
    | call s' p' es' =>
        simp [Expr.key,Expr.order,andThen_assoc,hp p' _ _,Expr.sorts_list hes es' _ _]
    | _ => exact Expr.sorts_of_className_ne (by simp only [Expr.className]; decide) ks ls
  int s n c := by
    intro e ks ls
    cases e with
    | int s' n' c' => simp [Expr.key,Expr.order,compare_toNat_uint64,andThen_assoc]
    | _ => exact Expr.sorts_of_className_ne (by simp only [Expr.className]; decide) ks ls
  bool s b := by
    intro e ks ls
    cases e with
    | bool s' b' => simp [Expr.key,Expr.order,compare_toNat_bool]
    | _ => exact Expr.sorts_of_className_ne (by simp only [Expr.className]; decide) ks ls
  str s t := by
    intro e ks ls
    cases e with
    | str s' t' => simp [Expr.key,Expr.order,Key.sorts_ofText t t' _ _]
    | _ => exact Expr.sorts_of_className_ne (by simp only [Expr.className]; decide) ks ls
  name s p hp := by
    intro e ks ls
    cases e with
    | name s' p' => simp [Expr.key,Expr.order,hp p' _ _]
    | _ => exact Expr.sorts_of_className_ne (by simp only [Expr.className]; decide) ks ls
  binary s op l r hl hr := by
    intro e ks ls
    cases e with
    | binary s' op' l' r' => simp [Expr.key,Expr.order,andThen_assoc,hl l' _ _,hr r' _ _]
    | _ => exact Expr.sorts_of_className_ne (by simp only [Expr.className]; decide) ks ls
  unary s op e he := by
    intro e' ks ls
    cases e' with
    | unary s' op' e' => simp [Expr.key,Expr.order,andThen_assoc,he e' _ _]
    | _ => exact Expr.sorts_of_className_ne (by simp only [Expr.className]; decide) ks ls

end Turbofish
