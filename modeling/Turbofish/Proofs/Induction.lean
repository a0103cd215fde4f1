import Turbofish.Syntax.Tree

/-!
# Induction over trees of every kind

The kinds of node are defined together, so a property of one kind is proved
together with one for every other. A family holds those properties, and a family
that every constructor preserves holds of all trees. The elements of a list
each have the property of their kind; a list has none of its own.
-/
namespace Turbofish

structure Family where
  ty : Ty → Prop
  bound : Bound → Prop
  path : Path → Prop
  segment : Segment → Prop
  args : Args → Prop
  arg : Arg → Prop
  qpath : QPath → Prop
  expr : Expr → Prop

namespace Family

/-- Every constructor preserves the family. -/
structure Inductive (P : Family) : Prop where
  movedTy (s : Span) : P.ty (.moved s)
  invalid (s : Span) : P.ty (.invalid s)
  infer (s : Span) : P.ty (.infer s)
  never (s : Span) : P.ty (.never s)
  unit (s : Span) : P.ty (.unit s)
  tuple (s : Span) (ts : List Ty) (hts : ∀ t ∈ ts, P.ty t) : P.ty (.tuple s ts)
  borrow (s : Span) (l : Lifetime) (m : Bool) (t : Ty) (ht : P.ty t) : P.ty (.borrow s l m t)
  pointer (s : Span) (m : Bool) (t : Ty) (ht : P.ty t) : P.ty (.pointer s m t)
  array (s : Span) (t : Ty) (n : Expr) (ht : P.ty t) (hn : P.expr n) : P.ty (.array s t n)
  pathTy (s : Span) (p : QPath) (hp : P.qpath p) : P.ty (.path s p)
  traitObject (s : Span) (bs : List Bound) (hbs : ∀ b ∈ bs, P.bound b) : P.ty (.traitObject s bs)
  erased (s : Span) (bs : List Bound) (hbs : ∀ b ∈ bs, P.bound b) : P.ty (.erased s bs)
  movedBound : P.bound .moved
  emptyBound : P.bound .empty
  lifetimeBound (l : Lifetime) : P.bound (.lifetime l)
  trait (ls : List Lifetime) (p : Path) (hp : P.path p) : P.bound (.trait ls p)
  maybe (p : Path) (hp : P.path p) : P.bound (.maybe p)
  path (r : Bool) (ss : List Segment) (hss : ∀ s ∈ ss, P.segment s) : P.path (.mk r ss)
  segment (n : Text) (as : Args) (has : P.args as) : P.segment (.mk n as)
  movedArgs : P.args .moved
  noArgs : P.args .none
  angle (r : Bool) (as : List Arg) (has : ∀ a ∈ as, P.arg a) : P.args (.angle r as)
  parenthesized (ts : List Ty) (o : Option Ty) (hts : ∀ t ∈ ts, P.ty t) (ho : ∀ t ∈ o, P.ty t) :
    P.args (.parenthesized ts o)
  movedArg : P.arg .moved
  lifetimeArg (l : Lifetime) : P.arg (.lifetime l)
  tyArg (t : Ty) (ht : P.ty t) : P.arg (.ty t)
  valueArg (e : Expr) (he : P.expr e) : P.arg (.value e)
  binding (n : Text) (t : Ty) (ht : P.ty t) : P.arg (.binding n t)
  constraint (n : Text) (bs : List Bound) (hbs : ∀ b ∈ bs, P.bound b) : P.arg (.constraint n bs)
  plain (p : Path) (hp : P.path p) : P.qpath (.plain p)
  /-- A path with a self type is not written as a path, so its segments are given too. -/
  qualified (t : Ty) (n : UInt64) (r : Bool) (ss : List Segment) (ht : P.ty t)
    (hss : ∀ s ∈ ss, P.segment s) (hp : P.path (.mk r ss)) : P.qpath (.qualified t n (.mk r ss))
  missing : P.expr .missing
  block (s : Span) (k : BlockKind) (y : Bool) (es : List Expr) (hes : ∀ e ∈ es, P.expr e) :
    P.expr (.block s k y es)
  call (s : Span) (p : QPath) (es : List Expr) (hp : P.qpath p) (hes : ∀ e ∈ es, P.expr e) :
    P.expr (.call s p es)
  int (s : Span) (n : UInt64) (c : CoreType) : P.expr (.int s n c)
  bool (s : Span) (b : Bool) : P.expr (.bool s b)
  str (s : Span) (t : Text) : P.expr (.str s t)
  name (s : Span) (p : QPath) (hp : P.qpath p) : P.expr (.name s p)
  binary (s : Span) (op : BinaryOp) (l r : Expr) (hl : P.expr l) (hr : P.expr r) :
    P.expr (.binary s op l r)
  unary (s : Span) (op : UnaryOp) (e : Expr) (he : P.expr e) : P.expr (.unary s op e)

namespace Inductive

variable {P : Family}

mutual

theorem all_ty (h : P.Inductive) : ∀ t : Ty, P.ty t
  | .moved s => h.movedTy s
  | .invalid s => h.invalid s
  | .infer s => h.infer s
  | .never s => h.never s
  | .unit s => h.unit s
  | .tuple s ts => h.tuple s ts (h.all_tys ts)
  | .borrow s l m t => h.borrow s l m t (h.all_ty t)
  | .pointer s m t => h.pointer s m t (h.all_ty t)
  | .array s t n => h.array s t n (h.all_ty t) (h.all_expr n)
  | .path s p => h.pathTy s p (h.all_qpath p)
  | .traitObject s bs => h.traitObject s bs (h.all_bounds bs)
  | .erased s bs => h.erased s bs (h.all_bounds bs)

theorem all_tys (h : P.Inductive) : ∀ ts : List Ty, ∀ t ∈ ts, P.ty t
  | [] => List.forall_mem_nil _
  | t :: ts => List.forall_mem_cons.mpr ⟨h.all_ty t,h.all_tys ts⟩

theorem all_output (h : P.Inductive) : ∀ o : Option Ty, ∀ t ∈ o, P.ty t
  | none => nofun
  | some t => fun _ hu => Option.some.inj hu ▸ h.all_ty t

theorem all_bound (h : P.Inductive) : ∀ b : Bound, P.bound b
  | .moved => h.movedBound
  | .empty => h.emptyBound
  | .lifetime l => h.lifetimeBound l
  | .trait ls p => h.trait ls p (h.all_path p)
  | .maybe p => h.maybe p (h.all_path p)

theorem all_bounds (h : P.Inductive) : ∀ bs : List Bound, ∀ b ∈ bs, P.bound b
  | [] => List.forall_mem_nil _
  | b :: bs => List.forall_mem_cons.mpr ⟨h.all_bound b,h.all_bounds bs⟩

theorem all_path (h : P.Inductive) : ∀ p : Path, P.path p
  | .mk r ss => h.path r ss (h.all_segments ss)

theorem all_segment (h : P.Inductive) : ∀ s : Segment, P.segment s
  | .mk n as => h.segment n as (h.all_args as)

theorem all_segments (h : P.Inductive) : ∀ ss : List Segment, ∀ s ∈ ss, P.segment s
  | [] => List.forall_mem_nil _
  | s :: ss => List.forall_mem_cons.mpr ⟨h.all_segment s,h.all_segments ss⟩

theorem all_args (h : P.Inductive) : ∀ as : Args, P.args as
  | .moved => h.movedArgs
  | .none => h.noArgs
  | .angle r as => h.angle r as (h.all_argList as)
  | .parenthesized ts o => h.parenthesized ts o (h.all_tys ts) (h.all_output o)

theorem all_arg (h : P.Inductive) : ∀ a : Arg, P.arg a
  | .moved => h.movedArg
  | .lifetime l => h.lifetimeArg l
  | .ty t => h.tyArg t (h.all_ty t)
  | .value e => h.valueArg e (h.all_expr e)
  | .binding n t => h.binding n t (h.all_ty t)
  | .constraint n bs => h.constraint n bs (h.all_bounds bs)

theorem all_argList (h : P.Inductive) : ∀ as : List Arg, ∀ a ∈ as, P.arg a
  | [] => List.forall_mem_nil _
  | a :: as => List.forall_mem_cons.mpr ⟨h.all_arg a,h.all_argList as⟩

theorem all_qpath (h : P.Inductive) : ∀ p : QPath, P.qpath p
  | .plain p => h.plain p (h.all_path p)
  | .qualified t n (.mk r ss) =>
      h.qualified t n r ss (h.all_ty t) (h.all_segments ss) (h.path r ss (h.all_segments ss))

theorem all_expr (h : P.Inductive) : ∀ e : Expr, P.expr e
  | .missing => h.missing
  | .block s k y es => h.block s k y es (h.all_exprs es)
  | .call s p es => h.call s p es (h.all_qpath p) (h.all_exprs es)
  | .int s n c => h.int s n c
  | .bool s b => h.bool s b
  | .str s t => h.str s t
  | .name s p => h.name s p (h.all_qpath p)
  | .binary s op l r => h.binary s op l r (h.all_expr l) (h.all_expr r)
  | .unary s op e => h.unary s op e (h.all_expr e)

theorem all_exprs (h : P.Inductive) : ∀ es : List Expr, ∀ e ∈ es, P.expr e
  | [] => List.forall_mem_nil _
  | e :: es => List.forall_mem_cons.mpr ⟨h.all_expr e,h.all_exprs es⟩

end

end Inductive

end Family

end Turbofish
