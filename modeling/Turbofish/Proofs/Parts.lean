import Mathlib.Logic.Relation
import Turbofish.Node
import Turbofish.Proofs.Induction

/-!
# The parts of a node

The nodes right below a node are its parts, whatever their kinds are. A node contains
itself, its parts and theirs. A property that holds of a node when it holds of all its
parts holds of every node, and a property that asks one thing of the node itself and
the same property of its parts asks that thing of every node it contains.
-/
namespace Turbofish

/-! ## The parts of each kind of node -/

/-- The lifetime of a borrow, which may be left out, is no part of it. -/
def Ty.parts : Ty → List Node
  | .moved _ | .invalid _ | .infer _ | .never _ | .unit _ => []
  | .tuple _ ts => ts.map .ty
  | .borrow _ _ _ t => [.ty t]
  | .pointer _ _ t => [.ty t]
  | .array _ t n => [.ty t, .expr n]
  | .path _ p => [.qpath p]
  | .traitObject _ bs => bs.map .bound
  | .erased _ bs => bs.map .bound

def Bound.parts : Bound → List Node
  | .moved | .empty => []
  | .lifetime l => [.lifetime l]
  | .trait ls p => ls.map .lifetime ++ [.path p]
  | .maybe p => [.path p]

def Path.parts : Path → List Node
  | .mk _ ss => ss.map .segment

def Segment.parts : Segment → List Node
  | .mk _ as => [.args as]

def Args.parts : Args → List Node
  | .moved | .none => []
  | .angle _ as => as.map .arg
  | .parenthesized ts o => ts.map .ty ++ o.toList.map .ty

def Arg.parts : Arg → List Node
  | .moved => []
  | .lifetime l => [.lifetime l]
  | .ty t => [.ty t]
  | .value e => [.expr e]
  | .binding _ t => [.ty t]
  | .constraint _ bs => bs.map .bound

/-- The segments of a path with a self type are parts of the qualified path. -/
def QPath.parts : QPath → List Node
  | .plain p => [.path p]
  | .qualified t _ (.mk _ ss) => .ty t :: ss.map .segment

def Expr.parts : Expr → List Node
  | .missing | .int _ _ _ | .bool _ _ | .str _ _ => []
  | .block _ _ _ es => es.map .expr
  | .call _ p es => .qpath p :: es.map .expr
  | .name _ p => [.qpath p]
  | .binary _ _ l r => [.expr l, .expr r]
  | .unary _ _ e => [.expr e]

namespace Node

/-- The nodes right below a node. -/
def parts : Node → List Node
  | lifetime _ => []
  | ty t => t.parts
  | path p => p.parts
  | qpath p => p.parts
  | segment s => s.parts
  | args as => as.parts
  | arg a => a.parts
  | bound b => b.parts
  | expr e => e.parts

/-- Whether the content of the node itself was moved out. -/
def isMoved : Node → Bool
  | ty (.moved _) | bound .moved | args .moved | arg .moved => true
  | _ => false

/-- The parts that are printed: all but the moved arguments of an argument list. -/
def printedParts : Node → List Node
  | args (.angle _ as) => (as.filter fun a => a.group? ≠ none).map arg
  | n => n.parts

/-- The node itself or a node anywhere below it. -/
def Contains : Node → Node → Prop := Relation.ReflTransGen fun n m => m ∈ n.parts

/-- A node that is reached through printed parts. -/
def Prints : Node → Node → Prop := Relation.ReflTransGen fun n m => m ∈ n.printedParts

theorem mem_parts_of_printed {n m : Node} (h : m ∈ n.printedParts) : m ∈ n.parts := by
  unfold printedParts at h
  split at h
  · obtain ⟨a,ha,rfl⟩ := List.mem_map.mp h
    exact List.mem_map.mpr ⟨a,(List.mem_filter.mp ha).1,rfl⟩
  · exact h

theorem Prints.contains {n m : Node} (h : n.Prints m) : n.Contains m :=
  Relation.ReflTransGen.mono (fun _ _ => mem_parts_of_printed) n m h

/-! ## Induction over parts -/

/-- The families in which every kind of node has one property of nodes. -/
def family (P : Node → Prop) : Family where
  ty t := P (ty t)
  bound b := P (bound b)
  path p := P (path p)
  segment s := P (segment s)
  args as := P (args as)
  arg a := P (arg a)
  qpath p := P (qpath p)
  expr e := P (expr e)

section

variable {P : Node → Prop}

/-- A step over parts is a step of every constructor. -/
theorem family_inductive (h : ∀ n, (∀ m ∈ n.parts, P m) → P n) : (family P).Inductive where
  movedTy _ := h _ (List.forall_mem_nil _)
  invalid _ := h _ (List.forall_mem_nil _)
  infer _ := h _ (List.forall_mem_nil _)
  never _ := h _ (List.forall_mem_nil _)
  unit _ := h _ (List.forall_mem_nil _)
  tuple _ _ hts := h _ (List.forall_mem_map.mpr hts)
  borrow _ _ _ _ ht := h _ (List.forall_mem_singleton.mpr ht)
  pointer _ _ _ ht := h _ (List.forall_mem_singleton.mpr ht)
  array _ _ _ ht hn := h _ (List.forall_mem_cons.mpr ⟨ht,List.forall_mem_singleton.mpr hn⟩)
  pathTy _ _ hp := h _ (List.forall_mem_singleton.mpr hp)
  traitObject _ _ hbs := h _ (List.forall_mem_map.mpr hbs)
  erased _ _ hbs := h _ (List.forall_mem_map.mpr hbs)
  movedBound := h _ (List.forall_mem_nil _)
  emptyBound := h _ (List.forall_mem_nil _)
  lifetimeBound _ := h _ (List.forall_mem_singleton.mpr (h _ (List.forall_mem_nil _)))
  trait _ _ hp := h _ (List.forall_mem_append.mpr
    ⟨List.forall_mem_map.mpr fun _ _ => h _ (List.forall_mem_nil _),List.forall_mem_singleton.mpr hp⟩)
  maybe _ hp := h _ (List.forall_mem_singleton.mpr hp)
  path _ _ hss := h _ (List.forall_mem_map.mpr hss)
  segment _ _ has := h _ (List.forall_mem_singleton.mpr has)
  movedArgs := h _ (List.forall_mem_nil _)
  noArgs := h _ (List.forall_mem_nil _)
  angle _ _ has := h _ (List.forall_mem_map.mpr has)
  parenthesized _ _ hts ho := h _ (List.forall_mem_append.mpr
    ⟨List.forall_mem_map.mpr hts,List.forall_mem_map.mpr fun t ht => ho t (Option.mem_toList.mp ht)⟩)
  movedArg := h _ (List.forall_mem_nil _)
  lifetimeArg _ := h _ (List.forall_mem_singleton.mpr (h _ (List.forall_mem_nil _)))
  tyArg _ ht := h _ (List.forall_mem_singleton.mpr ht)
  valueArg _ he := h _ (List.forall_mem_singleton.mpr he)
  binding _ _ ht := h _ (List.forall_mem_singleton.mpr ht)
  constraint _ _ hbs := h _ (List.forall_mem_map.mpr hbs)
  plain _ hp := h _ (List.forall_mem_singleton.mpr hp)
  qualified _ _ _ _ ht hss _ := h _ (List.forall_mem_cons.mpr ⟨ht,List.forall_mem_map.mpr hss⟩)
  missing := h _ (List.forall_mem_nil _)
  block _ _ _ _ hes := h _ (List.forall_mem_map.mpr hes)
  call _ _ _ hp hes := h _ (List.forall_mem_cons.mpr ⟨hp,List.forall_mem_map.mpr hes⟩)
  int _ _ _ := h _ (List.forall_mem_nil _)
  bool _ _ := h _ (List.forall_mem_nil _)
  str _ _ := h _ (List.forall_mem_nil _)
  name _ _ hp := h _ (List.forall_mem_singleton.mpr hp)
  binary _ _ _ _ hl hr := h _ (List.forall_mem_cons.mpr ⟨hl,List.forall_mem_singleton.mpr hr⟩)
  unary _ _ _ he := h _ (List.forall_mem_singleton.mpr he)

theorem parts_induction (h : ∀ n, (∀ m ∈ n.parts, P m) → P n) : ∀ n, P n
  | lifetime _ => h _ (List.forall_mem_nil _)
  | ty t => (family_inductive h).all_ty t
  | path p => (family_inductive h).all_path p
  | qpath p => (family_inductive h).all_qpath p
  | segment s => (family_inductive h).all_segment s
  | args as => (family_inductive h).all_args as
  | arg a => (family_inductive h).all_arg a
  | bound b => (family_inductive h).all_bound b
  | expr e => (family_inductive h).all_expr e

end

/-! ## Properties of every node that is reached -/

theorem forall_contains_iff {P : Node → Prop} (n : Node) :
    (∀ m, n.Contains m → P m) ↔ P n ∧ ∀ p ∈ n.parts, ∀ m, p.Contains m → P m := by
  constructor
  · intro h
    exact ⟨h n .refl,fun p hp m hm => h m (.head hp hm)⟩
  · rintro ⟨hn,hparts⟩ m hm
    rcases hm.cases_head with rfl | ⟨p,hp,hpm⟩
    · exact hn
    · exact hparts p hp m hpm

section

variable {below : Node → List Node} {P Q : Node → Prop}

/-- What holds of a node when something holds of it, and the same of all that is below it,
holds exactly when that holds of every node that is reached. -/
theorem holds_iff_of_step (hbelow : ∀ n m, m ∈ below n → m ∈ n.parts)
    (h : ∀ n, Q n ↔ P n ∧ ∀ m ∈ below n, Q m) (n : Node) :
    Q n ↔ ∀ m, Relation.ReflTransGen (fun a b => b ∈ below a) n m → P m := by
  constructor
  · intro hn m hm
    induction hm using Relation.ReflTransGen.head_induction_on with
    | refl => exact ((h _).mp hn).1
    | head hstep _ ih => exact ih (((h _).mp hn).2 _ hstep)
  · induction n using parts_induction with
    | h n ih =>
        intro hn
        refine (h n).mpr ⟨hn n .refl,fun m hm => ?_⟩
        exact ih m (hbelow n m hm) fun k hk => hn k (.head hm hk)

end

end Node

end Turbofish
