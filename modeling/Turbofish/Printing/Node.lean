import Turbofish.Trace.Run

/-!
# Printing nodes of every kind

A tree can be looked at from any of its nodes. A node whose kind is known only when
it is met is printed and displayed here as its kind is.
-/
namespace Turbofish

inductive Node
  | lifetime (lifetime : Lifetime)
  | ty (ty : Ty)
  | path (path : Path)
  | qpath (path : QPath)
  | segment (segment : Segment)
  | args (args : Args)
  | arg (arg : Arg)
  | bound (bound : Bound)
  | expr (expr : Expr)
  deriving Repr

instance : Coe Ty Node := ⟨.ty⟩

namespace Node

def script : Node → Script
  | lifetime l => l.script
  | ty t => t.script
  | path p => p.script
  | qpath p => p.script
  | segment s => s.script
  | args as => as.script
  | arg a => a.script
  | bound b => b.script
  | expr e => e.tracedScript

@[simp] theorem script_lifetime (l : Lifetime) : (lifetime l).script = l.script := rfl

@[simp] theorem script_ty (t : Ty) : (ty t).script = t.script := rfl

@[simp] theorem script_path (p : Path) : (path p).script = p.script := rfl

@[simp] theorem script_qpath (p : QPath) : (qpath p).script = p.script := rfl

@[simp] theorem script_segment (s : Segment) : (segment s).script = s.script := rfl

@[simp] theorem script_args (as : Args) : (args as).script = as.script := rfl

@[simp] theorem script_arg (a : Arg) : (arg a).script = a.script := rfl

@[simp] theorem script_bound (b : Bound) : (bound b).script = b.script := rfl

@[simp] theorem script_expr (e : Expr) : (expr e).script = e.tracedScript := rfl

/-- Types, paths and expressions are printed in a phase of their own, and other
nodes in whatever phase is current. -/
def hasPhase : Node → Bool
  | ty _ | path _ | qpath _ | expr _ => true
  | lifetime _ | segment _ | args _ | arg _ | bound _ => false

def print (node : Node) : Trace.State → Script.Run :=
  if node.hasPhase then node.script.print else node.script.run

/-- The text of a node in a diagnostic. Arguments and argument lists show their
variant alone, and lifetimes show even when they are unspecified. -/
def display : Node → Trace.State → Except Fault Text
  | lifetime l, _ => .ok l.text
  | args as, _ => .ok as.variantName
  | arg a, _ => .ok a.variantName
  | expr .missing, _ => .ok (Text.ofString "null")
  | node, s => (node.script.display s).text

end Node

end Turbofish
