import Turbofish.Trace.Session
import Turbofish.Syntax.Clone
import Turbofish.Syntax.Edit
import Turbofish.Syntax.Order

/-!
# Nodes of every kind

What can be done with a node of one kind, beside printing it, is done here for a
node whose kind is known only when it is met.
-/
namespace Turbofish.Node

def clone : Node → Except Fault Node
  | lifetime l => .ok (lifetime l)
  | ty t => ty <$> t.clone
  | path p => path <$> p.clone
  | qpath p => qpath <$> p.clone
  | segment s => segment <$> s.clone
  | args as => args <$> as.clone
  | arg a => arg <$> a.clone
  | bound b => bound <$> b.clone
  | expr e => expr <$> e.clone

/-- Nodes of different kinds have no order. -/
def order? : Node → Node → Option Comparison
  | lifetime a, lifetime b => some (.ok (a.order b))
  | ty a, ty b => some (a.order b)
  | path a, path b => some (a.order b)
  | qpath a, qpath b => some (a.order b)
  | segment a, segment b => some (a.order b)
  | args a, args b => some (a.order b)
  | arg a, arg b => some (a.order b)
  | bound a, bound b => some (a.order b)
  | expr a, expr b => some (a.order b)
  | _, _ => none

/-- A change of the path that a path, a qualified path or a path type holds. -/
def mapPath (f : Path → Path) : Node → Option Node
  | path p => some (path (f p))
  | qpath q => some (qpath (q.mapPath f))
  | ty t => if t.isPath then some (ty (t.mapPath f)) else none
  | _ => none

/-- A change of a qualified path. -/
def mapQPath (f : QPath → QPath) : Node → Option Node
  | qpath q => some (qpath (f q))
  | _ => none

end Turbofish.Node
