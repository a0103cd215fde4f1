import Turbofish.Syntax.Describe

/-!
# Changing paths

Segments are added and removed at the end and replaced by their number; a number
past the end changes nothing, and nothing is removed from an empty path. The
changes reach the path of a qualified path and of a path type.
-/
namespace Turbofish

namespace Path

def push (p : Path) (s : Segment) : Path := mk p.rooted (p.segments ++ [s])

def pop (p : Path) : Path := mk p.rooted p.segments.dropLast

def setSegment (p : Path) (i : Nat) (s : Segment) : Path := mk p.rooted (p.segments.set i s)

def setArgs (p : Path) (i : Nat) (args : Args) : Path :=
  mk p.rooted (p.segments.modify i fun s => .mk s.name args)

def setRooted (p : Path) (rooted : Bool) : Path := mk rooted p.segments

end Path

namespace QPath

def mapPath (f : Path → Path) : QPath → QPath
  | plain p => plain (f p)
  | qualified t n p => qualified t n (f p)

def setSelf (q : QPath) (self : Ty) (position : UInt64) : QPath := qualified self position q.path

def removeSelf (q : QPath) : QPath := plain q.path

/-- Nothing changes where there is no self type. -/
def setPosition (q : QPath) (position : UInt64) : QPath :=
  match q with
  | plain p => plain p
  | qualified t _ p => qualified t position p

end QPath

/-- Nothing changes in a type that is not a path. -/
def Ty.mapPath (f : Path → Path) : Ty → Ty
  | .path s q => .path s (q.mapPath f)
  | t => t

end Turbofish
