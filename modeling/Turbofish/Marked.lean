/-!
# Elements with their ends marked

Where a list is written, what stands around an element can depend on whether it
is the first or the last one.
-/
namespace Turbofish

structure Marked (α : Type) where
  value : α
  isFirst : Bool
  isLast : Bool
  deriving DecidableEq, Repr

namespace Marked

variable {α : Type}

/-- The elements of what is left of a list, where `first` says whether the next
one begins the list. -/
def marks (first : Bool) : List α → List (Marked α)
  | [] => []
  | [a] => [⟨a, first, true⟩]
  | a :: b :: rest => ⟨a, first, false⟩ :: marks false (b :: rest)

def ofList (as : List α) : List (Marked α) := marks true as

/-- The first elements of a list, marked as a list of their own. -/
def ofFirst (count : Nat) (as : List α) : List (Marked α) := ofList (as.take count)

end Marked

end Turbofish
