import Turbofish.Span

/-!
# Recorded spans

Two spans are the same when they were recorded together, not when they name
the same place: recording a location twice gives two spans. All spans without
a location are the same one.
-/
namespace Turbofish.Span

/-- The locations recorded so far, in order. -/
structure Ledger where
  locations : List Location
  deriving DecidableEq, Repr

/-- A recorded span: nothing, or the number of its location in the ledger. -/
structure Handle where
  number : Option Nat
  deriving DecidableEq, Repr

namespace Ledger

def empty : Ledger := ⟨[]⟩

def record (ledger : Ledger) : Span → Ledger × Handle
  | none => (ledger, ⟨none⟩)
  | some l => (⟨ledger.locations ++ [l]⟩, ⟨some ledger.locations.length⟩)

/-- The span behind a handle. -/
def lookup (ledger : Ledger) (handle : Handle) : Span :=
  handle.number.bind fun n => ledger.locations[n]?

theorem lookup_record (ledger : Ledger) (span : Span) :
    (ledger.record span).1.lookup (ledger.record span).2 = span := by
  cases span with
  | none => rfl
  | some l => simp [record, lookup]

end Ledger

/-- Whether a handle stands for a location. -/
def Handle.isSet (handle : Handle) : Bool := handle.number.isSome

end Turbofish.Span
