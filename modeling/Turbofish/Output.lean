import Turbofish.Fault

/-!
# Output that a fault may cut short

What was written, in order, and the fault that ended the writing if there was
one. Nothing is written after a fault.
-/
namespace Turbofish

structure Output (α : Type) where
  items : List α
  fault : Option Fault
  deriving DecidableEq, Repr

namespace Output

variable {α : Type}

def nil : Output α := ⟨[], none⟩

def fail (fault : Fault) : Output α := ⟨[], some fault⟩

def ofList (items : List α) : Output α := ⟨items, none⟩

def cons (a : α) (o : Output α) : Output α := ⟨a :: o.items, o.fault⟩

/-- The second part is written only where the first one ended without a fault. -/
def append (first second : Output α) : Output α :=
  match first.fault with
  | none => ⟨first.items ++ second.items, second.fault⟩
  | some _ => first

instance : Append (Output α) := ⟨append⟩

@[simp] theorem nil_append (o : Output α) : nil ++ o = o := rfl

@[simp] theorem append_nil (o : Output α) : o ++ nil = o := by
  obtain ⟨items, fault⟩ := o
  cases fault
  · exact congrArg (mk · none) (List.append_nil items)
  · rfl

@[simp] theorem fail_append (f : Fault) (o : Output α) : fail f ++ o = fail f := rfl

@[simp] theorem cons_append (a : α) (o p : Output α) : cons a o ++ p = cons a (o ++ p) := by
  obtain ⟨items, fault⟩ := o
  cases fault <;> rfl

theorem append_assoc (o p q : Output α) : o ++ p ++ q = o ++ (p ++ q) := by
  obtain ⟨items, fault⟩ := o
  obtain ⟨items', fault'⟩ := p
  cases fault
  · cases fault'
    · exact congrArg (mk · q.fault) (List.append_assoc items items' q.items)
    · rfl
  · rfl

theorem append_of_complete {o : Output α} (h : o.fault = none) (p : Output α) :
    o ++ p = ⟨o.items ++ p.items, p.fault⟩ := by
  obtain ⟨items, fault⟩ := o
  cases h
  rfl

theorem append_of_fault {o : Output α} {f : Fault} (h : o.fault = some f) (p : Output α) :
    o ++ p = o := by
  obtain ⟨items, fault⟩ := o
  cases h
  rfl

theorem append_complete_iff (o p : Output α) :
    (o ++ p).fault = none ↔ o.fault = none ∧ p.fault = none := by
  obtain ⟨items, fault⟩ := o
  cases fault with
  | none => exact ⟨fun h => ⟨rfl, h⟩, fun h => h.2⟩
  | some f => exact ⟨fun h => absurd h nofun, fun h => absurd h.1 nofun⟩

/-- Several parts with something between each two of them. -/
def joined (between : List α) : List (Output α) → Output α
  | [] => nil
  | [o] => o
  | o :: p :: rest => o ++ (ofList between ++ joined between (p :: rest))

/-- All that was written, or the fault. -/
def toExcept (o : Output α) : Except Fault (List α) :=
  match o.fault with
  | none => .ok o.items
  | some f => .error f

end Output

end Turbofish
