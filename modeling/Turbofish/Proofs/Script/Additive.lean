import Turbofish.Printing.Tree

/-!
# Properties of scripts that lists keep

A property that holds of the empty script, and of two scripts one after the other
when it holds of both, holds of a list of scripts with their separators.
-/
namespace Turbofish.Script

structure Additive (Q : Script → Prop) : Prop where
  done : Q done
  append {r s : Script} (hr : Q r) (hs : Q s) : Q (r ++ s)

namespace Additive

variable {Q : Script → Prop}

theorem onlyIf (h : Additive Q) {c : Bool} {s : Script} (hs : c = true → Q s) :
    Q (onlyIf c s) := by
  cases c with
  | false => exact h.done
  | true => exact hs rfl

theorem separated (h : Additive Q) {sep : Text} {ss : List Script} (hsep : Q (separator sep))
    (hss : ∀ s ∈ ss, Q s) : Q (separated sep ss) := by
  induction ss with
  | nil => exact h.done
  | cons s ss ih =>
      obtain ⟨hs,hss⟩ := List.forall_mem_cons.mp hss
      exact h.append (h.append hs hsep) (ih hss)

theorem each (h : Additive Q) {mark : Text} {ss : List Script} (hmark : Q (sym mark))
    (hss : ∀ s ∈ ss, Q s) : Q (each mark ss) := by
  induction ss with
  | nil => exact h.done
  | cons s ss ih =>
      obtain ⟨hs,hss⟩ := List.forall_mem_cons.mp hss
      exact h.append (h.append hmark hs) (ih hss)

theorem segments (h : Additive Q) {rooted : Bool} {ss : List Script} (hmark : Q (sym "::"))
    (hss : ∀ s ∈ ss, Q s) : Q (segments rooted ss) := by
  cases ss with
  | nil => exact h.done
  | cons s ss =>
      obtain ⟨hs,hss⟩ := List.forall_mem_cons.mp hss
      exact h.append (h.append (h.onlyIf fun _ => hmark) hs) (h.each hmark hss)

theorem items (h : Additive Q) {ss : List Script} (hcomma : Q (sym ","))
    (hsep : Q (separator ",")) (hss : ∀ s ∈ ss, Q s) : Q (items ss) := by
  match ss with
  | [] => exact h.done
  | [s] => exact h.append (hss s (List.mem_cons_self ..)) hcomma
  | s :: t :: ss => exact h.separated hsep hss

theorem statements (h : Additive Q) {yields : Bool} {ss : List Script} (hmark : Q (sym ";"))
    (hss : ∀ s ∈ ss, Q s) : Q (statements yields ss) := by
  induction ss with
  | nil => exact h.done
  | cons s ss ih =>
      obtain ⟨hs,hss⟩ := List.forall_mem_cons.mp hss
      cases ss with
      | nil => exact h.append hs (h.onlyIf fun _ => hmark)
      | cons t ss => exact h.append (h.append hs hmark) (ih hss)

/-- The brackets of `<T as a::Tr>::x` stand around the type and the interface, of which
another property may be asked. -/
theorem qualified (h : Additive Q) {R : Script → Prop} (hR : Additive R)
    (himp : ∀ {s : Script}, Q s → R s)
    (hbetween : ∀ {s : Script}, R s → Q (sym "<" ++ s ++ sym ">"))
    (hremark : ∀ m : Remark, R (.remark m .done)) (has : R (keyword "as")) (hmark : Q (sym "::"))
    {self : Script} (hself : R self) (position : UInt64) (rooted : Bool) {ss : List Script}
    (hss : ∀ s ∈ ss, Q s) : Q (qualified self position rooted ss) := by
  have hclamp : R (Script.onlyIf (ss.length < position.toNat)
      (.remark (.clampedPosition position ss.length) .done)) := hR.onlyIf fun _ => hremark _
  have hinterface : R (Script.onlyIf (!(ss.take position.toNat).isEmpty)
      (Script.keyword "as" ++ Script.segments rooted (ss.take position.toNat))) :=
    hR.onlyIf fun _ => hR.append has
      (hR.segments (himp hmark) fun s hs => himp (hss s (List.mem_of_mem_take hs)))
  have hrest : Q (Script.each "::" (ss.drop position.toNat)) :=
    h.each hmark fun s hs => hss s (List.mem_of_mem_drop hs)
  have hinside := hbetween (hR.append (hR.append hself hclamp) hinterface)
  have hwhole := h.append hinside hrest
  unfold Script.qualified
  simp only [append_assoc] at hwhole ⊢
  exact hwhole

end Additive

end Turbofish.Script
