import Turbofish.Proofs.Reading.Complete
import Turbofish.Proofs.Script.Regular

/-!
# Where scripts fail

A script that is put together from others comes to no fault exactly when none of those
does, as far as they are reached at all.
-/
namespace Turbofish.Script

variable {r s b : Script} {ss : List Script}

@[simp] theorem complete_done : Complete done := rfl

@[simp] theorem not_complete_fail (f : Fault) : ¬ Complete (fail f) := nofun

@[simp] theorem complete_sym (text : Text) : Complete (sym text) := rfl

@[simp] theorem complete_keyword (text : Text) : Complete (keyword text) := rfl

@[simp] theorem complete_literal (text : Text) : Complete (literal text) := rfl

@[simp] theorem complete_lifetime (name : Text) : Complete (lifetime name) := rfl

@[simp] theorem complete_separator (text : Text) : Complete (separator text) := rfl

@[simp] theorem complete_remark_iff (m : Remark) : (remark m r).Complete ↔ r.Complete := Iff.rfl

@[simp] theorem complete_append_iff : (r ++ s).Complete ↔ r.Complete ∧ s.Complete := by
  unfold Complete
  rw [output_append]
  exact Output.append_complete_iff _ _

@[simp] theorem complete_scope_iff (site : Site) :
    (scope site b done).Complete ↔ b.Complete := by
  unfold Complete
  rw [output,Output.append_complete_iff]
  exact and_iff_left rfl

@[simp] theorem complete_onlyIf_iff {c : Bool} :
    (onlyIf c s).Complete ↔ (c = true → s.Complete) := by
  cases c <;> simp [onlyIf]

@[simp] theorem complete_parenthesizedIf_iff {c : Bool} :
    (parenthesizedIf c s).Complete ↔ s.Complete := by
  cases c <;> simp [parenthesizedIf]

@[simp] theorem complete_ident_iff {name : Text} : (ident name).Complete ↔ name ≠ [] := by
  unfold ident Token.ident
  cases name with
  | nil => simp [ofExcept]
  | cons b name =>
      rw [if_neg (by simp)]
      split <;> exact ⟨fun _ => List.cons_ne_nil b name,fun _ => rfl⟩

/-! ## Lists -/

@[simp] theorem complete_separated_iff {sep : Text} :
    (separated sep ss).Complete ↔ ∀ s ∈ ss, s.Complete := separated_complete_iff sep ss

@[simp] theorem complete_each_iff {mark : Text} :
    (each mark ss).Complete ↔ ∀ s ∈ ss, s.Complete := by
  induction ss with
  | nil => simp [each]
  | cons s ss ih => simp [each,ih]

@[simp] theorem complete_segments_iff {rooted : Bool} :
    (segments rooted ss).Complete ↔ ∀ s ∈ ss, s.Complete := by
  cases ss <;> simp [segments]

@[simp] theorem complete_items_iff : (items ss).Complete ↔ ∀ s ∈ ss, s.Complete := by
  cases ss with
  | nil => simp [items,separated]
  | cons s ss =>
      cases ss with
      | nil => simp [items]
      | cons t ss => exact complete_separated_iff

@[simp] theorem complete_statements_iff {yields : Bool} :
    (statements yields ss).Complete ↔ ∀ s ∈ ss, s.Complete := by
  induction ss with
  | nil => simp [statements]
  | cons s ss ih =>
      cases ss with
      | nil => simp [statements]
      | cons t ss => simp [statements,ih]

/-- The segments in front of the position of a qualified path and those behind it are all
that is printed besides the self type. -/
@[simp] theorem complete_qualified_iff {position : UInt64} {rooted : Bool} :
    (qualified s position rooted ss).Complete ↔ s.Complete ∧ ∀ r ∈ ss, r.Complete := by
  have hinterface : (onlyIf (!(ss.take position.toNat).isEmpty)
      (keyword "as" ++ segments rooted (ss.take position.toNat))).Complete ↔
        ∀ r ∈ ss.take position.toNat, r.Complete := by
    cases ss.take position.toNat <;> simp
  unfold qualified
  simp only [complete_append_iff,hinterface,complete_sym,complete_onlyIf_iff,complete_remark_iff,
    complete_done,complete_each_iff,true_and,and_true,implies_true]
  rw [and_assoc,← List.forall_mem_append,List.take_append_drop]

end Turbofish.Script
