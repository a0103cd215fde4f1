import Mathlib.Data.List.Forall2
import Turbofish.Printing.Tree

/-!
# Relations between scripts that lists keep

A relation that holds of two scripts put together when it holds of their parts, and does
not look at the sites of scopes, holds of two lists of scripts with their separators when
it holds element by element.
-/
namespace Turbofish.Script

structure Congruent (R : Script → Script → Prop) : Prop where
  refl (s : Script) : R s s
  append {r r' s s' : Script} (hr : R r r') (hs : R s s') : R (r ++ s) (r' ++ s')
  scope (site site' : Site) {b b' : Script} (hb : R b b') :
    R (scope site b done) (scope site' b' done)

namespace Congruent

variable {R : Script → Script → Prop} {s s' : Script} {ss ss' : List Script}

theorem onlyIf (h : Congruent R) (c : Bool) (hs : R s s') : R (onlyIf c s) (onlyIf c s') := by
  cases c with
  | false => exact h.refl done
  | true => exact hs

theorem parenthesizedIf (h : Congruent R) (c : Bool) (hs : R s s') :
    R (parenthesizedIf c s) (parenthesizedIf c s') := by
  cases c with
  | false => exact hs
  | true => exact h.append (h.append (h.refl _) hs) (h.refl _)

theorem separated (h : Congruent R) (sep : Text) (hss : List.Forall₂ R ss ss') :
    R (separated sep ss) (separated sep ss') := by
  induction hss with
  | nil => exact h.refl done
  | cons hs _ ih => exact h.append (h.append hs (h.refl _)) ih

theorem each (h : Congruent R) (mark : Text) (hss : List.Forall₂ R ss ss') :
    R (each mark ss) (each mark ss') := by
  induction hss with
  | nil => exact h.refl done
  | cons hs _ ih => exact h.append (h.append (h.refl _) hs) ih

theorem segments (h : Congruent R) (rooted : Bool) (hss : List.Forall₂ R ss ss') :
    R (segments rooted ss) (segments rooted ss') := by
  cases hss with
  | nil => exact h.refl done
  | cons hs hss => exact h.append (h.append (h.refl _) hs) (h.each _ hss)

theorem items (h : Congruent R) (hss : List.Forall₂ R ss ss') : R (items ss) (items ss') := by
  cases hss with
  | nil => exact h.refl done
  | cons hs hss =>
      cases hss with
      | nil => exact h.append hs (h.refl _)
      | cons ht hss => exact h.separated "," (.cons hs (.cons ht hss))

theorem statements (h : Congruent R) (yields : Bool) (hss : List.Forall₂ R ss ss') :
    R (statements yields ss) (statements yields ss') := by
  induction hss with
  | nil => exact h.refl done
  | cons hs hss ih =>
      cases hss with
      | nil => exact h.append hs (h.refl _)
      | cons ht hss => exact h.append (h.append hs (h.refl _)) ih

end Congruent

/-- Scripts that write the same, up to the same fault. -/
def SameOutput (r s : Script) : Prop := r.output = s.output

theorem SameOutput.congruent : Congruent SameOutput where
  refl _ := rfl
  append {r r' s s'} hr hs := by
    unfold SameOutput at hr hs ⊢
    rw [output_append,output_append,hr,hs]
  scope _ _ {_ _} hb := congrArg (· ++ Output.nil) hb

/-- Two lists of scripts that come from one list of nodes. -/
theorem SameOutput.map {α : Type} {f g : α → Script} {as : List α}
    (h : ∀ a ∈ as, SameOutput (f a) (g a)) :
    List.Forall₂ SameOutput (as.map f) (as.map g) :=
  List.forall₂_map_left_iff.mpr (List.forall₂_map_right_iff.mpr (List.forall₂_same.mpr h))

end Turbofish.Script
