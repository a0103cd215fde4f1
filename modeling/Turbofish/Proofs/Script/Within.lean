import Turbofish.Proofs.Script.Failure

/-!
# Scripts inside of scripts

A script stands within another one when all that it writes is written there in one run of
tokens, as far as the other one comes to no fault.
-/
namespace Turbofish.Script

def Within (r s : Script) : Prop := s.Complete → r.Complete ∧ r.output.items <:+: s.output.items

namespace Within

variable {r s t : Script}

theorem refl (s : Script) : Within s s := fun hs => ⟨hs,List.infix_refl _⟩

theorem trans (hrs : Within r s) (hst : Within s t) : Within r t := by
  intro ht
  obtain ⟨hs,hsub⟩ := hst ht
  obtain ⟨hr,hsub'⟩ := hrs hs
  exact ⟨hr,hsub'.trans hsub⟩

theorem of_output_eq (h : r.output = s.output) : Within r s := by
  intro hs
  unfold Complete at hs ⊢
  rw [h]
  exact ⟨hs,List.infix_refl _⟩

theorem left (h : Within r s) (t : Script) : Within r (s ++ t) := by
  apply h.trans
  intro hst
  have hs := (complete_append_iff.mp hst).1
  rw [output_append,Output.append_of_complete hs]
  exact ⟨hs,(List.prefix_append _ _).isInfix⟩

theorem right (h : Within r t) (s : Script) : Within r (s ++ t) := by
  apply h.trans
  intro hst
  obtain ⟨hs,ht⟩ := complete_append_iff.mp hst
  rw [output_append,Output.append_of_complete hs]
  exact ⟨ht,(List.suffix_append _ _).isInfix⟩

theorem scope (h : Within r s) (site : Site) : Within r (scope site s done) :=
  h.trans (of_output_eq (output_scope_done site s).symm)

theorem onlyIf {c : Bool} (hc : c = true) (h : Within r s) : Within r (onlyIf c s) := by
  rw [Script.onlyIf,if_pos hc]
  exact h

end Within

end Turbofish.Script
