import Turbofish.Proofs.Reading.Form
import Turbofish.Proofs.Script.Within

/-!
# What stands behind a script inside of another one

A script that is written inside of another one stands at its end, or some token stands behind
it. Behind the parts of a node these are few: separators, closing brackets, `,` and `;`, which
take the place of a separator, and `as`, `::`, `(` and operators, which do not.
-/
namespace Turbofish

/-- The tokens in front of which the last separator of a list stays, where the list stands in
front of them. -/
def Token.retainsSeparator (t : Token) : Bool :=
  t.cls == .operator || t == .sym "::" || t == .sym "(" || t == .keyword "as"

/-- Whether a token may stand behind a part of a node. -/
def Token.followsPart (t : Token) : Bool := t.replacesSeparator || t.retainsSeparator

namespace Script

/-- All that a script writes is written in another one, at its end. -/
def Last (r s : Script) : Prop := s.Complete → r.Complete ∧ r.output.items <:+ s.output.items

/-- All that a script writes is written in another one, and a token that follows parts is
behind it. -/
def Followed (r s : Script) : Prop :=
  s.Complete → r.Complete ∧ ∃ before t after,
    s.output.items = before ++ r.output.items ++ t :: after ∧ t.followsPart = true

def Placed (r s : Script) : Prop := Followed r s ∨ Last r s

/-- The script begins with a token that follows parts. -/
abbrev Follows (s : Script) : Prop := s.output.Leads fun t => t.followsPart = true

variable {r s t : Script} {ss : List Script}

theorem Follows.token {u : Token} (h : u.followsPart = true) (s : Script) : (token u s).Follows :=
  Output.leads_cons h s.output

/-! ## At the end -/

namespace Last

theorem refl (s : Script) : Last s s := fun hs => ⟨hs,List.suffix_refl _⟩

theorem trans (hrs : Last r s) (hst : Last s t) : Last r t := by
  intro ht
  obtain ⟨hs,hsub⟩ := hst ht
  obtain ⟨hr,hsub'⟩ := hrs hs
  exact ⟨hr,hsub'.trans hsub⟩

theorem of_output_eq (h : r.output = s.output) : Last r s := by
  intro hs
  unfold Complete at hs ⊢
  rw [h]
  exact ⟨hs,List.suffix_refl _⟩

/-- A script that writes nothing stands anywhere. -/
theorem of_output_nil (h : r.output = .nil) (s : Script) : Last r s := by
  intro _
  unfold Complete
  rw [h]
  exact ⟨rfl,List.nil_suffix⟩

theorem fail (r : Script) (f : Fault) : Last r (fail f) := fun h => absurd h (not_complete_fail f)

theorem right (h : Last r t) (s : Script) : Last r (s ++ t) := by
  apply h.trans
  intro hst
  obtain ⟨hs,ht⟩ := complete_append_iff.mp hst
  rw [output_append,Output.append_of_complete hs]
  exact ⟨ht,List.suffix_append _ _⟩

theorem scope (h : Last r s) (site : Site) : Last r (scope site s done) :=
  h.trans (of_output_eq (output_scope_done site s).symm)

/-- What writes nothing may stand behind it as well. -/
theorem left (h : Last r s) (ht : t.output = .nil) : Last r (s ++ t) := by
  apply h.trans
  refine of_output_eq ?_
  rw [output_append,ht,Output.append_nil]

theorem followed (h : Last r s) (ht : t.Follows) : Followed r (s ++ t) := by
  intro hst
  obtain ⟨hs,-⟩ := complete_append_iff.mp hst
  obtain ⟨hr,before,hbefore⟩ := h hs
  obtain ⟨u,rest,hrest,hu⟩ := ht
  refine ⟨hr,before,u,rest.items,?_,hu⟩
  rw [output_append,Output.append_of_complete hs,hrest,hbefore]
  rfl

theorem within (h : Last r s) : Within r s := fun hs => ⟨(h hs).1,(h hs).2.isInfix⟩

end Last

/-! ## In front of a token -/

namespace Followed

theorem trans_within (hrs : Followed r s) (hst : Within s t) : Followed r t := by
  intro ht
  obtain ⟨hs,a,b,hab⟩ := hst ht
  obtain ⟨hr,before,u,after,hitems,hu⟩ := hrs hs
  refine ⟨hr,a ++ before,u,after ++ b,?_,hu⟩
  rw [← hab,hitems]
  simp only [List.append_assoc,List.cons_append]

theorem left (h : Followed r s) (t : Script) : Followed r (s ++ t) :=
  h.trans_within ((Within.refl s).left t)

theorem right (h : Followed r t) (s : Script) : Followed r (s ++ t) :=
  h.trans_within ((Within.refl t).right s)

theorem scope (h : Followed r s) (site : Site) : Followed r (scope site s done) :=
  h.trans_within ((Within.refl s).scope site)

theorem within (h : Followed r s) : Within r s := by
  intro hs
  obtain ⟨hr,before,u,after,hitems,-⟩ := h hs
  exact ⟨hr,before,u :: after,hitems.symm⟩

theorem of_last (hrs : Last r s) (hst : Followed s t) : Followed r t := by
  intro ht
  obtain ⟨hs,before,u,after,hitems,hu⟩ := hst ht
  obtain ⟨hr,front,hfront⟩ := hrs hs
  refine ⟨hr,before ++ front,u,after,?_,hu⟩
  rw [hitems,← hfront]
  simp only [List.append_assoc]

end Followed

/-! ## Either -/

namespace Placed

theorem within (h : Placed r s) : Within r s := h.elim Followed.within Last.within

theorem trans (hrs : Placed r s) (hst : Placed s t) : Placed r t := by
  rcases hrs with hrs | hrs
  · exact .inl (hrs.trans_within hst.within)
  · exact hst.imp (Followed.of_last hrs) hrs.trans

theorem right (h : Placed r t) (s : Script) : Placed r (s ++ t) :=
  h.imp (Followed.right · s) (Last.right · s)

theorem scope (h : Placed r s) (site : Site) : Placed r (scope site s done) :=
  h.imp (Followed.scope · site) (Last.scope · site)

theorem followed (h : Placed r s) (ht : t.Follows) : Followed r (s ++ t) :=
  h.elim (Followed.left · t) (Last.followed · ht)

/-- What is written in front of the script and behind it. -/
theorem exists_items (h : Placed r s) (hs : s.Complete) : r.Complete ∧ ∃ before after,
    s.output.items = before ++ r.output.items ++ after ∧
      ∀ t ∈ after.head?, t.followsPart = true := by
  rcases h with h | h
  · obtain ⟨hr,before,t,after,hitems,ht⟩ := h hs
    exact ⟨hr,before,t :: after,hitems,fun u hu => Option.some.inj hu ▸ ht⟩
  · obtain ⟨hr,before,hitems⟩ := h hs
    exact ⟨hr,before,[],by rw [List.append_nil,hitems],nofun⟩

theorem onlyIf {c : Bool} (h : Placed r s) (hc : c = true) : Placed r (onlyIf c s) := by
  rw [Script.onlyIf,if_pos hc]
  exact h

theorem parenthesizedIf (h : Placed r s) (c : Bool) : Placed r (parenthesizedIf c s) := by
  cases c with
  | false => exact h
  | true => exact .inl ((h.right (sym "(")).followed (Follows.token (by decide) _))

end Placed

/-- What stands in front of something that is optional. -/
theorem Last.placed_onlyIf (h : Last r s) (c : Bool) (ht : t.Follows) :
    Placed r (s ++ onlyIf c t) := by
  cases c with
  | false => exact .inr (h.left rfl)
  | true => exact .inl (h.followed ht)

/-! ## Elements of lists -/

theorem Followed.separated (hs : s ∈ ss) (sep : Text) : Followed s (separated sep ss) := by
  induction hs with
  | head ss => exact ((Last.refl s).followed (Follows.token rfl _)).left _
  | tail t _ ih => exact ih.right _

theorem Followed.items (hs : s ∈ ss) : Followed s (items ss) := by
  cases ss with
  | nil => cases hs
  | cons t ss =>
      cases ss with
      | nil =>
          rw [List.mem_singleton.mp hs]
          exact (Last.refl t).followed (Follows.token (by decide) _)
      | cons u ss => exact separated hs ","

theorem follows_each {ss : List Script} (hne : ss ≠ []) : (each "::" ss).Follows := by
  cases ss with
  | nil => exact absurd rfl hne
  | cons s ss => exact Follows.token (by decide) _

theorem Last.placed_each (h : Last r s) (ss : List Script) : Placed r (s ++ each "::" ss) := by
  cases ss with
  | nil => exact .inr (h.left rfl)
  | cons t ss => exact .inl (h.followed (follows_each nofun))

theorem Placed.each (hs : s ∈ ss) : Placed s (each "::" ss) := by
  induction hs with
  | head ss => exact ((Last.refl s).right _).placed_each ss
  | tail t _ ih => exact ih.right _

theorem Placed.segments (hs : s ∈ ss) (rooted : Bool) : Placed s (segments rooted ss) := by
  cases hs with
  | head ss => exact ((Last.refl s).right _).placed_each ss
  | tail t hs => exact (each hs).right _

theorem Placed.statements (hs : s ∈ ss) (yields : Bool) : Placed s (statements yields ss) := by
  induction ss with
  | nil => cases hs
  | cons t ss ih =>
      cases ss with
      | nil =>
          rw [List.mem_singleton.mp hs]
          exact (Last.refl t).placed_onlyIf _ (Follows.token (by decide) _)
      | cons u ss =>
          rcases List.mem_cons.mp hs with rfl | hs
          · exact .inl (((Last.refl s).followed (Follows.token (by decide) _)).left _)
          · exact (ih hs).right _

/-- The self type of a qualified path, and each of its segments. -/
theorem Placed.qualified {self : Script} (position : UInt64) (rooted : Bool)
    (hs : s = self ∨ s ∈ ss) : Placed s (qualified self position rooted ss) := by
  have hclosed : (sym ">").Follows := Follows.token (by decide) _
  unfold Script.qualified
  rcases hs with rfl | hs
  · have hremark : (Script.onlyIf (ss.length < position.toNat)
        (remark (.clampedPosition position ss.length) done)).output = .nil := by
      cases decide (ss.length < position.toNat) <;> rfl
    have hself := ((Last.refl s).right (sym "<")).left hremark
    have has : (keyword "as" ++ Script.segments rooted (ss.take position.toNat)).Follows :=
      Follows.token (by decide) _
    exact .inl (((hself.placed_onlyIf _ has).followed hclosed).left _)
  · rw [← List.take_append_drop position.toNat ss] at hs
    rcases List.mem_append.mp hs with htake | hdrop
    · have hne : (!(ss.take position.toNat).isEmpty) = true := by
        rw [Bool.not_eq_true',List.isEmpty_eq_false_iff]
        exact List.ne_nil_of_mem htake
      have hinterface := ((segments htake rooted).right (keyword "as")).onlyIf hne
      exact .inl (((hinterface.right _).followed hclosed).left _)
    · exact (each hdrop).right _

end Script

end Turbofish
