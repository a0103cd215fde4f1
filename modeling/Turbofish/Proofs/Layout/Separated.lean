import Turbofish.Proofs.Layout.Kept
import Turbofish.Proofs.Script.Failure

/-!
# Lists with a separator behind each element

Where each element starts with a token that takes the place of no separator, every separator
but the last one stands between two elements and is written. The last one is written as well,
unless what follows the list takes its place.
-/
namespace Turbofish

namespace Token

/-- The elements of a list, each with a separator behind it. -/
def separatedBy (sep : Text) (elements : List (List Token)) : List Token :=
  elements.flatMap (· ++ [separator sep])

theorem separatedBy_cons (sep : Text) (e : List Token) (es : List (List Token)) :
    separatedBy sep (e :: es) = e ++ separator sep :: separatedBy sep es := List.append_assoc ..

/-- What is left of the last separator of a list. -/
def lastSeparator (sep : Text) (rest : List Token) : List Token :=
  if rest.head?.all replacesSeparator then [] else [separator sep]

theorem kept_separator_cons (sep : Text) (rest : List Token) :
    kept (separator sep :: rest) = lastSeparator sep rest ++ kept rest := by
  rw [kept,lastSeparator]
  split
  · rename_i hdropped
    rw [if_pos (Bool.and_eq_true_iff.mp hdropped).2]
    rfl
  · rename_i hwritten
    rw [if_neg fun h => hwritten (Bool.and_eq_true_iff.mpr ⟨rfl,h⟩)]
    rfl

theorem kept_separatedBy (sep : Text) {es : List (List Token)} (hne : es ≠ [])
    (hes : ∀ e ∈ es, ∃ t ∈ e.head?, t.replacesSeparator = false) (rest : List Token) :
    kept (separatedBy sep es ++ rest) =
      [separator sep].intercalate (es.map kept) ++ lastSeparator sep rest ++ kept rest := by
  induction es with
  | nil => exact absurd rfl hne
  | cons e es ih =>
      obtain ⟨-,hes⟩ := List.forall_mem_cons.mp hes
      rw [separatedBy_cons,List.append_assoc,kept_append (.inr rfl),List.map_cons,List.cons_append]
      cases es with
      | nil =>
          change kept e ++ kept (separator sep :: rest) = _
          rw [kept_separator_cons,List.map_nil,List.intercalate_singleton,List.append_assoc]
      | cons f es =>
          obtain ⟨⟨t,ht,hwritten⟩,-⟩ := List.forall_mem_cons.mp hes
          obtain ⟨u,hu⟩ : ∃ u, separatedBy sep (f :: es) ++ rest = t :: u := by
            cases f with
            | nil => cases ht
            | cons v f => cases ht; exact ⟨_,rfl⟩
          have hseparator := kept_cons_of_not_replaced hwritten (separator sep) u
          rw [← hu,ih nofun hes] at hseparator
          rw [hseparator,List.map_cons,List.intercalate_cons_cons]
          simp only [List.append_assoc,List.cons_append,List.nil_append]

/-- The last separator gives way to what takes its place. -/
theorem kept_separatedBy_of_replaces (sep : Text) {es : List (List Token)}
    (hes : ∀ e ∈ es, ∃ t ∈ e.head?, t.replacesSeparator = false) {rest : List Token}
    (hrest : rest.head?.all replacesSeparator = true) :
    kept (separatedBy sep es ++ rest) =
      [separator sep].intercalate (es.map kept) ++ kept rest := by
  cases es with
  | nil => rfl
  | cons e es =>
      have h := kept_separatedBy sep (List.cons_ne_nil e es) hes rest
      rw [lastSeparator,if_pos hrest,List.append_nil] at h
      exact h

end Token

theorem Script.separated_items (sep : Text) {ss : List Script} (h : ∀ s ∈ ss, s.Complete) :
    (separated sep ss).output.items = Token.separatedBy sep (ss.map (·.output.items)) := by
  induction ss with
  | nil => rfl
  | cons s ss ih =>
      obtain ⟨hs,hss⟩ := List.forall_mem_cons.mp h
      have hhead : (s ++ separator sep).Complete := complete_append_iff.mpr ⟨hs,rfl⟩
      rw [separated,output_append,Output.append_of_complete hhead,output_append,
        Output.append_of_complete hs]
      exact congrArg _ (ih hss)

end Turbofish
