import Turbofish.Proofs.Layout.Kept

/-!
# Separators decided from the end

A separator can also be judged by the token that is written behind it, once all tokens behind
it have been judged. That token need not be the one right after the separator, but a run of
separators is thinned out to the same tokens either way: what is dropped in front of a token
would be dropped in front of whatever is written in that token's place.
-/
namespace Turbofish.Token

/-- Puts a token in front of what is written behind it. A separator is left out at the end, in
front of another separator or a closing bracket, and in front of a symbol `,` or `;`. -/
def keepInFront (t : Token) : List Token → List Token
  | [] => if t.isSeparator then [] else [t]
  | next :: later =>
    if t.isSeparator && (next.isSeparator || next.isCloser || next.isSymbolOf [",", ";"]) then
      next :: later
    else t :: next :: later

/-- The tokens that are written, found from the end of the list backwards. -/
def keptFromEnd (ts : List Token) : List Token := ts.foldr keepInFront []

theorem keepInFront_eq_ite (t : Token) (later : List Token) :
    keepInFront t later =
      if t.isSeparator && later.head?.all replacesSeparator then later else t :: later := by
  cases later with
  | nil =>
      cases ht : t.isSeparator <;> simp [keepInFront,ht]
  | cons next later => rfl

/-- A list and what is written of it start alike, as far as a separator in front of them is
concerned. -/
theorem all_head?_kept (ts : List Token) :
    (kept ts).head?.all replacesSeparator = ts.head?.all replacesSeparator := by
  induction ts with
  | nil => rfl
  | cons t ts ih =>
      rw [kept]
      split
      · -- The separator is dropped, and it would have had another one dropped in front of it.
        rename_i hdropped
        obtain ⟨ht,hts⟩ := Bool.and_eq_true_iff.mp hdropped
        have hreplaces : t.replacesSeparator = true := by
          unfold replacesSeparator
          rw [ht]
          rfl
        rw [ih,hts]
        exact hreplaces.symm
      · rfl

theorem kept_eq_keptFromEnd (ts : List Token) : kept ts = keptFromEnd ts := by
  induction ts with
  | nil => rfl
  | cons t ts ih =>
      change kept (t :: ts) = keepInFront t (keptFromEnd ts)
      rw [← ih,keepInFront_eq_ite,all_head?_kept]
      rfl

/-- Of a run of separators the last one is left, unless it is dropped as well. -/
example : keptFromEnd [keyword "A",separator ">",separator "+",keyword "B",separator ",",
    separator ">",sym ">"] = [keyword "A",separator "+",keyword "B",sym ">"] := by decide

/-- Nothing more is dropped from what is written. -/
theorem kept_kept (ts : List Token) : kept (kept ts) = kept ts := by
  induction ts with
  | nil => rfl
  | cons t ts ih =>
      rw [kept]
      split
      · exact ih
      · rename_i hwritten
        rw [kept,all_head?_kept,if_neg hwritten,ih]

theorem filter_kept (ts : List Token) :
    (kept ts).filter (!·.isSeparator) = ts.filter (!·.isSeparator) := by
  induction ts with
  | nil => rfl
  | cons t ts ih =>
      rw [kept]
      split
      · rename_i hdropped
        rw [ih,List.filter_cons,(Bool.and_eq_true_iff.mp hdropped).1]
        rfl
      · rw [List.filter_cons,List.filter_cons,ih]

/-- Deciding each separator by the token right after it gives the tokens that are found from
the end backwards, and those are what is laid out. Only separators are left out, the rest
stays in order, and laying out what was written gives the same line again. -/
theorem cleanup_from_end (ts : List Token) :
    kept ts = keptFromEnd ts ∧ render ts = layout (keptFromEnd ts) ∧ (kept ts).Sublist ts ∧
      (kept ts).filter (!·.isSeparator) = ts.filter (!·.isSeparator) ∧
      render (kept ts) = render ts := by
  have hkept := kept_eq_keptFromEnd ts
  refine ⟨hkept,?_,kept_sublist ts,filter_kept ts,?_⟩
  · unfold render
    rw [hkept]
  · unfold render
    rw [kept_kept]

end Turbofish.Token
