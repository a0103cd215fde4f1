import Turbofish.Proofs.Layout.Kept

/-!
# The line of two lists of tokens

Tokens that follow a list add to its line and change nothing in it: what was decided about
its separators stands, apart from a separator at its end, which was not written and may be
written now. Where the list does not end with a separator, the line of the whole is put
together from the two lines, and what stands between them depends on one token of each.
-/
namespace Turbofish.Token

/-! ## Lines -/

theorem layout_append (ts : List Token) (t u : Token) (us : List Token) :
    layout (ts ++ t :: u :: us) = layout (ts ++ [t]) ++ gap t u ++ layout (u :: us) := by
  induction ts with
  | nil => rfl
  | cons v ts ih =>
      cases ts with
      | nil =>
          simp only [List.cons_append,List.nil_append,layout,List.append_assoc]
      | cons w ts =>
          simp only [List.cons_append,layout,List.append_assoc] at ih ⊢
          rw [ih]

/-- What is written between a token and the tokens behind it; nothing where there are none. -/
def gapBefore (t : Token) (us : List Token) : Text := us.head?.elim [] (gap t)

theorem layout_append_of_getLast? {ts : List Token} {t : Token} (h : t ∈ ts.getLast?)
    (us : List Token) : layout (ts ++ us) = layout ts ++ gapBefore t us ++ layout us := by
  obtain ⟨start,rfl⟩ := List.getLast?_eq_some_iff.mp h
  cases us with
  | nil => simp only [gapBefore,layout,List.append_nil,List.head?_nil,Option.elim_none]
  | cons u us =>
      rw [List.append_assoc,List.singleton_append,layout_append]
      rfl

theorem layout_mono {ts us : List Token} (h : ts <+: us) : layout ts <+: layout us := by
  obtain ⟨rest,rfl⟩ := h
  cases hlast : ts.getLast? with
  | none =>
      rw [List.getLast?_eq_none_iff.mp hlast]
      exact List.nil_prefix
  | some t =>
      rw [layout_append_of_getLast? hlast,List.append_assoc]
      exact List.prefix_append _ _

/-! ## Written tokens -/

theorem kept_prefix_append (ts us : List Token) : kept ts <+: kept (ts ++ us) := by
  induction ts with
  | nil => exact List.nil_prefix
  | cons t ts ih =>
      cases ts with
      | nil =>
          -- What follows decides about a separator at the end, and about nothing else.
          cases ht : t.isSeparator with
          | true =>
              rw [kept_cons_of_replaced ht rfl]
              exact List.nil_prefix
          | false =>
              rw [List.singleton_append,kept_cons_of_not_separator ht,
                kept_cons_of_not_separator ht]
              exact List.prefix_append [t] _
      | cons u ts =>
          have hrest : kept (u :: ts) <+: kept (u :: (ts ++ us)) := ih
          rw [List.cons_append,List.cons_append,kept_cons_cons,kept_cons_cons]
          split
          · exact hrest
          · exact (List.prefix_cons_inj t).mpr hrest

theorem getLast?_kept {ts : List Token} {t : Token} (hlast : t ∈ ts.getLast?)
    (ht : t.isSeparator = false) : t ∈ (kept ts).getLast? := by
  obtain ⟨start,rfl⟩ := List.getLast?_eq_some_iff.mp hlast
  obtain ⟨written,hwritten⟩ := kept_suffix_append start [t]
  rw [kept_cons_of_not_separator ht] at hwritten
  rw [← hwritten]
  exact List.getLast?_concat

/-! ## Both together -/

/-- The line of a list is the beginning of the line of the list with more behind it. Where the
list does not end with a separator, the rest is the line of what was added, with a space in
front of it where its first written token has to stand apart from the last one of the list. -/
theorem render_append (ts us : List Token) :
    render ts <+: render (ts ++ us) ∧
      ∀ t ∈ ts.getLast?, t.isSeparator = false →
        render (ts ++ us) = render ts ++ gapBefore t (kept us) ++ render us := by
  refine ⟨layout_mono (kept_prefix_append ts us),fun t hlast ht => ?_⟩
  have hkept : kept (ts ++ us) = kept ts ++ kept us := by
    refine kept_append (.inl fun u hu => ?_)
    rw [Option.mem_unique hu hlast]
    exact ht
  unfold render
  rw [hkept]
  exact layout_append_of_getLast? (getLast?_kept hlast ht) (kept us)

/-- Of the two separators behind `T as`, only the second one is written. -/
theorem render_append_separators :
    keyword "as" ∈ [keyword "T",keyword "as"].getLast? ∧ (keyword "as").isSeparator = false ∧
      render [keyword "T",keyword "as",separator ",",separator "+",keyword "A"] =
        render [keyword "T",keyword "as"] ++ Text.ofString " " ++
          render [separator ",",separator "+",keyword "A"] := by
  have hlast : keyword "as" ∈ [keyword "T",keyword "as"].getLast? := rfl
  have happended := (render_append [keyword "T",keyword "as"]
    [separator ",",separator "+",keyword "A"]).2 (keyword "as") hlast rfl
  have hgap : gapBefore (keyword "as") (kept [separator ",",separator "+",keyword "A"]) =
      Text.ofString " " := by decide
  rw [hgap] at happended
  exact ⟨hlast,rfl,happended⟩

end Turbofish.Token
