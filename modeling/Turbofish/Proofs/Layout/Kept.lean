import Turbofish.Proofs.Brackets.Depth
import Turbofish.Token.Layout

/-!
# The tokens that are written

Whether a separator is written is decided by the token right after it. So what is written
of two lists of tokens one after the other is what is written of each, unless the first
ends with a separator that the second one has to decide. Separators are no brackets, and
leaving some out moves no token to another depth.
-/
namespace Turbofish.Token

theorem kept_cons_of_not_separator {t : Token} (h : t.isSeparator = false) (ts : List Token) :
    kept (t :: ts) = t :: kept ts := by
  rw [kept,h]
  rfl

theorem kept_cons_cons (t u : Token) (ts : List Token) :
    kept (t :: u :: ts) =
      if t.isSeparator && u.replacesSeparator then kept (u :: ts) else t :: kept (u :: ts) := rfl

/-- A separator that nothing takes the place of is written. -/
theorem kept_cons_of_not_replaced {u : Token} (hu : u.replacesSeparator = false) (t : Token)
    (ts : List Token) : kept (t :: u :: ts) = t :: kept (u :: ts) := by
  rw [kept_cons_cons,hu,Bool.and_false]
  rfl

theorem kept_cons_of_replaced {t : Token} (ht : t.isSeparator = true) {ts : List Token}
    (hts : ts.head?.all replacesSeparator = true) : kept (t :: ts) = kept ts := by
  rw [kept,ht,hts]
  rfl

theorem kept_append {ts us : List Token}
    (h : (∀ t ∈ ts.getLast?, t.isSeparator = false) ∨ us.head?.all replacesSeparator = true) :
    kept (ts ++ us) = kept ts ++ kept us := by
  induction ts with
  | nil => rfl
  | cons t ts ih =>
      cases ts with
      | nil =>
          change kept (t :: us) = kept [t] ++ kept us
          cases ht : t.isSeparator with
          | false =>
              rw [kept_cons_of_not_separator ht,kept_cons_of_not_separator ht]
              rfl
          | true =>
              have hnext := h.resolve_left fun hlast => absurd (hlast t rfl) (by rw [ht]; nofun)
              rw [kept_cons_of_replaced ht hnext,kept_cons_of_replaced ht rfl]
              rfl
      | cons u ts =>
          have hrest : kept (u :: (ts ++ us)) = kept (u :: ts) ++ kept us := ih h
          rw [List.cons_append,List.cons_append,kept_cons_cons,kept_cons_cons,hrest]
          split
          · rfl
          · rfl

/-- No separator is decided by the tokens in front of it. -/
theorem kept_suffix_append (ts us : List Token) : kept us <:+ kept (ts ++ us) := by
  induction ts with
  | nil => exact List.suffix_rfl
  | cons t ts ih =>
      rw [List.cons_append,kept]
      split
      · exact ih
      · exact ih.trans (List.suffix_cons t _)

theorem kept_sublist (ts : List Token) : (kept ts).Sublist ts := by
  induction ts with
  | nil => exact .slnil
  | cons t ts ih =>
      rw [kept]
      split
      · exact ih.cons t
      · exact ih.cons_cons t

/-! ## Depth -/

section

variable {ts : List Token}

theorem depthBehind_kept (h : ∀ t ∈ ts, t.isSeparator = true → t.mark? = none) (depth : Nat) :
    depthBehind depth (kept ts) = depthBehind depth ts := by
  induction ts generalizing depth with
  | nil => rfl
  | cons t ts ih =>
      obtain ⟨ht,hts⟩ := List.forall_mem_cons.mp h
      rw [kept]
      split
      · rename_i hdropped
        change _ = depthBehind (depthAfter depth t) ts
        rw [depthAfter_of_mark? (ht (Bool.and_eq_true_iff.mp hdropped).1),ih hts]
      · exact ih hts _

theorem placed_kept (h : ∀ t ∈ ts, t.isSeparator = true → t.mark? = none) (depth : Nat) :
    (placed depth (kept ts)).Sublist (placed depth ts) := by
  induction ts generalizing depth with
  | nil => exact .slnil
  | cons t ts ih =>
      obtain ⟨ht,hts⟩ := List.forall_mem_cons.mp h
      rw [kept,placed]
      split
      · rename_i hdropped
        rw [depthAfter_of_mark? (ht (Bool.and_eq_true_iff.mp hdropped).1)]
        exact (ih hts depth).cons _
      · exact (ih hts _).cons_cons _

theorem Nested.kept {P : Token → Prop} (hts : Nested P ts)
    (h : ∀ t ∈ ts, t.isSeparator = true → t.mark? = none) : Nested P (kept ts) := by
  intro depth
  rw [depthBehind_kept h]
  exact ⟨(hts depth).1,fun p hp => (hts depth).2 p ((placed_kept h depth).subset hp)⟩

end

end Turbofish.Token
