import Turbofish.Proofs.Layout.Separated

/-!
# Lists with a comma behind each element

Where the elements hold no commas outside of their own brackets, cutting the list behind
each of its outer commas gives the elements back, and there is one comma less between them
than there are elements.
-/
namespace Turbofish

/-- The pieces of a list that is cut behind each element with a property. -/
def cutBehind {α : Type} (p : α → Bool) : List α → List (List α)
  | [] => []
  | a :: as =>
    if p a then [a] :: cutBehind p as
    else match cutBehind p as with
      | [] => [[a]]
      | piece :: pieces => (a :: piece) :: pieces

theorem cutBehind_append {α : Type} {p : α → Bool} {as : List α} {b : α}
    (has : ∀ a ∈ as, p a = false) (hb : p b = true) (rest : List α) :
    cutBehind p (as ++ b :: rest) = (as ++ [b]) :: cutBehind p rest := by
  induction as with
  | nil => exact if_pos hb
  | cons a as ih =>
      obtain ⟨ha,has⟩ := List.forall_mem_cons.mp has
      rw [List.cons_append,cutBehind,ha,ih has]
      rfl

namespace Token

/-- The pieces between the outermost separators `,` of some tokens, each with the separator
behind it. -/
def pieces (tokens : List Token) : List (List Token) :=
  (cutBehind (fun p => p.1 == 0 && p.2 == separator ",") (placed 0 tokens)).map
    (·.map Prod.snd)

/-- The number of the commas outside of all brackets, whether they may be dropped or not. -/
def outerCommas (tokens : List Token) : Nat :=
  (placed 0 tokens).countP fun p => p.1 == 0 && p.2.isSymbolOf [","]

/-- Every comma is inside of brackets. -/
abbrev CommasNested (ts : List Token) : Prop := Nested (fun t => t.isSymbolOf [","] = false) ts

theorem map_snd_placed (depth : Nat) (ts : List Token) : (placed depth ts).map Prod.snd = ts := by
  induction ts generalizing depth with
  | nil => rfl
  | cons t ts ih => rw [placed,List.map_cons,ih]

/-! ## Cutting a list into its elements -/

theorem pieces_append {e : List Token} (he : CommasNested e) (rest : List Token) :
    pieces (e ++ separator "," :: rest) = (e ++ [separator ","]) :: pieces rest := by
  obtain ⟨hbehind,hplaced⟩ := he 0
  have hcomma : depthAfter 0 (separator ",") = 0 := depthAfter_of_mark? (by decide) 0
  have hinside : ∀ p ∈ placed 0 e, (p.1 == 0 && p.2 == separator ",") = false := by
    intro p hp
    rw [Bool.and_eq_false_iff,beq_eq_false_iff_ne,beq_eq_false_iff_ne]
    by_cases hzero : p.1 = 0
    · right
      intro hsep
      have hplain := (hplaced p hp).2 hzero
      rw [hsep] at hplain
      exact absurd hplain (by decide)
    · left
      exact hzero
  unfold pieces
  rw [placed_append,hbehind,placed,hcomma,cutBehind_append hinside (by decide),List.map_cons,
    List.map_append,map_snd_placed]
  rfl

theorem pieces_separatedBy {es : List (List Token)} (hes : ∀ e ∈ es, CommasNested e) :
    pieces (separatedBy "," es) = es.map (· ++ [separator ","]) := by
  induction es with
  | nil => rfl
  | cons e es ih =>
      obtain ⟨he,hes⟩ := List.forall_mem_cons.mp hes
      rw [separatedBy_cons,pieces_append he,ih hes]
      rfl

/-! ## Counting commas -/

theorem outerCommas_eq_length (ts : List Token) :
    outerCommas ts = (outer (·.isSymbolOf [","]) ts).length := by
  unfold outerCommas outer
  rw [List.length_map,List.countP_eq_length_filter]

theorem outerCommas_append {e : List Token} (he : CommasNested e) (rest : List Token) :
    outerCommas (e ++ rest) = outerCommas rest := by
  rw [outerCommas_eq_length,outerCommas_eq_length,he.outer_append,he.outer_eq_nil fun _ h => h,
    List.nil_append]

theorem outerCommas_separator (rest : List Token) :
    outerCommas (separator "," :: rest) = outerCommas rest + 1 := by
  rw [outerCommas_eq_length,outerCommas_eq_length,outer_cons (by decide) (by decide),
    List.length_cons]

/-- Between elements there is one comma less than there are elements. -/
theorem outerCommas_intercalate {es : List (List Token)} (hes : ∀ e ∈ es, CommasNested e) :
    outerCommas ([separator ","].intercalate es) = es.length - 1 := by
  induction es with
  | nil => rfl
  | cons e es ih =>
      obtain ⟨he,hes⟩ := List.forall_mem_cons.mp hes
      cases es with
      | nil =>
          have h := outerCommas_append he []
          rw [List.append_nil] at h
          rw [List.intercalate_singleton,h]
          rfl
      | cons f es =>
          rw [List.intercalate_cons_cons,List.append_assoc,outerCommas_append he,
            List.singleton_append,outerCommas_separator,ih hes]
          rfl

end Token

end Turbofish
