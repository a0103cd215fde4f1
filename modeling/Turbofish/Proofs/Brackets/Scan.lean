import Turbofish.Proofs.Brackets.Word

/-!
# Scanning bracket words

A scan from left to right keeps the brackets that are still open and stops at a
closer that is not the counterpart of the innermost of them. It leaves nothing open
exactly on the balanced words, and it gets through exactly the words that can be
completed to a balanced one.
-/
namespace Turbofish.Bracket

/-- The brackets open after a word, innermost first, unless a closer is unmatched or
mismatched. -/
def stillOpen : List Bracket → List Mark → Option (List Bracket)
  | opened, [] => some opened
  | opened, .opening b :: w => stillOpen (b :: opened) w
  | [], .closing _ :: _ => none
  | c :: opened, .closing b :: w => if b = c then stillOpen opened w else none

theorem stillOpen_append (opened : List Bracket) (v w : List Mark) :
    stillOpen opened (v ++ w) = (stillOpen opened v).bind (stillOpen · w) := by
  induction v generalizing opened with
  | nil => rfl
  | cons m v ih =>
      cases m with
      | opening b => exact ih (b :: opened)
      | closing b =>
          cases opened with
          | nil => rfl
          | cons c opened =>
              rw [List.cons_append,stillOpen,stillOpen]
              by_cases hb : b = c
              · rw [if_pos hb,if_pos hb]
                exact ih opened
              · rw [if_neg hb,if_neg hb]
                rfl

/-- A balanced word leaves open what was open before it. -/
theorem Balanced.stillOpen {w : List Mark} (h : Balanced w) (opened : List Bracket) :
    stillOpen opened w = some opened := by
  induction h generalizing opened with
  | nil => rfl
  | surround b _ ih =>
      rw [Bracket.stillOpen,stillOpen_append,ih]
      exact if_pos rfl
  | append _ _ ihv ihw =>
      rw [stillOpen_append,ihv]
      exact ihw opened

/-- A pair of brackets can be put anywhere into a balanced word. -/
theorem Balanced.insert {x : List Mark} (h : Balanced x) (b : Bracket) {v w : List Mark}
    (hx : x = v ++ w) : Balanced (v ++ .opening b :: .closing b :: w) := by
  have hpair : Balanced [.opening b,.closing b] := .surround b .nil
  induction h generalizing v w with
  | nil =>
      obtain ⟨rfl,rfl⟩ := List.append_eq_nil_iff.mp hx.symm
      exact hpair
  | surround c hy ih =>
      cases v with
      | nil =>
          rw [List.nil_append] at hx
          subst hx
          exact hpair.append (.surround c hy)
      | cons m v =>
          rw [List.cons_append] at hx
          obtain ⟨rfl,hw⟩ := List.cons.inj hx
          rcases List.append_eq_append_iff.mp hw with ⟨a,rfl,ha⟩ | ⟨a,rfl,rfl⟩
          · rcases List.append_eq_cons_iff.mp ha.symm with ⟨rfl,rfl⟩ | ⟨a',rfl,ha'⟩
            · have hy' := ih (v := _) (w := []) (List.append_nil _).symm
              have hs : Balanced _ := .surround c hy'
              simp only [List.append_assoc,List.cons_append,List.nil_append,List.append_nil] at hs ⊢
              exact hs
            · obtain ⟨rfl,rfl⟩ := List.append_eq_nil_iff.mp ha'.symm
              have hs : Balanced _ := .append (.surround c hy) hpair
              simp only [List.append_assoc,List.cons_append,List.nil_append] at hs ⊢
              exact hs
          · have hs : Balanced _ := .surround c (ih rfl)
            simp only [List.append_assoc,List.cons_append] at hs ⊢
            exact hs
  | append hy hz ihy ihz =>
      rcases List.append_eq_append_iff.mp hx with ⟨a,rfl,rfl⟩ | ⟨a,rfl,rfl⟩
      · rw [List.append_assoc]
        exact hy.append (ihz rfl)
      · have hs : Balanced _ := (ihy rfl).append hz
        simp only [List.append_assoc,List.cons_append] at hs ⊢
        exact hs

theorem balanced_of_stillOpen {opened : List Bracket} {w : List Mark}
    (h : stillOpen opened w = some []) : Balanced (opened.reverse.map .opening ++ w) := by
  induction w generalizing opened with
  | nil => cases h; exact .nil
  | cons m w ih =>
      cases m with
      | opening b =>
          have hw : Balanced ((b :: opened).reverse.map .opening ++ w) := ih h
          rw [List.reverse_cons,List.map_append,List.append_assoc] at hw
          exact hw
      | closing b =>
          cases opened with
          | nil => cases h
          | cons c opened =>
              rw [stillOpen] at h
              by_cases hb : b = c
              · subst hb
                rw [if_pos rfl] at h
                rw [List.reverse_cons,List.map_append,List.append_assoc]
                exact (ih h).insert b rfl
              · rw [if_neg hb] at h
                cases h

theorem balanced_iff_stillOpen (w : List Mark) : Balanced w ↔ stillOpen [] w = some [] :=
  ⟨fun h => h.stillOpen [],balanced_of_stillOpen⟩

theorem stillOpen_closing (opened : List Bracket) :
    stillOpen opened (opened.map .closing) = some [] := by
  induction opened with
  | nil => rfl
  | cons b opened ih =>
      rw [List.map_cons,stillOpen,if_pos rfl]
      exact ih

/-- A word can be completed to a balanced one where every closer in it is matched. -/
theorem completable_iff_stillOpen (w : List Mark) :
    (∃ rest, Balanced (w ++ rest)) ↔ ∃ opened, stillOpen [] w = some opened := by
  constructor
  · rintro ⟨rest,h⟩
    have hw := h.stillOpen []
    rw [stillOpen_append] at hw
    cases ho : stillOpen [] w with
    | none => rw [ho] at hw; cases hw
    | some opened => exact ⟨opened,rfl⟩
  · rintro ⟨opened,h⟩
    refine ⟨opened.map .closing,(balanced_iff_stillOpen _).mpr ?_⟩
    rw [stillOpen_append,h]
    exact stillOpen_closing opened

end Turbofish.Bracket
