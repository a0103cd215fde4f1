import Turbofish.Marked
import Turbofish.Printing.Tree

/-!
# Lists printed with their ends marked

The segments of a path, those of the interface of a qualified path and the statements of a
block are printed in one pass over a list whose first and last element are marked. What stands
around an element follows from its marks alone.
-/
namespace Turbofish

namespace Marked

variable {α : Type}

/-- The elements left at a place are marked by where they stand. -/
theorem getElem?_marks (first : Bool) (as : List α) (i : Nat) :
    (marks first as)[i]? =
      as[i]?.map fun a => ⟨a,first && i == 0,i + 1 == as.length⟩ := by
  induction as generalizing first i with
  | nil => rfl
  | cons a as ih =>
      cases as with
      | nil => cases i <;> simp [marks]
      | cons b rest =>
          rw [marks]
          cases i with
          | zero => simp
          | succ i => simp [ih]

theorem getElem?_ofList (as : List α) (i : Nat) :
    (ofList as)[i]? = as[i]?.map fun a => ⟨a,i == 0,i + 1 == as.length⟩ := by
  rw [ofList,getElem?_marks]
  simp only [Bool.true_and]

end Marked

namespace Script

open Marked (marks)

/-- What is printed for the elements of a list, one after the other. -/
def forEach {α : Type} (f : α → Script) : List α → Script
  | [] => done
  | a :: as => f a ++ forEach f as

section

variable {α : Type}

/-- Something behind the last element stands behind the whole list. -/
theorem forEach_last (f : Marked α → Script) (s : Script) (first : Bool) {as : List α}
    (h : as ≠ []) : forEach (fun m => f m ++ onlyIf m.isLast s) (marks first as) =
      forEach f (marks first as) ++ s := by
  induction as generalizing first with
  | nil => exact absurd rfl h
  | cons a as ih =>
      cases as with
      | nil =>
          change f ⟨a,first,true⟩ ++ s ++ done = f ⟨a,first,true⟩ ++ done ++ s
          rw [append_done,append_done]
      | cons b rest =>
          rw [marks,forEach,forEach,ih false (List.cons_ne_nil b rest)]
          change f ⟨a,first,false⟩ ++ done ++ _ = _
          rw [append_done,append_assoc]

end

/-- What is printed for a segment of a path: the first one has `::` in front of it only where
the path is rooted. -/
def markedSegment (rooted : Bool) (m : Marked Script) : Script :=
  onlyIf (!m.isFirst || rooted) (sym "::") ++ m.value

theorem each_eq_forEach (rooted : Bool) (ss : List Script) :
    each "::" ss = forEach (markedSegment rooted) (marks false ss) := by
  induction ss with
  | nil => rfl
  | cons s ss ih =>
      cases ss with
      | nil => rfl
      | cons t ss =>
          rw [each,marks,forEach,ih]
          rfl

theorem segments_eq_forEach (rooted : Bool) (ss : List Script) :
    segments rooted ss = forEach (markedSegment rooted) (Marked.ofList ss) := by
  cases ss with
  | nil => rfl
  | cons s ss =>
      cases ss with
      | nil => rfl
      | cons t ss =>
          rw [segments,Marked.ofList,marks,forEach,each_eq_forEach rooted]
          rfl

/-- What is printed for a statement of a block: the last one has no semicolon where it gives
the block its value. -/
def markedStatement (yields : Bool) (m : Marked Script) : Script :=
  m.value ++ onlyIf (!m.isLast || !yields) (sym ";")

theorem statements_eq_forEach (yields : Bool) (ss : List Script) :
    statements yields ss = forEach (markedStatement yields) (Marked.ofList ss) := by
  have hmarks (first : Bool) :
      statements yields ss = forEach (markedStatement yields) (marks first ss) := by
    induction ss generalizing first with
    | nil => rfl
    | cons s ss ih =>
        cases ss with
        | nil =>
            change s ++ onlyIf (!yields) (sym ";") = s ++ onlyIf (!yields) (sym ";") ++ done
            rw [append_done]
        | cons t ss =>
            rw [statements,marks,forEach,ih false]
            · rfl
            · exact nofun
  exact hmarks true

/-- The interface of `<T as a::Tr>::x` is as many of the segments as the position says and
there are, and `>` stands behind the last one of it. -/
theorem qualified_eq_forEach (self : Script) (position : UInt64) (rooted : Bool)
    (ss : List Script) :
    let count := min position.toNat ss.length
    qualified self position rooted ss =
      sym "<" ++ self
        ++ onlyIf (count ≠ position.toNat) (remark (.clampedPosition position ss.length) done)
        ++ (if 0 < count then keyword "as" ++ forEach
            (fun m => markedSegment rooted m ++ onlyIf m.isLast (sym ">"))
            (Marked.ofFirst count ss)
          else sym ">")
        ++ each "::" (ss.drop count) := by
  intro count
  have hclamped : decide (ss.length < position.toNat) = decide (count ≠ position.toNat) := by
    rw [decide_eq_decide]
    omega
  have htake : ss.take position.toNat = ss.take count := by
    rw [← List.take_take,List.take_length]
  have hdrop : ss.drop position.toNat = ss.drop count := by
    rcases Nat.le_total position.toNat ss.length with h | h
    · rw [show count = position.toNat from Nat.min_eq_left h]
    · rw [show count = ss.length from Nat.min_eq_right h,List.drop_length,
        List.drop_eq_nil_of_le h]
  have hinterface : onlyIf (!(ss.take count).isEmpty)
        (keyword "as" ++ segments rooted (ss.take count)) ++ sym ">" =
      if 0 < count then keyword "as" ++ forEach
          (fun m => markedSegment rooted m ++ onlyIf m.isLast (sym ">"))
          (Marked.ofFirst count ss)
        else sym ">" := by
    by_cases hcount : 0 < count
    · have hne : ss.take count ≠ [] := by
        rw [ne_eq,List.take_eq_nil_iff]
        rintro (h | rfl)
        · omega
        · exact absurd (Nat.min_le_right _ _) (Nat.not_le_of_lt hcount)
      rw [if_pos hcount,Marked.ofFirst,Marked.ofList,forEach_last _ _ _ hne,← append_assoc,
        segments_eq_forEach,List.isEmpty_eq_false_iff.mpr hne]
      rfl
    · have hnone : ss.take count = [] := by rw [Nat.eq_zero_of_not_pos hcount,List.take_zero]
      rw [if_neg hcount,hnone]
      rfl
  unfold qualified
  dsimp only
  rw [htake,hdrop,hclamped,append_assoc _ _ (sym ">"),hinterface]

end Script

end Turbofish
