import Turbofish.Proofs.Malformed
import Turbofish.Proofs.NormalForm.Printing
import Turbofish.Proofs.Reading.Paths

/-!
# Qualified paths, section by section

A path with a self type is printed as the self type, the interface behind `as`, the closing
bracket, and every other segment behind `::`. The interface is printed as a path of its own:
it has the root of the whole path and its segments up to the position, or all of them where
there are fewer. The first fault among the sections ends the printing there.
-/
namespace Turbofish

namespace Output

variable {α : Type}

/-- One output after the other, up to the first fault. -/
def concat : List (Output α) → Output α
  | [] => nil
  | o :: os => o ++ concat os

theorem concat_append (os ps : List (Output α)) : concat (os ++ ps) = concat os ++ concat ps := by
  induction os with
  | nil => rfl
  | cons o os ih => rw [List.cons_append,concat,concat,ih,append_assoc]

theorem concat_fault (os : List (Output α)) : (concat os).fault = os.findSome? (·.fault) := by
  induction os with
  | nil => rfl
  | cons o os ih =>
      rw [concat,List.findSome?_cons,← ih]
      cases h : o.fault with
      | none => rw [append_of_complete h]
      | some f => rw [append_of_fault h,h]

end Output

open Output

/-- The segments behind an interface, each behind `::`. -/
def Segment.sections (ss : List Segment) : List (Output Token) :=
  ss.flatMap fun s => [.ofList [.sym "::"],s.script.output]

theorem Segment.concat_sections (ss : List Segment) :
    concat (sections ss) = (Script.each "::" (ss.map script)).output := by
  induction ss with
  | nil => rfl
  | cons s ss ih =>
      have heach := output_each s ss .nil
      rw [append_nil,append_nil,← ih] at heach
      rw [heach]
      rfl

namespace QPath

/-- The sections of a path with a self type, of which so many segments are the interface. -/
def sections (t : Ty) (size : Nat) (rooted : Bool) (ss : List Segment) : List (Output Token) :=
  [.ofList [.sym "<"],t.script.output]
    ++ (if 0 < size then [.ofList [.keyword "as"],(Path.mk rooted (ss.take size)).script.output]
      else [])
    ++ [.ofList [.sym ">"]] ++ Segment.sections (ss.drop size)

theorem concat_interface (r : Bool) {ss : List Segment} {size : Nat} (h : size ≤ ss.length) :
    concat (if 0 < size then [.ofList [.keyword "as"],(Path.mk r (ss.take size)).script.output]
      else []) = interfaceOutput r (ss.take size) := by
  cases size with
  | zero => rfl
  | succ size =>
      cases ss with
      | nil => exact absurd h (Nat.not_succ_le_zero size)
      | cons s ss =>
          rw [if_pos (Nat.succ_pos size),concat,concat,concat,append_nil,Path.script,
            Script.output_scope_done,Segment.scripts_eq_map]
          rfl

/-- A position behind the last segment is as good as one right there. -/
theorem output_sections (t : Ty) (n : UInt64) (r : Bool) (ss : List Segment) :
    (qualified t n (.mk r ss)).script.output = concat (sections t (min n.toNat ss.length) r ss) := by
  have hgiven := output_qualified t n r ss .nil
  have hsize : min n.toNat ss.length ≤ ss.length := Nat.min_le_right _ _
  have hself (o : Output Token) :
      cons (.sym "<") (t.script.output ++ o) = concat [.ofList [.sym "<"],t.script.output] ++ o := by
    rw [concat,concat,concat,append_nil,append_assoc]
    rfl
  rw [append_nil,append_nil,List.take_eq_take_min,List.drop_eq_drop_min,← concat_interface r hsize,
    ← Segment.concat_sections,hself] at hgiven
  rw [hgiven,sections,concat_append,concat_append,concat_append]
  simp only [append_assoc]
  rfl

/-- The position in a path to an item of a trait counts the segments of the trait. -/
theorem output_ofTrait (t : Ty) {trait : Path} (hne : trait.segments ≠ [])
    (hsize : trait.size < UInt64.size) (ss : List Segment) :
    (ofTrait t trait ss).script.output = concat ([.ofList [.sym "<"],t.script.output,
      .ofList [.keyword "as"],trait.script.output,.ofList [.sym ">"]] ++ Segment.sections ss) := by
  obtain ⟨r,interface⟩ := trait
  have hposition : interface.length.toUInt64.toNat = interface.length := Nat.mod_eq_of_lt hsize
  have hlength : min interface.length (interface ++ ss).length = interface.length := by
    rw [List.length_append]
    omega
  have hpositive : 0 < interface.length := List.length_pos_of_ne_nil hne
  have hwhole := output_sections t interface.length.toUInt64 r (interface ++ ss)
  rw [hposition,hlength,sections,if_pos hpositive,List.take_left,List.drop_left] at hwhole
  exact hwhole

end QPath

namespace Node

/-- A node is printed as these sections. Where printing is traced, the description of a scope
may come to another fault ahead of the first one among the sections. -/
structure PrintsSections (n : Node) (s : Trace.State) (os : List (Output Token)) : Prop where
  output : n.isTraced s = false ∨ (n.print s).output.fault = none → (n.print s).output = concat os
  fault : n.isTraced s = false → (n.print s).output.fault = os.findSome? (·.fault)
  complete_iff : (n.print s).output.fault = none ↔ ∀ o ∈ os, o.fault = none

theorem PrintsSections.of_output {n : Node} {os : List (Output Token)}
    (h : n.script.output = concat os) (s : Trace.State) : n.PrintsSections s os where
  output := by
    rintro (huntraced | hcomplete)
    · rw [print_of_not_traced huntraced,h]
    · rw [print_output_of_complete hcomplete,h]
  fault huntraced := by rw [print_of_not_traced huntraced,h,concat_fault]
  complete_iff := by
    rw [print_complete_iff,Script.Complete,h,concat_fault]
    exact List.findSome?_eq_none_iff

/-- A path with a self type is printed section by section, up to the first fault among its
sections; and a path to an item of a trait is printed as the type and the whole trait in
brackets, and each of the segments behind `::`. -/
theorem print_qualified_sections (t : Ty) (s : Trace.State) :
    (∀ (n : UInt64) (p : Path), (qpath (.qualified t n p)).PrintsSections s
        (QPath.sections t (min n.toNat p.size) p.rooted p.segments)) ∧
      ∀ (trait : Path) (ss : List Segment), trait.segments ≠ [] → trait.size < UInt64.size →
        (qpath (.ofTrait t trait ss)).PrintsSections s
          ([.ofList [.sym "<"],t.script.output,.ofList [.keyword "as"],trait.script.output,
            .ofList [.sym ">"]] ++ Segment.sections ss) := by
  constructor
  · rintro n ⟨r,ss⟩
    have houtput := QPath.output_sections t n r ss
    rw [← script_qpath] at houtput
    exact .of_output houtput s
  · intro trait ss hne hsize
    have houtput := QPath.output_ofTrait t hne hsize ss
    rw [← script_qpath] at houtput
    exact .of_output houtput s

/-- `<_ as ::a::B>::c` -/
theorem print_qualified_sections_trait :
    (qpath (.ofTrait (.infer none) (.mk true [.mk "a" .none,.mk "B" .none])
        [.mk "c" .none])).isTraced .fresh = false ∧
      ((qpath (.ofTrait (.infer none) (.mk true [.mk "a" .none,.mk "B" .none])
        [.mk "c" .none])).print .fresh).output =
          .ofList [.sym "<",.keyword "_",.keyword "as",.sym "::",.keyword "a",.sym "::",
            .keyword "B",.sym ">",.sym "::",.keyword "c"] := by
  have huntraced : (qpath (.ofTrait (.infer none) (.mk true [.mk "a" .none,.mk "B" .none])
      [.mk "c" .none])).isTraced .fresh = false := rfl
  have hprint := (print_qualified_sections (.infer none) .fresh).2
    (.mk true [.mk "a" .none,.mk "B" .none]) [.mk "c" .none] (List.cons_ne_nil _ _) (by decide)
  exact ⟨huntraced,(hprint.output (.inl huntraced)).trans (by decide)⟩

end Node

end Turbofish
