import Turbofish.Trace.Session

/-!
# Configuring from a setting

A setting is read up to one colon after another. What is read that way are the pieces between
its colons, where an empty piece counts unless it is the last one. Each piece that is a known
phase by then is enabled, whether it was made known now or earlier, and there is one warning
for every other piece.
-/
namespace Turbofish.Trace

namespace State

/-! ## The pieces of a setting -/

/-- What a setting lists: the pieces between its colons, without an empty last one. -/
def pieces (setting : Text) : List Text :=
  let all := setting.splitOn 0x3A
  if all.getLast? = some [] then all.dropLast else all

theorem pieces_nil : pieces [] = [] := rfl

theorem pieces_of_not_mem {setting : Text} (hne : setting ≠ []) (h : 0x3A ∉ setting) :
    pieces setting = [setting] := by
  have hlast : [setting].getLast? ≠ some [] := fun hl => hne (Option.some.inj hl)
  unfold pieces
  rw [List.splitOn_eq_singleton h]
  exact if_neg hlast

theorem pieces_append_colon {name : Text} (h : 0x3A ∉ name) (behind : Text) :
    pieces (name ++ 0x3A :: behind) = name :: pieces behind := by
  have hne := List.splitOn_ne_nil 0x3A behind
  unfold pieces
  dsimp only
  rw [List.splitOn_append_cons_self_of_not_mem h,List.getLast?_cons_of_ne_nil hne,
    List.dropLast_cons_of_ne_nil hne]
  split <;> rfl

/-- A piece ends at a colon, or where the setting does. -/
theorem pieces_eq {setting : Text} (hne : setting ≠ []) :
    pieces setting = setting.takeWhile (· != 0x3A) ::
      pieces (setting.dropWhile (· != 0x3A)).tail := by
  have hname : 0x3A ∉ setting.takeWhile (· != 0x3A) := fun hmem =>
    absurd (List.all_eq_true.mp List.all_takeWhile _ hmem) (by decide)
  have hsplit := List.takeWhile_append_dropWhile (p := (· != 0x3A)) (l := setting)
  cases h : setting.dropWhile (· != 0x3A) with
  | nil =>
      rw [h,List.append_nil] at hsplit
      rw [hsplit] at hname ⊢
      exact pieces_of_not_mem hne hname
  | cons colon behind =>
      have hstop := List.head?_dropWhile_not (· != 0x3A) setting
      rw [h] at hstop hsplit
      have hcolon : colon = 0x3A := bne_eq_false_iff_eq.mp hstop
      rw [hcolon] at hsplit
      calc pieces setting
          = pieces (setting.takeWhile (· != 0x3A) ++ 0x3A :: behind) := by rw [hsplit]
        _ = setting.takeWhile (· != 0x3A) :: pieces behind := pieces_append_colon hname behind

example : pieces ":a::b:" = [[],"a",[],"b"] := by decide

/-! ## Names that are added -/

theorem mem_addName_iff {names : List Text} {name other : Text} :
    other ∈ addName names name ↔ other ∈ names ∨ other = name := by
  unfold addName
  split
  · rename_i h
    refine ⟨.inl,?_⟩
    rintro (hmem | rfl)
    · exact hmem
    · exact List.contains_iff_mem.mp h
  · rw [List.mem_append,List.mem_singleton]

theorem mem_foldl_addName_iff {names added : List Text} {name : Text} :
    name ∈ added.foldl addName names ↔ name ∈ names ∨ name ∈ added := by
  induction added generalizing names with
  | nil => simp
  | cons a added ih => rw [List.foldl_cons,ih,mem_addName_iff,List.mem_cons,or_assoc]

namespace Listed

variable {known : List Text}

theorem mem_enabled_add_iff {listed : Listed} {piece name : Text} :
    name ∈ (listed.add known piece).enabled ↔
      name ∈ listed.enabled ∨ (name = piece ∧ name ∈ known) := by
  unfold add
  split
  · rename_i h
    rw [mem_addName_iff]
    refine or_congr_right ⟨?_,And.left⟩
    rintro rfl
    exact ⟨rfl,List.contains_iff_mem.mp h⟩
  · rename_i h
    refine ⟨.inl,?_⟩
    rintro (hmem | ⟨rfl,hknown⟩)
    · exact hmem
    · exact absurd (List.contains_iff_mem.mpr hknown) h

theorem unknown_add (listed : Listed) (piece : Text) :
    (listed.add known piece).unknown = listed.unknown ++ [piece].filter (· ∉ known) := by
  unfold add
  split
  · rename_i h
    have hknown : piece ∈ known := List.contains_iff_mem.mp h
    simp [hknown]
  · rename_i h
    have hknown : piece ∉ known := fun hmem => h (List.contains_iff_mem.mpr hmem)
    simp [hknown]

/-! ## Reading a setting -/

/-- Reading takes one piece after another, until nothing is left. -/
theorem read_eq_foldl (listed : Listed) (setting : Text) :
    listed.read known setting = (pieces setting).foldl (add known) listed := by
  fun_induction read known listed setting with
  | case1 listed setting h =>
      rw [List.isEmpty_iff.mp h,pieces_nil]
      rfl
  | case2 listed setting h next hd =>
      rw [pieces_eq (mt List.isEmpty_iff.mpr h),hd,List.tail_nil,pieces_nil]
      rfl
  | case3 listed setting h next colon behind hd _ ih =>
      rw [pieces_eq (mt List.isEmpty_iff.mpr h),hd,List.tail_cons,List.foldl_cons]
      exact ih

theorem mem_enabled_read_iff {listed : Listed} {setting name : Text} :
    name ∈ (listed.read known setting).enabled ↔
      name ∈ listed.enabled ∨ (name ∈ pieces setting ∧ name ∈ known) := by
  rw [read_eq_foldl]
  induction pieces setting generalizing listed with
  | nil => simp
  | cons piece names ih =>
      rw [List.foldl_cons,ih,mem_enabled_add_iff,List.mem_cons,or_and_right,or_assoc]

theorem unknown_read (listed : Listed) (setting : Text) :
    (listed.read known setting).unknown =
      listed.unknown ++ (pieces setting).filter (· ∉ known) := by
  rw [read_eq_foldl]
  induction pieces setting generalizing listed with
  | nil => exact (List.append_nil _).symm
  | cons piece names ih =>
      rw [List.foldl_cons,ih,unknown_add,List.append_assoc,← List.filter_append]
      rfl

end Listed

theorem phaseEnabled_iff (s : State) :
    s.phaseEnabled = true ↔ s.phase ≠ [] ∧ s.phase ∈ s.enabled := by
  unfold phaseEnabled
  rw [Bool.and_eq_true_iff,Bool.not_eq_true',List.isEmpty_eq_false_iff,List.contains_iff_mem]

end State

namespace Session

open State (pieces)

end Session

end Turbofish.Trace
