import Mathlib.Data.List.Perm.Basic
import Turbofish.Proofs.CommaList

/-!
# No argument is lost

An argument list in angle brackets is printed in three passes, one for each group. Between
them they print every argument once, apart from those that were moved, which belong to no
group and are passed over. A list without moved arguments is printed whole, or not at all.
-/
namespace Turbofish

/-- The groups together hold the arguments of a list, apart from those that were moved. -/
theorem Arg.grouped_perm (as : List Arg) :
    (grouped as).Perm (as.filter fun a => !(Node.arg a).isMoved) := by
  have hvalue (a : Arg) (ls vs is : List Arg) :
      (ls ++ a :: vs ++ is).Perm (a :: (ls ++ vs ++ is)) := List.perm_middle.append_right is
  induction as with
  | nil => exact .nil
  | cons a as ih =>
      unfold grouped at ih ⊢
      cases a with
      | moved => exact ih
      | lifetime l => exact ih.cons (.lifetime l)
      | ty t => exact .trans (hvalue (.ty t) _ _ _) (ih.cons (.ty t))
      | value e => exact .trans (hvalue (.value e) _ _ _) (ih.cons (.value e))
      | binding n t => exact List.perm_middle.trans (ih.cons (.binding n t))
      | constraint n bs => exact List.perm_middle.trans (ih.cons (.constraint n bs))

theorem Arg.not_isMoved_iff (a : Arg) : (!(Node.arg a).isMoved) = true ↔ a ≠ .moved := by
  cases a <;> simp [Node.isMoved]

/-- The groups hold as many arguments as the list exactly when none was moved. -/
theorem Arg.length_grouped_iff (as : List Arg) :
    (grouped as).length = as.length ↔ .moved ∉ as := by
  rw [(grouped_perm as).length_eq,List.length_filter_eq_length_iff]
  simp only [not_isMoved_iff]
  exact ⟨fun h hmem => h .moved hmem rfl,fun h a ha hmoved => h (hmoved ▸ ha)⟩

namespace Node

/-- An argument list that is printed to the end is one comma list behind its root. -/
theorem items_angle {r : Bool} {as : List Arg} (h : (args (.angle r as)).script.Complete) :
    (args (.angle r as)).script.output.items = (if r then [Token.sym "::"] else []) ++
      CommaList.tokens ⟨.angle,(Arg.grouped as).map arg⟩ := by
  have helements := (HasCommaList.angle r as).elements_complete h
  have hroot : (Script.onlyIf r (Script.sym "::")).Complete := by
    cases r <;> rfl
  rw [output_angle,Script.output_append,Output.append_of_complete hroot,
    ← CommaList.script_items helements]
  cases r <;> rfl

/-- Whatever tree is printed to the end, each list of arguments in angle brackets in it is
printed as its arguments, each with a separator behind it: once each of those that were not
moved, and none of those that were. So there are as many pairs of an argument and a separator
as there are arguments in the list exactly when none of them was moved. Those that were not
moved have nothing malformed in them where they are printed. -/
theorem arguments_printed_once {n : Node} {s : Trace.State}
    (hf : (n.print s).output.fault = none) {r : Bool} {as : List Arg}
    (hm : n.Prints (args (.angle r as))) :
    ∃ (body : List Token) (emitted : List Arg), (args (.angle r as)).script.output.items =
        (if r then [Token.sym "::"] else []) ++ .sym "<" :: (body ++ [.sym ">"]) ∧
      (args (.angle r as)).script.output.items <:+: (n.print s).output.items ∧
      Token.pieces body = emitted.map (fun a => a.script.output.items ++ [.separator ","]) ∧
      emitted.Perm (as.filter fun a => !(arg a).isMoved) ∧
      ((Token.pieces body).length = as.length ↔ .moved ∉ as) ∧
      ∀ a ∈ as, a ≠ .moved → ∀ k, (arg a).Prints k → k.isMalformed = false := by
  obtain ⟨hargs,hwithin⟩ := hm.within ((print_complete_iff n s).mp hf)
  have helements := (HasCommaList.angle r as).elements_complete hargs
  have hpieces : Token.pieces (CommaList.inner ⟨.angle,(Arg.grouped as).map arg⟩) =
      (Arg.grouped as).map fun a => a.script.output.items ++ [.separator ","] := by
    rw [CommaList.inner,Token.pieces_separatedBy (CommaList.commasNested helements),List.map_map,
      List.map_map]
    rfl
  rw [print_output_of_complete hf]
  refine ⟨_,Arg.grouped as,items_angle hargs,hwithin,hpieces,Arg.grouped_perm as,?_,?_⟩
  · rw [hpieces,List.length_map]
    exact Arg.length_grouped_iff as
  · intro a ha hmoved
    have hgrouped : a ∈ Arg.grouped as := (Arg.grouped_perm as).mem_iff.mpr
      (List.mem_filter.mpr ⟨ha,a.not_isMoved_iff.mpr hmoved⟩)
    exact (complete_iff_forall _).mp (helements _ (List.mem_map_of_mem hgrouped))

/-- `<'static, T = !>`: of three arguments, one was moved. -/
theorem arguments_printed_once_binding :
    ((args (.angle false [.binding "T" (.never none),.moved,.lifetime .static])).print
        .fresh).output.fault = none ∧
      (args (.angle false [.binding "T" (.never none),.moved,.lifetime .static])).Prints
        (args (.angle false [.binding "T" (.never none),.moved,.lifetime .static])) ∧
      ∃ (body : List Token) (emitted : List Arg),
        [.sym "<",.lifetime "static",.separator ",",.keyword "T",.sym "=",.sym "!",.separator ",",
          .sym ">"] = Token.sym "<" :: (body ++ [.sym ">"]) ∧
        emitted.Perm [.binding "T" (.never none),.lifetime .static] ∧
        (Token.pieces body).length ≠ 3 := by
  have hf : ((args (.angle false [.binding "T" (.never none),.moved,.lifetime .static])).print
      .fresh).output.fault = none := by decide
  obtain ⟨body,emitted,hitems,-,-,hperm,hlength,-⟩ := arguments_printed_once hf .refl
  refine ⟨hf,.refl,body,emitted,hitems,hperm,fun hthree => ?_⟩
  exact hlength.mp hthree (List.mem_cons_of_mem _ (List.mem_cons_self ..))

/-- `A<>`: the one argument was moved, and no fault is reported. -/
theorem moved_argument_dropped :
    ((path (.mk false [.mk "A" (.angle false [.moved])])).print .fresh).text = .ok "A<>" ∧
      (path (.mk false [.mk "A" (.angle false [.moved])])).Prints
        (args (.angle false [.moved])) ∧
      (args (.angle false [.moved])).script.output.items = [.sym "<",.sym ">"] ∧
      (Token.pieces []).length ≠ [Arg.moved].length ∧ (arg .moved).isMalformed = true := by
  refine ⟨rfl,?_,by decide,by decide,rfl⟩
  exact .head (List.mem_singleton_self _) (.single (List.mem_singleton_self _))

end Node

end Turbofish
