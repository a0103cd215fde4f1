import Turbofish.Proofs.Order.Equality
import Turbofish.Proofs.Tracing.Run
import Turbofish.Proofs.Unlocated.Script

/-!
# Printing does not look at spans

Runs of a tree with and without its spans leave the same trace, write the same tokens and come
to faults of the same cause. Trees that compare as equal are the same without their spans, so
they are printed alike.
-/
namespace Turbofish

open Trace

/-! ## Outputs -/

namespace Output

variable {α : Type}

/-- The same items, and the fault without its span. -/
def unlocated (o : Output α) : Output α := ⟨o.items,o.fault.map Fault.unlocated⟩

@[simp] theorem unlocated_append (o p : Output α) :
    (o ++ p).unlocated = o.unlocated ++ p.unlocated := by
  obtain ⟨items,fault⟩ := o
  cases fault <;> rfl

theorem unlocated_joined (between : List α) (os : List (Output α)) :
    (joined between os).unlocated = joined between (os.map unlocated) := by
  match os with
  | [] => rfl
  | [o] => rfl
  | o :: p :: rest =>
      rw [joined,unlocated_append,unlocated_append,unlocated_joined between (p :: rest)]
      rfl

/-- The same items, and faults with the same message if there are any. -/
def Alike (o p : Output α) : Prop :=
  o.items = p.items ∧ o.fault.map Fault.message = p.fault.map Fault.message

theorem Alike.of_unlocated {o p : Output α} (h : o.unlocated = p.unlocated) : Alike o p := by
  obtain ⟨hitems,hfault⟩ := Output.mk.inj h
  have hmessage := congrArg (Option.map Fault.message) hfault
  rw [Option.map_map,Option.map_map] at hmessage
  exact ⟨hitems,hmessage⟩

end Output

@[simp] theorem Script.output_unlocated (r : Script) : r.unlocated.output = r.output.unlocated := by
  induction r with
  | done | fail => rfl
  | token t r ih =>
      rw [unlocated,output,ih]
      rfl
  | remark m r ih => exact ih
  | scope site b r ihb ihr => rw [unlocated,output,output,ihb,ihr,Output.unlocated_append]

theorem Script.shown_unlocated (r : Script) : r.unlocated.shown = r.shown.unlocated := by
  unfold shown
  rw [output_unlocated]
  cases hf : r.output.fault with
  | none => simp only [Output.unlocated,hf,Option.map_none,Output.ofList]
  | some f => simp only [Output.unlocated,hf,Option.map_some,Output.fail]

/-! ## Runs -/

@[simp] theorem Site.label_unlocated (site : Site) : site.unlocated.label = site.label := by
  cases site <;> rfl

/-- A description shows parts of a tree, and no spans. -/
theorem Site.description_unlocated (site : Site) :
    site.unlocated.description = site.description.unlocated := by
  cases site with
  | qualifiedPath self position size =>
      have hself : self.unlocated.script = self.script.unlocated := (Node.ty self).script_unlocated
      simp only [unlocated,description,describe,Output.unlocated_append,hself,
        Script.shown_unlocated]
      rfl
  | constraint name bounds =>
      have hbounds : (Bound.unlocatedList bounds).map (fun b => b.script.shown) =
          (bounds.map fun b => b.script.shown).map Output.unlocated := by
        rw [Bound.unlocatedList_eq_map,List.map_map,List.map_map]
        refine List.map_congr_left fun b _ => ?_
        have hb : b.unlocated.script = b.script.unlocated := (Node.bound b).script_unlocated
        simp only [Function.comp_apply,hb,Script.shown_unlocated]
      rw [unlocated,description,describe,hbounds,description,describe,Output.unlocated_append,
        Output.unlocated_joined]
      rfl
  | path rooted size => rfl
  | args size rooted => rfl
  | expr className => rfl

namespace Script

/-- The same run, with its fault reported without a span. -/
def Run.unlocated (r : Run) : Run := ⟨r.state,r.records,r.output.unlocated⟩

theorem Run.unlocated_andThen (first : Run) {second second' : State → Run}
    (h : ∀ s, second' s = (second s).unlocated) :
    first.unlocated.andThen second' = (first.andThen second).unlocated := by
  cases hf : first.output.fault with
  | none =>
      have hf' : first.unlocated.output.fault = none := by
        simp only [Run.unlocated,Output.unlocated,hf,Option.map_none]
      rw [andThen_of_complete hf,andThen_of_complete hf',h]
      simp only [Run.unlocated,Output.unlocated_append]
  | some f =>
      have hf' : first.unlocated.output.fault = some f.unlocated := by
        simp only [Run.unlocated,Output.unlocated,hf,Option.map_some]
      rw [andThen_of_fault hf,andThen_of_fault hf']

theorem run_unlocated (r : Script) (s : State) : r.unlocated.run s = (r.run s).unlocated := by
  induction r generalizing s with
  | done => rfl
  | fail f => rfl
  | token t r ih =>
      rw [unlocated,run,run,ih]
      rfl
  | remark m r ih =>
      rw [unlocated,run,run,ih]
      rfl
  | scope site b r ihb ihr =>
      have hsite := site.description_unlocated
      rw [unlocated]
      cases hs : s.active with
      | false =>
          rw [run_scope_of_inactive hs,run_scope_of_inactive hs,ihb]
          exact Run.unlocated_andThen _ ihr
      | true =>
          cases hd : site.description.fault with
          | some f =>
              have hd' : site.unlocated.description.fault = some f.unlocated := by
                simp only [hsite,Output.unlocated,hd,Option.map_some]
              rw [run_scope_of_fault hs hd,run_scope_of_fault hs hd',Site.label_unlocated,hsite]
              rfl
          | none =>
              have hd' : site.unlocated.description.fault = none := by
                simp only [hsite,Output.unlocated,hd,Option.map_none]
              have hwithin : Run.within s site.label site.description.items b.unlocated.run =
                  (Run.within s site.label site.description.items b.run).unlocated := by
                rw [within_run,within_run,ihb]
                rfl
              rw [run_scope_of_complete hs hd,run_scope_of_complete hs hd',Site.label_unlocated,
                hsite]
              change (Run.within s site.label site.description.items b.unlocated.run).andThen _ = _
              rw [hwithin]
              exact Run.unlocated_andThen _ ihr

theorem print_unlocated (r : Script) (s : State) : r.unlocated.print s = (r.print s).unlocated := by
  have hrun := run_unlocated r (inside (some phaseName) s)
  cases hf : (r.run (inside (some phaseName) s)).output.fault with
  | none =>
      have hf' : (r.unlocated.run (inside (some phaseName) s)).output.fault = none := by
        rw [hrun]
        simp only [Run.unlocated,Output.unlocated,hf,Option.map_none]
      rw [print_of_complete hf,print_of_complete hf',hrun]
      rfl
  | some f =>
      have hf' : (r.unlocated.run (inside (some phaseName) s)).output.fault =
          some f.unlocated := by
        rw [hrun]
        simp only [Run.unlocated,Output.unlocated,hf,Option.map_some]
      rw [print_of_fault hf,print_of_fault hf',hrun]
      rfl

end Script

namespace Node

theorem print_unlocated (n : Node) (s : State) : n.unlocated.print s = (n.print s).unlocated := by
  unfold Node.print
  rw [hasPhase_unlocated,script_unlocated]
  split
  · exact Script.print_unlocated _ s
  · exact Script.run_unlocated _ s

/-- Nodes that compare as equal are of one kind and the same without their spans. -/
theorem unlocated_eq_of_order? {a b : Node} (h : a.order? b = some (.ok .eq)) :
    a.unlocated = b.unlocated := by
  have hd := Comparison.deciding_inductive
  cases a with
  | lifetime l =>
      cases b with
      | lifetime l' =>
          have horder : l.order l' = .eq := Except.ok.inj (Option.some.inj h)
          rw [(Lifetime.order_eq_iff l l').mp horder]
      | _ => cases h
  | ty t =>
      cases b with
      | ty t' => exact congrArg ty ((hd.all_ty t t').mp (Option.some.inj h)).1
      | _ => cases h
  | path p =>
      cases b with
      | path p' => exact congrArg path ((hd.all_path p p').mp (Option.some.inj h)).1
      | _ => cases h
  | qpath p =>
      cases b with
      | qpath p' => exact congrArg qpath ((hd.all_qpath p p').mp (Option.some.inj h)).1
      | _ => cases h
  | segment s =>
      cases b with
      | segment s' => exact congrArg segment ((hd.all_segment s s').mp (Option.some.inj h)).1
      | _ => cases h
  | args as =>
      cases b with
      | args as' => exact congrArg args ((hd.all_args as as').mp (Option.some.inj h)).1
      | _ => cases h
  | arg x =>
      cases b with
      | arg x' => exact congrArg arg ((hd.all_arg x x').mp (Option.some.inj h)).1
      | _ => cases h
  | bound c =>
      cases b with
      | bound c' => exact congrArg bound ((hd.all_bound c c').mp (Option.some.inj h)).1
      | _ => cases h
  | expr e =>
      cases b with
      | expr e' => exact congrArg expr ((hd.all_expr e e').mp (Option.some.inj h)).1
      | _ => cases h

/-- Nodes that compare as equal write the same tokens, and where one of them comes to a fault
so does the other, behind the same tokens and with the same message. In no state of tracing
does printing tell them apart: the records are the same too. -/
theorem prints_alike {a b : Node} (h : a.order? b = some (.ok .eq)) :
    a.script.output.Alike b.script.output ∧
      ∀ s, (a.print s).output.Alike (b.print s).output ∧
        (a.print s).records = (b.print s).records := by
  have hab := unlocated_eq_of_order? h
  have hscript : a.script.unlocated = b.script.unlocated := by
    rw [← script_unlocated,← script_unlocated,hab]
  have hprint (s : State) : (a.print s).unlocated = (b.print s).unlocated := by
    rw [← print_unlocated,← print_unlocated,hab]
  refine ⟨.of_unlocated ?_,fun s => ?_⟩
  · rw [← Script.output_unlocated,← Script.output_unlocated,hscript]
  · obtain ⟨-,hrecords,houtput⟩ := Script.Run.mk.inj (hprint s)
    exact ⟨.of_unlocated houtput,hrecords⟩

/-- The types `(_, <invalid>)` with and without a span for the invalid one. -/
theorem prints_alike_invalid :
    (ty (.tuple none [.infer none,.invalid (some ⟨[],1,1,1,2⟩)])).order?
        (ty (.tuple none [.infer none,.invalid none])) = some (.ok .eq) ∧
      (ty (.tuple none [.infer none,.invalid (some ⟨[],1,1,1,2⟩)])).script.output.Alike
        (ty (.tuple none [.infer none,.invalid none])).script.output := by
  have h : (ty (.tuple none [.infer none,.invalid (some ⟨[],1,1,1,2⟩)])).order?
      (ty (.tuple none [.infer none,.invalid none])) = some (.ok .eq) :=
    congrArg some ((Comparison.deciding_inductive.all_ty _ _).mpr ⟨rfl,rfl⟩)
  exact ⟨h,(prints_alike h).1⟩

end Node

end Turbofish
