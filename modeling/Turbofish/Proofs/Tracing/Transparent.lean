import Turbofish.Proofs.Script.Trees
import Turbofish.Proofs.Tracing.Run

/-!
# Tracing does not change what is printed

A run with tracing on also works out the descriptions of its scopes, and a fault in
one of them ends the run early. For a regular script that happens only where the
script itself comes to a fault, so a run ends without a fault in every state or in
none, and its output is then that of the script. Which fault is reported may depend
on the state.
-/
namespace Turbofish

open Trace

namespace Script

/-- A run that ends without a fault wrote the output of its script. -/
theorem run_output_of_complete {r : Script} {s : State} (h : (r.run s).output.fault = none) :
    (r.run s).output = r.output := by
  induction r generalizing s with
  | done => rfl
  | fail f => rfl
  | token t r ih =>
      rw [run,output,ih h]
  | remark m r ih => exact ih h
  | scope site b r ihb ihr =>
      rw [output]
      cases hs : s.active with
      | false =>
          rw [run_scope_of_inactive hs,Run.andThen_output] at h ⊢
          obtain ⟨hbody,hrest⟩ := (Output.append_complete_iff _ _).mp h
          rw [ihb hbody,ihr hrest]
      | true =>
          cases hd : site.description.fault with
          | some f =>
              rw [run_scope_of_fault hs hd] at h
              cases h
          | none =>
              rw [run_scope_of_complete hs hd,Run.andThen_output,within_run] at h ⊢
              obtain ⟨hbody,hrest⟩ := (Output.append_complete_iff _ _).mp h
              rw [ihb hbody,ihr hrest]

/-- A regular script that comes to no fault comes to none in any run. -/
theorem run_complete {r : Script} (h : r.Regular) (hr : r.output.fault = none) (s : State) :
    (r.run s).output.fault = none := by
  induction h generalizing s with
  | done => rfl
  | fail f => exact hr
  | remark _ _ ih => exact ih hr s
  | token _ _ ih => exact ih hr s
  | surround b _ _ ihb ihr =>
      rw [output,output_append] at hr
      obtain ⟨hbody,hrest⟩ := (Output.append_complete_iff _ _).mp hr
      rw [run,run_append,Run.andThen_output]
      exact (Output.append_complete_iff _ _).mpr ⟨ihb hbody s,ihr hrest _⟩
  | scope site hd _ _ ihb ihr =>
      rw [output,Output.append_complete_iff] at hr
      obtain ⟨hbody,hrest⟩ := hr
      cases hs : s.active with
      | false =>
          rw [run_scope_of_inactive hs,Run.andThen_output]
          exact (Output.append_complete_iff _ _).mpr ⟨ihb hbody s,ihr hrest _⟩
      | true =>
          rw [run_scope_of_complete hs (hd hbody),Run.andThen_output,within_run]
          exact (Output.append_complete_iff _ _).mpr ⟨ihb hbody _,ihr hrest _⟩

namespace Run

theorem text_eq_ok_iff (r : Run) (t : Text) :
    r.text = .ok t ↔ r.output.fault = none ∧ Token.render r.output.items = t := by
  unfold text Output.toExcept
  cases r.output.fault with
  | none => exact ⟨fun h => ⟨rfl,Except.ok.inj h⟩,fun h => congrArg Except.ok h.2⟩
  | some f => exact ⟨nofun,nofun⟩

end Run

/-- The text printed in any state of tracing is the text displayed in any other. -/
theorem print_text_iff {r : Script} (h : r.Regular) (s s' : State) (t : Text) :
    (r.print s).text = .ok t ↔ (r.display s').text = .ok t := by
  rw [Run.text_eq_ok_iff,Run.text_eq_ok_iff,print_output,display_of_state]
  constructor
  · rintro ⟨hf,ht⟩
    have ho := run_output_of_complete hf
    rw [ho] at hf ht
    exact ⟨hf,ht⟩
  · rintro ⟨hf,ht⟩
    have hf' : (r.run (inside (some phaseName) s)).output.fault = none := run_complete h hf _
    rw [run_output_of_complete hf']
    exact ⟨hf,ht⟩

/-- Where its phase is not enabled, all that printing does is to write the output. -/
theorem print_of_disabled (r : Script) {s : State} (h : phaseName ∉ s.enabled) :
    r.print s = ⟨s,[],r.output⟩ := by
  have hinactive : (inside (some phaseName) s).active = false :=
    Bool.eq_false_iff.mpr fun hactive => h ((inside_active_iff s).mp hactive)
  have hrun := run_of_inactive r hinactive
  cases hf : r.output.fault with
  | none =>
      rw [print_of_complete (by rw [hrun]; exact hf),hrun,State.note,hinactive]
      rfl
  | some f =>
      rw [print_of_fault (by rw [hrun]; exact hf),hrun]

/-- Printing writes no record where its phase is not enabled. -/
theorem print_records_of_disabled (r : Script) {s : State} (h : phaseName ∉ s.enabled) :
    (r.print s).records = [] := by
  rw [print_of_disabled r h]

end Script

namespace Node

theorem print_of_hasPhase {n : Node} (h : n.hasPhase = true) (s : State) :
    n.print s = n.script.print s := by
  unfold Node.print
  rw [if_pos h]

theorem display_of_hasPhase {n : Node} (h : n.hasPhase = true) (hn : n ≠ .expr .missing)
    (s : State) : n.display s = (n.script.display s).text := by
  cases n with
  | ty t => rfl
  | path p => rfl
  | qpath p => rfl
  | expr e =>
      cases e with
      | missing => exact absurd rfl hn
      | _ => rfl
  | lifetime _ | segment _ | args _ | arg _ | bound _ => cases h

/-- A type, path or expression that is there at all prints the same text in all
states of tracing, or in none; leaves the state it is printed in as it was, in
either case; and writes to the trace only where the phase of printing is enabled. It
is displayed as the same text, without a trace. -/
theorem tracing_transparent (n : Node) (hn : n.hasPhase = true) (hm : n ≠ .expr .missing)
    (s s' : State) :
    (∀ t, (n.print s).text = .ok t ↔ (n.print s').text = .ok t) ∧
      (Script.phaseName ∉ s.enabled → (n.print s).records = []) ∧
      (n.print s).state = s ∧
      (∀ t, n.display s' = .ok t ↔ (n.print s).text = .ok t) ∧
      (n.script.display s').records = [] ∧
      (n.script.display s').state = s' := by
  have hr := n.script_regular
  rw [print_of_hasPhase hn,print_of_hasPhase hn,display_of_hasPhase hn hm]
  refine ⟨fun t => ?_,n.script.print_records_of_disabled,Script.print_state _ _,fun t => ?_,?_,?_⟩
  · exact (Script.print_text_iff hr s s' t).trans (Script.print_text_iff hr s' s' t).symm
  · exact (Script.print_text_iff hr s s' t).symm
  · rw [Script.display_of_state]
  · exact Script.display_state _ _

/-- Printing `<()>` while the phase of printing is disabled, and displaying it. -/
theorem tracing_transparent_unit :
    (qpath (.ofType (.unit none) [])).hasPhase = true ∧
      qpath (.ofType (.unit none) []) ≠ .expr .missing ∧
      Script.phaseName ∉ State.fresh.enabled ∧
      ((qpath (.ofType (.unit none) [])).print .fresh).records = [] ∧
      (qpath (.ofType (.unit none) [])).display (State.fresh.enable Script.phaseName) =
        .ok "<()>" := by
  have hphase : (qpath (.ofType (.unit none) [])).hasPhase = true := rfl
  have hthere : qpath (.ofType (.unit none) []) ≠ .expr .missing := nofun
  have hdisabled : Script.phaseName ∉ State.fresh.enabled := List.not_mem_nil
  have hprinted : ((qpath (.ofType (.unit none) [])).print .fresh).text = .ok "<()>" :=
    (Script.Run.text_eq_ok_iff _ _).mpr (by decide)
  have h := tracing_transparent _ hphase hthere .fresh (State.fresh.enable Script.phaseName)
  exact ⟨hphase,hthere,hdisabled,h.2.1 hdisabled,(h.2.2.2.1 _).mpr hprinted⟩

end Node

end Turbofish
