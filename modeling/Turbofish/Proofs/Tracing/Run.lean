import Turbofish.Printing.Node

/-!
# Running a script

A run ends in the state it began in, whether it ends with a fault or not: every
scope that was entered has been left. Where tracing is off, a run leaves no record
and its output is the output of the script.
-/
namespace Turbofish

/-! ## Single records -/

namespace Trace.State

variable {s : State} {record : Record} {label : Text}

theorem mem_note {text : Text} (h : record ∈ s.note label text) :
    record = .note (s.heading label) text :=
  List.mem_singleton.mp (List.mem_ite_nil_right.mp h).2

theorem mem_entry {description : Option Text} (h : record ∈ s.entry label description) :
    record = .entry (s.heading label) description :=
  List.mem_singleton.mp (List.mem_ite_nil_right.mp h).2

theorem mem_leave {result : Text} (h : record ∈ s.leave label result) :
    record = .leave (s.heading label) result :=
  List.mem_singleton.mp (List.mem_ite_nil_right.mp h).2

end Trace.State

namespace Script

open Trace

/-! ## Runs one after the other -/

namespace Run

theorem andThen_of_complete {first : Run} (h : first.output.fault = none)
    (second : State → Run) :
    first.andThen second = ⟨(second first.state).state,
      first.records ++ (second first.state).records,
      first.output ++ (second first.state).output⟩ := by
  unfold andThen
  rw [h]

theorem andThen_of_fault {first : Run} {f : Fault} (h : first.output.fault = some f)
    (second : State → Run) : first.andThen second = first := by
  unfold andThen
  rw [h]

theorem andThen_output (first : Run) (second : State → Run) :
    (first.andThen second).output = first.output ++ (second first.state).output := by
  cases h : first.output.fault with
  | none => rw [andThen_of_complete h]
  | some f => rw [andThen_of_fault h,Output.append_of_fault h]

theorem andThen_assoc (first : Run) (second third : State → Run) :
    (first.andThen second).andThen third = first.andThen fun s => (second s).andThen third := by
  cases h : first.output.fault with
  | some f => rw [andThen_of_fault h,andThen_of_fault h,andThen_of_fault h]
  | none =>
      rw [andThen_of_complete h,andThen_of_complete h]
      cases h' : (second first.state).output.fault with
      | some f =>
          have hf : (first.output ++ (second first.state).output).fault = some f := by
            rw [Output.append_of_complete h]; exact h'
          rw [andThen_of_fault h',andThen_of_fault hf]
      | none =>
          have hf : (first.output ++ (second first.state).output).fault = none :=
            (Output.append_complete_iff _ _).mpr ⟨h,h'⟩
          rw [andThen_of_complete h',andThen_of_complete hf]
          simp only [List.append_assoc,Output.append_assoc]

/-- What is put in front of a run stays in front of all that follows it. -/
theorem prepend_andThen (rs : List Record) (o : Output Token) (ho : o.fault = none) (first : Run)
    (second : State → Run) :
    Run.andThen ⟨first.state,rs ++ first.records,o ++ first.output⟩ second =
      ⟨(first.andThen second).state,rs ++ (first.andThen second).records,
        o ++ (first.andThen second).output⟩ := by
  cases h : first.output.fault with
  | none =>
      have hf : (o ++ first.output).fault = none :=
        (Output.append_complete_iff _ _).mpr ⟨ho,h⟩
      rw [andThen_of_complete h,andThen_of_complete hf]
      simp only [List.append_assoc,Output.append_assoc]
  | some f =>
      have hf : (o ++ first.output).fault = some f := by
        rw [Output.append_of_complete ho]; exact h
      rw [andThen_of_fault h,andThen_of_fault hf]

end Run

/-! ## The three ways to run a scope -/

section

variable {site : Site} {s : State}

theorem run_scope_of_inactive (h : s.active = false) (b r : Script) :
    (scope site b r).run s = (b.run s).andThen r.run := by
  rw [run,if_neg (by rw [h]; exact Bool.false_ne_true)]

/-- A fault in the description leaves the entry cut short and the scope not entered. -/
theorem run_scope_of_fault (h : s.active = true) {f : Fault}
    (hd : site.description.fault = some f) (b r : Script) :
    (scope site b r).run s =
      ⟨s,[.cutEntry (s.heading site.label) site.description.items],.fail f⟩ := by
  rw [run,if_pos h]
  cases hsite : site.description with
  | mk text fault =>
      rw [hsite] at hd
      cases hd
      rfl

theorem run_scope_of_complete (h : s.active = true) (hd : site.description.fault = none)
    (b r : Script) : (scope site b r).run s =
      (Run.within s site.label site.description.items b.run).andThen r.run := by
  rw [run,if_pos h]
  cases hsite : site.description with
  | mk text fault =>
      rw [hsite] at hd
      cases hd
      rfl

end

theorem run_append (r t : Script) (s : State) :
    (r ++ t).run s = (r.run s).andThen t.run := by
  induction r generalizing s with
  | done => rfl
  | fail f => rfl
  | token u r ih =>
      rw [token_append,run,run,ih]
      exact (Run.prepend_andThen [] (.ofList [u]) rfl _ _).symm
  | remark m r ih =>
      rw [remark_append,run,run,ih]
      exact (Run.prepend_andThen _ .nil rfl _ _).symm
  | scope site b r _ ih =>
      rw [scope_append]
      cases hs : s.active with
      | false =>
          rw [run_scope_of_inactive hs,run_scope_of_inactive hs,Run.andThen_assoc]
          exact congrArg _ (funext ih)
      | true =>
          cases hd : site.description.fault with
          | some f =>
              rw [run_scope_of_fault hs hd,run_scope_of_fault hs hd]
              rfl
          | none =>
              rw [run_scope_of_complete hs hd,run_scope_of_complete hs hd,Run.andThen_assoc]
              exact congrArg _ (funext ih)

/-! ## The state of a run -/

theorem Run.andThen_state {first : Run} {second : State → Run} {s : State}
    (h : first.state = s) (h' : (second s).state = s) : (first.andThen second).state = s := by
  cases hf : first.output.fault with
  | none => rw [andThen_of_complete hf,h]; exact h'
  | some f => rw [andThen_of_fault hf]; exact h

theorem Run.within_state {s : State} {body : State → Run} (h : (body s.indented).state = s.indented)
    (label description : Text) : (within s label description body).state = s := by
  change (body s.indented).state.outdented = s
  rw [h]
  exact State.outdented_indented s

/-- A run comes back to the state it began in. -/
@[simp] theorem run_state (r : Script) (s : State) : (r.run s).state = s := by
  induction r generalizing s with
  | done => rfl
  | fail f => rfl
  | token t r ih => exact ih s
  | remark m r ih => exact ih s
  | scope site b r hb hr =>
      cases hs : s.active with
      | false =>
          rw [run_scope_of_inactive hs]
          exact Run.andThen_state (hb s) (hr s)
      | true =>
          cases hd : site.description.fault with
          | some f => rw [run_scope_of_fault hs hd]
          | none =>
              rw [run_scope_of_complete hs hd]
              exact Run.andThen_state (Run.within_state (hb _) _ _) (hr s)

/-- The run of a scope that is entered. -/
theorem within_run (b : Script) (s : State) (label description : Text) :
    Run.within s label description b.run =
      ⟨s,s.entry label (some description) ++ (b.run s.indented).records ++ s.leave label [],
        (b.run s.indented).output⟩ := by
  have h : (b.run s.indented).state.outdented = s := by rw [run_state]; rfl
  unfold Run.within
  dsimp only
  rw [h]

/-! ## Runs without a trace -/

/-- Where tracing is off, all that a run does is to write the output of its script. -/
theorem run_of_inactive (r : Script) {s : State} (h : s.active = false) :
    r.run s = ⟨s,[],r.output⟩ := by
  have hnote : ∀ label text, s.note label text = [] := fun _ _ => by
    rw [State.note,h]; rfl
  induction r with
  | done => rfl
  | fail f => rw [run,State.faultNote,hnote]; rfl
  | token t r ih => rw [run,ih]; rfl
  | remark m r ih => rw [run,ih,hnote]; rfl
  | scope site b r hb hr =>
      rw [run_scope_of_inactive h,hb]
      cases hf : b.output.fault with
      | none => rw [Run.andThen_of_complete hf,hr]; rfl
      | some f => rw [Run.andThen_of_fault hf,output,Output.append_of_fault hf]

/-! ## Printing in a phase -/

/-- The state that printing in a phase of its own runs in. -/
def inside (phase : Option Text) (s : State) : State := (s.openPhase phase).2

theorem inside_active_iff (s : State) :
    (inside (some phaseName) s).active = true ↔ phaseName ∈ s.enabled := by
  change (!phaseName.isEmpty && s.enabled.contains phaseName) = true ↔ _
  rw [Bool.and_eq_true_iff,List.contains_iff_mem]
  exact and_iff_right (by decide)

section

variable {r : Script} {s : State}

/-- Without a fault, the records of printing end with a note of the text. -/
theorem print_of_complete (h : (r.run (inside (some phaseName) s)).output.fault = none) :
    r.print s = ⟨s,
      (r.run (inside (some phaseName) s)).records ++ (inside (some phaseName) s).note "to_string"
        (Text.ofString "= " ++ Token.render (r.run (inside (some phaseName) s)).output.items),
      (r.run (inside (some phaseName) s)).output⟩ := by
  unfold inside at h ⊢
  unfold print runIn
  dsimp only
  rw [h]
  dsimp only
  rw [run_state,State.closePhase_openPhase]

theorem print_of_fault {f : Fault}
    (h : (r.run (inside (some phaseName) s)).output.fault = some f) :
    r.print s = ⟨s,(r.run (inside (some phaseName) s)).records,
      (r.run (inside (some phaseName) s)).output⟩ := by
  unfold inside at h ⊢
  unfold print runIn
  dsimp only
  rw [h]
  dsimp only
  rw [run_state,State.closePhase_openPhase]

end

theorem print_output (r : Script) (s : State) :
    (r.print s).output = (r.run (inside (some phaseName) s)).output := by
  cases h : (r.run (inside (some phaseName) s)).output.fault with
  | none => rw [print_of_complete h]
  | some f => rw [print_of_fault h]

/-- Whether it ends with a fault or not, printing leaves the state as it was. -/
@[simp] theorem print_state (r : Script) (s : State) : (r.print s).state = s := by
  cases h : (r.run (inside (some phaseName) s)).output.fault with
  | none => rw [print_of_complete h]
  | some f => rw [print_of_fault h]

@[simp] theorem display_state (r : Script) (s : State) : (r.display s).state = s := by
  unfold display runIn
  dsimp only
  rw [run_state]
  exact State.closePhase_openPhase s _

/-- Tracing is suspended where a node is displayed. -/
theorem display_of_state (r : Script) (s : State) : r.display s = ⟨s,[],r.output⟩ := by
  have hrun : r.run (inside none s) = ⟨inside none s,[],r.output⟩ := run_of_inactive r rfl
  unfold display runIn
  dsimp only
  unfold inside at hrun
  rw [hrun]
  rfl

end Script

namespace Node

/-- In a phase of its own or in the current one, printing a node leaves the state as it was. -/
@[simp] theorem print_state (n : Node) (s : Trace.State) : (n.print s).state = s := by
  unfold Node.print
  split
  · exact n.script.print_state s
  · exact n.script.run_state s

end Node

end Turbofish
