import Turbofish.Proofs.Tracing.Entries

/-!
# Traces are well nested

The entries and exits of a trace are a word of brackets: each exit belongs to the last entry
that is still open, and has its name and its indentation. What is written in between is
indented by one level for each open entry. That is so wherever a fault ends the run, since
every scope that was entered is left again; an entry that the fault cut short was never
entered. Where there is no fault, every record is written to its end.
-/
namespace Turbofish

namespace Trace.Record

/-- A whole record of a phase: one line, which starts with the phase and an activity. -/
def IsLine (phase : Text) (r : Record) : Prop :=
  r.isWhole = true ∧ ∃ content, r.text = phase ++ Text.ofString "- " ++
    List.replicate r.heading.indent 0x20 ++ r.heading.label ++ Text.ofString ": " ++ content ++
      Text.ofString "\n"

theorem isLine_of_isWhole {r : Record} (h : r.isWhole = true) : r.IsLine r.heading.phase := by
  have hclose : Text.ofString ")\n" = Text.ofString ")" ++ Text.ofString "\n" := by decide
  refine ⟨h,?_⟩
  cases r with
  | entry h d =>
      cases d with
      | none =>
          have hmark : Text.ofString ">>\n" = Text.ofString ">>" ++ Text.ofString "\n" := by decide
          refine ⟨Text.ofString ">>",?_⟩
          simp only [text,heading,Heading.text,hmark,List.append_assoc]
      | some d =>
          refine ⟨Text.ofString ">> (" ++ d ++ Text.ofString ")",?_⟩
          simp only [text,heading,Heading.text,hclose,List.append_assoc]
  | leave h result =>
      refine ⟨Text.ofString "<< (" ++ result ++ Text.ofString ")",?_⟩
      simp only [text,heading,Heading.text,hclose,List.append_assoc]
  | note h t => exact ⟨t,rfl⟩
  | cutEntry h d => cases h

/-! ## Words of entries and exits -/

/-- The headings of the entries that are open behind a record, innermost first, where those
in front of it are given. An exit has the heading of the innermost open entry. Every other
record is indented by one level for each open entry, beyond the indentation of the whole. -/
def openBehind (indent : Nat) (opened : List Heading) : Record → Option (List Heading)
  | entry h _ => if h.indent = indent + opened.length then some (h :: opened) else none
  | cutEntry h _ | note h _ => if h.indent = indent + opened.length then some opened else none
  | leave h _ =>
    match opened with
    | [] => none
    | innermost :: outer => if h = innermost then some outer else none

/-- The entries that are open behind a list of records. -/
def openAfter (indent : Nat) (opened : List Heading) (rs : List Record) : Option (List Heading) :=
  rs.foldlM (openBehind indent) opened

/-- Records that close all entries that they open, and no other one. -/
def Closed (indent : Nat) (opened : List Heading) (rs : List Record) : Prop :=
  openAfter indent opened rs = some opened

/-- Closed records with nothing open around them. -/
abbrev WellNested (indent : Nat) (rs : List Record) : Prop := Closed indent [] rs

section

variable {indent : Nat} {opened : List Heading} {rs rs' : List Record} {h : Heading}

theorem openAfter_append (indent : Nat) (opened : List Heading) (rs rs' : List Record) :
    openAfter indent opened (rs ++ rs') =
      (openAfter indent opened rs).bind fun o => openAfter indent o rs' :=
  List.foldlM_append

theorem openAfter_singleton (indent : Nat) (opened : List Heading) (r : Record) :
    openAfter indent opened [r] = openBehind indent opened r := by
  unfold openAfter
  rw [List.foldlM_cons]
  exact bind_pure _

theorem Closed.nil : Closed indent opened [] := rfl

theorem Closed.append (hrs : Closed indent opened rs) (hrs' : Closed indent opened rs') :
    Closed indent opened (rs ++ rs') := by
  unfold Closed at hrs ⊢
  rw [openAfter_append,hrs]
  exact hrs'

theorem Closed.note (hindent : h.indent = indent + opened.length) (text : Text) :
    Closed indent opened [note h text] := by
  unfold Closed
  rw [openAfter_singleton]
  exact if_pos hindent

theorem Closed.cutEntry (hindent : h.indent = indent + opened.length) (description : Text) :
    Closed indent opened [cutEntry h description] := by
  unfold Closed
  rw [openAfter_singleton]
  exact if_pos hindent

/-- An entry and its exit around closed records. -/
theorem Closed.nest (hindent : h.indent = indent + opened.length)
    (hrs : Closed indent (h :: opened) rs) (description : Option Text) (result : Text) :
    Closed indent opened ([entry h description] ++ rs ++ [leave h result]) := by
  have hentry : openBehind indent opened (entry h description) = some (h :: opened) :=
    if_pos hindent
  have hleave : openBehind indent (h :: opened) (leave h result) = some opened := if_pos rfl
  unfold Closed at hrs ⊢
  rw [openAfter_append,openAfter_append,openAfter_singleton,hentry,Option.bind_some,hrs,
    Option.bind_some,openAfter_singleton,hleave]

end

end Trace.Record

open Trace

/-! ## Runs -/

namespace Script

open Record (Closed)

theorem Run.andThen_closed {first : Run} {second : State → Run} {indent : Nat}
    {opened : List Heading} (h : Closed indent opened first.records)
    (h' : Closed indent opened (second first.state).records) :
    Closed indent opened (first.andThen second).records := by
  cases hf : first.output.fault with
  | none =>
      rw [andThen_of_complete hf]
      exact h.append h'
  | some f =>
      rw [andThen_of_fault hf]
      exact h

theorem closed_note {s : State} {indent : Nat} {opened : List Heading}
    (hindent : s.indent = indent + opened.length) (label text : Text) :
    Closed indent opened (s.note label text) := by
  rw [State.note]
  split
  · exact .note hindent text
  · exact .nil

/-- A run closes the entries that it opens, whether it ends with a fault or not. -/
theorem run_closed (r : Script) {s : State} (hs : s.active = true) {indent : Nat}
    {opened : List Heading} (hindent : s.indent = indent + opened.length) :
    Closed indent opened (r.run s).records := by
  induction r generalizing s opened with
  | done => exact .nil
  | fail f => exact closed_note hindent _ _
  | token t r ih => exact ih hs hindent
  | remark m r ih => exact (closed_note hindent _ _).append (ih hs hindent)
  | scope site b r ihb ihr =>
      cases hd : site.description.fault with
      | some f =>
          rw [run_scope_of_fault hs hd]
          exact .cutEntry hindent _
      | none =>
          have hdeeper : s.indented.indent =
              indent + (s.heading site.label :: opened).length := by
            rw [List.length_cons,← Nat.add_assoc,← hindent]
            rfl
          have hinner := ihb (s := s.indented) hs hdeeper
          rw [run_scope_of_complete hs hd,within_run,State.entry,State.leave,if_pos hs,if_pos hs]
          exact Run.andThen_closed (.nest hindent hinner _ _) (ihr hs hindent)

/-! ## Records cut short -/

/-- Records of one phase, of which one is cut short only where the run comes to a fault. -/
def Run.Recorded (phase : Text) (r : Run) : Prop :=
  ∀ record ∈ r.records, record.heading.phase = phase ∧
    (r.output.fault = none → record.isWhole = true)

namespace Run.Recorded

variable {phase : Text}

theorem andThen {first : Run} {second : State → Run} (h : first.Recorded phase)
    (h' : (second first.state).Recorded phase) : (first.andThen second).Recorded phase := by
  cases hf : first.output.fault with
  | some f =>
      rw [andThen_of_fault hf]
      exact h
  | none =>
      rw [andThen_of_complete hf]
      refine List.forall_mem_append.mpr ⟨fun record hr => ?_,fun record hr => ?_⟩
      · exact ⟨(h record hr).1,fun _ => (h record hr).2 hf⟩
      · exact ⟨(h' record hr).1,fun hc =>
          (h' record hr).2 ((Output.append_complete_iff _ _).mp hc).2⟩

theorem within {b : Script} {s : State} (h : (b.run s.indented).Recorded s.phase)
    (label description : Text) : (Run.within s label description b.run).Recorded s.phase := by
  rw [within_run]
  refine List.forall_mem_append.mpr ⟨List.forall_mem_append.mpr ⟨fun record hr => ?_,h⟩,
    fun record hr => ?_⟩
  · rw [State.mem_entry hr]
    exact ⟨rfl,fun _ => rfl⟩
  · rw [State.mem_leave hr]
    exact ⟨rfl,fun _ => rfl⟩

end Run.Recorded

theorem note_recorded (s : State) (label text : Text) : ∀ record ∈ s.note label text,
    record.heading.phase = s.phase ∧ record.isWhole = true := by
  intro record h
  rw [State.mem_note h]
  exact ⟨rfl,rfl⟩

theorem run_recorded (r : Script) (s : State) : (r.run s).Recorded s.phase := by
  induction r generalizing s with
  | done => exact List.forall_mem_nil _
  | fail f => exact fun record h => ⟨(note_recorded s _ _ record h).1,nofun⟩
  | token t r ih => exact ih s
  | remark m r ih =>
      refine List.forall_mem_append.mpr ⟨fun record h => ?_,ih s⟩
      exact ⟨(note_recorded s _ _ record h).1,fun _ => (note_recorded s _ _ record h).2⟩
  | scope site b r ihb ihr =>
      cases hs : s.active with
      | false =>
          rw [run_scope_of_inactive hs]
          refine (ihb s).andThen ?_
          rw [run_state]
          exact ihr s
      | true =>
          cases hd : site.description.fault with
          | some f =>
              rw [run_scope_of_fault hs hd]
              exact List.forall_mem_singleton.mpr ⟨rfl,nofun⟩
          | none =>
              rw [run_scope_of_complete hs hd]
              refine (Run.Recorded.within (ihb s.indented) _ _).andThen ?_
              rw [within_run]
              exact ihr s

/-! ## Printing in a phase -/

/-- The records of printing in a phase of its own are those of a run and a note of the text. -/
theorem mem_print_records {r : Script} {s : State} {record : Record}
    (h : record ∈ (r.print s).records) :
    record ∈ (r.run (inside (some phaseName) s)).records ∨ ∃ label text,
      record ∈ (inside (some phaseName) s).note label text := by
  cases hf : (r.run (inside (some phaseName) s)).output.fault with
  | none =>
      rw [print_of_complete hf] at h
      exact (List.mem_append.mp h).imp_right fun h => ⟨_,_,h⟩
  | some f =>
      rw [print_of_fault hf] at h
      exact .inl h

end Script

namespace Node

open Script (phaseName inside)

/-- Where the phase of printing is enabled, the trace of printing a node is well nested from
the current indentation on, and so is that of printing that comes to a fault: what was entered
has been left. Without a fault no record is cut short, and the last one is a note of the text
that was printed. No record is written inside of another: each entry describes a scope of the
node, its description is what displaying the parts of that scope writes, up to a fault that
cuts the entry short, and displaying them writes no record. -/
theorem trace_nested {n : Node} (hn : n.hasPhase = true) {s : State}
    (hs : phaseName ∈ s.enabled) :
    Record.WellNested s.indent (n.print s).records ∧
      (∀ t, (n.print s).text = .ok t →
        (∀ record ∈ (n.print s).records, record.IsLine phaseName) ∧
          (n.print s).records.getLast? =
            some (.note ⟨phaseName,s.indent,"to_string"⟩ (Text.ofString "= " ++ t))) ∧
      ∀ record ∈ (n.print s).records, ∀ d, record.description? = some d →
        ∃ site ∈ n.script.sites, ∃ f, record.heading.label = site.label ∧
          (f = none ↔ record.isWhole = true) ∧ ∀ s', site.displayed s' = (⟨d,f⟩,[]) := by
  have hactive := (Script.inside_active_iff s).mpr hs
  have hclosed : Record.WellNested s.indent (n.script.run (inside (some phaseName) s)).records :=
    Script.run_closed n.script hactive rfl
  rw [print_of_hasPhase hn]
  refine ⟨?_,fun t ht => ?_,fun record hrecord d hd => ?_⟩
  · cases hf : (n.script.run (inside (some phaseName) s)).output.fault with
    | none =>
        rw [Script.print_of_complete hf]
        exact hclosed.append (Script.closed_note rfl _ _)
    | some f =>
        rw [Script.print_of_fault hf]
        exact hclosed
  · obtain ⟨hf,hrender⟩ := (Script.Run.text_eq_ok_iff _ _).mp ht
    rw [Script.print_output] at hf hrender
    rw [Script.print_of_complete hf,hrender,State.note,if_pos hactive]
    refine ⟨List.forall_mem_append.mpr ⟨fun record hr => ?_,?_⟩,List.getLast?_concat⟩
    · obtain ⟨hphase,hwhole⟩ := n.script.run_recorded (inside (some phaseName) s) record hr
      have hline := Record.isLine_of_isWhole (hwhole hf)
      rw [hphase] at hline
      exact hline
    · exact List.forall_mem_singleton.mpr ⟨rfl,_,rfl⟩
  · have hdescribed : record.DescribedBy n.script.sites := by
      rcases Script.mem_print_records hrecord with h | ⟨label,text,h⟩
      · exact n.script.run_described _ record h
      · exact .of_note h
    obtain ⟨site,hsite,hlabel,rfl,hwhole⟩ := hdescribed d hd
    exact ⟨site,hsite,site.description.fault,hlabel,hwhole,fun s' => site.displayed_eq s'⟩

/-- Printing `A<T: B>` two levels deep. The bound is displayed in the entry of `T: B`, which
has no record of the path `B` inside of it, and printed three levels further in. -/
theorem trace_nested_constraint :
    let bound := Bound.trait [] (.mk false [.mk "B" .none])
    let n := path (.mk false [.mk "A" (.angle false [.constraint "T" [bound]])])
    let s := { State.fresh.enable phaseName with indent := 2 }
    n.hasPhase = true ∧ phaseName ∈ s.enabled ∧
      (n.print s).records.map Record.heading =
        [⟨phaseName,2,"path"⟩,⟨phaseName,3,"angle_bracketed_generic_arguments"⟩,
          ⟨phaseName,4,"constraint"⟩,⟨phaseName,5,"path"⟩,⟨phaseName,5,"path"⟩,
          ⟨phaseName,4,"constraint"⟩,⟨phaseName,3,"angle_bracketed_generic_arguments"⟩,
          ⟨phaseName,2,"path"⟩,⟨phaseName,2,"to_string"⟩] ∧
      Record.WellNested 2 (n.print s).records ∧
      (n.print s).records.getLast? =
        some (.note ⟨phaseName,2,"to_string"⟩ (Text.ofString "= A<T: B>")) ∧
      Record.entry ⟨phaseName,4,"constraint"⟩ (some "T: B") ∈ (n.print s).records ∧
      ∃ site ∈ n.script.sites, site.label = "constraint" ∧
        ∀ s', site.displayed s' = (.ofList "T: B",[]) := by
  intro bound n s
  have hphase : n.hasPhase = true := rfl
  have henabled : phaseName ∈ s.enabled := by decide
  have hprinted : (n.print s).text = .ok "A<T: B>" :=
    (Script.Run.text_eq_ok_iff _ _).mpr (by decide)
  have hentry : Record.entry ⟨phaseName,4,"constraint"⟩ (some "T: B") ∈ (n.print s).records := by
    decide
  obtain ⟨hnested,htext,hentries⟩ := trace_nested hphase henabled
  obtain ⟨site,hsite,f,hlabel,hwhole,hdisplayed⟩ := hentries _ hentry "T: B" rfl
  cases hwhole.mpr rfl
  exact ⟨hphase,henabled,by decide,hnested,(htext _ hprinted).2,hentry,site,hsite,hlabel.symm,
    hdisplayed⟩

end Node

end Turbofish
